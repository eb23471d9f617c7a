import ClassTrace.Text.Bytes

/-!
Times as log records show them: date and time of day in UTC. Years are counted from the first of
March of year 0, so that a leap day is the last day of its year.
-/
namespace ClassTrace.Clock

def date (days : Nat) : Nat × Nat × Nat :=
  let day := days + 719468
  let era := day / 146097
  let inEra := day % 146097
  let year := (inEra - inEra / 1460 + inEra / 36524 - inEra / 146096) / 365
  let inYear := inEra - (365 * year + year / 4 - year / 100)
  let month := (5 * inYear + 2) / 153
  let calendarMonth := if month < 10 then month + 3 else month - 9
  (400 * era + year + (if calendarMonth ≤ 2 then 1 else 0), calendarMonth,
    inYear - (153 * month + 2) / 5 + 1)

def padded (width n : Nat) : Bytes :=
  let digits := Bytes.decimal n
  List.replicate (width - digits.length) '0'.toUInt8 ++ digits

def text (seconds : Nat) : Bytes :=
  let (year, month, day) := date (seconds / 86400)
  let time := seconds % 86400
  padded 4 year ++ "-" ++ padded 2 month ++ "-" ++ padded 2 day ++ "T" ++
    padded 2 (time / 3600) ++ ":" ++
    padded 2 (time / 60 % 60) ++ ":" ++ padded 2 (time % 60) ++ "Z"

end ClassTrace.Clock
