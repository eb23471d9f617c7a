import ClassTrace.Clock
import ClassTrace.Number.Literal

/-!
Dates and times as settings may have them: a year of four digits, a month and a day, perhaps with
a time of day and an offset from UTC. Numbers other than the year have one digit or two.
-/
namespace ClassTrace

/-- The offset from UTC is in minutes. -/
structure Timestamp where
  year : Nat
  month : Nat
  day : Nat
  hour : Nat := 0
  minute : Nat := 0
  second : Nat := 0
  nanosecond : Nat := 0
  offset : Int := 0
deriving DecidableEq, Repr

namespace Timestamp

def isDigit (b : UInt8) : Bool := '0'.toUInt8 ≤ b && b ≤ '9'.toUInt8

def digit (b : UInt8) : Nat := b.toNat - '0'.toNat

def number? : Bytes → Option (Nat × Bytes)
  | [] => none
  | a :: rest =>
    if !isDigit a then none
    else match rest with
      | [] => some (digit a, [])
      | b :: more =>
        if isDigit b then some (digit a * 10 + digit b, more) else some (digit a, rest)

def mark? (mark : Char) : Bytes → Option Bytes
  | [] => none
  | b :: rest => if b = mark.toUInt8 then some rest else none

def part? (mark : Char) (bound : Nat) (text : Bytes) : Option (Nat × Bytes) := do
  let (n, rest) ← number? (← mark? mark text)
  if n < bound then some (n, rest) else none

def isLeap (year : Nat) : Bool := year % 4 = 0 && (year % 100 ≠ 0 || year % 400 = 0)

def daysIn (year month : Nat) : Nat :=
  if month = 2 then if isLeap year then 29 else 28
  else if [4, 6, 9, 11].contains month then 30
  else 31

def date? (text : Bytes) : Option (Timestamp × Bytes) := do
  let digits := text.take 4
  if digits.length < 4 || !digits.all isDigit then none
  let year := digits.foldl (fun n b => n * 10 + digit b) 0
  let (month, rest) ← part? '-' 13 (text.drop 4)
  let (day, rest) ← part? '-' 32 rest
  if month = 0 || day = 0 || daysIn year month < day then none
  return ({ year, month, day }, rest)

/-- Nanoseconds after a point or a comma. Digits beyond the ninth do not count. -/
def fraction (text : Bytes) : Nat × Bytes :=
  match text with
  | p :: d :: rest =>
    if (p = '.'.toUInt8 || p = ','.toUInt8) && isDigit d then
      let digits := (d :: rest.takeWhile isDigit).take 9
      ((digits ++ List.replicate (9 - digits.length) '0'.toUInt8).foldl
        (fun n b => n * 10 + digit b) 0, rest.dropWhile isDigit)
    else (0, text)
  | _ => (0, text)

def time? (day : Timestamp) (text : Bytes) : Option (Timestamp × Bytes) := do
  let (hour, rest) ← number? text
  let (minute, rest) ← part? ':' 60 rest
  let (second, rest) ← part? ':' 60 rest
  let (nanosecond, rest) := fraction rest
  if hour < 24 then return ({ day with hour, minute, second, nanosecond }, rest) else none

/-- An offset, with a colon and always of two digits each, or the letter for none. -/
def offset? : Bytes → Option Int
  | [z] => if z = 'Z'.toUInt8 then some 0 else none
  | [s, a, b, colon, c, d] =>
    let hours := digit a * 10 + digit b
    let minutes := digit c * 10 + digit d
    if !([a, b, c, d].all isDigit) || colon ≠ ':'.toUInt8 || 24 < hours || 60 < minutes then none
    else if s = '+'.toUInt8 then some (hours * 60 + minutes)
    else if s = '-'.toUInt8 then some (-(hours * 60 + minutes))
    else none
  | _ => none

/-- The time that a whole text is. An offset is given after `T` or `t`, and not after blanks. -/
def parse? (text : Bytes) : Option Timestamp := do
  let (day, rest) ← date? text
  match rest with
  | [] => return day
  | b :: rest =>
    if b = 'T'.toUInt8 || b = 't'.toUInt8 then
      let (time, rest) ← time? day rest
      return { time with offset := ← offset? rest }
    else if b = ' '.toUInt8 then
      let (time, rest) ← time? day (rest.dropWhile (· = ' '.toUInt8))
      if rest.isEmpty then return time else none
    else none

def fractionText (nanosecond : Nat) : Bytes :=
  if nanosecond = 0 then []
  else "." ++ ((Clock.padded 9 nanosecond).reverse.dropWhile (· = '0'.toUInt8)).reverse

/-- The offset stands twice, except that UTC has a name. -/
def offsetText (offset : Int) : Bytes :=
  if offset = 0 then "+0000 UTC"
  else
    let sign : Bytes := if offset < 0 then "-" else "+"
    let zone := sign ++ Clock.padded 2 (offset.natAbs / 60) ++ Clock.padded 2 (offset.natAbs % 60)
    zone ++ " " ++ zone

def text (t : Timestamp) : Bytes :=
  Clock.padded 4 t.year ++ "-" ++ Clock.padded 2 t.month ++ "-" ++ Clock.padded 2 t.day ++ " " ++
    Clock.padded 2 t.hour ++ ":" ++ Clock.padded 2 t.minute ++ ":" ++ Clock.padded 2 t.second ++
    fractionText t.nanosecond ++ " " ++ offsetText t.offset

end Timestamp

end ClassTrace
