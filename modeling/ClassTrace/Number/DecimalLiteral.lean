import ClassTrace.Number.Decimal
import ClassTrace.Number.Literal

/-!
Reading doubles in decimal: a sign, digits with a point among them or none, and an exponent.
-/
namespace ClassTrace.Literal

def isDecimalDigit (b : UInt8) : Bool := '0'.toUInt8 ≤ b && b ≤ '9'.toUInt8

def takeSign : Bytes → Bool × Bytes
  | [] => (false, [])
  | b :: rest =>
    if b = '-'.toUInt8 then (true, rest) else if b = '+'.toUInt8 then (false, rest)
    else (false, b :: rest)

def exponent? : Bytes → Option Int
  | [] => some 0
  | b :: rest =>
    let (negative, digits) := takeSign rest
    if lower b ≠ 'e'.toUInt8 || digits.isEmpty || !digits.all isDecimalDigit then none
    else
      let n : Int := digits.foldl (fun n d => n * 10 + (d.toNat - '0'.toNat)) 0
      some (if negative then -n else n)

def takeFraction : Bytes → Bytes × Bytes
  | [] => ([], [])
  | b :: rest =>
    if b = '.'.toUInt8 then (rest.takeWhile isDecimalDigit, rest.dropWhile isDecimalDigit)
    else ([], b :: rest)

def double? (text : Bytes) : Option Float :=
  let (negative, unsigned) := takeSign text
  let whole := unsigned.takeWhile isDecimalDigit
  let (fraction, rest) := takeFraction (unsigned.dropWhile isDecimalDigit)
  if whole.isEmpty && fraction.isEmpty then none
  else match exponent? rest with
    | none => none
    | some e =>
      let mantissa := (whole ++ fraction).foldl (fun n d => n * 10 + (d.toNat - '0'.toNat)) 0
      Binary.ofDecimal? negative mantissa (e - fraction.length)

/-- As `double?`, with underscores allowed between digits. -/
def separatedDouble? (text : Bytes) : Option Float :=
  if separatorsFit false .start (takeSign text).2 then
    double? (text.filter (· ≠ underscore)) else none

end ClassTrace.Literal
