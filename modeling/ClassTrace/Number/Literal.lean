import ClassTrace.Text.Bytes

/-!
Reading whole numbers of 64 bits: in decimal, or in the base that the number's own start names,
when underscores may also stand between digits.
-/
namespace ClassTrace.Literal

inductive Problem where
  | invalid
  | range
deriving DecidableEq, Repr

def Problem.text : Problem → Bytes
  | .invalid => "invalid syntax"
  | .range => "value out of range"

def lower (b : UInt8) : UInt8 := if 'A'.toUInt8 ≤ b && b ≤ 'Z'.toUInt8 then b + 32 else b

def digit? (b : UInt8) : Option Nat :=
  let b := lower b
  if '0'.toUInt8 ≤ b && b ≤ '9'.toUInt8 then some (b.toNat - '0'.toNat)
  else if 'a'.toUInt8 ≤ b && b ≤ 'z'.toUInt8 then some (b.toNat - 'a'.toNat + 10)
  else none

def underscore : UInt8 := '_'.toUInt8

/-- The number that digits continue `n` to. It must stay below 2 ^ 64 all along. -/
def digits (base : Nat) (separated : Bool) : Nat → Bytes → Except Problem Nat
  | n, [] => .ok n
  | n, b :: rest =>
    if separated && b = underscore then digits base separated n rest
    else match digit? b with
      | none => .error .invalid
      | some d =>
        if base ≤ d then .error .invalid
        else if 0x10000000000000000 ≤ n * base + d then .error .range
        else digits base separated (n * base + d) rest

/-- What came before a place in a literal. -/
inductive Before where
  | start
  | digit
  | underscore
  | other
deriving DecidableEq

/-- Whether each underscore stands between two digits; a base mark counts as one. -/
def separatorsFit (hex : Bool) : Before → Bytes → Bool
  | before, [] => before ≠ .underscore
  | before, b :: rest =>
    let isDigit := match digit? b with
      | some d => d < 10 || (hex && d < 16)
      | none => false
    if isDigit then separatorsFit hex .digit rest
    else if b = underscore then before = .digit && separatorsFit hex .underscore rest
    else before ≠ .underscore && separatorsFit hex .other rest

def mark? : Bytes → Option (Nat × Bytes)
  | z :: m :: rest =>
    if z ≠ '0'.toUInt8 then none
    else if lower m = 'b'.toUInt8 then some (2, rest)
    else if lower m = 'o'.toUInt8 then some (8, rest)
    else if lower m = 'x'.toUInt8 then some (16, rest)
    else none
  | _ => none

/-- A number without a sign, whose base its start names: after a bare zero it is eight. -/
def marked (text : Bytes) : Except Problem Nat :=
  let value := match mark? text with
    | some (base, d :: rest) => digits base true 0 (d :: rest)
    | _ => match text with
      | [] => .error .invalid
      | b :: rest => if b = '0'.toUInt8 then digits 8 true 0 rest else digits 10 true 0 text
  let fits := match mark? text with
    | some (base, rest) => separatorsFit (base = 16) .digit rest
    | none => separatorsFit false .start text
  match value with
  | .ok n => if text.contains underscore && !fits then .error .invalid else .ok n
  | .error e => .error e

def plain (text : Bytes) : Except Problem Nat :=
  if text.isEmpty then .error .invalid else digits 10 false 0 text

def signed (magnitude : Bytes → Except Problem Nat) (text : Bytes) : Except Problem Int :=
  let (negative, rest) : Bool × Bytes := match text with
    | b :: rest =>
      if b = '-'.toUInt8 then (true, rest) else if b = '+'.toUInt8 then (false, rest)
      else (false, text)
    | [] => (false, [])
  match magnitude rest with
  | .error e => .error e
  | .ok n =>
    if negative then if 0x8000000000000000 < n then .error .range else .ok (-n)
    else if 0x8000000000000000 ≤ n then .error .range else .ok n

def decimal (text : Bytes) : Except Problem Int := signed plain text

def anyBase (text : Bytes) : Except Problem Int := signed marked text

end ClassTrace.Literal
