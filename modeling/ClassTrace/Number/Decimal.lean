import ClassTrace.Number.Binary

/-!
The double nearest to a decimal number, found in exact arithmetic; of two that are equally near
the one with the even mantissa is taken.
-/
namespace ClassTrace.Binary

/-- A number divided by a power of two, rounded to the nearest whole number, a tie to the even
one. -/
def shiftRounded (n shift : Nat) : Nat :=
  let quotient := n / Nat.pow 2 shift
  let twice := 2 * (n % Nat.pow 2 shift)
  if twice < Nat.pow 2 shift then quotient
  else if Nat.pow 2 shift < twice then quotient + 1
  else quotient + quotient % 2

/-- The nearest double, or none if the number is too large for one. -/
def nearest? (s : Scaled) : Option Float :=
  if s.mantissa = 0 then some (toDouble s)
  else
    let unit := max (s.power + s.mantissa.log2 - 52) (-1074)
    let mantissa :=
      if unit ≤ s.power then s.mantissa * Nat.pow 2 (s.power - unit).toNat
      else shiftRounded s.mantissa (unit - s.power).toNat
    if 1024 ≤ unit + mantissa.log2 then none else some (toDouble ⟨s.negative, mantissa, unit⟩)

/-- A scaled number on the same side of every tie as a quotient: more bits than a double has, and
one that is set if the division leaves a remainder. -/
def quotient (negative : Bool) (n d : Nat) : Scaled :=
  let shift := d.log2 + 70 - n.log2
  let sticky := if n * Nat.pow 2 shift % d = 0 then 0 else 1
  ⟨negative, 2 * (n * Nat.pow 2 shift / d) + sticky, -(shift : Int) - 1⟩

/-- The double nearest to `mantissa * 10 ^ exponent`. Numbers far beyond the range of doubles are
not worked out. -/
def ofDecimal? (negative : Bool) (mantissa : Nat) (exponent : Int) : Option Float :=
  let size := exponent + (Nat.toDigits 10 mantissa).length
  if mantissa = 0 ∨ size < -330 then nearest? ⟨negative, 0, 0⟩
  else if 310 < size then none
  else if 0 ≤ exponent then nearest? ⟨negative, mantissa * Nat.pow 10 exponent.toNat, 0⟩
  else nearest? (quotient negative mantissa (Nat.pow 10 (-exponent).toNat))

end ClassTrace.Binary
