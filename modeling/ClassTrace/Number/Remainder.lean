import ClassTrace.Number.Binary

/-!
The remainder of a division of doubles whose quotient is truncated to a whole number. It is exact,
and has the sign of the dividend.
-/
namespace ClassTrace.Binary

def Scaled.remainder (a b : Scaled) : Scaled :=
  let power := min a.power b.power
  let x := a.mantissa * Nat.pow 2 (a.power - power).toNat
  let y := b.mantissa * Nat.pow 2 (b.power - power).toNat
  ⟨a.negative, x % y, power⟩

/-- There is no remainder of a number that is not finite, or by zero. -/
def remainder (x y : Float) : Float :=
  match readDouble x, readDouble y with
  | .finite a, .finite b => if b.mantissa = 0 then 0.0 / 0.0 else toDouble (a.remainder b)
  | .finite _, .infinite _ => x
  | _, _ => 0.0 / 0.0

end ClassTrace.Binary
