import ClassTrace.Number.Binary

/-!
The shortest decimal that reads back as a given binary number. A decimal reads back when it lies
in the interval of numbers that round to the binary one, ends included when the mantissa is even.
With each count of digits, beginning with one, the two neighbours of the number on that grid are
tried; the first count with a hit wins, and of two hits the nearer.
-/
namespace ClassTrace.Shortest

/-- The decimal `0.d₁d₂… * 10 ^ point`, where the digits are those of `digits`. -/
structure Decimal where
  digits : Nat
  count : Nat
  point : Int
deriving DecidableEq, Repr

/-- A positive number and its interval, in quarters of its last bit's worth. -/
structure Interval where
  low : Nat
  number : Nat
  high : Nat
  power : Int
  closed : Bool

/-- Numbers just above a power of two have a neighbour below at half the distance, save the
smallest. -/
def interval (l : Binary.Layout) (mantissa : Nat) (power : Int) : Interval :=
  let below := if mantissa = Nat.pow 2 l.fraction ∧ power ≠ l.least then 1 else 2
  ⟨4 * mantissa - below, 4 * mantissa, 4 * mantissa + 2, power - 2, mantissa % 2 == 0⟩

namespace Interval

/-- Factors `a` and `b` such that `c * 10 ^ k` compares with `x * 2 ^ power` as `c * a` with `x *
b`. -/
def factors (i : Interval) (k : Int) : Nat × Nat :=
  (Nat.pow 10 k.toNat * Nat.pow 2 (-i.power).toNat,
    Nat.pow 10 (-k).toNat * Nat.pow 2 i.power.toNat)

def holds (i : Interval) (k : Int) (c : Nat) : Bool :=
  let (a, b) := i.factors k
  if i.closed then i.low * b ≤ c * a && c * a ≤ i.high * b
  else i.low * b < c * a && c * a < i.high * b

def isBelow (i : Interval) (k : Int) : Bool :=
  let (a, b) := i.factors k
  i.number * b < a

/-- The least power of ten above the number. -/
def point (i : Interval) : Int :=
  let guess := ((i.number.log2 : Int) + i.power) * 30103 / 100000
  if i.isBelow guess then guess
  else if i.isBelow (guess + 1) then guess + 1
  else guess + 2

/-- The neighbour to take on the grid of `10 ^ k`, if one of the two reads back. -/
def candidate? (i : Interval) (k : Int) : Option Nat :=
  let (a, b) := i.factors k
  let down := i.number * b / a
  let remainder := i.number * b % a
  let up := down + 1
  match i.holds k down, i.holds k up with
  | true, true => some (if 2 * remainder < a then down else if a < 2 * remainder then up
      else if down % 2 = 0 then down else up)
  | true, false => some down
  | false, true => some up
  | false, false => none

def search (i : Interval) (point : Int) : (fuel count : Nat) → Decimal
  | 0, count =>
    ⟨i.number * (i.factors (point - count)).2 / (i.factors (point - count)).1, count, point⟩
  | fuel + 1, count =>
    match i.candidate? (point - count) with
    | some c => if c = Nat.pow 10 count then ⟨1, 1, point + 1⟩ else ⟨c, count, point⟩
    | none => i.search point fuel (count + 1)

end Interval

/-- Seventeen digits are enough for a double, and nine for a single. -/
def decimal (l : Binary.Layout) (mantissa : Nat) (power : Int) : Decimal :=
  let i := interval l mantissa power
  i.search i.point 17 1

end ClassTrace.Shortest
