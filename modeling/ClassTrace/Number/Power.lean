import ClassTrace.Number.Extremum

/-!
Powers of doubles. Whole exponents are worked off bit by bit on the significand and the exponent
of the base apart, so nothing overflows before the end; a fraction left over goes through the
logarithm.
-/
namespace ClassTrace.Power

open Extremum

def isOdd (y : Float) : Bool :=
  y.abs < 9007199254740992.0 && y.floor == y && (y / 2).floor != y / 2

/-- The significand and exponent of the result so far, and of the base to the power of two
reached. -/
structure State where
  result : Float
  resultExponent : Int
  base : Float
  baseExponent : Int

/-- One bit of the exponent. An exponent of the base this large decides the result alone. -/
def square (s : State) (bit : Bool) : State :=
  let s := if bit then
      { s with result := s.result * s.base, resultExponent := s.resultExponent + s.baseExponent }
    else s
  let base := s.base * s.base
  if base < 0.5 then { s with base := base + base, baseExponent := 2 * s.baseExponent - 1 }
  else { s with base, baseExponent := 2 * s.baseExponent }

def bits : (fuel n : Nat) → State → State
  | 0, _, s => s
  | fuel + 1, n, s =>
    if n = 0 then s
    else if s.baseExponent < -4096 ∨ 4096 < s.baseExponent then
      { s with resultExponent := s.resultExponent + s.baseExponent }
    else bits fuel (n / 2) (square s (n % 2 = 1))

def finite (x y : Float) : Float :=
  let whole := y.abs.floor
  let fraction := y.abs - whole
  if fraction != 0 && x < 0 then nan
  else if whole ≥ 9223372036854775808.0 then
    if x == -1 then 1 else if (x.abs < 1) == (y > 0) then 0 else infinity
  else
    let up := fraction > 0.5
    let rest := if up then fraction - 1 else fraction
    let start := if fraction != 0 then (rest * x.log).exp else 1
    let (base, exponent) := x.frExp
    let n := whole.toUInt64.toNat + if up then 1 else 0
    let s := bits 64 n ⟨start, 0, base, exponent⟩
    if y < 0 then (1 / s.result).scaleB (-s.resultExponent) else s.result.scaleB s.resultExponent

def ofZero (x y : Float) : Float :=
  if y < 0 then if isNegative x && isOdd y then -infinity else infinity
  else if isNegative x && isOdd y then x else 0

def power (x y : Float) : Float :=
  if y == 0 || x == 1 then 1
  else if y == 1 then x
  else if x.isNaN || y.isNaN then nan
  else if x == 0 then ofZero x y
  else if y.isInf then
    if x == -1 then 1 else if (x.abs < 1) == (y > 0) then 0 else infinity
  else if x == -infinity then ofZero (-0.0) (-y)
  else if x == infinity then if y < 0 then 0 else infinity
  else if y == 0.5 then x.sqrt
  else if y == -0.5 then 1 / x.sqrt
  else finite x y

end ClassTrace.Power
