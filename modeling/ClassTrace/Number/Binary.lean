/-!
Binary floating point numbers as exact numbers. A finite one is a whole number times a power of
two, read off its bits; the formats are told apart by the widths of their fraction and exponent.
-/
namespace ClassTrace.Binary

structure Layout where
  fraction : Nat
  exponent : Nat

def half : Layout := ⟨10, 5⟩

def single : Layout := ⟨23, 8⟩

def double : Layout := ⟨52, 11⟩

namespace Layout

def maxExponent (l : Layout) : Nat := Nat.pow 2 l.exponent - 1

/-- The power of two that the last bit of the smallest numbers stands for. -/
def least (l : Layout) : Int := 2 - Nat.pow 2 (l.exponent - 1) - l.fraction

end Layout

/-- The number `mantissa * 2 ^ power`, negated if `negative`. -/
structure Scaled where
  negative : Bool
  mantissa : Nat
  power : Int
deriving DecidableEq, Repr

inductive Reading where
  | nan
  | infinite (negative : Bool)
  | finite (number : Scaled)
deriving DecidableEq, Repr

def read (l : Layout) (bits : Nat) : Reading :=
  let fraction := bits % Nat.pow 2 l.fraction
  let exponent := bits / Nat.pow 2 l.fraction % Nat.pow 2 l.exponent
  let negative := bits / Nat.pow 2 (l.fraction + l.exponent) % 2 = 1
  if exponent = l.maxExponent then
    if fraction = 0 then .infinite negative else .nan
  else if exponent = 0 then .finite ⟨negative, fraction, l.least⟩
  else .finite ⟨negative, Nat.pow 2 l.fraction + fraction, l.least + exponent - 1⟩

def readDouble (x : Float) : Reading := read double x.toBits.toNat

def readSingle (x : Float32) : Reading := read single x.toBits.toNat

/-- The double with the value of a scaled number that has one. -/
def toDouble (s : Scaled) : Float :=
  let sign : Nat := if s.negative then 0x8000000000000000 else 0
  let bits : Nat :=
    if s.mantissa = 0 then 0
    else
      let top := s.power + s.mantissa.log2
      if top < -1022 then s.mantissa * Nat.pow 2 (s.power + 1074).toNat
      else
        let mantissa :=
          if s.mantissa.log2 ≤ 52 then s.mantissa * Nat.pow 2 (52 - s.mantissa.log2)
          else s.mantissa / Nat.pow 2 (s.mantissa.log2 - 52)
        (top + 1022).toNat * 0x10000000000000 + mantissa
  Float.ofBits (sign + bits).toUInt64

/-- The double with the value that the bits of another layout stand for. -/
def widen (l : Layout) (bits : Nat) : Float :=
  match read l bits with
  | .nan => 0.0 / 0.0
  | .infinite negative => if negative then -1.0 / 0.0 else 1.0 / 0.0
  | .finite number => toDouble number

namespace Scaled

def truncate (s : Scaled) : Int :=
  let size : Nat :=
    if 0 ≤ s.power then s.mantissa * Nat.pow 2 s.power.toNat
    else s.mantissa / Nat.pow 2 (-s.power).toNat
  if s.negative then -(size : Int) else size

def isWhole (s : Scaled) : Bool :=
  0 ≤ s.power || s.mantissa % Nat.pow 2 (-s.power).toNat == 0

end Scaled

end ClassTrace.Binary
