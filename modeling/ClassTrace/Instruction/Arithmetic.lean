import ClassTrace.Fault
import ClassTrace.Number.Remainder

/-!
Arithmetic of the instructions. Integers wrap at their width, quotients are truncated toward zero,
and a shift uses the low bits of its count. Conversions from floating point saturate.
-/
namespace ClassTrace

inductive IntOp where
  | add
  | sub
  | mul
  | div
  | rem
  | shl
  | shr
  | ushr
  | and
  | or
  | xor
deriving DecidableEq, Repr

namespace IntOp

def isShift : IntOp → Bool
  | .shl | .shr | .ushr => true
  | _ => false

def apply32 (op : IntOp) (a b : Int32) : Except Fault Int32 :=
  match op with
  | .add => .ok (a + b)
  | .sub => .ok (a - b)
  | .mul => .ok (a * b)
  | .div => if b = 0 then .error .divisionByZero else .ok (a / b)
  | .rem => if b = 0 then .error .divisionByZero else .ok (a % b)
  | .shl => .ok (a <<< (b &&& 0x1F))
  | .shr => .ok (a >>> (b &&& 0x1F))
  | .ushr => .ok (a.toUInt32 >>> (b &&& 0x1F).toUInt32).toInt32
  | .and => .ok (a &&& b)
  | .or => .ok (a ||| b)
  | .xor => .ok (a ^^^ b)

def apply64 (op : IntOp) (a b : Int64) : Except Fault Int64 :=
  match op with
  | .add => .ok (a + b)
  | .sub => .ok (a - b)
  | .mul => .ok (a * b)
  | .div => if b = 0 then .error .divisionByZero else .ok (a / b)
  | .rem => if b = 0 then .error .divisionByZero else .ok (a % b)
  | .shl => .ok (a <<< (b &&& 0x3F))
  | .shr => .ok (a >>> (b &&& 0x3F))
  | .ushr => .ok (a.toUInt64 >>> (b &&& 0x3F).toUInt64).toInt64
  | .and => .ok (a &&& b)
  | .or => .ok (a ||| b)
  | .xor => .ok (a ^^^ b)

end IntOp

inductive FloatOp where
  | add
  | sub
  | mul
  | div
  | rem
deriving DecidableEq, Repr

namespace FloatOp

/-- The remainder of singles is taken as doubles. -/
def apply32 (op : FloatOp) (a b : Float32) : Float32 :=
  match op with
  | .add => a + b
  | .sub => a - b
  | .mul => a * b
  | .div => a / b
  | .rem => (Binary.remainder a.toFloat b.toFloat).toFloat32

def apply64 (op : FloatOp) (a b : Float) : Float :=
  match op with
  | .add => a + b
  | .sub => a - b
  | .mul => a * b
  | .div => a / b
  | .rem => Binary.remainder a b

end FloatOp

namespace Binary

/-- The whole part of a double, cut off at the ends of a range; a NaN is zero. -/
def clamp (low high : Int) (x : Float) : Int :=
  match readDouble x with
  | .nan => 0
  | .infinite negative => if negative then low else high
  | .finite number => max low (min high number.truncate)

def toInt32 (x : Float) : Int32 := Int32.ofInt (clamp (-2147483648) 2147483647 x)

def toInt64 (x : Float) : Int64 :=
  Int64.ofInt (clamp (-9223372036854775808) 9223372036854775807 x)

end Binary

inductive Conversion where
  | intToLong
  | intToFloat
  | intToDouble
  | longToInt
  | longToFloat
  | longToDouble
  | floatToInt
  | floatToLong
  | floatToDouble
  | doubleToInt
  | doubleToLong
  | doubleToFloat
  | intToByte
  | intToChar
  | intToShort
deriving DecidableEq, Repr

def toByte (v : Int32) : Int32 := v.toInt8.toInt32

def toChar (v : Int32) : Int32 := v &&& 0xFFFF

def toShort (v : Int32) : Int32 := v.toInt16.toInt32

def compareLong (a b : Int64) : Int32 := if b < a then 1 else if a < b then -1 else 0

/-- A NaN compares as greater or as less than every number, as asked. -/
def compareDouble (nanIsGreater : Bool) (a b : Float) : Int32 :=
  if a.isNaN || b.isNaN then if nanIsGreater then 1 else -1
  else if b < a then 1 else if a < b then -1 else 0

inductive Condition where
  | eq
  | ne
  | lt
  | ge
  | gt
  | le
deriving DecidableEq, Repr

namespace Condition

def holds (c : Condition) (a b : Int32) : Bool :=
  match c with
  | .eq => a == b
  | .ne => a != b
  | .lt => a < b
  | .ge => b ≤ a
  | .gt => b < a
  | .le => a ≤ b

/-- Comparisons with zero of an older interpreter: `ge` and `le` change places. -/
def legacy : Condition → Condition
  | .ge => .le
  | .le => .ge
  | c => c

end Condition

end ClassTrace
