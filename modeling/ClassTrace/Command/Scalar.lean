import ClassTrace.Command.Flag
import ClassTrace.Number.FloatText
import ClassTrace.Timestamp

/-!
Values of settings, which may come as texts, numbers, truth values or times wherever they are set,
and are read as what the setting needs. What cannot be read counts as zero, as false or as an
empty text.
-/
namespace ClassTrace

/-- A list or a mapping is a value, of which nothing can be read. -/
inductive Scalar where
  | text (t : Bytes)
  | int (n : Int)
  | float (x : Float)
  | bool (b : Bool)
  | time (t : Timestamp)
  | compound
deriving DecidableEq

namespace Scalar

def ofFlag : FlagValue → Scalar
  | .text t => .text t
  | .int n => .int n
  | .bool b => .bool b

def toText : Scalar → Bytes
  | .text t => t
  | .int n => Bytes.decimal n
  | .float x => FloatText.writtenOut x
  | .bool b => if b then "true" else "false"
  | .time t => t.text
  | .compound => []

/-- What stands before a point in a text that is given from its end. Only zeros and points may
follow that point, and a zero must; `zero` tells whether one was seen. -/
def beforeZeros? : (zero : Bool) → Bytes → Option Bytes
  | _, [] => none
  | zero, b :: rest =>
    if b = '0'.toUInt8 then beforeZeros? true rest
    else if b ≠ '.'.toUInt8 then none
    else if zero then some rest
    else beforeZeros? zero rest

/-- The text without a fraction of zeros, and without points after it. -/
def dropZeroFraction (t : Bytes) : Bytes :=
  ((beforeZeros? false t.reverse).map List.reverse).getD t

def leastInt : Int := -0x8000000000000000

def wrapped (n : Int) : Int := if n < 0x8000000000000000 then n else n - 0x10000000000000000

/-- The whole part of a float; one that has none, or one of more than 64 bits, counts as the
least. -/
def wholePart (x : Float) : Int :=
  match Binary.readDouble x with
  | .finite number =>
    let n := number.truncate
    if leastInt ≤ n ∧ n < 0x8000000000000000 then n else leastInt
  | _ => leastInt

def toInt : Scalar → Int
  | .text t => match Literal.anyBase (dropZeroFraction t) with
    | .ok n => n
    | .error _ => 0
  | .int n => wrapped n
  | .float x => wholePart x
  | .bool b => if b then 1 else 0
  | .time _ | .compound => 0

def toBool : Scalar → Bool
  | .text t => (readBool? t).getD false
  | .int n => n ≠ 0
  | .float x => x != 0
  | .bool b => b
  | .time _ | .compound => false

end Scalar

end ClassTrace
