import ClassTrace.Frame.Shuffle
import ClassTrace.Instruction

/-!
Running the operations, which concern the current frame alone.
-/
namespace ClassTrace

namespace Family

def kind : Family → Kind
  | .int => .int
  | .long => .long
  | .float => .float
  | .double => .double
  | .reference => .reference

def pop : Family → StackM Value
  | .int => return .int (← Stack.popInt)
  | .long => return .long (← Stack.popLong)
  | .float => return .float (← Stack.popFloat)
  | .double => return .double (← Stack.popDouble)
  | .reference => Stack.popReference

end Family

namespace Frame

def load (family : Family) (slot : Nat) : FrameM Unit := do
  let v ← getLocal slot
  if family = .reference then
    if !v.isReference then throw (.notReferenceLocal v.kind slot)
  else if v.kind ≠ family.kind then throw (.wrongLocal family.kind v.kind slot)
  push v

def convert : Conversion → FrameM Unit
  | .intToLong => do push (.long (← popInt).toInt64)
  | .intToFloat => do push (.float (← popInt).toFloat32)
  | .intToDouble => do push (.double (← popInt).toFloat)
  | .longToInt => do push (.int (← popLong).toInt32)
  | .longToFloat => do push (.float (← popLong).toFloat32)
  | .longToDouble => do push (.double (← popLong).toFloat)
  | .floatToInt => do push (.int (Binary.toInt32 (← popFloat).toFloat))
  | .floatToLong => do push (.long (Binary.toInt64 (← popFloat).toFloat))
  | .floatToDouble => do push (.double (← popFloat).toFloat)
  | .doubleToInt => do push (.int (Binary.toInt32 (← popDouble)))
  | .doubleToLong => do push (.long (Binary.toInt64 (← popDouble)))
  | .doubleToFloat => do push (.float (← popDouble).toFloat32)
  | .intToByte => do push (.int (toByte (← popInt)))
  | .intToChar => do push (.int (toChar (← popInt)))
  | .intToShort => do push (.int (toShort (← popInt)))

def intBinary (op : IntOp) : FrameM Unit := do
  let b ← popInt
  let a ← popInt
  match op.apply32 a b with
  | .ok r => push (.int r)
  | .error e => throw e

/-- The count of a shift is an int. -/
def longBinary (op : IntOp) : FrameM Unit := do
  let b ← if op.isShift then (·.toInt64) <$> popInt else popLong
  let a ← popLong
  match op.apply64 a b with
  | .ok r => push (.long r)
  | .error e => throw e

def floatBinary (op : FloatOp) : FrameM Unit := do
  let b ← popFloat
  let a ← popFloat
  push (.float (op.apply32 a b))

def doubleBinary (op : FloatOp) : FrameM Unit := do
  let b ← popDouble
  let a ← popDouble
  push (.double (op.apply64 a b))

def jumpIf (condition : Bool) (offset : Int) : FrameM Unit :=
  if condition then jump offset else pure ()

def tableSwitch (fallback low high : Int32) (offsets : Array Int32) : FrameM Unit := do
  let key ← popInt
  if low ≤ key ∧ key ≤ high then
    jump ((offsets[(key.toInt - low.toInt).toNat]?).getD fallback).toInt
  else jump fallback.toInt

/-- The last pair with the key decides. The key is taken before a break in the list is noticed. -/
def lookupSwitch (fallback : Int32) (pairs : List (Int32 × Int32)) (cut : Option Nat) :
    FrameM Unit := do
  let key ← popInt
  match cut with
  | some pc => throw (.cutOperand pc)
  | none =>
    match (pairs.filter (·.1 = key)).getLast? with
    | some (_, target) => jump target.toInt
    | none => jump fallback.toInt

end Frame

namespace Operation

open ClassTrace.Frame

/-- With `legacy`, comparisons with zero use the conditions of an older interpreter. -/
def run (legacy : Bool) : Operation → FrameM Unit
  | .nop => pure ()
  | .push v => Frame.push v
  | .load family slot => Frame.load family slot
  | .shuffle s => s.run
  | .intBinary op => Frame.intBinary op
  | .longBinary op => Frame.longBinary op
  | .floatBinary op => Frame.floatBinary op
  | .doubleBinary op => Frame.doubleBinary op
  | .negInt => do Frame.push (.int (-(← popInt)))
  | .negLong => do Frame.push (.long (-(← popLong)))
  | .negFloat => do Frame.push (.float (-(← popFloat)))
  | .negDouble => do Frame.push (.double (-(← popDouble)))
  | .convert c => Frame.convert c
  | .compareLong => do
    let b ← popLong
    let a ← popLong
    Frame.push (.int (ClassTrace.compareLong a b))
  | .compareFloat nanIsGreater => do
    let b ← popFloat
    let a ← popFloat
    Frame.push (.int (ClassTrace.compareDouble nanIsGreater a.toFloat b.toFloat))
  | .compareDouble nanIsGreater => do
    let b ← popDouble
    let a ← popDouble
    Frame.push (.int (ClassTrace.compareDouble nanIsGreater a b))
  | .ifZero condition offset => do
    let a ← popInt
    jumpIf ((if legacy then condition.legacy else condition).holds a 0) offset
  | .ifInts condition offset => do
    let b ← popInt
    let a ← popInt
    jumpIf (condition.holds a b) offset
  | .ifSame same offset => do
    let b ← popReference
    let a ← popReference
    jumpIf (a.same b == same) offset
  | .ifNull null offset => do
    let v ← popReference
    jumpIf (v.isNull == null) offset
  | .goto offset => jump offset
  | .tableSwitch fallback low high offsets => Frame.tableSwitch fallback low high offsets
  | .lookupSwitch fallback pairs cut => Frame.lookupSwitch fallback pairs cut

end Operation

end ClassTrace
