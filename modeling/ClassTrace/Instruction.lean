import ClassTrace.Instruction.Arithmetic
import ClassTrace.Opcode

/-!
Instructions with their operands. An operation concerns the current frame alone; the other
instructions look at constants, the heap, the library or the frames below.
-/
namespace ClassTrace

/-- The families of loads, stores and returns. -/
inductive Family where
  | int
  | long
  | float
  | double
  | reference
deriving DecidableEq, Repr

inductive Operation where
  | nop
  | push (v : Value)
  | load (family : Family) (slot : Nat)
  | shuffle (shuffle : Shuffle)
  | intBinary (op : IntOp)
  | longBinary (op : IntOp)
  | floatBinary (op : FloatOp)
  | doubleBinary (op : FloatOp)
  | negInt
  | negLong
  | negFloat
  | negDouble
  | convert (conversion : Conversion)
  | compareLong
  | compareFloat (nanIsGreater : Bool)
  | compareDouble (nanIsGreater : Bool)
  | ifZero (condition : Condition) (offset : Int)
  | ifInts (condition : Condition) (offset : Int)
  | ifSame (same : Bool) (offset : Int)
  | ifNull (null : Bool) (offset : Int)
  | goto (offset : Int)
  | tableSwitch (fallback low high : Int32) (offsets : Array Int32)
  /-- `cut` is the address at which the list of pairs breaks off, if it does. -/
  | lookupSwitch (fallback : Int32) (pairs : List (Int32 × Int32)) (cut : Option Nat)
deriving DecidableEq

/-- What an array store does to the value before storing it. -/
inductive ElementStore where
  | plain (family : Family)
  | byte
  | char
  | short
deriving DecidableEq, Repr

inductive CallMode where
  | virtual
  | special
  | static
deriving DecidableEq, Repr

namespace CallMode

def opcode : CallMode → UInt8
  | .virtual => 0xB6
  | .special => 0xB7
  | .static => 0xB8

def isStatic : CallMode → Bool
  | .static => true
  | _ => false

end CallMode

/-- The forms of loading a constant: by a short index, by a long one, and of two slots. -/
inductive ConstantLoad where
  | short
  | long
  | wide
deriving DecidableEq, Repr

def ConstantLoad.opcode : ConstantLoad → UInt8
  | .short => 0x12
  | .long => 0x13
  | .wide => 0x14

inductive Instruction where
  | operate (op : Operation)
  | loadConstant (form : ConstantLoad) (index : UInt16)
  | store (family : Family) (slot : Nat)
  | increment (slot : Nat) (delta : Int32)
  | arrayLoad
  | arrayStore (store : ElementStore)
  | arrayLength
  | newArray (element : FieldType)
  | newObjectArray (index : UInt16)
  | getStatic (index : UInt16)
  | putStatic (index : UInt16)
  | getField (index : UInt16)
  | putField (index : UInt16)
  | new (index : UInt16)
  | invoke (mode : CallMode) (index : UInt16)
  | ret (family : Option Family)
deriving DecidableEq

end ClassTrace
