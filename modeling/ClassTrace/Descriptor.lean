import ClassTrace.Text.Bytes

/-!
Type descriptors. A field type is a primitive, a named class or an array of a field type. A result
may also be void, and a descriptor is either a result type or a method signature. Each has an
encoded form and a spelling as in source text.
-/
namespace ClassTrace

inductive Primitive where
  | byte
  | char
  | double
  | float
  | int
  | long
  | short
  | boolean
deriving DecidableEq, Repr

inductive FieldType where
  | primitive (p : Primitive)
  | object (name : Bytes)
  | array (element : FieldType)
deriving DecidableEq, Repr

inductive ResultType where
  | void
  | value (type : FieldType)
deriving DecidableEq, Repr

structure Signature where
  params : List FieldType
  result : ResultType
deriving DecidableEq, Repr

inductive Descriptor where
  | plain (type : ResultType)
  | method (signature : Signature)
deriving DecidableEq, Repr

namespace Primitive

def letter : Primitive → UInt8
  | .byte => 'B'.toUInt8
  | .char => 'C'.toUInt8
  | .double => 'D'.toUInt8
  | .float => 'F'.toUInt8
  | .int => 'I'.toUInt8
  | .long => 'J'.toUInt8
  | .short => 'S'.toUInt8
  | .boolean => 'Z'.toUInt8

def all : List Primitive := [.byte, .char, .double, .float, .int, .long, .short, .boolean]

def ofLetter? (b : UInt8) : Option Primitive := all.find? fun p => p.letter == b

def spelling : Primitive → Bytes
  | .byte => "byte"
  | .char => "char"
  | .double => "double"
  | .float => "float"
  | .int => "int"
  | .long => "long"
  | .short => "short"
  | .boolean => "boolean"

def isWide : Primitive → Bool
  | .long | .double => true
  | _ => false

end Primitive

namespace FieldType

def encode : FieldType → Bytes
  | .primitive p => [p.letter]
  | .object name => "L" ++ name ++ ";"
  | .array element => "[" ++ element.encode

def spelling : FieldType → Bytes
  | .primitive p => p.spelling
  | .object name => name.dotted
  | .array element => element.spelling ++ "[]"

def slots : FieldType → Nat
  | .primitive p => if p.isWide then 2 else 1
  | _ => 1

end FieldType

namespace ResultType

def encode : ResultType → Bytes
  | .void => "V"
  | .value t => t.encode

def spelling : ResultType → Bytes
  | .void => "void"
  | .value t => t.spelling

def slots : ResultType → Nat
  | .void => 1
  | .value t => t.slots

end ResultType

namespace Signature

def encode (s : Signature) : Bytes :=
  "(" ++ s.params.flatMap FieldType.encode ++ ")" ++ s.result.encode

def spelling (s : Signature) : Bytes :=
  s.result.spelling ++ " (" ++ Bytes.join ", " (s.params.map FieldType.spelling) ++ ")"

def isVoid (s : Signature) : Bool := s.result = .void

def argSlots (s : Signature) : Nat := s.params.foldr (fun t n => t.slots + n) 0

/-- The first slot of each parameter, the parameters standing side by side from a given slot
on. -/
def slotsFrom : Nat → List FieldType → List Nat
  | _, [] => []
  | slot, t :: rest => slot :: slotsFrom (slot + t.slots) rest

end Signature

namespace Descriptor

def encode : Descriptor → Bytes
  | .plain t => t.encode
  | .method s => s.encode

def spelling : Descriptor → Bytes
  | .plain t => t.spelling
  | .method s => s.spelling

def slots : Descriptor → Nat
  | .plain t => t.slots
  | .method _ => 1

end Descriptor

end ClassTrace
