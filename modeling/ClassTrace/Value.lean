import ClassTrace.Descriptor
import ClassTrace.Number.FloatText

/-!
Values, the unit that locals, operand stacks, fields and array elements hold. All integers up to
32 bits, booleans and characters travel as ints. Strings are constants and travel by value; every
other reference is a heap id. A value may also carry a tag that no instruction knows.
-/
namespace ClassTrace

inductive Kind where
  | null
  | int
  | long
  | float
  | double
  | string
  | reference
  | other (tag : UInt8)
deriving DecidableEq, Repr

inductive Value where
  | null
  | int (v : Int32)
  | long (v : Int64)
  | float (v : Float32)
  | double (v : Float)
  | string (s : Bytes)
  | ref (id : Int)
  | other (tag : UInt8)
deriving DecidableEq

def Kind.name : Kind → Bytes
  | .null => "null"
  | .int => "int"
  | .long => "long"
  | .float => "float"
  | .double => "double"
  | .string => "string"
  | .reference => "reference"
  | .other tag => "kind(" ++ Bytes.decimal tag.toNat ++ ")"

namespace Value

instance : Inhabited Value := ⟨.null⟩

def bool (b : Bool) : Value := .int (if b then 1 else 0)

def ofTag (tag : UInt8) : Value :=
  match tag.toNat with
  | 0 => .null
  | 1 => .int 0
  | 2 => .long 0
  | 3 => .float 0
  | 4 => .double 0
  | 5 => .string []
  | 6 => .ref 0
  | _ => .other tag

def kind : Value → Kind
  | .null => .null
  | .int _ => .int
  | .long _ => .long
  | .float _ => .float
  | .double _ => .double
  | .string _ => .string
  | .ref _ => .reference
  | .other tag => .other tag

def isNull : Value → Bool
  | .null => true
  | _ => false

def isReference : Value → Bool
  | .null | .string _ | .ref _ => true
  | _ => false

def isWide : Value → Bool
  | .long _ | .double _ => true
  | _ => false

def slots (v : Value) : Nat := if v.isWide then 2 else 1

/-- The integer a value carries: zero for kinds that carry none. -/
def payload : Value → Int
  | .int v => v.toInt
  | .long v => v.toInt
  | .ref id => id
  | _ => 0

def asInt (v : Value) : Int32 := Int32.ofInt v.payload

def asLong (v : Value) : Int64 := Int64.ofInt v.payload

def asDouble : Value → Float
  | .float v => v.toFloat
  | .double v => v
  | _ => 0

def asFloat : Value → Float32
  | .float v => v
  | .double v => v.toFloat32
  | _ => 0

def asString : Value → Bytes
  | .string s => s
  | _ => []

/-- Identity as reference comparison sees it. Floats compare as numbers. -/
def same : Value → Value → Bool
  | .null, .null => true
  | .int a, .int b => a == b
  | .long a, .long b => a == b
  | .float a, .float b => a == b
  | .double a, .double b => a == b
  | .string a, .string b => a == b
  | .ref a, .ref b => a == b
  | .other a, .other b => a == b
  | _, _ => false

def text : Value → Bytes
  | .null => "null"
  | .int v => Bytes.decimal v.toInt
  | .long v => Bytes.decimal v.toInt
  | .float v => FloatText.ofSingle v
  | .double v => FloatText.ofDouble v
  | .string s => s
  | .ref id => "@" ++ Bytes.decimal id
  | .other _ => "?"

end Value

/-- What a field or an array element of the type holds before anything is stored. -/
def FieldType.zero : FieldType → Value
  | .primitive .long => .long 0
  | .primitive .float => .float 0
  | .primitive .double => .double 0
  | .primitive _ => .int 0
  | _ => .null

def ResultType.zero : ResultType → Value
  | .void => .int 0
  | .value t => t.zero

def Descriptor.zero : Descriptor → Value
  | .plain t => t.zero
  | .method _ => .null

end ClassTrace
