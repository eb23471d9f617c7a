import ClassTrace.Text.Bytes

/-!
The structure of a class file. The constant pool keeps its numbering: slot 0 and the slot after a
long or a double are empty. Names and descriptors of members are kept both as indices and as the
texts they designate.
-/
namespace ClassTrace

inductive PoolEntry where
  | utf8 (text : Bytes)
  | integer (v : Int32)
  | float (v : Float32)
  | long (v : Int64)
  | double (v : Float)
  | classRef (nameIndex : UInt16)
  | string (textIndex : UInt16)
  | fieldRef (classIndex nameTypeIndex : UInt16)
  | methodRef (classIndex nameTypeIndex : UInt16)
  | interfaceMethodRef (classIndex nameTypeIndex : UInt16)
  | nameAndType (nameIndex descriptorIndex : UInt16)
  | skipped (tag : UInt8)
deriving DecidableEq

namespace PoolEntry

def tag : PoolEntry → UInt8
  | .utf8 _ => 1
  | .integer _ => 3
  | .float _ => 4
  | .long _ => 5
  | .double _ => 6
  | .classRef _ => 7
  | .string _ => 8
  | .fieldRef _ _ => 9
  | .methodRef _ _ => 10
  | .interfaceMethodRef _ _ => 11
  | .nameAndType _ _ => 12
  | .skipped tag => tag

def isWide : PoolEntry → Bool
  | .long _ | .double _ => true
  | _ => false

end PoolEntry

abbrev Pool := Array (Option PoolEntry)

structure Attribute where
  name : Bytes
  data : Bytes
deriving DecidableEq

structure Handler where
  start : UInt16
  stop : UInt16
  handler : UInt16
  catchType : UInt16
deriving DecidableEq

/-- The line holds from `start` up to the start of the next row. -/
structure LineRow where
  start : UInt16
  line : UInt16
deriving DecidableEq

/-- The variable lives in slot `index` at the addresses from `start` on, `length` of them. -/
structure VariableRow where
  start : UInt16
  length : UInt16
  index : UInt16
  name : Bytes
  descriptor : Bytes
deriving DecidableEq

/-- The rows of several line or variable tables stand one after the other. -/
structure Code where
  maxStack : UInt16
  maxLocals : UInt16
  code : Bytes
  handlers : List Handler
  attributes : List Attribute
  lines : List LineRow
  variableRows : List VariableRow
deriving DecidableEq

structure Member where
  flags : UInt16
  nameIndex : UInt16
  descriptorIndex : UInt16
  name : Bytes
  descriptor : Bytes
  attributes : List Attribute
deriving DecidableEq

def Member.isStatic (m : Member) : Bool := m.flags &&& 8 ≠ 0

/-- A method with its first code attribute decoded, if it has one. -/
structure MethodMember extends Member where
  code : Option Code
deriving DecidableEq

structure ClassFile where
  minor : UInt16
  major : UInt16
  pool : Pool
  flags : UInt16
  thisClass : UInt16
  superClass : UInt16
  interfaces : List UInt16
  fields : List Member
  methods : List MethodMember
deriving DecidableEq

end ClassTrace
