import ClassTrace.ConstantPool

/-!
A loaded class: its constants, its fields and methods in the order of declaration, and what debug
tables tell about the methods.
-/
namespace ClassTrace

/-- A named variable in a slot, at `length` addresses from `start` on. -/
structure Variable where
  name : Bytes
  descriptor : Bytes
  start : Nat
  length : Nat
  slot : Nat
deriving DecidableEq, Repr

def Variable.covers (v : Variable) (pc slot : Int) : Bool :=
  v.slot == slot && v.start ≤ pc && pc < v.start + v.length

/-- A method without code has an empty code array. `lines` has the source line of each address, or
-1 where none is known. -/
structure Method where
  owner : Bytes
  name : Bytes
  descriptor : Bytes
  signature : Signature
  isStatic : Bool
  maxStack : Nat := 0
  maxLocals : Nat := 0
  code : Array UInt8 := #[]
  lines : Array Int := #[]
  localVariables : List Variable := []
  paramNames : List Bytes := []
deriving DecidableEq

namespace Method

def fullName (m : Method) : Bytes := m.owner ++ "." ++ m.name ++ m.descriptor

def hasCode (m : Method) : Bool := !m.code.isEmpty

def line (m : Method) (pc : Int) : Int :=
  if pc < 0 then -1 else m.lines[pc.toNat]?.getD (-1)

/-- The last row of the variable table that covers the slot at the address. -/
def variableAt? (m : Method) (pc slot : Int) : Option Variable :=
  (m.localVariables.filter (·.covers pc slot)).getLast?

/-- The first local slot of each parameter; the receiver of an instance method is in slot 0. -/
def paramSlots (m : Method) : List Nat :=
  Signature.slotsFrom (if m.isStatic then 0 else 1) m.signature.params

/-- Parameter `i` is named by its slot's variable at address 0, else `arg` and its number. -/
def nameParams (m : Method) : List Bytes :=
  m.paramSlots.zipIdx.map fun (slot, i) =>
    match m.variableAt? 0 slot with
    | some v => v.name
    | none => "arg" ++ Bytes.decimal i

/-- How many local slots a frame of the method has: those declared, and never too few for the
receiver and the parameters. -/
def localSize (m : Method) : Nat :=
  max m.maxLocals (m.signature.argSlots + if m.isStatic then 0 else 1)

end Method

structure Field where
  name : Bytes
  type : FieldType
  isStatic : Bool
deriving DecidableEq, Repr

structure Class where
  name : Bytes
  super : Bytes
  pool : ConstantPool
  fields : List Field
  methods : List Method
deriving DecidableEq

namespace Class

/-- Of several methods with one name and descriptor the last is meant. -/
def method? (c : Class) (name descriptor : Bytes) : Option Method :=
  (c.methods.filter fun m => m.name == name && m.descriptor == descriptor).getLast?

/-- Of several methods with one name the first is meant. -/
def methodByName? (c : Class) (name : Bytes) : Option Method :=
  c.methods.find? (·.name == name)

def fieldNames (c : Class) : List Bytes := c.fields.map (·.name)

end Class

end ClassTrace
