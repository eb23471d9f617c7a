import ClassTrace.ClassFile

/-!
The class-file format, written down from the side of the writer. A layout holds what a file says
before any index is followed: constants in file order, names as indices, bits of floating-point
numbers. It has its big-endian bytes, the class file that it means, and the conditions under which
both make sense: every name is a text of the pool, and every length fits the field that announces
it.
-/
namespace ClassTrace.Layout

def word (v : UInt16) : Bytes := Bytes.ofNat 2 v.toNat

def table {α : Type} (encode : α → Bytes) (items : List α) : Bytes :=
  Bytes.ofNat 2 items.length ++ items.flatMap encode

def block (data : Bytes) : Bytes := Bytes.ofNat 4 data.length ++ data

inductive Constant where
  | utf8 (text : Bytes)
  | integer (v : Int32)
  | float (bits : UInt32)
  | long (v : Int64)
  | double (bits : UInt64)
  | classRef (nameIndex : UInt16)
  | string (textIndex : UInt16)
  | fieldRef (classIndex nameTypeIndex : UInt16)
  | methodRef (classIndex nameTypeIndex : UInt16)
  | interfaceMethodRef (classIndex nameTypeIndex : UInt16)
  | nameAndType (nameIndex descriptorIndex : UInt16)
  | methodHandle (kind : UInt8) (referenceIndex : UInt16)
  | methodType (descriptorIndex : UInt16)
  | dynamic (bootstrapIndex nameTypeIndex : UInt16)
  | invokeDynamic (bootstrapIndex nameTypeIndex : UInt16)
deriving DecidableEq

namespace Constant

def tag : Constant → UInt8
  | .utf8 _ => 1
  | .integer _ => 3
  | .float _ => 4
  | .long _ => 5
  | .double _ => 6
  | .classRef _ => 7
  | .string _ => 8
  | .fieldRef _ _ => 9
  | .methodRef _ _ => 10
  | .interfaceMethodRef _ _ => 11
  | .nameAndType _ _ => 12
  | .methodHandle _ _ => 15
  | .methodType _ => 16
  | .dynamic _ _ => 17
  | .invokeDynamic _ _ => 18

def payload : Constant → Bytes
  | .utf8 text => Bytes.ofNat 2 text.length ++ text
  | .integer v => Bytes.ofNat 4 v.toUInt32.toNat
  | .float bits => Bytes.ofNat 4 bits.toNat
  | .long v => Bytes.ofNat 8 v.toUInt64.toNat
  | .double bits => Bytes.ofNat 8 bits.toNat
  | .classRef index | .string index | .methodType index => word index
  | .fieldRef a b | .methodRef a b | .interfaceMethodRef a b | .nameAndType a b
  | .dynamic a b | .invokeDynamic a b => word a ++ word b
  | .methodHandle kind index => kind :: word index

def encode (c : Constant) : Bytes := c.tag :: c.payload

/-- The constant without what no instruction of a class uses: handles, method types and dynamic
constants keep their tags only. -/
def entry : Constant → PoolEntry
  | .utf8 text => .utf8 text
  | .integer v => .integer v
  | .float bits => .float (Float32.ofBits bits)
  | .long v => .long v
  | .double bits => .double (Float.ofBits bits)
  | .classRef index => .classRef index
  | .string index => .string index
  | .fieldRef a b => .fieldRef a b
  | .methodRef a b => .methodRef a b
  | .interfaceMethodRef a b => .interfaceMethodRef a b
  | .nameAndType a b => .nameAndType a b
  | .methodHandle _ _ => .skipped 15
  | .methodType _ => .skipped 16
  | .dynamic _ _ => .skipped 17
  | .invokeDynamic _ _ => .skipped 18

def slots (c : Constant) : List (Option PoolEntry) :=
  match c with
  | .long _ | .double _ => [some c.entry, none]
  | _ => [some c.entry]

def textLength : Constant → Nat
  | .utf8 text => text.length
  | _ => 0

end Constant

def pool (constants : List Constant) : Pool :=
  (none :: constants.flatMap Constant.slots).toArray

def text? (pool : Pool) (index : UInt16) : Option Bytes :=
  match pool[index.toNat]? with
  | some (some (.utf8 text)) => some text
  | _ => none

def text (pool : Pool) (index : UInt16) : Bytes := (text? pool index).getD []

def Designates (pool : Pool) (index : UInt16) : Prop := (text? pool index).isSome

instance (pool : Pool) (index : UInt16) : Decidable (Designates pool index) :=
  inferInstanceAs (Decidable (_ = true))

structure AttributeLayout (β : Type) where
  nameIndex : UInt16
  content : β
deriving DecidableEq

namespace AttributeLayout

variable {β : Type} (data : β → Bytes)

def encode (a : AttributeLayout β) : Bytes := word a.nameIndex ++ block (data a.content)

def resolve (pool : Pool) (a : AttributeLayout β) : Attribute :=
  ⟨text pool a.nameIndex, data a.content⟩

def Fits (pool : Pool) (a : AttributeLayout β) : Prop :=
  Designates pool a.nameIndex ∧ (data a.content).length < 4294967296

instance (pool : Pool) (a : AttributeLayout β) : Decidable (a.Fits data pool) :=
  inferInstanceAs (Decidable (_ ∧ _))

end AttributeLayout

def handler (h : Handler) : Bytes :=
  word h.start ++ word h.stop ++ word h.handler ++ word h.catchType

def lineRow (row : LineRow) : Bytes := word row.start ++ word row.line

structure VariableLayout where
  start : UInt16
  length : UInt16
  nameIndex : UInt16
  descriptorIndex : UInt16
  index : UInt16
deriving DecidableEq

namespace VariableLayout

def encode (v : VariableLayout) : Bytes :=
  word v.start ++ word v.length ++ word v.nameIndex ++ word v.descriptorIndex ++ word v.index

def resolve (pool : Pool) (v : VariableLayout) : VariableRow :=
  ⟨v.start, v.length, v.index, text pool v.nameIndex, text pool v.descriptorIndex⟩

end VariableLayout

inductive CodePart where
  | lines (rows : List LineRow)
  | locals (rows : List VariableLayout)
  | other (data : Bytes)
deriving DecidableEq

namespace CodePart

def data : CodePart → Bytes
  | .lines rows => table lineRow rows
  | .locals rows => table VariableLayout.encode rows
  | .other data => data

def lineRows : CodePart → List LineRow
  | .lines rows => rows
  | _ => []

def variableRows (pool : Pool) : CodePart → List VariableRow
  | .locals rows => rows.map (·.resolve pool)
  | _ => []

/-- The contents are of the kind that the name announces, and their rows can be written. -/
def Fits (pool : Pool) (name : Bytes) : CodePart → Prop
  | .lines rows => name = "LineNumberTable" ∧ rows.length < 65536
  | .locals rows => name = "LocalVariableTable" ∧ rows.length < 65536 ∧
      ∀ v ∈ rows, Designates pool v.nameIndex ∧ Designates pool v.descriptorIndex
  | .other _ => name ≠ "LineNumberTable" ∧ name ≠ "LocalVariableTable"

instance (pool : Pool) (name : Bytes) : (part : CodePart) → Decidable (part.Fits pool name)
  | .lines _ => inferInstanceAs (Decidable (_ ∧ _))
  | .locals rows => inferInstanceAs (Decidable (_ ∧ _ ∧ ∀ v ∈ rows, _ ∧ _))
  | .other _ => inferInstanceAs (Decidable (_ ∧ _))

end CodePart

structure CodeLayout where
  maxStack : UInt16
  maxLocals : UInt16
  code : Bytes
  handlers : List Handler
  nested : List (AttributeLayout CodePart)
deriving DecidableEq

namespace CodeLayout

def encode (c : CodeLayout) : Bytes :=
  word c.maxStack ++ word c.maxLocals ++ block c.code ++ table handler c.handlers ++
    table (·.encode CodePart.data) c.nested

def resolve (pool : Pool) (c : CodeLayout) : Code :=
  ⟨c.maxStack, c.maxLocals, c.code, c.handlers, c.nested.map (·.resolve CodePart.data pool),
    c.nested.flatMap (·.content.lineRows), c.nested.flatMap (·.content.variableRows pool)⟩

structure Fits (pool : Pool) (c : CodeLayout) : Prop where
  code : c.code.length < 4294967296
  handlers : c.handlers.length < 65536
  nestedCount : c.nested.length < 65536
  nested : ∀ a ∈ c.nested, a.Fits CodePart.data pool ∧ a.content.Fits pool (text pool a.nameIndex)

instance (pool : Pool) (c : CodeLayout) : Decidable (c.Fits pool) :=
  decidable_of_iff (_ ∧ _ ∧ _ ∧ ∀ a ∈ c.nested, _ ∧ _)
    ⟨fun ⟨h₁, h₂, h₃, h₄⟩ => ⟨h₁, h₂, h₃, h₄⟩, fun ⟨h₁, h₂, h₃, h₄⟩ => ⟨h₁, h₂, h₃, h₄⟩⟩

end CodeLayout

inductive MethodPart where
  | code (c : CodeLayout)
  | other (data : Bytes)
deriving DecidableEq

namespace MethodPart

def data : MethodPart → Bytes
  | .code c => c.encode
  | .other data => data

def code? : MethodPart → Option CodeLayout
  | .code c => some c
  | .other _ => none

def Fits (pool : Pool) (name : Bytes) : MethodPart → Prop
  | .code c => name = "Code" ∧ c.Fits pool
  | .other _ => name ≠ "Code"

instance (pool : Pool) (name : Bytes) : (part : MethodPart) → Decidable (part.Fits pool name)
  | .code _ => inferInstanceAs (Decidable (_ ∧ _))
  | .other _ => inferInstanceAs (Decidable (_ ≠ _))

end MethodPart

structure MemberLayout (β : Type) where
  flags : UInt16
  nameIndex : UInt16
  descriptorIndex : UInt16
  attributes : List (AttributeLayout β)
deriving DecidableEq

namespace MemberLayout

variable {β : Type} (data : β → Bytes)

def encode (m : MemberLayout β) : Bytes :=
  word m.flags ++ (word m.nameIndex ++ word m.descriptorIndex) ++
    table (·.encode data) m.attributes

def resolve (pool : Pool) (m : MemberLayout β) : Member :=
  ⟨m.flags, m.nameIndex, m.descriptorIndex, text pool m.nameIndex, text pool m.descriptorIndex,
    m.attributes.map (·.resolve data pool)⟩

structure Fits (pool : Pool) (m : MemberLayout β) : Prop where
  name : Designates pool m.nameIndex
  descriptor : Designates pool m.descriptorIndex
  attributeCount : m.attributes.length < 65536
  attributes : ∀ a ∈ m.attributes, a.Fits data pool

instance (pool : Pool) (m : MemberLayout β) : Decidable (m.Fits data pool) :=
  decidable_of_iff (_ ∧ _ ∧ _ ∧ ∀ a ∈ m.attributes, AttributeLayout.Fits data pool a)
    ⟨fun ⟨h₁, h₂, h₃, h₄⟩ => ⟨h₁, h₂, h₃, h₄⟩, fun ⟨h₁, h₂, h₃, h₄⟩ => ⟨h₁, h₂, h₃, h₄⟩⟩

def resolveMethod (pool : Pool) (m : MemberLayout MethodPart) : MethodMember :=
  ⟨m.resolve MethodPart.data pool,
    (m.attributes.findSome? (·.content.code?)).map (·.resolve pool)⟩

end MemberLayout

/-- The attributes of the class itself are in the file but not in what it means. -/
structure ClassLayout where
  minor : UInt16
  major : UInt16
  constants : List Constant
  flags : UInt16
  thisClass : UInt16
  superClass : UInt16
  interfaces : List UInt16
  fields : List (MemberLayout Bytes)
  methods : List (MemberLayout MethodPart)
  attributes : List (AttributeLayout Bytes)
deriving DecidableEq

namespace ClassLayout

/-- The big-endian bytes of a class file. The count of the pool includes slot 0. -/
def encode (c : ClassLayout) : Bytes :=
  Bytes.ofNat 4 0xCAFEBABE ++ (word c.minor ++ word c.major) ++
    Bytes.ofNat 2 (pool c.constants).size ++ c.constants.flatMap Constant.encode ++
    word c.flags ++ (word c.thisClass ++ word c.superClass) ++ table word c.interfaces ++
    table (·.encode id) c.fields ++ table (·.encode MethodPart.data) c.methods ++
    table (·.encode id) c.attributes

/-- The class file with every name looked up in the pool. -/
def resolve (c : ClassLayout) : ClassFile :=
  ⟨c.minor, c.major, pool c.constants, c.flags, c.thisClass, c.superClass, c.interfaces,
    c.fields.map (·.resolve id (pool c.constants)),
    c.methods.map (·.resolveMethod (pool c.constants))⟩

/-- The file can be written: names, descriptors and names of attributes are texts of the pool, and
each length fits its field. The pool has at most 65534 slots beside slot 0. -/
structure Fits (c : ClassLayout) : Prop where
  poolSize : (pool c.constants).size ≤ 65535
  constants : ∀ k ∈ c.constants, k.textLength < 65536
  interfaces : c.interfaces.length < 65536
  fieldCount : c.fields.length < 65536
  fields : ∀ m ∈ c.fields, m.Fits id (pool c.constants)
  methodCount : c.methods.length < 65536
  methods : ∀ m ∈ c.methods, m.Fits MethodPart.data (pool c.constants) ∧
    ∀ a ∈ m.attributes, a.content.Fits (pool c.constants) (text (pool c.constants) a.nameIndex)
  attributeCount : c.attributes.length < 65536
  attributes : ∀ a ∈ c.attributes, a.Fits id (pool c.constants)

end ClassLayout

end ClassTrace.Layout
