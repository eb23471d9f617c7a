import ClassTrace.Descriptor.Parser
import ClassTrace.Frame.Operation
import ClassTrace.Machine

/-!
Locals, arrays, fields, statics and new objects. Every store is reported with the value it
replaces.
-/
namespace ClassTrace.Machine

def store (slot : Nat) (v : Value) : Exec Unit := do
  let old ← onFrame (Frame.getLocal slot)
  onFrame (Frame.setLocal slot v)
  let f ← onFrame get
  emit (.assign f.line (f.localName slot) (← display old) (← display v) [])

def increment (slot : Nat) (delta : Int32) : Exec Unit := do
  match ← onFrame (Frame.getLocal slot) with
  | .int v => store slot (.int (v + delta))
  | v => fault (.notIntLocal v.kind slot)

def loadConstant (form : ConstantLoad) (index : UInt16) : Exec Unit := do
  let v ← check ((← get).program.pool.loadable index)
  if v.isWide ≠ (form = .wide) then fault (.wrongLoad index v.kind form.opcode)
  push v

structure ArrayRef where
  id : Int
  element : FieldType
  elements : Array Value

def popArray : Exec ArrayRef := do
  match ← onStack Stack.popReference with
  | .null => fault .nullArray
  | .ref id =>
    let (element, elements) ← check ((← get).heap.array id)
    return ⟨id, element, elements⟩
  | v => fault (.notArrayValue v.kind)

def elementAt (a : ArrayRef) (i : Int32) : Exec Value :=
  if i < 0 then fault (.badIndex i a.elements.size)
  else match a.elements[i.toInt.toNat]? with
    | some v => pure v
    | none => fault (.badIndex i a.elements.size)

def arrayLoad : Exec Unit := do
  let i ← onStack Stack.popInt
  let a ← popArray
  push (Entry.element a.element (← elementAt a i))

def arrayLength : Exec Unit := do
  let a ← popArray
  push (.int (Int32.ofNat a.elements.size))

def storeFamily : ElementStore → Family
  | .plain family => family
  | _ => .int

/-- The value with what does not fit into an element of a narrow type cut off. -/
def narrow (element : FieldType) (v : Value) : ElementStore → Value
  | .plain _ => v
  | .byte => if element = .primitive .boolean then .int (v.asInt &&& 1) else .int (toByte v.asInt)
  | .char => .int (toChar v.asInt)
  | .short => .int (toShort v.asInt)

def storable (element : FieldType) (v : Value) : Bool :=
  match element with
  | .primitive _ => element.zero.kind = v.kind
  | _ => v.isReference

def arrayStore (s : ElementStore) : Exec Unit := do
  let v ← onStack (storeFamily s).pop
  let i ← onStack Stack.popInt
  let a ← popArray
  let old ← elementAt a i
  let v := narrow a.element v s
  if !storable a.element v then fault (.wrongElement v.kind a.element)
  modify fun m => { m with heap := m.heap.setElement a.id i.toInt.toNat v }
  emit (.setElement (← get).line a.id i.toInt (← display old) (← display v) [])

def newArray (element : FieldType) : Exec Unit := do
  let n ← onStack Stack.popInt
  if n < 0 then fault (.negativeSize n)
  push (← alloc (.array element (Array.replicate n.toInt.toNat .null)))

/-- The element type that a class constant names: a name that starts with a bracket is a
descriptor. -/
def elementType (name : Bytes) : FieldType :=
  if name.head? = some '['.toUInt8 then
    match FieldType.parse name with
    | .ok t => t
    | .error _ => .object name
  else .object name

def newObjectArray (index : UInt16) : Exec Unit := do
  let c ← check ((← get).program.pool.classRef index)
  newArray (elementType c.name)

structure ObjectRef where
  id : Int
  owner : Bytes
  fields : Fields

def popObject : Exec ObjectRef := do
  match ← onStack Stack.popReference with
  | .null => fault .nullObject
  | .ref id =>
    let (owner, fields) ← check ((← get).heap.object id)
    return ⟨id, owner, fields⟩
  | v => fault (.notObjectValue v.kind)

/-- A field that holds null is read as the zero of the type it is referred to with. -/
def fieldValue (type : ResultType) (v : Value) : Value := if v.isNull then type.zero else v

def fieldRef (index : UInt16) : Exec FieldRef := do check ((← get).program.pool.fieldRef index)

def getField (index : UInt16) : Exec Unit := do
  let r ← fieldRef index
  let o ← popObject
  match o.fields.get? r.nameType.name with
  | some v => push (fieldValue r.type v)
  | none => fault (.noField o.owner r.nameType.name)

def setField (o : ObjectRef) (name : Bytes) (v : Value) : Exec Unit := do
  match o.fields.get? name with
  | some old =>
    modify fun m => { m with heap := m.heap.setField o.id name v }
    emit (.setField (← get).line o.id name (← display old) (← display v) [])
  | none => fault (.noField o.owner name)

def putField (index : UInt16) : Exec Unit := do
  let r ← fieldRef index
  let v ← onStack (Stack.popResult r.type)
  setField (← popObject) r.nameType.name v

/-- A library static is made on first use and then remembered. -/
def libraryStatic (owner name : Bytes) : Exec Value := do
  let m ← get
  match m.statics.lookup (staticKey owner name) with
  | some v => pure v
  | none =>
    let v ← match m.library.static? owner name with
      | none => fault (.unknownStatic owner name)
      | some (.stream channel) =>
        alloc (.stream ⟨channel, if channel = .out then m.settings.consoleColor else none⟩)
      | some (.constant v) => pure v
      | some (.failing error) => throw (.outside error)
    modify fun m => { m with statics := (staticKey owner name, v) :: m.statics }
    return v

def getStatic (index : UInt16) : Exec Unit := do
  let r ← fieldRef index
  let m ← get
  if r.owner.name = m.program.name then
    let (_, fields) ← check m.singleton
    match fields.get? r.nameType.name with
    | some v => push (fieldValue r.type v)
    | none => fault (.noStaticField r.owner.name r.nameType.name)
  else push (← libraryStatic r.owner.name r.nameType.name)

def putStatic (index : UInt16) : Exec Unit := do
  let r ← fieldRef index
  if r.owner.name ≠ (← get).program.name then fault (.foreignStatic r.owner.name r.nameType.name)
  let v ← onStack (Stack.popResult r.type)
  let (owner, fields) ← check (← get).singleton
  setField ⟨0, owner, fields⟩ r.nameType.name v

def new (index : UInt16) : Exec Unit := do
  let m ← get
  let c ← check (m.program.pool.classRef index)
  if c.name = m.program.name then push (← alloc m.program.newObject)
  else match m.library.maker? c.name with
    | none => fault (.unknownClass c.name)
    | some (.build blueprint) => push (← alloc (blueprint.build m.program))
    | some (.failing error) => throw (.outside error)

end ClassTrace.Machine
