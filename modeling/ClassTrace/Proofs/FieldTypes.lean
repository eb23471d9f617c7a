import ClassTrace.Proofs.DescriptorGrammar
import ClassTrace.Proofs.HeapShape
import ClassTrace.Proofs.StackBound
import ClassTrace.Proofs.StepEvents
import ClassTrace.Proofs.StringLiteral

/-!
Fields keep to their declared types, as long as the field constants of the class spell the
descriptors that the fields are declared with. A field starts as null whatever its type, stores
take a value of the type that the constant spells, and a read replaces null by the zero of that
type. So what is read is what was stored last into that object under that name, and the zero of
the type before any store.
-/
namespace ClassTrace

theorem bind_ok_iff {ε σ α β : Type} {x : EStateM ε σ α} {g : α → EStateM ε σ β}
    {s s' : σ} {b : β} :
    (x >>= g) s = .ok b s' ↔ ∃ a s₁, x s = .ok a s₁ ∧ g a s₁ = .ok b s' := by
  cases hx : x s with
  | ok a s₁ => simp [bind_of_ok hx]
  | error e s₁ => simp [bind_of_error hx]

def FieldType.kinds : FieldType → List Kind
  | .primitive .long => [.long]
  | .primitive .float => [.float]
  | .primitive .double => [.double]
  | .primitive _ => [.int]
  | .object _ | .array _ => [.null, .string, .reference]

theorem FieldType.kind_zero (t : FieldType) : t.zero.kind ∈ t.kinds := by
  cases t with
  | primitive p => cases p <;> exact List.mem_singleton_self _
  | object name | array element => exact List.mem_cons_self ..

/-- Null is the zero of every type that prescribes it. -/
theorem FieldType.zero_of_null {t : FieldType} (h : Value.null.kind ∈ t.kinds) :
    t.zero = .null := by
  cases t with
  | primitive p => cases p <;> exact absurd h (by decide)
  | object name | array element => rfl

theorem Value.kind_of_isReference {v : Value} (h : v.isReference = true) :
    v.kind ∈ [Kind.null, .string, .reference] := by
  cases v with
  | null | string s | ref id => simp [kind]
  | _ => cases h

def FieldType.mismatch : FieldType → Kind → Fault
  | .primitive .long, got => .wrongKind .long got
  | .primitive .float, got => .wrongKind .float got
  | .primitive .double, got => .wrongKind .double got
  | .primitive _, got => .wrongKind .int got
  | .object _, got | .array _, got => .notReference got

theorem FieldType.mismatch_kind (t : FieldType) (got : Kind) : (t.mismatch got).kind = .type := by
  cases t with
  | primitive p => cases p <;> rfl
  | object name | array element => rfl

namespace Stack

/-- A pop for a type takes the value on top, and accepts it if it is of a kind that the type
prescribes. -/
theorem popTyped_cons (t : FieldType) (v : Value) (below : Stack) : popTyped t (v :: below) =
    if v.kind ∈ t.kinds then .ok v below else .error (t.mismatch v.kind) below := by
  cases t with
  | primitive p => cases p <;> cases v <;> rfl
  | object name | array element => cases v <;> rfl

theorem mapM_popTyped_ok {types : List FieldType} {values : List Value}
    (h : List.Forall₂ (fun t v => v.kind ∈ FieldType.kinds t) types values) (below : Stack) :
    types.mapM popTyped (values ++ below) = .ok values below := by
  induction h with
  | nil => rfl
  | cons hv _ ih =>
    rw [List.mapM_cons, List.cons_append, bind_of_ok ((popTyped_cons ..).trans (if_pos hv)),
      bind_of_ok ih]
    rfl

/-- Arguments of the kinds of their parameters are taken, in the order of the parameters. -/
theorem popArgs_ok {params : List FieldType} {args : List Value}
    (h : List.Forall₂ (fun t v => v.kind ∈ FieldType.kinds t) params args) (below : Stack) :
    popArgs params (args.reverse ++ below) = .ok args below := by
  unfold popArgs
  rw [bind_of_ok (mapM_popTyped_ok (List.rel_reverse h) below), List.reverse_reverse]
  rfl

/-- What is popped for a type is of its kind. -/
theorem popTyped_kind (t : FieldType) (s : Stack) :
    Ends (fun _ => True) (popTyped t) s fun v _ => v.kind ∈ t.kinds := by
  cases s with
  | nil =>
    cases t with
    | primitive p => cases p <;> trivial
    | object name | array element => trivial
  | cons v below =>
    unfold Ends
    rw [popTyped_cons]
    by_cases hv : v.kind ∈ t.kinds
    · rw [if_pos hv]
      exact hv
    · rw [if_neg hv]
      trivial

theorem popReference_kind (s : Stack) : Ends (fun _ => True) popReference s fun v _ =>
    v.kind ∈ [Kind.null, .string, .reference] :=
  popTyped_kind (.object []) s

/-- What is popped for a field was on top of the stack, and it is of the type of the field. -/
theorem popResult_ok {type : ResultType} {v : Value} {s s' : Stack}
    (h : popResult type s = .ok v s') :
    s = v :: s' ∧ ∀ t, type = .value t → v.kind ∈ t.kinds := by
  refine ⟨(popResult_pops type s).of_ok h, ?_⟩
  rintro t rfl
  exact (popTyped_kind t s).of_ok h

end Stack

namespace ConstantPool

def fieldRefs (pool : ConstantPool) : List FieldRef :=
  pool.toList.filterMap fun slot => match slot with
    | some (.fieldRef r) => some r
    | _ => none

theorem mem_fieldRefs {pool : ConstantPool} {index : UInt16} {r : FieldRef}
    (h : pool.fieldRef index = .ok r) : r ∈ pool.fieldRefs := by
  have hget := get_of_fieldRef h
  unfold get at hget
  split at hget
  · cases hget
  · split at hget
    · rename_i c hslot
      cases hget
      refine List.mem_filterMap.mpr ⟨some (.fieldRef r), ?_, rfl⟩
      exact Array.mem_toList_iff.mpr (Array.mem_of_getElem? hslot)
    · cases hget

end ConstantPool

theorem mem_successes {ε α : Type} {attempts : List (Except ε α)} {a : α} :
    a ∈ successes attempts ↔ .ok a ∈ attempts := by
  unfold successes
  rw [List.mem_filterMap]
  constructor
  · rintro ⟨r, hr, heq⟩
    cases r with
    | error e => cases heq
    | ok b =>
      cases heq
      exact hr
  · exact fun h => ⟨.ok a, h, rfl⟩

/-- Every field of a loaded class is declared in the file, with a descriptor that spells its
type. -/
theorem Class.load_fields {file : ClassFile} {program : Class} (h : Class.load file = .ok program)
    {field : Field} (hfield : field ∈ program.fields) :
    ∃ info ∈ file.fields, info.name = field.name ∧
      FieldType.parse info.descriptor = .ok field.type := by
  have hfields : program.fields = successes (file.fields.map Field.load) := by
    unfold Class.load at h
    split at h
    · cases h
    · split at h
      · cases h
      · dsimp only at h
        split at h
        · cases h
          rfl
        · cases h
  rw [hfields, mem_successes] at hfield
  obtain ⟨info, hinfo, hload⟩ := List.mem_map.mp hfield
  unfold Field.load at hload
  split at hload
  · cases hload
  · rename_i type htype
    cases hload
    exact ⟨info, hinfo, rfl, htype⟩

/-- A field constant with the name of a field that the file declares spells the same
descriptor. -/
def ClassFile.FieldsAgree (file : ClassFile) (pool : ConstantPool) : Prop :=
  ∀ r ∈ pool.fieldRefs, ∀ info ∈ file.fields, info.name = r.nameType.name →
    r.nameType.descriptor = info.descriptor

instance (file : ClassFile) (pool : ConstantPool) : Decidable (file.FieldsAgree pool) :=
  inferInstanceAs (Decidable
    (∀ r ∈ pool.fieldRefs, ∀ info ∈ file.fields, info.name = r.nameType.name →
    r.nameType.descriptor = info.descriptor))

/-- Field constants and fields that agree on their descriptors agree on their types. -/
theorem ClassFile.FieldsAgree.type_eq {file : ClassFile} {program : Class}
    (hload : Class.load file = .ok program) (hagree : file.FieldsAgree program.pool)
    {index : UInt16} {r : FieldRef} (hr : program.pool.fieldRef index = .ok r) {field : Field}
    (hfield : field ∈ program.fields) (hname : field.name = r.nameType.name) :
    r.type = .value field.type := by
  obtain ⟨info, hinfo, hinfoName, hparse⟩ := Class.load_fields hload hfield
  have hdescriptor := hagree r (ConstantPool.mem_fieldRefs hr) info hinfo (hinfoName.trans hname)
  have hspelled := (Class.load_spelled hload).fieldRef hr
  rw [hdescriptor, FieldType.parse_eq_ok.mp hparse] at hspelled
  injection hspelled with heq
  injection heq with heq
  exact heq.symm

namespace Machine

section Instructions

variable {m m' : Machine} {index : UInt16} {r : FieldRef}

theorem of_get_bind {β : Type} {g : Machine → Exec β} {result : EStateM.Result Cause Machine β}
    (h : ((get : Exec Machine) >>= g) m = result) : g m m = result := h

theorem check_ok {α : Type} {result : Except Fault α} {a : α} (h : check result m = .ok a m') :
    result = .ok a ∧ m' = m := by
  cases result with
  | error f => cases h
  | ok b =>
    cases h
    exact ⟨rfl, rfl⟩

theorem fieldRef_ok (h : fieldRef index m = .ok r m') :
    m.program.pool.fieldRef index = .ok r ∧ m' = m :=
  check_ok (show check (m.program.pool.fieldRef index) m = .ok r m' from h)

theorem heap_setOperands (m : Machine) (stack : Stack) :
    (m.setOperands stack).heap = m.heap ∧ (m.setOperands stack).program = m.program := by
  unfold setOperands
  split <;> exact ⟨rfl, rfl⟩

theorem popObject_ok {o : ObjectRef} (h : popObject m = .ok o m') : ∃ below,
    m.operands = .ref o.id :: below ∧ m' = m.setOperands below ∧
      m.heap.get? o.id = some (.object o.owner o.fields) := by
  obtain ⟨v, m₁, hstack, h₁⟩ := bind_ok_iff.mp h
  obtain ⟨below, hpop, rfl⟩ := onStack_ok hstack
  have hoperands : m.operands = v :: below := (Stack.popReference_pops _).of_ok hpop
  cases v with
  | ref id =>
    obtain ⟨⟨owner, fields⟩, m₂, hcheck, h₂⟩ := bind_ok_iff.mp (of_get_bind h₁)
    obtain ⟨hobject, rfl⟩ := check_ok hcheck
    rw [(heap_setOperands m below).1] at hobject
    cases h₂
    exact ⟨below, hoperands, rfl, Heap.object_eq_ok hobject⟩
  | _ => cases h₁

theorem push_stack {v : Value} (h : push v m = .ok () m') :
    m'.operands = v :: m.operands ∧ m'.frames.tail = m.frames.tail := by
  unfold push onFrame at h
  unfold operands
  cases hm : m.frames with
  | nil =>
    rw [hm] at h
    cases h
  | cons f rest =>
    simp only [hm, Frame.push] at h
    by_cases hroom : f.stack.length < f.method.maxStack
    · rw [if_pos hroom] at h
      cases h
      exact ⟨rfl, rfl⟩
    · rw [if_neg hroom] at h
      cases h

/-- The store is into a field that the object has, and it changes nothing else on the heap. -/
def Stores (m m' : Machine) (id : Int) (name : Bytes) (v : Value) : Prop :=
  ∃ owner fields old, m.heap.get? id = some (.object owner fields) ∧ fields.get? name = some old ∧
    m'.heap = m.heap.setField id name v

/-- A store into an object succeeds only if the object has the field. -/
theorem setField_ok {o : ObjectRef} {name : Bytes} {v : Value}
    (h : setField o name v m = .ok () m') :
    ∃ old, o.fields.get? name = some old ∧ m'.heap = m.heap.setField o.id name v := by
  unfold setField at h
  cases hold : o.fields.get? name with
  | none =>
    rw [hold] at h
    cases h
  | some old =>
    rw [hold] at h
    cases h
    exact ⟨old, rfl, (announces_report _ _).heap⟩

/-- What a store into a field has found on the stack, and what it has done. -/
theorem putField_ok (h : putField index m = .ok () m') : ∃ r v id below,
    m.program.pool.fieldRef index = .ok r ∧ m.operands = v :: .ref id :: below ∧
      (∀ t, r.type = .value t → v.kind ∈ t.kinds) ∧ Stores m m' id r.nameType.name v := by
  obtain ⟨r, m₁, hfield, h₁⟩ := bind_ok_iff.mp h
  obtain ⟨hr, rfl⟩ := fieldRef_ok hfield
  obtain ⟨v, m₂, hvalue, h₂⟩ := bind_ok_iff.mp h₁
  obtain ⟨stack, hpop, rfl⟩ := onStack_ok hvalue
  obtain ⟨hoperands, hkind⟩ := Stack.popResult_ok hpop
  obtain ⟨o, m₃, hobject, h₃⟩ := bind_ok_iff.mp h₂
  obtain ⟨below, hstack, rfl, hget⟩ := popObject_ok hobject
  obtain ⟨old, hold, hheap⟩ := setField_ok h₃
  rw [operands_setOperands] at hstack
  simp only [heap_setOperands] at hget hheap
  exact ⟨r, v, o.id, below,
    hr, by rw [hoperands, hstack], hkind, o.owner, o.fields, old, hget, hold, hheap⟩

theorem putStatic_ok (h : putStatic index m = .ok () m') : ∃ r v below,
    m.program.pool.fieldRef index = .ok r ∧ r.owner.name = m.program.name ∧
    m.operands = v :: below ∧
      (∀ t, r.type = .value t → v.kind ∈ t.kinds) ∧ Stores m m' 0 r.nameType.name v := by
  obtain ⟨r, m₁, hfield, h₁⟩ := bind_ok_iff.mp h
  obtain ⟨hr, rfl⟩ := fieldRef_ok hfield
  have h₁ := of_get_bind h₁
  dsimp only at h₁
  by_cases howner : r.owner.name = m₁.program.name
  · rw [if_neg (not_not.mpr howner)] at h₁
    obtain ⟨v, m₂, hvalue, h₂⟩ := bind_ok_iff.mp h₁
    obtain ⟨stack, hpop, rfl⟩ := onStack_ok hvalue
    obtain ⟨hoperands, hkind⟩ := Stack.popResult_ok hpop
    obtain ⟨⟨owner, fields⟩, m₃, hcheck, h₃⟩ := bind_ok_iff.mp (of_get_bind h₂)
    obtain ⟨hsingleton, rfl⟩ := check_ok hcheck
    obtain ⟨old, hold, hheap⟩ := setField_ok h₃
    have hget := Heap.object_eq_ok hsingleton
    simp only [heap_setOperands] at hget hheap
    exact ⟨r, v, stack, hr, howner, hoperands, hkind, owner, fields, old, hget, hold, hheap⟩
  · rw [if_pos howner] at h₁
    cases h₁

/-- A read pushes what the field holds, with null replaced by a zero. -/
def Fetched (m m' : Machine) (r : FieldRef) (id : Int) (below : Stack) : Prop :=
  ∃ v, m.heap.cell? (.field id r.nameType.name) = some v ∧
    m'.operands = fieldValue r.type v :: below ∧
    m'.frames.tail = m.frames.tail

theorem cell?_of_get? {h : Heap} {id : Int} {owner name : Bytes} {fields : Fields}
    (hget : h.get? id = some (.object owner fields)) :
    h.cell? (.field id name) = fields.get? name := by
  simp only [Heap.cell?, hget]

theorem tail_setOperands (m : Machine) (stack : Stack) :
    (m.setOperands stack).frames.tail = m.frames.tail := by
  unfold setOperands
  split
  · rfl
  · rename_i hm
    rw [hm]
    rfl

/-- What a read of a field has found on the stack, and what it has pushed. -/
theorem getField_ok (h : getField index m = .ok () m') : ∃ r id below,
    m.program.pool.fieldRef index = .ok r ∧ m.operands = .ref id :: below ∧
    Fetched m m' r id below := by
  obtain ⟨r, m₁, hfield, h₁⟩ := bind_ok_iff.mp h
  obtain ⟨hr, rfl⟩ := fieldRef_ok hfield
  obtain ⟨o, m₂, hobject, h₂⟩ := bind_ok_iff.mp h₁
  obtain ⟨below, hoperands, rfl, hget⟩ := popObject_ok hobject
  cases hv : o.fields.get? r.nameType.name with
  | none =>
    rw [hv] at h₂
    cases h₂
  | some v =>
    rw [hv] at h₂
    obtain ⟨hstack, htail⟩ := push_stack h₂
    rw [operands_setOperands] at hstack
    rw [tail_setOperands] at htail
    exact ⟨r, o.id, below, hr, hoperands, v, (cell?_of_get? hget).trans hv, hstack, htail⟩

theorem getStatic_ok (h : getStatic index m = .ok () m')
    (hr : m.program.pool.fieldRef index = .ok r) (howner : r.owner.name = m.program.name) :
    Fetched m m' r 0 m.operands := by
  obtain ⟨r', m₁, hfield, h₁⟩ := bind_ok_iff.mp h
  obtain ⟨hr', rfl⟩ := fieldRef_ok hfield
  cases hr.symm.trans hr'
  have h₁ := of_get_bind h₁
  rw [if_pos howner] at h₁
  obtain ⟨⟨owner, fields⟩, m₂, hcheck, h₂⟩ := bind_ok_iff.mp h₁
  obtain ⟨hsingleton, rfl⟩ := check_ok hcheck
  have hget := Heap.object_eq_ok hsingleton
  cases hv : fields.get? r.nameType.name with
  | none =>
    simp only [hv] at h₂
    cases h₂
  | some v =>
    simp only [hv] at h₂
    obtain ⟨hstack, htail⟩ := push_stack h₂
    exact ⟨v, (cell?_of_get? hget).trans hv, hstack, htail⟩

end Instructions

/-- The next instruction stores the value into the object, by way of the field constant. Static
fields are those of the first heap entry. -/
inductive Puts (m : Machine) (r : FieldRef) (v : Value) : Int → Prop
  | field {f : Frame} {rest : List Frame} {index : UInt16} {id : Int} {below : Stack}
      (hm : m.frames = f :: rest) (hi : f.Fetches (.putField index))
      (hr : m.program.pool.fieldRef index = .ok r) (hs : f.stack = v :: .ref id :: below) :
      Puts m r v id
  | static {f : Frame} {rest : List Frame} {index : UInt16} {below : Stack}
      (hm : m.frames = f :: rest) (hi : f.Fetches (.putStatic index))
      (hr : m.program.pool.fieldRef index = .ok r) (howner : r.owner.name = m.program.name)
      (hs : f.stack = v :: below) : Puts m r v 0

/-- The next instruction reads the field of the object that the constant names; `below` is what it
leaves on the stack. -/
inductive Gets (m : Machine) (r : FieldRef) (below : Stack) : Int → Prop
  | field {f : Frame} {rest : List Frame} {index : UInt16} {id : Int}
      (hm : m.frames = f :: rest) (hi : f.Fetches (.getField index))
      (hr : m.program.pool.fieldRef index = .ok r) (hs : f.stack = .ref id :: below) :
      Gets m r below id
  | static {f : Frame} {rest : List Frame} {index : UInt16}
      (hm : m.frames = f :: rest) (hi : f.Fetches (.getStatic index))
      (hr : m.program.pool.fieldRef index = .ok r) (howner : r.owner.name = m.program.name)
      (hs : f.stack = below) : Gets m r below 0

theorem Puts.fieldRef {m : Machine} {r : FieldRef} {v : Value} {id : Int} (h : m.Puts r v id) :
    ∃ index, m.program.pool.fieldRef index = .ok r := by
  cases h with
  | field hm hi hr hs => exact ⟨_, hr⟩
  | static hm hi hr howner hs => exact ⟨_, hr⟩

theorem Puts.unique {m : Machine} {r r' : FieldRef} {v v' : Value} {id id' : Int}
    (h : m.Puts r v id) (h' : m.Puts r' v' id') : r' = r ∧ v' = v ∧ id' = id := by
  cases h with
  | field hm hi hr hs =>
    cases h' with
    | field hm' hi' hr' hs' =>
      cases hm.symm.trans hm'
      cases hi.unique hi'
      cases hr.symm.trans hr'
      cases hs.symm.trans hs'
      exact ⟨rfl, rfl, rfl⟩
    | static hm' hi' hr' howner' hs' =>
      cases hm.symm.trans hm'
      cases hi.unique hi'
  | static hm hi hr howner hs =>
    cases h' with
    | field hm' hi' hr' hs' =>
      cases hm.symm.trans hm'
      cases hi.unique hi'
    | static hm' hi' hr' howner' hs' =>
      cases hm.symm.trans hm'
      cases hi.unique hi'
      cases hr.symm.trans hr'
      cases hs.symm.trans hs'
      exact ⟨rfl, rfl, rfl⟩

section Steps

variable {m m' : Machine} {f : Frame} {rest : List Frame}

/-- A step of a storing instruction stores a value of the type that the field constant spells. -/
theorem StepsTo.stores {i : Instruction} (h : StepsTo m m') (hm : m.frames = f :: rest)
    (hi : f.Fetches i) (hstores : i.storesField = true) : ∃ r v id, m.Puts r v id ∧
      (∀ t, r.type = .value t → v.kind ∈ t.kinds) ∧ Stores m m' id r.nameType.name v := by
  obtain ⟨opcode, next, console, hop, hdec, hrun⟩ := step_runs hm hi h.2
  cases i with
  | putField index =>
    obtain ⟨r, v, id, below, hr, hoperands, hkind, hstore⟩ := putField_ok hrun
    exact ⟨r, v, id, .field hm hi hr hoperands, hkind, hstore⟩
  | putStatic index =>
    obtain ⟨r, v, below, hr, howner, hoperands, hkind, hstore⟩ := putStatic_ok hrun
    exact ⟨r, v, 0, .static hm hi hr howner hoperands, hkind, hstore⟩
  | _ => cases hstores

/-- A store into a field that succeeds is of a value of the type that its constant spells. -/
theorem StepsTo.put {r : FieldRef} {v : Value} {id : Int} (h : StepsTo m m')
    (hput : m.Puts r v id) :
    (∀ t, r.type = .value t → v.kind ∈ t.kinds) ∧ Stores m m' id r.nameType.name v := by
  have hstores : ∃ r v id, m.Puts r v id ∧ (∀ t, r.type = .value t → v.kind ∈ t.kinds) ∧
      Stores m m' id r.nameType.name v := by
    cases hput with
    | field hm hi hr hs => exact h.stores hm hi rfl
    | static hm hi hr howner hs => exact h.stores hm hi rfl
  obtain ⟨r', v', id', hput', hkind, hstore⟩ := hstores
  obtain ⟨rfl, rfl, rfl⟩ := hput.unique hput'
  exact ⟨hkind, hstore⟩

/-- A read of a field that succeeds pushes what the field holds, or its zero. -/
theorem StepsTo.get {r : FieldRef} {below : Stack} {id : Int} (h : StepsTo m m')
    (hget : m.Gets r below id) : Fetched m m' r id below := by
  cases hget with
  | field hm hi hr hs =>
    obtain ⟨opcode, next, console, hop, hdec, hrun⟩ := step_runs hm hi h.2
    obtain ⟨r', id', below', hr', hoperands, hfetched⟩ := getField_ok hrun
    cases hr.symm.trans hr'
    cases hs.symm.trans hoperands
    rwa [Fetched, hm]
  | static hm hi hr howner hs =>
    obtain ⟨opcode, next, console, hop, hdec, hrun⟩ := step_runs hm hi h.2
    have hfetched := getStatic_ok hrun hr howner
    subst hs
    rwa [Fetched, hm]

end Steps

end Machine

namespace Heap

structure KeepsFields (h h' : Heap) : Prop where
  kept : ∀ id name v, h.cell? (.field id name) = some v → h'.cell? (.field id name) = some v
  fresh :
    ∀ id name v, h.cell? (.field id name) = none → h'.cell? (.field id name) = some v → v = .null

theorem Extends.keepsFields {Fresh : Entry → Prop} {h h' : Heap} (hx : h.Extends Fresh h')
    (hnull : ∀ owner fields, Fresh (.object owner fields) →
      ∃ names, fields = Fields.fresh names) :
    h.KeepsFields h' := by
  refine ⟨fun id name v hv => hx.cell? hv, fun id name v hnone hv => ?_⟩
  by_cases hhas : h.Has id
  · obtain ⟨w, hw⟩ := hx.evolves.cell?_of_has (c := .field id name) hhas hv
    cases hnone.symm.trans hw
  · simp only [Heap.cell?] at hv
    split at hv
    · rename_i hget
      obtain ⟨names, rfl⟩ := hnull _ _ (hx.fresh_of_get? hhas hget)
      exact Fields.get?_fresh hv
    · cases hv

theorem keepsFields_setElement {h : Heap} {id : Int} {element : FieldType}
    {elements : Array Value} {index : Nat} {old : Value}
    (hget : h.get? id = some (.array element elements)) (hold : elements[index]? = some old)
    (v : Value) : h.KeepsFields (h.setElement id index v) := by
  have hsame : ∀ object name, (h.setElement id index v).cell? (.field object name) =
      h.cell? (.field object name) :=
    fun object name => (cell?_setElement hget hold _).trans (if_neg nofun)
  refine ⟨fun object name w hw => (hsame object name).trans hw, fun object name w hnone hw => ?_⟩
  rw [hsame object name, hnone] at hw
  cases hw

end Heap

namespace Machine

theorem Quiet.keepsFields {m m' : Machine} (h : m.Quiet m') : m.heap.KeepsFields m'.heap :=
  h.heap.keepsFields fun _ _ hf => ⟨_, hf.fields_eq⟩

/-- Instructions that store into no field keep them all. -/
theorem Finishes.keepsFields {start m' : Machine} {i : Instruction} (h : Finishes start i m')
    (hi : i.storesField = false) : start.heap.KeepsFields m'.heap := by
  obtain ⟨m, hq, hend⟩ := h
  have hkept := hq.keepsFields
  cases hend with
  | silent | library => exact hkept
  | assign hheap hslot hm hold hset hv h =>
    rw [h.heap]
    exact hkept
  | setField hheap hstores hget hold hv h => cases hi.symm.trans hstores
  | setElement hheap hget hold hstorable hv h =>
    rw [h.heap, ← hheap]
    exact Heap.keepsFields_setElement hget hold _
  | call hheap href howner h =>
    obtain ⟨_, _, _, _, _, _, h⟩ := h
    rw [h.heap]
    exact hkept
  | ret hheap hsome hv h =>
    cases h with
    | toHost hm h | toCaller hm h =>
      rw [h.heap]
      exact hkept

/-- A transition either leaves the fields alone or is a store. -/
theorem Transition.fields {Pushable : Machine → Value → Prop} {m m' : Machine}
    (ht : Transition Pushable m m') : m.heap.KeepsFields m'.heap ∨
      StepsTo m m' ∧ ∃ r v id, m.Puts r v id := by
  have hsame : m'.heap = m.heap → m.heap.KeepsFields m'.heap := by
    intro heq
    rw [heq]
    exact (Quiet.refl m).keepsFields
  cases ht with
  | push | configure => exact .inl (hsame rfl)
  | pop hm h =>
    unfold hostPop at h
    split at h
    · cases h
    · cases h
      exact .inl (hsame rfl)
  | texts hm args => exact .inl ((extends_pushTexts m args).keepsFields fun _ _ hf => nomatch hf)
  | enter hm h =>
    obtain ⟨m₁, hq, -, _, _, _, _, _, _, h⟩ := (ends_enter (Quiet.refl m)).of_ok h
    rw [h.heap]
    exact .inl hq.keepsFields
  | refuse hm h => exact .inl ((ends_enter (Quiet.refl m)).of_error h).keepsFields
  | step h =>
    obtain ⟨f, rest, hm⟩ := List.exists_cons_of_ne_nil h.1
    obtain ⟨i, hfetch, hi⟩ := step_ok hm h.2
    cases hstores : i.storesField with
    | false => exact .inl (hi.keepsFields hstores)
    | true =>
      obtain ⟨r, v, id, hput, -⟩ := h.stores hm hfetch hstores
      exact .inr ⟨h, r, v, id, hput⟩
  | fault hm h => exact .inl (step_error h).keepsFields

/-- On some way from `start` to the machine, `last` is the value of the last successful store into
the field of the object, if there was any. -/
inductive LastPut (Pushable : Machine → Value → Prop) (start : Machine) (id : Int)
    (name : Bytes) :
    Machine → Option Value → Prop
  | initial : LastPut Pushable start id name start none
  | put {m m' : Machine} {last : Option Value} {r : FieldRef} {v : Value}
      (h : LastPut Pushable start id name m last) (hstep : StepsTo m m') (hput : m.Puts r v id)
      (hname : r.nameType.name = name) : LastPut Pushable start id name m' (some v)
  | other {m m' : Machine} {last : Option Value} (h : LastPut Pushable start id name m last)
      (ht : Transition Pushable m m')
      (hother : ∀ r v, StepsTo m m' → m.Puts r v id → r.nameType.name ≠ name) :
      LastPut Pushable start id name m' last

/-- In every state that the host can reach, each field has a last store or none. -/
theorem Reaches.lastPut {Pushable : Machine → Value → Prop} {start m : Machine}
    (h : Reaches Pushable start m) (id : Int) (name : Bytes) :
    ∃ last, LastPut Pushable start id name m last := by
  induction h with
  | refl => exact ⟨none, .initial⟩
  | @tail m₁ m₂ _ ht ih =>
    obtain ⟨last, hlast⟩ := ih
    by_cases hput : ∃ r v, StepsTo m₁ m₂ ∧ m₁.Puts r v id ∧ r.nameType.name = name
    · obtain ⟨r, v, hstep, hput, hname⟩ := hput
      exact ⟨some v, .put hlast hstep hput hname⟩
    · exact ⟨last, .other hlast ht fun r v hstep hp hname => hput ⟨r, v, hstep, hp, hname⟩⟩

structure Accounted (program : Class) (id : Int) (name : Bytes) (m : Machine)
    (last : Option Value) :
    Prop where
  loaded : m.program = program
  cell : ∀ v, m.heap.cell? (.field id name) = some v → v = last.getD .null
  absent : m.heap.cell? (.field id name) = none → last = none
  typed :
    ∀ v, last = some v → ∀ field ∈ program.fields, field.name = name → v.kind ∈ field.type.kinds

section Histories

variable {file : ClassFile} {program : Class} {library : Library} {settings : Settings}
  {runId : Bytes} {console : Console} {Pushable : Machine → Value → Prop} {m m' : Machine}
  {id : Int} {name : Bytes} {last : Option Value}

theorem accounted_start (program : Class) (library : Library) (settings : Settings)
    (runId : Bytes) (console : Console) (id : Int) (name : Bytes) :
    Accounted program id name (start program library settings runId console) none := by
  refine ⟨start_program .., fun v hv => ?_, fun _ => rfl, nofun⟩
  have hkeeps : Heap.KeepsFields {} (start program library settings runId console).heap := by
    rw [start_heap]
    have hextends : Heap.Extends (Fresh program library) {} (Heap.alloc {} _) :=
      Heap.extends_alloc {} .object
    exact hextends.keepsFields fun _ _ hf => ⟨_, hf.fields_eq⟩
  exact hkeeps.fresh id name v (by simp [Heap.cell?, Heap.get?]) hv

theorem Accounted.keepsFields (h : Accounted program id name m last) (hp : m'.program = m.program)
    (hk : m.heap.KeepsFields m'.heap) : Accounted program id name m' last := by
  refine ⟨hp.trans h.loaded, fun v hv => ?_, fun hnone => ?_, h.typed⟩
  · cases hold : m.heap.cell? (.field id name) with
    | none =>
      rw [h.absent hold]
      exact hk.fresh id name v hold hv
    | some w =>
      cases hv.symm.trans (hk.kept id name w hold)
      exact h.cell v hold
  · cases hold : m.heap.cell? (.field id name) with
    | none => exact h.absent hold
    | some w => cases hnone.symm.trans (hk.kept id name w hold)

theorem Stores.cell? {target : Int} {field : Bytes} {v : Value} (h : Stores m m' target field v)
    (c : Cell) :
    m'.heap.cell? c = if Cell.field target field = c then some v else m.heap.cell? c := by
  obtain ⟨owner, fields, old, hget, hold, hheap⟩ := h
  rw [hheap]
  exact Heap.cell?_setField hget hold c

/-- A store into another field, or another object, leaves the field alone. -/
theorem Accounted.stores (h : Accounted program id name m last) (hp : m'.program = m.program)
    {target : Int} {field : Bytes} {v : Value} (hs : Stores m m' target field v)
    (hne : target = id → field ≠ name) : Accounted program id name m' last := by
  have hsame : m'.heap.cell? (.field id name) = m.heap.cell? (.field id name) := by
    rw [hs.cell?, if_neg]
    intro heq
    injection heq with hid hname
    exact hne hid hname
  exact ⟨hp.trans h.loaded,
    fun v hv => h.cell v (hsame ▸ hv), fun hnone => h.absent (hsame ▸ hnone), h.typed⟩

/-- A field holds the value of the last store into it, which is of the declared type. -/
theorem LastPut.accounted (hload : Class.load file = .ok program)
    (hagree : file.FieldsAgree program.pool)
    (h : LastPut Pushable (start program library settings runId console) id name m last) :
    Accounted program id name m last := by
  induction h with
  | initial => exact accounted_start ..
  | @put m m' last r v h hstep hput hname ih =>
    have hp : m'.program = program :=
      (Transition.kept (.step hstep : Transition Pushable _ _)).1.trans ih.loaded
    obtain ⟨index, hr⟩ := hput.fieldRef
    obtain ⟨hkind, hstore⟩ := hstep.put hput
    have hcell : m'.heap.cell? (.field id name) = some v := by
      rw [hstore.cell?, hname, if_pos rfl]
    refine ⟨hp, fun w hw => ?_, fun hnone => ?_, ?_⟩
    · cases hw.symm.trans hcell
      rfl
    · cases hnone.symm.trans hcell
    · rintro w ⟨⟩ field hfield hfieldName
      rw [ih.loaded] at hr
      exact hkind _ (hagree.type_eq hload hr hfield (hfieldName.trans hname.symm))
  | other h ht hother ih =>
    rcases ht.fields with hkeeps | ⟨hstep, r, v, target, hput⟩
    · exact ih.keepsFields ht.kept.1 hkeeps
    · refine ih.stores ht.kept.1 (hstep.put hput).2 ?_
      rintro rfl
      exact hother r v hstep hput

/-- What a read makes of the value that a field holds. -/
theorem fieldValue_eq {t : FieldType} (htyped : ∀ v, last = some v → v.kind ∈ t.kinds) :
    fieldValue (.value t) (last.getD .null) = last.getD t.zero ∧
    (last.getD t.zero).kind ∈ t.kinds := by
  cases last with
  | none => exact ⟨rfl, t.kind_zero⟩
  | some v =>
    have hkind := htyped v rfl
    refine ⟨?_, hkind⟩
    cases v with
    | null => exact FieldType.zero_of_null hkind
    | _ => rfl

theorem Gets.fieldRef {r : FieldRef} {below : Stack} (h : m.Gets r below id) :
    ∃ index, m.program.pool.fieldRef index = .ok r := by
  cases h with
  | field hm hi hr hs => exact ⟨_, hr⟩
  | static hm hi hr howner hs => exact ⟨_, hr⟩

end Histories

theorem Shaped.mem_of_cell? {m : Machine} (hs : m.Shaped) {id : Int} {name : Bytes} {v : Value}
    (hv : m.heap.cell? (.field id name) = some v) : name ∈ m.program.fieldNames := by
  simp only [Heap.cell?] at hv
  split at hv
  · rename_i owner fields hget
    have hmem : name ∈ fields.map (·.1) := List.mem_map.mpr ⟨_, Fields.mem_of_get? hv, rfl⟩
    rwa [hs id owner fields hget, List.mem_eraseDups] at hmem
  · cases hv

/-- If the field constants of a class spell the declared descriptors, then every field of every
object holds null or a value of its declared type. What a read pushes is the value of the last
store into that field of that object, or the zero of the declared type if there was none; so it is
of the declared type. -/
theorem fields_well_typed (file : ClassFile) (program : Class)
    (hload : Class.load file = .ok program) (hagree : file.FieldsAgree program.pool)
    (library : Library) (settings : Settings) (runId : Bytes) (console : Console)
    (Pushable : Machine → Value → Prop) (m : Machine)
    (hreach : Reaches Pushable (start program library settings runId console) m) :
    (∀ id owner fields, m.heap.get? id = some (.object owner fields) → ∀ field ∈ program.fields,
      ∃ v, fields.get? field.name = some v ∧ (v = .null ∨ v.kind ∈ field.type.kinds)) ∧
    ∀ id name, (∃ last, LastPut Pushable (start program library settings runId console) id
      name m last) ∧
      ∀ last, LastPut Pushable (start program library settings runId console) id name m last →
      ∀ r below m', m.Gets r below id → r.nameType.name = name → StepsTo m m' →
        name ∈ program.fieldNames ∧ m'.frames.tail = m.frames.tail ∧
        ∀ field ∈ program.fields, field.name = name →
          m'.operands = last.getD field.type.zero :: below ∧
            (last.getD field.type.zero).kind ∈ field.type.kinds := by
  have hprogram : m.program = program := hreach.program.trans (start_program ..)
  have hshaped := hreach.shaped (shaped_start _ _ _ _ _)
  refine ⟨fun id owner fields hget field hfield => ?_, fun id name =>
    ⟨hreach.lastPut id name, ?_⟩⟩
  · have hnames := hshaped id owner fields hget
    have hmem : field.name ∈ fields.map (·.1) := by
      rw [hnames, hprogram, List.mem_eraseDups]
      exact List.mem_map_of_mem hfield
    obtain ⟨v, hv⟩ := Fields.get?_of_mem hmem
    refine ⟨v, hv, ?_⟩
    obtain ⟨last, hlast⟩ := hreach.lastPut id field.name
    have haccounted := hlast.accounted hload hagree
    have heq := haccounted.cell v ((cell?_of_get? hget).trans hv)
    cases last with
    | none => exact .inl heq
    | some w =>
      subst heq
      exact .inr (haccounted.typed v rfl field hfield rfl)
  · intro last hlast r below m' hgets hname hstep
    have haccounted := hlast.accounted hload hagree
    obtain ⟨index, hr⟩ := hgets.fieldRef
    rw [hprogram] at hr
    obtain ⟨v, hcell, hoperands, htail⟩ := hstep.get hgets
    rw [hname] at hcell
    cases haccounted.cell v hcell
    refine ⟨?_, htail, fun field hfield hfieldName => ?_⟩
    · rw [← hprogram]
      exact hshaped.mem_of_cell? hcell
    · obtain ⟨hvalue, hkind⟩ :=
        fieldValue_eq fun w hw => haccounted.typed w hw field hfield hfieldName
      rw [hagree.type_eq hload hr hfield (hfieldName.trans hname.symm), hvalue] at hoperands
      exact ⟨hoperands, hkind⟩

def rereadCode : Bytes :=
  [0xBB, 0, 2, 0x59, 0x04, 0xB5, 0, 6, 0x59, 0x05, 0xB5, 0, 6, 0xB4, 0, 6, 0xB1]

def rereadFile : ClassFile where
  minor := 0
  major := 52
  pool := #[none, some (.utf8 "T"), some (.classRef 1), some (.utf8 "x"), some (.utf8 "I"),
    some (.nameAndType 3 4), some (.fieldRef 2 5)]
  flags := 0x21
  thisClass := 2
  superClass := 0
  interfaces := []
  fields := [⟨0, 3, 4, "x", "I", []⟩, ⟨8, 0, 0, "total", "J", []⟩]
  methods := [⟨⟨8, 0, 0, "main", "()V", []⟩, some ⟨3, 0, rereadCode, [], [], [], []⟩⟩]

def rereadField : FieldRef :=
  ⟨⟨"T", 1⟩, ⟨"x", "I", .plain (.value (.primitive .int))⟩, .value (.primitive .int)⟩

def reread : Class where
  name := "T"
  super := []
  pool := #[none, some (.utf8 "T"), some (.classRef ⟨"T", 1⟩), some (.utf8 "x"), some (.utf8 "I"),
    some (.nameType ⟨"x", "I", .plain (.value (.primitive .int))⟩), some (.fieldRef rereadField)]
  fields := [⟨"x", .primitive .int, false⟩, ⟨"total", .primitive .long, true⟩]
  methods := [
    { owner := "T", name := "main", descriptor := "()V", signature := ⟨[], .void⟩,
      isStatic := true, maxStack := 3, code := rereadCode.toArray,
      lines := Array.replicate 17 (-1) }]

def rereadRun : Machine := reread.after (.byName "main") 7

/-- 1 and then 2 are stored into a field, and the next step reads it. It gives 2, and the field
that was never stored to holds null. -/
theorem fields_well_typed_reread : Class.load rereadFile = .ok reread ∧
    rereadFile.FieldsAgree reread.pool ∧
    Reaches (fun _ _ => True) (start reread .default {} [] {}) rereadRun ∧
    rereadRun.heap.cell? (.field 1 "total") = some .null ∧
    ∃ last m', LastPut (fun _ _ => True) (start reread .default {} [] {}) 1 "x" rereadRun last ∧
      rereadRun.Gets rereadField [] 1 ∧ StepsTo rereadRun m' ∧
      m'.operands = [.int 2] ∧ m'.operands = [last.getD (.int 0)] := by
  have hload : Class.load rereadFile = .ok reread := by decide +kernel
  have hagree : rereadFile.FieldsAgree reread.pool := by decide +kernel
  have hreach : Reaches (fun _ _ => True) (start reread .default {} [] {}) rereadRun :=
    reread.reaches_after _ _
  have htop : rereadRun.frames.map (fun f => (f.method.code, f.pc, f.stack)) =
      [(rereadCode.toArray, 13, [.ref 1])] := by
    decide +kernel
  obtain ⟨f, rest, hm, hf, -⟩ := List.map_eq_cons_iff.mp htop
  simp only [Prod.mk.injEq] at hf
  obtain ⟨hcode, hpc, hstack⟩ := hf
  have hfetch : f.Fetches (.getField 6) := by
    refine ⟨0xB4, 16, ?_, ?_⟩
    · rw [hcode, hpc]
      rfl
    · rw [hcode, hpc]
      rfl
  have hprogram : rereadRun.program = reread := hreach.program.trans (start_program ..)
  have hgets : rereadRun.Gets rereadField [] 1 :=
    .field hm hfetch (by rw [hprogram]; decide +kernel) hstack
  have hstep : rereadRun.stepped?.map (·.operands) = some [.int 2] := by decide +kernel
  obtain ⟨m', hstepped, hoperands⟩ := Option.map_eq_some_iff.mp hstep
  have hsteps : StepsTo rereadRun m' :=
    stepsTo_of_stepped? (by rw [hm]; exact List.cons_ne_nil _ _) hstepped
  obtain ⟨-, hreads⟩ :=
    fields_well_typed rereadFile reread hload hagree .default {} [] {} _ rereadRun hreach
  obtain ⟨⟨last, hlast⟩, hread⟩ := hreads 1 "x"
  obtain ⟨-, -, hvalue⟩ := hread last hlast rereadField [] m' hgets rfl hsteps
  have hx := (hvalue ⟨"x", .primitive .int, false⟩ (by decide) rfl).1
  exact ⟨hload, hagree, hreach, by decide +kernel, last, m', hlast, hgets, hsteps, hoperands, hx⟩

end Machine

end ClassTrace
