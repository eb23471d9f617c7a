import ClassTrace.Proofs.Changes

/-!
Arrays keep to the types of their elements. An element starts as null, or as an argument of the
program where the host makes the array; a store puts in a value of the kind of the element type,
narrowed as its opcode says, and nothing else touches it. A load replaces null by the zero of the
element type, so what it pushes is of that kind, whatever its opcode.
-/
namespace ClassTrace

/-- No type of values has the descriptor of void. -/
theorem FieldType.encode_ne_void (t : FieldType) : t.encode ≠ ResultType.void.encode := by
  intro h
  have hhead : t.encode.head? = some 'V'.toUInt8 := congrArg List.head? h
  cases t with
  | primitive p => cases p <;> exact absurd hhead (by decide)
  | object name =>
    change some 'L'.toUInt8 = some 'V'.toUInt8 at hhead
    exact absurd hhead (by decide)
  | array element =>
    change some '['.toUInt8 = some 'V'.toUInt8 at hhead
    exact absurd hhead (by decide)

/-- What is known of one element of an array: its type, the argument of the program that the host
put there and the last value stored there. -/
structure ElementRecord where
  type : FieldType
  argument : Option Bytes := none
  last : Option Value := none

namespace ElementRecord

def content? (e : ElementRecord) : Option Value := e.last <|> e.argument.map .string

def value (e : ElementRecord) : Value := e.content?.getD e.type.zero

end ElementRecord

/-- What may be stored into an array is of the kind of its elements. -/
theorem storable_kind {element : FieldType} {v : Value} (h : Machine.storable element v = true) :
    v.kind ∈ element.kinds := by
  unfold Machine.storable at h
  cases element with
  | primitive p =>
    have hkind : (FieldType.primitive p).zero.kind = v.kind := of_decide_eq_true h
    rw [← hkind]
    exact FieldType.kind_zero _
  | object name | array element => exact Value.kind_of_isReference h

/-- The eight opcodes that load an element are one instruction. -/
theorem Instruction.decode_arrayLoad {opcode : UInt8} (hlow : 0x2E ≤ opcode)
    (hhigh : opcode ≤ 0x35) (code : Array UInt8) (pc : Nat) :
    decode opcode code pc = .ok .arrayLoad pc := by
  have hlow' : 0x2E ≤ opcode.toNat := UInt8.le_iff_toNat_le.mp hlow
  have hhigh' : opcode.toNat ≤ 0x35 := UInt8.le_iff_toNat_le.mp hhigh
  have hdecode : decode opcode = pure .arrayLoad := by
    unfold decode
    dsimp only
    rw [if_neg (by omega), if_neg (by omega), if_pos hhigh']
  rw [hdecode]
  rfl

namespace Heap

theorem get?_setElement_self {h : Heap} {id : Int} {element : FieldType} {elements : Array Value}
    (hget : h.get? id = some (.array element elements)) (index : Nat) (v : Value) :
    (h.setElement id index v).get? id = some (.array element (elements.setIfInBounds index v)) :=
  get?_modify_self hget

/-- A store into an array keeps the types of all arrays. -/
theorem array_of_setElement {h : Heap} {target : Int} {index : Nat} {v : Value} {id : Int}
    {element : FieldType} {elements : Array Value}
    (hget : (h.setElement target index v).get? id = some (.array element elements)) :
    ∃ elements', h.get? id = some (.array element elements') := by
  unfold setElement at hget
  rw [get?_modify] at hget
  split at hget
  · obtain ⟨e, he, heq⟩ := Option.map_eq_some_iff.mp hget
    cases e with
    | array element' elements' =>
      cases heq
      exact ⟨elements', he⟩
    | _ => cases heq
  · exact ⟨elements, hget⟩

/-- Replacing a map leaves all other entries alone. -/
theorem get?_setMap_of_ne {h : Heap} {target : Int} {entries : KeyedMap Value} {id : Int}
    {e : Entry} (he : ∀ entries', e ≠ .map entries') :
    (h.setMap target entries).get? id = some e ↔ h.get? id = some e := by
  unfold setMap
  rw [get?_modify]
  split
  · cases h.get? id with
    | none => rfl
    | some e₀ =>
      cases e₀ with
      | map entries₀ =>
        refine iff_of_false ?_ ?_
        · rintro ⟨⟩
          exact he _ rfl
        · rintro ⟨⟩
          exact he _ rfl
      | _ => rfl
  · rfl

end Heap

/-- The default library makes nothing but maps. -/
theorem Library.default_maker {name : Bytes} {blueprint : Blueprint}
    (h : Library.default.maker? name = some (.build blueprint)) : blueprint = .map := by
  have hall : ∀ p ∈ Library.default.makers, p.2 = .build .map := by simp [Library.default]
  exact Maker.build.inj (hall _ (mem_of_lookup h))

namespace Machine

/-- A transition from `m` to `m'` makes the array: by an instruction, or by the host from the
arguments of a program. The instruction need not succeed, as there may be no room to push the
reference. -/
inductive Creates (m : Machine) : Machine → Int → FieldType → List Bytes → Prop
  | instruction {m' : Machine} {element : FieldType} {length : Nat}
      (h : m.NewArray element length) :
      Creates m m' m.heap.next element []
  | texts (hm : m.frames = []) (args : List Bytes) :
      Creates m (m.pushTexts args) m.heap.next (.object "java/lang/String") args

/-- The next instruction loads an element of the array, by any of the eight opcodes; `below` is
what it leaves on the stack. -/
inductive LoadsElement (m : Machine) (id : Int) (i : Int32) (below : Stack) : Prop
  | intro {f : Frame} {rest : List Frame} {opcode : UInt8} (hm : m.frames = f :: rest)
      (hop : f.method.code[f.pc]? = some opcode) (hlow : 0x2E ≤ opcode) (hhigh : opcode ≤ 0x35)
      (hs : f.stack = .int i :: .ref id :: below)

section Steps

variable {Pushable : Machine → Value → Prop} {m m' : Machine}

/-- The instruction makes an array of nulls. -/
theorem NewArray.change {element : FieldType} {length : Nat} (h : m.NewArray element length) :
    m.change = .make (.array element (Array.replicate length .null)) := by
  have hnew :
      ∀ {f : Frame} {rest : List Frame} {n : Int32} {below : Stack}, m.frames = f :: rest →
      f.stack = .int n :: below → 0 ≤ n → ∀ element,
      newArrayChange element m =
        .make (.array element (Array.replicate n.toInt.toNat .null)) := by
    intro f rest n below hm hs hn element
    have hpop : Stack.popInt m.operands = .ok n below := by
      rw [operands_cons hm, hs]
      rfl
    simp only [newArrayChange, onPopped, hpop]
    rw [if_neg (Int32.not_lt.mpr hn)]
  cases h with
  | primitive hm hi hs hn => exact (change_of_fetches hm hi).trans (hnew hm hs hn _)
  | object hm hi hc hs hn =>
    rw [change_of_fetches hm hi]
    simp only [Instruction.change, hc]
    exact hnew hm hs hn _

theorem NewArray.frames_ne {element : FieldType} {length : Nat} (h : m.NewArray element length) :
    m.frames ≠ [] := by
  cases h with
  | primitive hm | object hm =>
    rw [hm]
    exact List.cons_ne_nil _ _

/-- From a machine with a frame, a transition is a step that succeeds or one that fails. -/
theorem Transition.step_or_fault (ht : Transition Pushable m m') (hm : m.frames ≠ []) :
    StepsTo m m' ∨ ∃ e m₁, Machine.step m = .error e m₁ ∧ m' = { m₁ with frames := [] } := by
  cases ht with
  | step h => exact .inl h
  | fault _ h => exact .inr ⟨_, _, h, rfl⟩
  | push hm' | pop hm' | configure hm' | texts hm' | enter hm' | refuse hm' => exact absurd hm' hm

/-- The elements of a new array are null, but for the arguments of a program. -/
theorem Transition.creates (ht : Transition Pushable m m') {id : Int} {element : FieldType}
    {args : List Bytes} (hc : m.Creates m' id element args) :
    ∃ elements, m'.heap.get? id = some (.array element elements) ∧
      ∀ (index : Nat) v, elements[index]? = some v →
        v = (args[index]?.map Value.string).getD .null := by
  cases hc with
  | @instruction _ _ length h =>
    rcases ht.changes with halike | ⟨hm, -⟩
    · refine ⟨Array.replicate length .null, (halike.heap _ _ rfl).mpr ?_, fun index v hv => ?_⟩
      · rw [h.change]
        exact (Heap.get?_alloc ..).trans (if_pos rfl)
      · have hmem := Array.mem_of_getElem? hv
        rw [Array.mem_replicate] at hmem
        simpa using hmem.2
    · exact absurd hm h.frames_ne
  | texts hm args =>
    refine ⟨_, (Heap.get?_alloc ..).trans (if_pos rfl), fun index v hv => ?_⟩
    rw [List.getElem?_toArray, List.getElem?_map] at hv
    rw [hv]
    rfl

/-- A store succeeds only inside of the array and with a value of its kind. -/
theorem storeAt_ok {s : ElementStore} {v : Value} {i : Int32} {a : ArrayRef}
    (h : storeAt s v i a m = .ok () m') : 0 ≤ i ∧ i.toInt.toNat < a.elements.size ∧
      storable a.element (narrow a.element v s) = true := by
  unfold storeAt at h
  by_cases hinside : 0 ≤ i ∧ i.toInt.toNat < a.elements.size
  · obtain ⟨hi, hlt⟩ := hinside
    rw [elementAt_inside hi (Array.getElem?_eq_getElem hlt), pure_bind] at h
    by_cases hstorable : storable a.element (narrow a.element v s) = true
    · exact ⟨hi, hlt, hstorable⟩
    · simp only [hstorable] at h
      cases h
  · rw [elementAt_outside hinside] at h
    cases h

/-- A store that succeeds is within the array, and the narrowed value is one that the array can
hold. -/
theorem StepsTo.storesElement (h : StepsTo m m') {s : ElementStore} {id : Int} {i : Int32}
    {v : Value} (hs : m.StoresElement s id i v) {element : FieldType} {elements : Array Value}
    (hget : m.heap.get? id = some (.array element elements)) :
    0 ≤ i ∧ i.toInt.toNat < elements.size ∧
      storable element (narrow element v s) = true ∧
      m'.heap.get? id =
        some (.array element (elements.setIfInBounds i.toInt.toNat (narrow element v s))) := by
  obtain @⟨f, rest, below, hm, hi, hstack⟩ := hs
  obtain ⟨opcode, next, console, hop, hdec, hrun⟩ := step_runs hm hi h.2
  change arrayStore s _ = _ at hrun
  rw [arrayStore_eq] at hrun
  obtain ⟨⟨v', i', array⟩, m₁, htaken, hrun⟩ := bind_ok_iff.mp hrun
  obtain ⟨below', hpop, rfl⟩ := onStack_ok htaken
  change Stack.popStore s f.stack = _ at hpop
  cases hstack.symm.trans (popStore_ok hpop)
  have harray : m.heap.array id = .ok (element, elements) := by
    simp only [Heap.array, Heap.get, hget]
    rfl
  obtain ⟨p, m₂, hcheck, hrun⟩ := bind_ok_iff.mp (of_get_bind hrun)
  obtain ⟨hfound, rfl⟩ := check_ok hcheck
  rw [(heap_setOperands _ _).1] at hfound
  cases harray.symm.trans hfound
  obtain ⟨hnonneg, hlt, hstorable⟩ := storeAt_ok hrun
  have hchange : m.change = .setElement id i.toInt.toNat (narrow element v s) := by
    rw [change_of_fetches hm hi]
    simp only [Instruction.change, onPopped, operands_cons hm, hpop, storeChange, hget]
    exact if_pos ⟨hnonneg, hlt, hstorable⟩
  have halike := (step_changes m).of_ok h.2
  rw [hchange] at halike
  exact ⟨hnonneg, hlt, hstorable, (halike.heap _ _ rfl).mpr (Heap.get?_setElement_self hget _ _)⟩

/-- An array changes by stores only, and these succeed. -/
theorem Transition.array (ht : Transition Pushable m m') {id : Int} {element : FieldType}
    {elements : Array Value} (hget : m.heap.get? id = some (.array element elements)) :
    m'.heap.get? id = some (.array element elements) ∨ StepsTo m m' ∧
    ∃ s i v, m.StoresElement s id i v ∧
      m'.heap.get? id =
        some (.array element (elements.setIfInBounds i.toInt.toNat (narrow element v s))) := by
  rcases ht.changes with halike | ⟨hm, args, rfl⟩
  · have hkept : (m.change.apply m).heap.get? id = some (.array element elements) →
        m'.heap.get? id = some (.array element elements) := (halike.heap id _ rfl).mpr
    have hnew : ∀ e, (m.heap.alloc e).get? id = some (.array element elements) := fun e =>
      (Heap.get?_alloc ..).trans ((if_neg (Heap.ne_next_of_get? hget)).trans hget)
    have hoccasion := m.change_occasion
    generalize hc : m.change = c at hoccasion halike hkept
    cases hoccasion with
    | nothing | remembered | printed => exact .inl (hkept hget)
    | newArray h | built h | opened h => exact .inl (hkept (hnew _))
    | put h hmap =>
      exact .inl
        (hkept ((Heap.get?_setMap_of_ne (e := .array element elements) fun _ => nofun).mpr hget))
    | @stored s target i v element' elements' h hget' hi hlt hstorable =>
      by_cases hid : target = id
      · subst hid
        cases hget.symm.trans hget'
        have hne : m.frames ≠ [] := by
          obtain ⟨hm, -, -⟩ := h
          rw [hm]
          exact List.cons_ne_nil _ _
        rcases ht.step_or_fault hne with hstep | ⟨e, m₁, herror, rfl⟩
        · refine .inr ⟨hstep, s, i, v, h, (halike.heap _ _ rfl).mpr ?_⟩
          exact Heap.get?_setElement_self hget _ _
        · refine .inl ?_
          have hx := (step_error herror).heap
          obtain ⟨h0, hentry⟩ := Heap.get?_eq_some_iff.mp hget
          obtain ⟨e', he', hk⟩ := hx.kept _ _ hentry
          rcases hk with rfl | ⟨_, _, hmap, -⟩
          · exact Heap.get?_eq_some_iff.mpr ⟨h0, he'⟩
          · cases hmap
      · have hother : (m.heap.setElement target i.toInt.toNat (narrow element' v s)).get? id =
            m.heap.get? id :=
          Heap.get?_modify_of_ne hget' (Ne.symm hid)
        exact .inl (hkept (hother.trans hget))
  · refine .inl ((Heap.get?_alloc ..).trans ?_)
    rw [if_neg (Heap.ne_next_of_get? hget)]
    exact hget

theorem popArray_ok {a : ArrayRef} (h : popArray m = .ok a m') : ∃ below,
    m.operands = .ref a.id :: below ∧ m' = m.setOperands below ∧
      m.heap.get? a.id = some (.array a.element a.elements) := by
  obtain ⟨v, m₁, hstack, h₁⟩ := bind_ok_iff.mp h
  obtain ⟨below, hpop, rfl⟩ := onStack_ok hstack
  have hoperands : m.operands = v :: below := (Stack.popReference_pops _).of_ok hpop
  cases v with
  | ref id =>
    obtain ⟨⟨element, elements⟩, m₂, hcheck, h₂⟩ := bind_ok_iff.mp (of_get_bind h₁)
    obtain ⟨harray, rfl⟩ := check_ok hcheck
    rw [(heap_setOperands m below).1] at harray
    cases h₂
    exact ⟨below, hoperands, rfl, Heap.array_eq_ok harray⟩
  | _ => cases h₁

/-- A load that succeeds pushes what the element holds, with null replaced by a zero. -/
theorem StepsTo.loadsElement (h : StepsTo m m') {id : Int} {i : Int32} {below : Stack}
    (hl : m.LoadsElement id i below) {element : FieldType} {elements : Array Value}
    (hget : m.heap.get? id = some (.array element elements)) :
    ∃ v, elements[i.toInt.toNat]? = some v ∧ m'.operands = Entry.element element v :: below ∧
      m'.frames.tail = m.frames.tail := by
  obtain ⟨hm, hop, hlow, hhigh, hstack⟩ := hl
  obtain ⟨opcode, next, console, hop', hdec, hrun⟩ :=
    step_runs hm ⟨_, _, hop, Instruction.decode_arrayLoad hlow hhigh _ _⟩ h.2
  obtain ⟨i', m₁, htaken, h₁⟩ := bind_ok_iff.mp hrun
  obtain ⟨s₁, hpop, rfl⟩ := onStack_ok htaken
  have hs₁ : _ = Value.int i' :: s₁ := (Stack.popInt_pops _).of_ok hpop
  cases hstack.symm.trans hs₁
  obtain ⟨a, m₂, harray, h₂⟩ := bind_ok_iff.mp h₁
  obtain ⟨s₂, hs₂, rfl, hfound⟩ := popArray_ok harray
  rw [operands_setOperands] at hs₂
  rw [(heap_setOperands _ _).1] at hfound
  cases hs₂
  cases hget.symm.trans hfound
  obtain ⟨v, m₃, helement, h₃⟩ := bind_ok_iff.mp h₂
  obtain ⟨hstack₃, htail⟩ := push_stack h₃
  by_cases hinside : 0 ≤ i ∧ i.toInt.toNat < a.elements.size
  · have hv := Array.getElem?_eq_getElem hinside.2
    rw [elementAt_inside hinside.1 hv] at helement
    cases helement
    refine ⟨_, hv, ?_, ?_⟩
    · rw [hstack₃, operands_setOperands]
    · rw [htail, tail_setOperands, tail_setOperands, hm]
      rfl
  · rw [elementAt_outside hinside] at helement
    cases helement

end Steps

section Histories

variable {Pushable : Machine → Value → Prop} {start m m' : Machine} {id : Int}
  {element : FieldType} {index : Nat} {e : ElementRecord}

/-- On some way from `start` to the machine, an instruction or the host has made the array. -/
inductive Created (Pushable : Machine → Value → Prop) (start : Machine) (id : Int)
    (element : FieldType) :
    Machine → Prop
  | new {m m' : Machine} {args : List Bytes} (hr : Reaches Pushable start m)
      (ht : Transition Pushable m m') (hc : m.Creates m' id element args) :
      Created Pushable start id element m'
  | later {m m' : Machine} (h : Created Pushable start id element m)
      (ht : Transition Pushable m m') :
      Created Pushable start id element m'

/-- On some way from `start` to the machine, this is what became of one element since the array
was made. What counts as stored is the value after the narrowing of the opcode that stored it. -/
inductive ElementHistory (Pushable : Machine → Value → Prop) (start : Machine) (id : Int)
    (index : Nat) :
    Machine → ElementRecord → Prop
  | created {m m' : Machine} {element : FieldType} {args : List Bytes}
      (hr : Reaches Pushable start m) (ht : Transition Pushable m m')
      (hc : m.Creates m' id element args) :
      ElementHistory Pushable start id index m' { type := element, argument := args[index]? }
  | stored {m m' : Machine} {e : ElementRecord} {s : ElementStore} {i : Int32} {v : Value}
      (h : ElementHistory Pushable start id index m e) (hstep : StepsTo m m')
      (hs : m.StoresElement s id i v) (hi : i.toInt = index) :
      ElementHistory Pushable start id index m' { e with last := some (narrow e.type v s) }
  | other {m m' : Machine} {e : ElementRecord} (h : ElementHistory Pushable start id index m e)
      (ht : Transition Pushable m m')
      (hother : ∀ s i v, StepsTo m m' → m.StoresElement s id i v → i.toInt ≠ index) :
      ElementHistory Pushable start id index m' e

/-- Every element of an array that was made has a history. -/
theorem Created.history (h : Created Pushable start id element m) (index : Nat) :
    ∃ e, ElementHistory Pushable start id index m e ∧ e.type = element := by
  induction h with
  | new hr ht hc => exact ⟨_, .created hr ht hc, rfl⟩
  | @later m₁ m₂ _ ht ih =>
    obtain ⟨e, he, htype⟩ := ih
    by_cases hs : ∃ s i v, StepsTo m₁ m₂ ∧ m₁.StoresElement s id i v ∧ i.toInt = index
    · obtain ⟨s, i, v, hstep, hs, hi⟩ := hs
      exact ⟨_, .stored he hstep hs hi, htype⟩
    · exact ⟨e, .other he ht fun s i v hstep hstores hi =>
        hs ⟨s, i, v, hstep, hstores, hi⟩, htype⟩

structure Recorded (id : Int) (index : Nat) (m : Machine) (e : ElementRecord) : Prop where
  array : ∃ elements, m.heap.get? id = some (.array e.type elements) ∧
    ∀ v, elements[index]? = some v → v = e.content?.getD .null
  kind : ∀ v, e.content? = some v → v.kind ∈ e.type.kinds

/-- The record of an element of a new array: nothing was stored yet. -/
theorem recorded_created (ht : Transition Pushable m m') {args : List Bytes}
    (hc : m.Creates m' id element args) :
    Recorded id index m' { type := element, argument := args[index]? } := by
  obtain ⟨elements, hget, helements⟩ := ht.creates hc
  refine ⟨⟨elements, hget, fun v hv => ?_⟩, fun v hv => ?_⟩
  · rw [helements index v hv]
    rfl
  · obtain ⟨text, htext, rfl⟩ :=
      Option.map_eq_some_iff.mp (show args[index]?.map Value.string = some v from hv)
    cases hc with
    | instruction => cases htext
    | texts => simp [Value.kind, FieldType.kinds]

/-- A store into the element makes the new record of it. -/
theorem Recorded.stored (h : Recorded id index m e) (hstep : StepsTo m m') {s : ElementStore}
    {i : Int32} {v : Value} (hs : m.StoresElement s id i v) (hi : i.toInt = index) :
    Recorded id index m' { e with last := some (narrow e.type v s) } := by
  obtain ⟨⟨elements, hget, -⟩, -⟩ := h
  obtain ⟨hnonneg, hlt, hstorable, hstored⟩ := hstep.storesElement hs hget
  have hindex : i.toInt.toNat = index := by omega
  refine ⟨⟨_, hstored, fun w hw => ?_⟩, fun w hw => ?_⟩
  · rw [← hindex, Array.getElem?_setIfInBounds_self_of_lt hlt] at hw
    exact (Option.some.inj hw).symm
  · cases hw
    exact storable_kind hstorable

/-- Nothing else changes the record. -/
theorem Recorded.other (h : Recorded id index m e) (ht : Transition Pushable m m')
    (hother : ∀ s i v, StepsTo m m' → m.StoresElement s id i v → i.toInt ≠ index) :
    Recorded id index m' e := by
  obtain ⟨⟨elements, hget, helements⟩, hkind⟩ := h
  rcases ht.array hget with hkept | ⟨hstep, s, i, v, hs, hstored⟩
  · exact ⟨⟨elements, hkept, helements⟩, hkind⟩
  · obtain ⟨hi, -⟩ := hstep.storesElement hs hget
    refine ⟨⟨_, hstored, fun w hw => ?_⟩, hkind⟩
    have hne : i.toInt.toNat ≠ index := by
      have hdiffer := hother s i v hstep hs
      have hnonneg : 0 ≤ i.toInt := Int32.le_iff_toInt_le.mp hi
      omega
    rw [Array.getElem?_setIfInBounds_ne hne] at hw
    exact helements w hw

/-- What the history of an element tells is what the heap holds. -/
theorem ElementHistory.recorded (h : ElementHistory Pushable start id index m e) :
    Recorded id index m e := by
  induction h with
  | created hr ht hc => exact recorded_created ht hc
  | stored h hstep hs hi ih => exact ih.stored hstep hs hi
  | other h ht hother ih => exact ih.other ht hother

/-- What a load makes of what the element holds. -/
theorem Recorded.value (h : Recorded id index m e) :
    Entry.element e.type (e.content?.getD .null) = e.value ∧ e.value.kind ∈ e.type.kinds :=
  fieldValue_eq h.kind

/-- With the default library, every array of the heap was made by an instruction or by the
host. -/
theorem Reaches.created {program : Class} {settings : Settings} {runId : Bytes}
    {console : Console}
    (h : Reaches Pushable (Machine.start program .default settings runId console) m)
    {elements : Array Value} (hget : m.heap.get? id = some (.array element elements)) :
    Created Pushable (Machine.start program .default settings runId console) id element m := by
  induction h generalizing elements with
  | refl => cases eq_newObject_of_start hget
  | @tail m₁ m₂ hr ht ih =>
    have hold : ∀ {elements'}, m₁.heap.get? id = some (.array element elements') →
        Created Pushable (Machine.start program .default settings runId console) id element m₂ :=
      fun h => .later (ih h) ht
    rcases ht.changes with halike | ⟨hm, args, rfl⟩
    · have hchanged := (halike.heap id _ rfl).mp hget
      have hoccasion := m₁.change_occasion
      generalize m₁.change = c at hoccasion hchanged
      cases hoccasion with
      | nothing | remembered | printed => exact hold hchanged
      | put h hmap =>
        exact hold
          ((Heap.get?_setMap_of_ne (e := .array element elements) fun _ => nofun).mp hchanged)
      | stored h =>
        obtain ⟨elements', helements'⟩ := Heap.array_of_setElement hchanged
        exact hold helements'
      | newArray h =>
        rcases Heap.get?_of_alloc hchanged with hthere | ⟨rfl, heq⟩
        · exact hold hthere
        · cases heq
          exact .new hr ht (.instruction h)
      | built h =>
        rcases Heap.get?_of_alloc hchanged with hthere | ⟨-, heq⟩
        · exact hold hthere
        · rw [(Reaches.library hr).trans (start_library ..)] at h
          cases Library.default_maker h
          cases heq
      | opened h =>
        rcases Heap.get?_of_alloc hchanged with hthere | ⟨-, heq⟩
        · exact hold hthere
        · cases heq
    · rcases Heap.get?_of_alloc hget with hthere | ⟨rfl, heq⟩
      · exact hold hthere
      · cases heq
        exact .new hr ht (.texts hm args)

end Histories

/-- Every array that an instruction or the host has made, which are all of them if the library is
the default one, has elements of a type that is not void. Each of them is null or of the kind of
that type. What a load pushes, whatever its opcode, is what was last stored into that element, or
the argument that the host put there, or the zero of the type; so it is of that kind. -/
theorem arrays_well_kinded (program : Class) (library : Library) (settings : Settings)
    (runId : Bytes) (console : Console) (Pushable : Machine → Value → Prop) (m : Machine)
    (hreach : Reaches Pushable (start program library settings runId console) m) :
    (library = .default → ∀ id element elements, m.heap.get? id = some (.array element elements) →
      Created Pushable (start program library settings runId console) id element m) ∧
    ∀ id element, Created Pushable (start program library settings runId console) id element m →
      element.encode ≠ ResultType.void.encode ∧
      (∃ elements, m.heap.get? id = some (.array element elements) ∧
        ∀ v ∈ elements, v = .null ∨ v.kind ∈ element.kinds) ∧
      ∀ index,
        (∃ e, ElementHistory Pushable (start program library settings runId console) id
          index m e) ∧
        ∀ e, ElementHistory Pushable (start program library settings runId console) id index m e →
          ∀ i below m', m.LoadsElement id i below → i.toInt = index → StepsTo m m' →
            m'.operands = e.value :: below ∧ m'.frames.tail = m.frames.tail ∧
              e.value.kind ∈ element.kinds := by
  refine ⟨fun hlibrary id element elements hget => ?_, fun id element hcreated => ?_⟩
  · subst hlibrary
    exact hreach.created hget
  · -- At every index there is a history, and all of them tell of the one array with the id.
    obtain ⟨e₀, he₀, rfl⟩ := hcreated.history 0
    obtain ⟨elements, hget, -⟩ := he₀.recorded.array
    refine ⟨e₀.type.encode_ne_void, ⟨elements, hget, fun v hv => ?_⟩, fun index => ⟨?_, ?_⟩⟩
    · obtain ⟨index, hindex⟩ := Array.getElem?_of_mem hv
      obtain ⟨e, he, htype⟩ := hcreated.history index
      obtain ⟨⟨elements', hget', hcontent⟩, hkind⟩ := he.recorded
      cases hget.symm.trans (htype ▸ hget')
      have hv := hcontent v hindex
      cases hc : e.content? with
      | none => exact .inl (by rw [hv, hc]; rfl)
      | some w =>
        rw [hc] at hv
        obtain rfl : v = w := hv
        exact .inr (htype ▸ hkind v hc)
    · obtain ⟨e, he, -⟩ := hcreated.history index
      exact ⟨e, he⟩
    · intro e he i below m' hloads hi hstep
      have hrecorded := he.recorded
      obtain ⟨elements', hget', hcontent⟩ := hrecorded.array
      obtain ⟨v, hv, hoperands, htail⟩ := hstep.loadsElement hloads hget'
      have hindex : i.toInt.toNat = index := by omega
      rw [hindex] at hv
      obtain ⟨hvalue, hkind⟩ := hrecorded.value
      obtain ⟨htype, -⟩ := Entry.array.inj (Option.some.inj (hget.symm.trans hget'))
      rw [hcontent v hv, hvalue] at hoperands
      exact ⟨hoperands, htail, htype ▸ hkind⟩

def clipCode : Array UInt8 :=
  #[0x05, 0xBC, 8, 0x59, 0x04, 0x11, 0x01, 0x2C, 0x54, 0x04, 0x33, 0xB1]

def clipping : Class where
  name := "T"
  super := []
  pool := #[none]
  fields := []
  methods := [
    { owner := "T", name := "main", descriptor := "([Ljava/lang/String;)V",
      signature := ⟨[.array (.object "java/lang/String")], .void⟩, isStatic := true,
      maxStack := 4, maxLocals := 1, code := clipCode }]

def clippingRun : Machine := clipping.after (.entry ["hi"]) 7

/-- 300 is stored into an array of bytes. The load gives what is left of it in a byte, and the
argument is where the host put it. -/
theorem arrays_well_kinded_clipping :
    Reaches (fun _ _ => True) (start clipping .default {} [] {}) clippingRun ∧
    clippingRun.heap.cell? (.element 1 0) = some (.string "hi") ∧
    Created (fun _ _ => True) (start clipping .default {} [] {}) 2
      (.primitive .byte) clippingRun ∧
    ∃ e m', ElementHistory (fun _ _ => True)
      (start clipping .default {} [] {}) 2 1 clippingRun e ∧
      clippingRun.LoadsElement 2 1 [] ∧ StepsTo clippingRun m' ∧
      m'.operands = [.int 44] ∧ m'.operands = [e.value] := by
  have hreach : Reaches (fun _ _ => True) (start clipping .default {} [] {}) clippingRun :=
    clipping.reaches_after _ _
  have harray : clippingRun.heap.array 2 = .ok (.primitive .byte, #[.null, .int 44]) := by
    decide +kernel
  have htop : clippingRun.frames.map (fun f => (f.method.code, f.pc, f.stack)) =
      [(clipCode, 10, [.int 1, .ref 2])] := by
    decide +kernel
  have hstep : clippingRun.stepped?.map (·.operands) = some [.int 44] := by decide +kernel
  obtain ⟨f, rest, hm, hf, -⟩ := List.map_eq_cons_iff.mp htop
  simp only [Prod.mk.injEq] at hf
  obtain ⟨hcode, hpc, hstack⟩ := hf
  obtain ⟨m', hstepped, hoperands⟩ := Option.map_eq_some_iff.mp hstep
  have hsteps : StepsTo clippingRun m' :=
    stepsTo_of_stepped? (by rw [hm]; exact List.cons_ne_nil _ _) hstepped
  have hop : f.method.code[f.pc]? = some 0x33 := by
    rw [hcode, hpc]
    rfl
  have hloads : clippingRun.LoadsElement 2 1 [] := ⟨hm, hop, by decide, by decide, hstack⟩
  obtain ⟨hdefault, hmade⟩ :=
    arrays_well_kinded clipping .default {} [] {} (fun _ _ => True) clippingRun hreach
  have hcreated := hdefault rfl 2 _ _ (Heap.array_eq_ok harray)
  obtain ⟨-, -, hindex⟩ := hmade 2 _ hcreated
  obtain ⟨⟨e, he⟩, hvalue⟩ := hindex 1
  obtain ⟨hloaded, -⟩ := hvalue e he 1 [] m' hloads rfl hsteps
  exact ⟨hreach, by decide +kernel, hcreated, e, m', he, hloads, hsteps, hoperands, hloaded⟩

end Machine

end ClassTrace
