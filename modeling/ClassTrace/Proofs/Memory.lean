import ClassTrace.Proofs.Ending

/-!
How the instructions on locals, constants, arrays, fields and statics end. A store takes a value
that was in use before, and the old value that it reports is the one it replaces.
-/
namespace ClassTrace.Machine

variable {m₀ m : Machine}

theorem ends_getLocal {slot : Nat} (h : m₀.Quiet m) :
    Ends m₀.Quiet (onFrame (Frame.getLocal slot)) m fun v m' => m' = m ∧
    v.Within (m₀.Sources m.heap) ∧
      ∃ f rest, m.frames = f :: rest ∧ f.locals[slot]? = some v := by
  unfold Ends onFrame Frame.getLocal
  cases hm : m.frames with
  | nil => exact h
  | cons f rest =>
    simp only [if_pos (Int.natCast_nonneg slot), Int.toNat_natCast]
    cases hv : f.locals[slot]? with
    | none => exact h.rearrange hm (.refl f)
    | some v =>
      refine ⟨by rw [← hm], h.within fun id hid => ?_, f, rest, rfl, hv⟩
      subst hid
      exact .frame (hm ▸ List.mem_cons_self ..) (Or.inr (Array.mem_of_getElem? hv))

theorem ends_setLocal {slot : Nat} {v : Value} {f : Frame} {rest : List Frame} (h : m₀.Quiet m)
    (hm : m.frames = f :: rest) :
    Ends m₀.Quiet (onFrame (Frame.setLocal slot v)) m fun _ m' =>
      ∃ f', Frame.setLocal slot v f = .ok () f' ∧ m' = { m with frames := f' :: rest } := by
  unfold Ends onFrame
  rw [hm]
  dsimp only
  cases hset : Frame.setLocal slot v f with
  | ok _ f' => exact ⟨f', rfl, rfl⟩
  | error e f' =>
    have hf : f' = f := by
      unfold Frame.setLocal at hset
      split at hset
      · cases hset
      · cases hset
        rfl
    exact h.rearrange hm (hf ▸ .refl f)

/-- A store into a local of a value with a source. -/
theorem ends_store {i : Instruction} {slot : Nat} {v : Value} (h : m₀.Quiet m)
    (hh : m.heap = m₀.heap) (hi : i.localSlot? = some slot) (hv : v.Within (m₀.Sources m.heap)) :
    Ends m₀.Quiet (store slot v) m fun _ m' => Finishes m₀ i m' := by
  refine (ends_getLocal h).bind ?_
  rintro old m ⟨rfl, -, f, rest, hm, hold⟩
  refine (ends_setLocal h hm).bind ?_
  rintro _ _ ⟨f', hset, rfl⟩
  exact ⟨m, h, .assign hh hi hm hold hset hv (announces_report _ _)⟩

theorem ends_increment {slot : Nat} {delta : Int32} (h : m₀.Quiet m) (hh : m.heap = m₀.heap) :
    Ends m₀.Quiet (increment slot delta) m fun _ m' =>
      Finishes m₀ (.increment slot delta) m' := by
  refine (ends_getLocal h).bind ?_
  rintro v m ⟨rfl, -, -⟩
  cases v with
  | int n => exact ends_store h hh rfl nofun
  | _ => exact ends_fault h

theorem ends_popArray (h : m₀.Quiet m) :
    Ends m₀.Quiet popArray m fun a m' => m₀.Quiet m' ∧ m'.heap = m.heap ∧
      m.heap.get? a.id = some (.array a.element a.elements) := by
  refine (ends_pop Stack.popReference_pops h).bind ?_
  rintro v m' ⟨h', hheap, -⟩
  cases v with
  | ref id =>
    refine ends_get.bind ?_
    rintro _ _ ⟨rfl, rfl⟩
    refine (ends_check h').bind ?_
    rintro ⟨element, elements⟩ _ ⟨rfl, ha⟩
    refine Ends.of_pure ⟨h', hheap, ?_⟩
    rw [← hheap]
    exact Heap.array_eq_ok ha
  | _ => exact ends_fault h'

theorem ends_elementAt {a : ArrayRef} {i : Int32} (h : m₀.Quiet m) :
    Ends m₀.Quiet (elementAt a i) m fun v m' =>
      m' = m ∧ 0 ≤ i.toInt ∧ a.elements[i.toInt.toNat]? = some v := by
  unfold elementAt
  by_cases hi : i < 0
  · rw [if_pos hi]
    exact ends_fault h
  · rw [if_neg hi]
    have h0 : 0 ≤ i.toInt := by
      have := Int32.le_iff_toInt_le.mp (Int32.not_lt.mp hi)
      simpa using this
    split
    · rename_i v hv
      exact Ends.of_pure ⟨rfl, h0, hv⟩
    · exact ends_fault h

/-- Elements and fields are held by the heap. -/
theorem within_element {id : Int} {element : FieldType} {elements : Array Value} {index : Nat}
    {v : Value} (hget : m.heap.get? id = some (.array element elements))
    (hv : elements[index]? = some v) : v.Within m.Mentions := by
  rintro target rfl
  obtain ⟨-, he⟩ := Heap.get?_eq_some_iff.mp hget
  exact .heap ⟨id.toNat, _, he, Array.mem_of_getElem? hv⟩

theorem within_field {id : Int} {owner name : Bytes} {fields : Fields} {v : Value}
    (hget : m.heap.get? id = some (.object owner fields)) (hv : fields.get? name = some v) :
    v.Within m.Mentions := by
  rintro target rfl
  obtain ⟨-, he⟩ := Heap.get?_eq_some_iff.mp hget
  exact .heap ⟨id.toNat, _, he, name, Fields.mem_of_get? hv⟩

/-- A constant that can be loaded is no heap reference. -/
theorem within_loadable {K : Int → Prop} {pool : ConstantPool} {index : UInt16} {v : Value}
    (hv : pool.loadable index = .ok v) : v.Within K := by
  unfold ConstantPool.loadable at hv
  cases hc : pool.get index with
  | error e =>
    rw [hc] at hv
    cases hv
  | ok c =>
    rw [hc] at hv
    cases c with
    | int | float | long | double | string =>
      cases hv
      exact nofun
    | _ => cases hv

theorem ends_loadConstant {form : ConstantLoad} {index : UInt16} (h : m₀.Quiet m) :
    Ends m₀.Quiet (loadConstant form index) m fun _ m' => m₀.Quiet m' := by
  refine ends_get.bind ?_
  rintro _ m ⟨rfl, rfl⟩
  refine (ends_check h).bind ?_
  rintro v m ⟨rfl, hv⟩
  dsimp only
  split
  · exact ends_fault_bind h
  · exact ends_push h (within_loadable hv)

theorem ends_arrayLoad (h : m₀.Quiet m) :
    Ends m₀.Quiet arrayLoad m fun _ m' => m₀.Quiet m' := by
  refine (ends_onStack Stack.popInt_pops h).bind ?_
  rintro i m ⟨h, -, -⟩
  refine (ends_popArray h).bind ?_
  rintro a m' ⟨h', hheap, hget⟩
  refine (ends_elementAt h').bind ?_
  rintro v m' ⟨rfl, -, hv⟩
  refine ends_push h' ?_
  unfold Entry.element
  split
  · exact Value.within_zero _
  · exact h'.within (within_element (hheap ▸ hget) hv)

theorem ends_arrayLength (h : m₀.Quiet m) :
    Ends m₀.Quiet arrayLength m fun _ m' => m₀.Quiet m' := by
  refine (ends_popArray h).bind ?_
  rintro a m ⟨h, -, -⟩
  exact ends_push h nofun

/-- Narrowing changes ints only. -/
theorem within_narrow {K : Int → Prop} {v : Value} (hv : v.Within K) (element : FieldType)
    (s : ElementStore) : (narrow element v s).Within K := by
  cases s with
  | plain family => exact hv
  | byte =>
    by_cases hb : element = .primitive .boolean
    · simp only [narrow, if_pos hb]
      exact nofun
    · simp only [narrow, if_neg hb]
      exact nofun
  | char => exact nofun
  | short => exact nofun

/-- A store into an array ends with its event, or fails without one. -/
theorem ends_arrayStore {s : ElementStore} (h : m₀.Quiet m) (hh : m.heap = m₀.heap) :
    Ends m₀.Quiet (arrayStore s) m fun _ m' => Finishes m₀ (.arrayStore s) m' := by
  refine (ends_pop (storeFamily s).pop_pops h).bind ?_
  rintro v m₁ ⟨h₁, hheap₁, hv⟩
  refine (ends_onStack Stack.popInt_pops h₁).bind ?_
  rintro i m₂ ⟨h₂, hheap₂, -⟩
  refine (ends_popArray h₂).bind ?_
  rintro a m₃ ⟨h₃, hheap₃, hget⟩
  refine (ends_elementAt h₃).bind ?_
  rintro old m₃ ⟨rfl, hi, hold⟩
  have hheap : m₃.heap = m.heap := hheap₃.trans (hheap₂.trans hheap₁)
  dsimp only
  split
  · exact ends_fault_bind h₃
  · rename_i hstorable
    refine ⟨m₃, h₃, .setElement (hheap.trans hh) (hheap₃ ▸ hget) hold (by simpa using hstorable)
      (within_narrow (hheap ▸ hv) _ s) ?_⟩
    rw [Int.toNat_of_nonneg hi]
    refine announces_of_eq ?_ _
    simp only [Heap.display_setElement]
    rfl

theorem ends_newArray {element : FieldType} (h : m₀.Quiet m) :
    Ends m₀.Quiet (newArray element) m fun _ m' => m₀.Quiet m' := by
  refine (ends_onStack Stack.popInt_pops h).bind ?_
  rintro n m ⟨h, -, -⟩
  dsimp only
  split
  · exact ends_fault_bind h
  · refine (ends_alloc h (.array element _) fun id hid => ?_).bind fun v m ⟨h, hv⟩ =>
      ends_push h hv
    cases Array.eq_of_mem_replicate hid

theorem ends_newObjectArray {index : UInt16} (h : m₀.Quiet m) :
    Ends m₀.Quiet (newObjectArray index) m fun _ m' => m₀.Quiet m' := by
  refine ends_get.bind ?_
  rintro _ m ⟨rfl, rfl⟩
  refine (ends_check h).bind ?_
  rintro c m ⟨rfl, -⟩
  exact ends_newArray h

theorem ends_popObject (h : m₀.Quiet m) :
    Ends m₀.Quiet popObject m fun o m' => m₀.Quiet m' ∧ m'.heap = m.heap ∧
      m.heap.get? o.id = some (.object o.owner o.fields) := by
  refine (ends_pop Stack.popReference_pops h).bind ?_
  rintro v m' ⟨h', hheap, -⟩
  cases v with
  | ref id =>
    refine ends_get.bind ?_
    rintro _ m' ⟨rfl, rfl⟩
    refine (ends_check h').bind ?_
    rintro ⟨owner, fields⟩ m' ⟨rfl, ho⟩
    refine Ends.of_pure ⟨h', hheap, ?_⟩
    rw [← hheap]
    exact Heap.object_eq_ok ho
  | _ => exact ends_fault h'

theorem ends_fieldRef {index : UInt16} (h : m₀.Quiet m) :
    Ends m₀.Quiet (fieldRef index) m fun _ m' => m' = m := by
  refine ends_get.bind ?_
  rintro _ m ⟨rfl, rfl⟩
  exact (ends_check h).mono (fun _ h => h) fun _ _ h => h.1

theorem within_fieldValue {K : Int → Prop} {v : Value} (hv : v.Within K) (t : ResultType) :
    (fieldValue t v).Within K := by
  unfold fieldValue
  split
  · exact Value.within_resultZero t
  · exact hv

theorem ends_getField {index : UInt16} (h : m₀.Quiet m) :
    Ends m₀.Quiet (getField index) m fun _ m' => m₀.Quiet m' := by
  refine (ends_fieldRef h).bind ?_
  rintro r m rfl
  refine (ends_popObject h).bind ?_
  rintro o m' ⟨h', hheap, hget⟩
  split
  · rename_i v hv
    exact ends_push h' (within_fieldValue (h'.within (within_field (hheap ▸ hget) hv)) _)
  · exact ends_fault h'

/-- A store into a field ends with its event, or fails without one. -/
theorem ends_setField {i : Instruction} {o : ObjectRef} {name : Bytes} {v : Value}
    (h : m₀.Quiet m) (hh : m.heap = m₀.heap) (hi : i.storesField = true)
    (hget : m.heap.get? o.id = some (.object o.owner o.fields))
    (hv : v.Within (m₀.Sources m.heap)) :
    Ends m₀.Quiet (setField o name v) m fun _ m' => Finishes m₀ i m' := by
  unfold setField
  split
  · rename_i old hold
    refine ⟨m, h, .setField hh hi hget hold hv ?_⟩
    refine announces_of_eq ?_ _
    simp only [Heap.display_setField]
    rfl
  · exact ends_fault h

theorem ends_putField {index : UInt16} (h : m₀.Quiet m) (hh : m.heap = m₀.heap) :
    Ends m₀.Quiet (putField index) m fun _ m' => Finishes m₀ (.putField index) m' := by
  refine (ends_fieldRef h).bind ?_
  rintro r m rfl
  refine (ends_pop (Stack.popResult_pops r.type) h).bind ?_
  rintro v m₁ ⟨h₁, hheap₁, hv⟩
  refine (ends_popObject h₁).bind ?_
  rintro o m₂ ⟨h₂, hheap₂, hget⟩
  have hheap := hheap₂.trans hheap₁
  exact ends_setField h₂ (hheap.trans hh) rfl (hheap₂ ▸ hget) (hheap ▸ hv)

theorem ends_libraryStatic {owner name : Bytes} (h : m₀.Quiet m) :
    Ends m₀.Quiet (libraryStatic owner name) m fun v m' =>
      m₀.Quiet m' ∧ v.Within (m₀.Sources m'.heap) := by
  refine ends_get.bind ?_
  rintro _ m ⟨rfl, rfl⟩
  split
  · rename_i v hv
    refine Ends.of_pure ⟨h, h.within fun id hid => ?_⟩
    subst hid
    exact .static (mem_of_lookup hv)
  · dsimp only
    split
    · exact ends_fault_bind h
    · refine (ends_alloc h (.stream _) nofun).bind ?_
      rintro v m ⟨h, hv⟩
      exact ⟨h.remember hv, hv⟩
    · rename_i v hv
      have hsrc : v.Within (m₀.Sources m.heap) := h.within fun id hid =>
        .library (Or.inr (Or.inr ⟨_, hid ▸ mem_of_lookup hv⟩))
      exact ⟨h.remember hsrc, hsrc⟩
    · exact Ends.of_throw_bind h

theorem ends_getStatic {index : UInt16} (h : m₀.Quiet m) :
    Ends m₀.Quiet (getStatic index) m fun _ m' => m₀.Quiet m' := by
  refine (ends_fieldRef h).bind ?_
  rintro r m rfl
  refine ends_get.bind ?_
  rintro _ m ⟨rfl, rfl⟩
  dsimp only
  split
  · refine (ends_check h).bind ?_
    rintro ⟨owner, fields⟩ m ⟨rfl, ho⟩
    dsimp only
    split
    · rename_i v hv
      have hget := Heap.object_eq_ok ho
      exact ends_push h (within_fieldValue (h.within (within_field hget hv)) _)
    · exact ends_fault h
  · refine (ends_libraryStatic h).bind ?_
    rintro v m ⟨h, hv⟩
    exact ends_push h hv

theorem ends_putStatic {index : UInt16} (h : m₀.Quiet m) (hh : m.heap = m₀.heap) :
    Ends m₀.Quiet (putStatic index) m fun _ m' => Finishes m₀ (.putStatic index) m' := by
  refine (ends_fieldRef h).bind ?_
  rintro r m rfl
  refine ends_get.bind ?_
  rintro _ m ⟨rfl, rfl⟩
  dsimp only
  split
  · exact ends_fault_bind h
  · refine (ends_pop (Stack.popResult_pops r.type) h).bind ?_
    rintro v m' ⟨h', hheap, hv⟩
    refine ends_get.bind ?_
    rintro _ m' ⟨rfl, rfl⟩
    refine (ends_check h').bind ?_
    rintro ⟨owner, fields⟩ m' ⟨rfl, ho⟩
    exact ends_setField h' (hheap.trans hh) rfl (Heap.object_eq_ok ho) (hheap ▸ hv)

/-- A new object holds null only. -/
theorem not_mentions_newObject (c : Class) (id : Int) : ¬ c.newObject.Mentions id := by
  rintro ⟨name, hmem⟩
  obtain ⟨_, -, heq⟩ := List.mem_map.mp hmem
  cases heq

/-- What a blueprint builds mentions only what the library does. -/
theorem mentions_build {l : Library} {c : Class} {owner : Bytes} {b : Blueprint} {id : Int}
    (hb : (owner, .build b) ∈ l.makers) (hid : (b.build c).Mentions id) : l.Mentions id := by
  cases b with
  | array element elements =>
    exact Or.inr (Or.inl ⟨owner, element, elements, hb, List.mem_toArray.mp hid⟩)
  | integer v => exact hid.elim
  | map =>
    obtain ⟨key, hmem⟩ := hid
    cases hmem
  | object => exact absurd hid (not_mentions_newObject c id)

/-- Making an object has no event. -/
theorem ends_new {index : UInt16} (h : m₀.Quiet m) :
    Ends m₀.Quiet (new index) m fun _ m' => m₀.Quiet m' := by
  refine ends_get.bind ?_
  rintro _ m ⟨rfl, rfl⟩
  refine (ends_check h).bind ?_
  rintro c m ⟨rfl, -⟩
  split
  · refine (ends_alloc h .object fun id hid => ?_).bind fun v m ⟨h, hv⟩ => ends_push h hv
    exact absurd hid (not_mentions_newObject _ id)
  · split
    · exact ends_fault h
    · rename_i b hb
      have hmem := mem_of_lookup hb
      refine (ends_alloc h (.built hmem) fun id hid => ?_).bind fun v m ⟨h, hv⟩ => ends_push h hv
      exact h.mentions id (.library (mentions_build hmem hid))
    · exact Ends.of_throw h

end ClassTrace.Machine
