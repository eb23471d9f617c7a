import ClassTrace.Proofs.Ending

/-!
How calls and returns end. A library method reports nothing; a method of the class is entered or
the call fails without an event.
-/
namespace ClassTrace

/-- A routine is registered for the descriptor or for all of them. -/
theorem Library.mem_of_routine? {l : Library} {owner name descriptor : Bytes} {routine : Routine}
    (h : l.routine? owner name descriptor = some routine) :
    ∃ d, (d = descriptor ∨ d = []) ∧ (⟨owner, name, d⟩, routine) ∈ l.routines := by
  unfold Library.routine? at h
  cases hown : l.routines.lookup ⟨owner, name, descriptor⟩ with
  | some own =>
    rw [hown] at h
    cases h
    exact ⟨descriptor, Or.inl rfl, mem_of_lookup hown⟩
  | none =>
    rw [hown] at h
    exact ⟨[], Or.inr rfl, mem_of_lookup h⟩

namespace Machine

variable {m₀ m : Machine}

theorem ends_receiverEntry {want : EntrySort} {v : Value} (h : m₀.Quiet m) :
    Ends m₀.Quiet (receiverEntry want v) m fun r m' => m' = m ∧ m.heap.get? r.1 = some r.2 := by
  cases v with
  | ref id =>
    refine ends_get.bind ?_
    rintro _ m ⟨rfl, rfl⟩
    refine (ends_check h).bind ?_
    rintro e m ⟨rfl, he⟩
    exact Ends.of_pure ⟨rfl, Heap.get_eq_ok he⟩
  | _ => exact ends_fault h

theorem ends_receiverInt {v : Value} (h : m₀.Quiet m) :
    Ends m₀.Quiet (receiverInt v) m fun _ m' => m' = m := by
  refine (ends_receiverEntry h).bind ?_
  rintro ⟨id, e⟩ m ⟨rfl, -⟩
  cases e with
  | integer n => exact Ends.of_pure rfl
  | _ => exact ends_fault h

theorem ends_receiverMap {v : Value} (h : m₀.Quiet m) :
    Ends m₀.Quiet (receiverMap v) m fun r m' => m' = m ∧ m.heap.get? r.1 = some (.map r.2) := by
  refine (ends_receiverEntry h).bind ?_
  rintro ⟨id, e⟩ m ⟨rfl, he⟩
  cases e with
  | map entries => exact Ends.of_pure ⟨rfl, he⟩
  | _ => exact ends_fault h

theorem ends_receiverStream {v : Value} (h : m₀.Quiet m) :
    Ends m₀.Quiet (receiverStream v) m fun _ m' => m' = m := by
  refine (ends_receiverEntry h).bind ?_
  rintro ⟨id, e⟩ m ⟨rfl, -⟩
  cases e with
  | stream s => exact Ends.of_pure rfl
  | _ => exact ends_fault h

theorem ends_receiverText {v : Value} (h : m₀.Quiet m) :
    Ends m₀.Quiet (receiverText v) m fun _ m' => m' = m := by
  cases v with
  | string s => exact Ends.of_pure rfl
  | _ => exact ends_fault h

/-- A value that a map holds is held by the heap. -/
theorem within_map {id : Int} {entries : KeyedMap Value} {key : Key}
    (hget : m.heap.get? id = some (.map entries)) :
    ((entries.get? key).getD .null).Within m.Mentions := by
  intro target hid
  cases hv : entries.get? key with
  | none =>
    rw [hv] at hid
    cases hid
  | some v =>
    rw [hv] at hid
    obtain ⟨k, hmem⟩ := KeyedMap.mem_of_get? hv
    obtain ⟨-, he⟩ := Heap.get?_eq_some_iff.mp hget
    exact .heap ⟨id.toNat, _, he, k, hid ▸ hmem⟩

/-- A put is an action without an event: the map changes, and the old value may be pushed. -/
theorem ends_mapPut {call : Invocation} (h : m₀.Quiet m)
    (hargs : ∀ v ∈ call.args, v.Within (m₀.Sources m.heap)) :
    Ends m₀.Quiet (mapPut call) m fun v m' => m₀.Quiet m' ∧ v.Within (m₀.Sources m'.heap) := by
  refine (ends_receiverMap h).bind ?_
  rintro ⟨id, entries⟩ m ⟨rfl, hget⟩
  have hsize : ∀ es, (m.heap.setMap id es).size = m.heap.size := fun _ => Heap.size_modify ..
  refine ⟨h.setHeap (Heap.extends_setMap ..) fun target hid => ?_, ?_⟩
  · refine Sources.mono (Nat.le_of_eq (hsize _).symm) ?_
    rcases Heap.mentions_setMap hid with hold | ⟨k, hnew⟩
    · exact h.mentions target (.heap hold)
    · rcases KeyedMap.mem_put hnew with ⟨k', hmem⟩ | harg
      · obtain ⟨-, he⟩ := Heap.get?_eq_some_iff.mp hget
        exact h.mentions target (.heap ⟨id.toNat, _, he, k', hmem⟩)
      · unfold Invocation.arg at harg
        rw [List.getD_eq_getElem?_getD] at harg
        cases hv : call.args[1]? with
        | none =>
          rw [hv] at harg
          cases harg
        | some v =>
          rw [hv] at harg
          exact hargs v (List.mem_of_getElem? hv) target harg.symm
  · exact (h.within (within_map hget)).mono fun _ =>
      Sources.mono (Nat.le_of_eq (hsize _).symm)

/-- A routine makes at most one entry or changes one map, and reports nothing. -/
theorem ends_routine {r : Routine} {call : Invocation} {key : RoutineKey} (h : m₀.Quiet m)
    (hr : (key, r) ∈ m.library.routines)
    (hargs : ∀ v ∈ call.args, v.Within (m₀.Sources m.heap)) :
    Ends m₀.Quiet (r.run call) m fun v m' => m₀.Quiet m' ∧ v.Within (m₀.Sources m'.heap) := by
  cases r with
  | print | println =>
    refine (ends_receiverStream h).bind ?_
    rintro s m rfl
    refine ends_get.bind ?_
    rintro _ m ⟨rfl, rfl⟩
    refine (ends_onConsole h).bind fun _ m h => ?_
    exact ⟨h, nofun⟩
  | box => exact ends_alloc h (.integer _) nofun
  | unbox =>
    refine (ends_receiverInt h).bind ?_
    rintro n m rfl
    exact ⟨h, nofun⟩
  | stringLength =>
    refine (ends_receiverText h).bind ?_
    rintro s m rfl
    exact ⟨h, nofun⟩
  | stringCharAt =>
    refine (ends_receiverText h).bind ?_
    rintro s m rfl
    dsimp only
    split
    · exact ends_fault h
    · split
      · exact ⟨h, nofun⟩
      · exact ends_fault h
  | mapGet =>
    refine (ends_receiverMap h).bind ?_
    rintro ⟨id, entries⟩ m ⟨rfl, hget⟩
    exact ⟨h, h.within (within_map hget)⟩
  | mapPut => exact ends_mapPut h hargs
  | mapContainsKey =>
    refine (ends_receiverMap h).bind ?_
    rintro ⟨id, entries⟩ m ⟨rfl, hget⟩
    exact ⟨h, nofun⟩
  | mapSize =>
    refine (ends_receiverMap h).bind ?_
    rintro ⟨id, entries⟩ m ⟨rfl, hget⟩
    exact ⟨h, nofun⟩
  | constant v =>
    refine ⟨h, h.within fun id hid => ?_⟩
    subst hid
    exact .library (Or.inl ⟨key, hr⟩)
  | failing message => exact Ends.of_throw h
  | _ => exact ⟨h, nofun⟩

/-- The locals hold nothing new but the arguments. -/
theorem mem_setArgs {f : Frame} {args : List Value} {v : Value}
    (hv : v ∈ (f.setArgs args).locals) :
    v ∈ f.locals ∨ v ∈ args := by
  unfold Frame.setArgs at hv
  -- Only the arguments paired with a slot matter, so the fold is over any list of such pairs.
  have hfold : ∀ (pairs : List (Nat × Value)) (locals : Array Value),
      v ∈ pairs.foldl (fun ls p => ls.setIfInBounds p.1 p.2) locals →
        v ∈ locals ∨ ∃ p ∈ pairs, p.2 = v := by
    intro pairs
    induction pairs with
    | nil => exact fun locals h => Or.inl h
    | cons p rest ih =>
      intro locals h
      rcases ih _ h with hlocals | ⟨q, hq, hqv⟩
      · rcases Array.mem_or_eq_of_mem_setIfInBounds hlocals with hold | hnew
        · exact Or.inl hold
        · exact Or.inr ⟨p, List.mem_cons_self .., hnew.symm⟩
      · exact Or.inr ⟨q, List.mem_cons_of_mem p hq, hqv⟩
  rcases hfold _ _ hv with hlocals | ⟨p, hp, rfl⟩
  · exact Or.inl hlocals
  · exact Or.inr (List.of_mem_zip hp).2

/-- A new frame holds its arguments and what it was set up with. -/
theorem mentions_setArgs {f : Frame} {args : List Value} {returnPc : Option Nat} {K : Int → Prop}
    {id : Int} (hstack : f.stack = []) (hlocals : ∀ v ∈ f.locals, v.Within K)
    (hargs : ∀ v ∈ args.reverse, v.Within K)
    (hid : ({ f.setArgs args with returnPc } : Frame).Mentions id) : K id := by
  rcases hid with hmem | hmem
  · have hnil : (f.setArgs args).stack = [] := hstack
    rw [show ({ f.setArgs args with returnPc } : Frame).stack = [] from hnil] at hmem
    cases hmem
  · rcases mem_setArgs hmem with hold | harg
    · exact hlocals _ hold id rfl
    · exact hargs _ (List.mem_reverse.mpr harg) id rfl

theorem within_fresh {K : Int → Prop} (method : Method) :
    ∀ v ∈ (Frame.fresh method).locals, v.Within K := by
  intro v hv
  rw [Array.eq_of_mem_replicate hv]
  exact nofun

theorem within_setReceiver {K : Int → Prop} {f : Frame} {receiver : Value}
    (hf : ∀ v ∈ f.locals, v.Within K) (hr : receiver.Within K) :
    ∀ v ∈ (f.setReceiver receiver).locals, v.Within K := by
  intro v hv
  rcases Array.mem_or_eq_of_mem_setIfInBounds hv with hold | rfl
  · exact hf v hold
  · exact hr

theorem size_setArgs (f : Frame) (args : List Value) :
    (f.setArgs args).locals.size = f.locals.size := by
  unfold Frame.setArgs
  generalize f.method.paramSlots.zip args = pairs
  dsimp only
  induction pairs generalizing f with
  | nil => rfl
  | cons p rest ih =>
    rw [List.foldl_cons]
    exact (ih { f with locals := f.locals.setIfInBounds p.1 p.2 }).trans Array.size_setIfInBounds

/-- Placing the receiver and the arguments changes neither the address nor the number of
locals. -/
theorem begins_setArgs {f : Frame} {method : Method} (h : Begins f method) (args : List Value)
    (returnPc : Option Nat) : Begins { f.setArgs args with returnPc } method :=
  ⟨h.method, h.pc, h.opPc, (size_setArgs f args).trans h.locals⟩

theorem begins_setReceiver {f : Frame} {method : Method} (h : Begins f method)
    (receiver : Value) :
    Begins (f.setReceiver receiver) method :=
  ⟨h.method, h.pc, h.opPc, Array.size_setIfInBounds.trans h.locals⟩

theorem begins_fresh (method : Method) : Begins (Frame.fresh method) method :=
  ⟨rfl, rfl, rfl, Array.size_replicate⟩

/-- Once the arguments are off the stack, entering a method makes one frame. -/
theorem ends_enter {method : Method} {kind : CallKind} (h : m₀.Quiet m) :
    Ends m₀.Quiet (enter method kind) m fun _ m' =>
      ∃ m₁, m₀.Quiet m₁ ∧ m₁.heap = m.heap ∧ Enters m₀ m₁ method m' := by
  unfold enter
  dsimp only
  split
  · exact ends_fault_bind h
  rename_i hcode
  refine ends_get.bind ?_
  rintro _ m ⟨rfl, rfl⟩
  refine ends_get.bind ?_
  rintro _ m ⟨rfl, rfl⟩
  split
  · exact ends_fault_bind h
  rename_i hdepth
  have hcode : method.hasCode = true := by simpa using hcode
  have hlt : ∀ {m₁ : Machine}, m₀.Quiet m₁ → m₁.frames.length < m₁.settings.maxDepth := by
    intro m₁ h₁
    rw [h₁.frames.length, h₁.settings, ← h.frames.length, ← h.settings]
    omega
  refine (ends_onStack (Stack.popArgs_pops _) h).bind ?_
  rintro args m₁ ⟨h₁, hheap₁, hargs⟩
  rw [← hheap₁] at hargs
  split
  · refine (ends_pop Stack.popReference_pops h₁).bind ?_
    rintro receiver m₂ ⟨h₂, hheap₂, hreceiver⟩
    rw [← hheap₂] at hreceiver hargs
    split
    · exact ends_fault_bind h₂
    · have hbegins := begins_setReceiver (begins_fresh method) receiver
      refine ⟨m₂, h₂, hheap₂.trans hheap₁,
        .intro hcode (hlt h₂) (begins_setArgs hbegins args _) rfl rfl
        (fun id hid => ?_) ((announces_report _ _).log _)⟩
      exact mentions_setArgs rfl (within_setReceiver (within_fresh method) hreceiver) hargs hid
  · refine ⟨m₁, h₁, hheap₁,
      .intro hcode (hlt h₁) (begins_setArgs (begins_fresh method) args _) rfl rfl
      (fun id hid => ?_) ((announces_report _ _).log _)⟩
    exact mentions_setArgs rfl (within_fresh method) hargs hid

/-- A return leaves the current frame and hands its value over. -/
theorem ends_ret {v : Option Value} (h : m₀.Quiet m) :
    Ends m₀.Quiet (ret v) m fun _ m' => Leaves v m m' := by
  unfold ret
  refine ends_get.bind ?_
  rintro _ m ⟨rfl, rfl⟩
  refine ends_get.bind ?_
  rintro _ m ⟨rfl, rfl⟩
  cases hm : m.frames with
  | nil => exact ends_fault h
  | cons f rest =>
    have hreport := announces_report (.ret f.line (shownValue m.heap v)) { m with frames := rest }
    cases rest with
    | nil => exact .toHost hm ((hreport.place (v.toList ++ ·) id).log _)
    | cons caller below =>
      exact .toCaller hm ((hreport.place id fun _ => caller.resume f.returnPc v :: below).log _)

theorem ends_invokeOwn {mode : CallMode} {index : UInt16} {name descriptor : Bytes}
    {r : MethodRef} (h : m₀.Quiet m) (hh : m.heap = m₀.heap)
    (hr : m₀.program.pool.methodRef index = .ok r) (howner : r.owner.name = m₀.program.name) :
    Ends m₀.Quiet (invokeOwn mode name descriptor) m fun _ m' =>
      Finishes m₀ (.invoke mode index) m' := by
  refine ends_get.bind ?_
  rintro _ m ⟨rfl, rfl⟩
  dsimp only
  split
  · exact ends_fault h
  · split
    · exact ends_fault_bind h
    · refine (ends_enter h).mono (fun _ h => h) ?_
      rintro _ m' ⟨m₁, h₁, hheap, he⟩
      exact ⟨m₁, h₁, .call (hheap.trans hh) hr howner he⟩

/-- A call of a library method has no event. -/
theorem ends_invokeLibrary {mode : CallMode} {r : MethodRef} (h : m₀.Quiet m) :
    Ends m₀.Quiet (invokeLibrary mode r) m fun _ m' => m₀.Quiet m' := by
  unfold invokeLibrary
  dsimp only
  split
  · exact ends_fault_bind h
  refine ends_get.bind ?_
  rintro _ m ⟨rfl, rfl⟩
  split
  · exact ends_fault h
  rename_i routine hroutine
  obtain ⟨_, -, hmem⟩ := Library.mem_of_routine? hroutine
  -- What a call does once it has its receiver is the same for both kinds.
  have hcall : ∀ (receiver : Value) (args : List Value) (m₁ : Machine), m₀.Quiet m₁ →
      (∀ v ∈ args, v.Within (m₀.Sources m₁.heap)) →
      Ends m₀.Quiet (do
        let v ← routine.run ⟨r.signature, receiver, args⟩
        if !r.signature.isVoid then push v) m₁ fun _ m' => m₀.Quiet m' := by
    intro receiver args m₁ h₁ hargs
    have hlib : m₁.library = m.library := h₁.library.trans h.library.symm
    refine (ends_routine h₁ (hlib ▸ hmem) hargs).bind ?_
    rintro v m₂ ⟨h₂, hv⟩
    split
    · exact ends_push h₂ hv
    · exact Ends.of_pure h₂
  refine (ends_onStack (Stack.popArgs_pops _) h).bind ?_
  rintro args m₁ ⟨h₁, hheap₁, hargs⟩
  have hargs₁ : ∀ v ∈ args, v.Within (m₀.Sources m₁.heap) := by
    intro v hv
    rw [hheap₁]
    exact hargs v (List.mem_reverse.mpr hv)
  split
  · refine Ends.bind (Q := fun v m' => v = .null ∧ m' = m₁) (Ends.of_pure ⟨rfl, rfl⟩) ?_
    rintro _ m₁ ⟨rfl, rfl⟩
    split
    · exact ends_fault_bind h₁
    · exact hcall _ args m₁ h₁ hargs₁
  · refine (ends_pop Stack.popReference_pops h₁).bind ?_
    rintro receiver m₂ ⟨h₂, hheap₂, -⟩
    split
    · exact ends_fault_bind h₂
    · exact hcall _ args m₂ h₂ (hheap₂ ▸ hargs₁)

/-- A call enters a method of the class, or it is one of the library. -/
theorem ends_invoke {mode : CallMode} {index : UInt16} (h : m₀.Quiet m) (hh : m.heap = m₀.heap) :
    Ends m₀.Quiet (invoke mode index) m fun _ m' => Finishes m₀ (.invoke mode index) m' := by
  refine ends_get.bind ?_
  rintro _ m ⟨rfl, rfl⟩
  refine (ends_check h).bind ?_
  rintro r m ⟨rfl, hr⟩
  have hr : m₀.program.pool.methodRef index = .ok r := h.program ▸ hr
  split
  · rename_i howner
    exact ends_invokeOwn h hh hr (howner.trans (congrArg Class.name h.program))
  · rename_i howner
    refine (ends_invokeLibrary h).mono (fun _ h => h) fun _ m' h' => ?_
    exact ⟨m', h', .library hr fun heq => howner (heq.trans (congrArg Class.name h.program.symm))⟩

end Machine

end ClassTrace
