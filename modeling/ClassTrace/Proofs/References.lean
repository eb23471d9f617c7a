import ClassTrace.Proofs.Run

/-!
References along transitions. A transition brings in no reference but that of an entry it adds, so
a host that pushes references to existing entries only never gets to see another one.
-/
namespace ClassTrace

/-- A store into a local brings in the value stored and nothing else. -/
theorem Frame.mentions_setLocal {f f' : Frame} {slot : Int} {v : Value} {id : Int}
    (hset : setLocal slot v f = .ok () f') (hid : f'.Mentions id) :
    f.Mentions id ∨ v = .ref id := by
  unfold setLocal at hset
  split at hset
  · cases hset
    rcases hid with hstack | hlocals
    · exact Or.inl (Or.inl hstack)
    · have hone : .ref id ∈ f.locals.setIfInBounds slot.toNat v := by
        dsimp only at hlocals
        split at hlocals
        · rcases Array.mem_or_eq_of_mem_setIfInBounds hlocals with hmem | hnull
          · exact hmem
          · cases hnull
        · exact hlocals
      rcases Array.mem_or_eq_of_mem_setIfInBounds hone with hold | hnew
      · exact Or.inl (Or.inr hold)
      · exact Or.inr hnew.symm
  · cases hset

namespace Machine

section

variable {m m' : Machine} {id : Int}

theorem Announces.mentions {e : Event} (h : Announces e m m') (hid : m'.Mentions id) :
    m.Mentions id := by
  obtain ⟨console, rfl⟩ := h
  cases hid with
  | host h => exact .host h
  | frame hf h => exact .frame hf h
  | heap h => exact .heap h
  | static h => exact .static h
  | library h => exact .library h

theorem mentions_dropFrames (hid : { m with frames := [] }.Mentions id) : m.Mentions id := by
  cases hid with
  | host h => exact .host h
  | frame hf h => cases hf
  | heap h => exact .heap h
  | static h => exact .static h
  | library h => exact .library h

/-- What the machine holds with other frames: what it held, or what those frames hold. -/
theorem mentions_frames {frames : List Frame} (hid : { m with frames }.Mentions id) :
    m.Mentions id ∨ ∃ f ∈ frames, f.Mentions id := by
  cases hid with
  | host h => exact Or.inl (.host h)
  | frame hf h => exact Or.inr ⟨_, hf, h⟩
  | heap h => exact Or.inl (.heap h)
  | static h => exact Or.inl (.static h)
  | library h => exact Or.inl (.library h)

theorem mentions_host {host : Stack} (hid : { m with host }.Mentions id) :
    m.Mentions id ∨ .ref id ∈ host := by
  cases hid with
  | host h => exact Or.inr h
  | frame hf h => exact Or.inl (.frame hf h)
  | heap h => exact Or.inl (.heap h)
  | static h => exact Or.inl (.static h)
  | library h => exact Or.inl (.library h)

theorem mentions_setHeap {heap : Heap} (hid : { m with heap }.Mentions id) :
    m.Mentions id ∨ heap.Mentions id := by
  cases hid with
  | host h => exact Or.inl (.host h)
  | frame hf h => exact Or.inl (.frame hf h)
  | heap h => exact Or.inr h
  | static h => exact Or.inl (.static h)
  | library h => exact Or.inl (.library h)

end

theorem Enters.mentions {start m m' : Machine} {method : Method} {id : Int} (hq : start.Quiet m)
    (h : Enters start m method m') (hid : m'.Mentions id) : start.Sources m.heap id := by
  cases h with
  | intro hcode hdepth hbegins hstack hreturn hsrc h =>
    rcases mentions_frames (h.mentions hid) with hold | ⟨g, hg, hgid⟩
    · exact hq.mentions id hold
    · rcases List.mem_cons.mp hg with rfl | hrest
      · exact hsrc id hgid
      · exact hq.mentions id (.frame hrest hgid)

/-- A return hands over no reference but that of its value. -/
theorem Leaves.mentions {start m m' : Machine} {v : Option Value} {id : Int} (hq : start.Quiet m)
    (hv : ∀ w, v = some w → w.Within (start.Sources m.heap)) (h : Leaves v m m')
    (hid : m'.Mentions id) : start.Sources m.heap id := by
  have hvalue : .ref id ∈ v.toList → start.Sources m.heap id := by
    intro hmem
    exact hv (.ref id) (Option.mem_toList.mp hmem) id rfl
  cases h with
  | toHost hm h =>
    rcases mentions_host (m := { m with frames := [] }) (h.mentions hid) with hold | hmem
    · exact hq.mentions id (mentions_dropFrames hold)
    · rcases List.mem_append.mp hmem with hnew | hold
      · exact hvalue hnew
      · exact hq.mentions id (.host hold)
  | toCaller hm h =>
    rename_i f caller below
    rcases mentions_frames (h.mentions hid) with hold | ⟨g, hg, hgid⟩
    · exact hq.mentions id hold
    · rcases List.mem_cons.mp hg with rfl | hbelow
      · have hcaller : caller ∈ m.frames := by simp [hm]
        rcases hgid with hstack | hlocals
        · rcases List.mem_append.mp hstack with hnew | hold
          · exact hvalue hnew
          · exact hq.mentions id (.frame hcaller (Or.inl hold))
        · exact hq.mentions id (.frame hcaller (Or.inr hlocals))
      · exact hq.mentions id (.frame (by simp [hm, hbelow]) hgid)

/-- A step holds nothing afterwards that it did not hold before or add to the heap. -/
theorem Finishes.mentions {start m' : Machine} {i : Instruction} {id : Int}
    (h : Finishes start i m') (hid : m'.Mentions id) :
    start.Mentions id ∨ start.heap.size ≤ id ∧ id < m'.heap.size := by
  obtain ⟨m, hq, hend⟩ := h
  -- A loud ending works with the heap the step found, so its sources were all held before.
  have hheld : m.heap = start.heap → start.Sources m.heap id → start.Mentions id := by
    intro hheap hsrc
    rcases hsrc with hold | ⟨hge, hlt⟩
    · exact hold
    · rw [hheap] at hlt
      omega
  cases hend with
  | silent | library => exact hq.mentions id hid
  | assign hheap hi hm hold hset hv h =>
    refine Or.inl (hheld hheap ?_)
    rcases mentions_frames (h.mentions hid) with hbefore | ⟨g, hg, hgid⟩
    · exact hq.mentions id hbefore
    · rcases List.mem_cons.mp hg with rfl | hrest
      · rcases Frame.mentions_setLocal hset hgid with hf | hnew
        · exact hq.mentions id (.frame (by simp [hm]) hf)
        · exact hv id hnew
      · exact hq.mentions id (.frame (by simp [hm, hrest]) hgid)
  | setField hheap hi hget hold hv h =>
    refine Or.inl (hheld hheap ?_)
    rcases mentions_setHeap (h.mentions hid) with hbefore | hset
    · exact hq.mentions id hbefore
    · rcases Heap.mentions_setField hset with hbefore | hnew
      · exact hq.mentions id (.heap hbefore)
      · exact hv id hnew
  | setElement hheap hget hold hstorable hv h =>
    refine Or.inl (hheld hheap ?_)
    rcases mentions_setHeap (h.mentions hid) with hbefore | hset
    · exact hq.mentions id hbefore
    · rcases Heap.mentions_setElement hset with hbefore | hnew
      · exact hq.mentions id (.heap hbefore)
      · exact hv id hnew
  | call hheap hr howner h => exact Or.inl (hheld hheap (h.mentions hq hid))
  | ret hheap hsome hv h => exact Or.inl (hheld hheap (h.mentions hq hv hid))

/-- Every reference that the machine holds designates an entry. -/
def Sound (m : Machine) : Prop := ∀ id, m.Mentions id → m.heap.Has id

/-- The values that designate an entry, if they are references. -/
def Designates (m : Machine) (v : Value) : Prop := v.Within m.heap.Has

theorem mentions_pushTexts {m : Machine} {args : List Bytes} {id : Int}
    (hid : (m.pushTexts args).Mentions id) : m.Sources (m.pushTexts args).heap id := by
  have hsize : (m.pushTexts args).heap.size = m.heap.size + 1 := by
    simp [pushTexts, hostPush, Heap.size, Heap.alloc]
  rcases mentions_host hid with hold | hmem
  · rcases mentions_setHeap hold with hold | hnew
    · exact Or.inl hold
    · rcases Heap.mentions_alloc hnew with hold | htext
      · exact Or.inl (.heap hold)
      · obtain ⟨_, -, heq⟩ := List.mem_map.mp (List.mem_toArray.mp htext)
        cases heq
  · rcases List.mem_cons.mp hmem with heq | hold
    · cases heq
      refine Or.inr ⟨?_, ?_⟩
      · unfold Heap.next
        omega
      · unfold Heap.next
        omega
    · exact Or.inl (.host hold)

/-- What a transition holds afterwards it held before or added to the heap, unless the host pushed
it. -/
theorem Transition.mentions {Pushable : Machine → Value → Prop} {m m' : Machine} {id : Int}
    (ht : Transition Pushable m m') (hid : m'.Mentions id) :
    m.Sources m'.heap id ∨ ∃ v, Pushable m v ∧ v = .ref id := by
  cases ht with
  | push hm hv =>
    rcases mentions_host hid with hold | hmem
    · exact Or.inl (Or.inl hold)
    · rcases List.mem_cons.mp hmem with heq | hold
      · exact Or.inr ⟨_, hv, heq.symm⟩
      · exact Or.inl (Or.inl (.host hold))
  | pop hm h =>
    unfold hostPop at h
    split at h
    · cases h
    · rename_i v rest hhost
      cases h
      rcases mentions_host hid with hold | hmem
      · exact Or.inl (Or.inl hold)
      · exact Or.inl (Or.inl (.host (hhost ▸ List.mem_cons_of_mem _ hmem)))
  | configure hm entryPoint maxDepth legacyBranches =>
    refine Or.inl (Or.inl ?_)
    cases hid with
    | host h => exact .host h
    | frame hf h => exact .frame hf h
    | heap h => exact .heap h
    | static h => exact .static h
    | library h => exact .library h
  | texts hm args => exact Or.inl (mentions_pushTexts hid)
  | enter hm h =>
    obtain ⟨m₁, hq, -, he⟩ := (ends_enter (Quiet.refl m)).of_ok h
    have hheap : m'.heap = m₁.heap := by
      cases he with
      | intro _ _ _ _ _ _ h =>
        obtain ⟨console, rfl⟩ := h
        rfl
    exact Or.inl (hheap ▸ he.mentions hq hid)
  | refuse hm h =>
    have hq := (ends_enter (Quiet.refl m)).of_error h
    exact Or.inl (hq.mentions id (mentions_dropFrames hid))
  | step h =>
    obtain ⟨hne, hstep⟩ := h
    obtain ⟨f, rest, hm⟩ := List.exists_cons_of_ne_nil hne
    obtain ⟨i, -, hi⟩ := step_ok hm hstep
    exact Or.inl (hi.mentions hid)
  | fault hm h => exact Or.inl ((step_error h).mentions id (mentions_dropFrames hid))

end Machine

end ClassTrace
