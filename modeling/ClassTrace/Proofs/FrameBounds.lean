import Mathlib.Data.List.Chain
import ClassTrace.Proofs.StackBound

/-!
Frames stay within their methods. At every moment of every run each frame is inside of its code
and has the locals that its method needs. A frame that waits comes back to an address that its
callee keeps, so these addresses have to be inside of the code of the frame below.
-/
namespace ClassTrace

namespace Frame

structure Sized (f : Frame) : Prop where
  inside : f.Inside
  locals : f.locals.size = f.method.localSize

variable {f f' : Frame}

theorem Sized.continues (h : f.Sized) (hc : f.Continues f') : f'.Sized := by
  refine ⟨hc.inside h.inside, ?_⟩
  rw [hc.locals, hc.method]
  exact h.locals

theorem Sized.setLocal {i : Int} {v : Value} (h : f.Sized)
    (hset : Frame.setLocal i v f = .ok () f') :
    f'.Sized ∧ f'.returnPc = f.returnPc := by
  unfold Frame.setLocal at hset
  split at hset
  · cases hset
    refine ⟨⟨h.inside, ?_⟩, rfl⟩
    dsimp only
    split
    · rw [Array.size_setIfInBounds, Array.size_setIfInBounds]
      exact h.locals
    · rw [Array.size_setIfInBounds]
      exact h.locals
  · cases hset

/-- A new frame is at the start of its code and has all its locals. -/
theorem Sized.of_begins {method : Method} (hcode : method.hasCode = true)
    (h : Machine.Begins f method) :
    f.Sized := by
  have hpos : 0 < f.method.code.size := by
    rw [h.method, Array.size_pos_iff]
    simpa [Method.hasCode] using hcode
  refine ⟨⟨?_, ?_⟩, h.locals⟩
  · rw [h.opPc]
    exact hpos
  · rw [h.pc]
    exact Nat.zero_le _

/-- The address that the callee keeps is inside of the code of its caller. -/
def ReturnsInto (callee caller : Frame) : Prop :=
  ∀ pc, callee.returnPc = some pc → pc ≤ caller.method.code.size

/-- The frames, the innermost first, can go on and come back to one another. -/
structure Stacked (fs : List Frame) : Prop where
  sized : ∀ f ∈ fs, f.Sized
  returns : fs.IsChain ReturnsInto

theorem stacked_nil : Stacked [] := ⟨nofun, .nil⟩

variable {rest fs : List Frame}

theorem Stacked.tail (h : Stacked (f :: rest)) : Stacked rest :=
  ⟨fun g hg => h.sized g (List.mem_cons_of_mem f hg), h.returns.tail⟩

/-- No frame returns into the innermost one, so it may change as it likes. -/
theorem Stacked.top (h : Stacked (f :: rest)) (hf' : f'.Sized)
    (hreturn : f'.returnPc = f.returnPc) :
    Stacked (f' :: rest) := by
  refine ⟨?_, ?_⟩
  · intro g hg
    rcases List.mem_cons.mp hg with rfl | hrest
    · exact hf'
    · exact h.sized g (List.mem_cons_of_mem f hrest)
  · have hchain := h.returns
    cases rest with
    | nil => exact .singleton f'
    | cons caller below =>
      obtain ⟨hinto, hbelow⟩ := List.isChain_cons_cons.mp hchain
      refine List.isChain_cons_cons.mpr ⟨fun pc hpc => hinto pc ?_, hbelow⟩
      rw [← hreturn]
      exact hpc

/-- A new frame returns to the address that its caller is at. -/
theorem Stacked.push (h : Stacked fs) (hf : f.Sized)
    (hreturn : f.returnPc = fs.head?.map (·.pc)) :
    Stacked (f :: fs) := by
  refine ⟨?_, ?_⟩
  · intro g hg
    rcases List.mem_cons.mp hg with rfl | hrest
    · exact hf
    · exact h.sized g hrest
  · cases fs with
    | nil => exact .singleton f
    | cons caller below =>
      refine List.isChain_cons_cons.mpr ⟨fun pc hpc => ?_, h.returns⟩
      have hcaller := (h.sized caller (List.mem_cons_self ..)).inside.2
      rw [hreturn] at hpc
      cases hpc
      exact hcaller

/-- A caller goes on where the frame above it returns to. -/
theorem Stacked.resume {caller : Frame} (h : Stacked (f :: caller :: rest)) (v : Option Value) :
    Stacked (caller.resume f.returnPc v :: rest) := by
  have hcaller : caller.Sized := h.sized caller (by simp)
  have hinto : f.ReturnsInto caller := (List.isChain_cons_cons.mp h.returns).1
  refine h.tail.top ⟨⟨hcaller.inside.1, ?_⟩, hcaller.locals⟩ rfl
  change f.returnPc.getD caller.pc ≤ caller.method.code.size
  cases hpc : f.returnPc with
  | none => exact hcaller.inside.2
  | some pc => exact hinto pc hpc

end Frame

namespace Machine

variable {start m m' : Machine}

theorem Quiet.stacked (hq : m.Quiet m') (h : Frame.Stacked m.frames) :
    Frame.Stacked m'.frames := by
  have hframes := hq.frames
  generalize m.frames = fs at h hframes
  generalize m'.frames = fs' at hframes
  cases hframes with
  | none => exact h
  | some rest hf =>
    have hsized := h.sized _ (List.mem_cons_self ..)
    exact h.top (hsized.continues hf) hf.returnPc

theorem Enters.stacked {method : Method} (h : Enters start m method m')
    (hm : Frame.Stacked m.frames) :
    Frame.Stacked m'.frames := by
  obtain ⟨hcode, hdepth, hbegins, hstack, hreturn, hsrc, h⟩ := h
  rw [h.frames]
  exact hm.push (.of_begins hcode hbegins) hreturn

theorem Leaves.stacked {v : Option Value} (h : Leaves v m m') (hm : Frame.Stacked m.frames) :
    Frame.Stacked m'.frames := by
  cases h with
  | toHost hframes h =>
    rw [h.frames]
    exact Frame.stacked_nil
  | toCaller hframes h =>
    rw [h.frames]
    rw [hframes] at hm
    exact hm.resume v

/-- No instruction breaks the order of the frames. -/
theorem Finishes.stacked {i : Instruction} (h : Finishes start i m')
    (hs : Frame.Stacked start.frames) :
    Frame.Stacked m'.frames := by
  obtain ⟨m, hq, hend⟩ := h
  have hm := hq.stacked hs
  cases hend with
  | silent | library => exact hm
  | assign hheap hi hframes hold hset hv h =>
    rw [h.frames]
    rw [hframes] at hm
    obtain ⟨hsized, hreturn⟩ := (hm.sized _ (List.mem_cons_self ..)).setLocal hset
    exact hm.top hsized hreturn
  | setField hheap hi hget hold hv h =>
    rw [h.frames]
    exact hm
  | setElement hheap hget hold hstorable hv h =>
    rw [h.frames]
    exact hm
  | call hheap href howner h => exact h.stacked hm
  | ret hheap hsome hv h => exact h.stacked hm

/-- What one transition does. A transition of the host starts and ends without a frame, unless it
enters a method. -/
theorem Transition.stacked {Pushable : Machine → Value → Prop} (ht : Transition Pushable m m')
    (h : Frame.Stacked m.frames) : Frame.Stacked m'.frames := by
  cases ht with
  | push | configure | texts => exact h
  | pop hm hpop =>
    unfold hostPop at hpop
    split at hpop
    · cases hpop
    · cases hpop
      exact h
  | enter hm henter =>
    obtain ⟨m₁, hq, -, hentered⟩ := (ends_enter (Quiet.refl m)).of_ok henter
    exact hentered.stacked (hq.stacked h)
  | refuse | fault => exact Frame.stacked_nil
  | step hs =>
    obtain ⟨f, rest, hm⟩ := List.exists_cons_of_ne_nil hs.1
    obtain ⟨i, -, hfinishes⟩ := step_ok hm hs.2
    exact hfinishes.stacked h

/-- Frames can come back to one another in every state that the host can reach. -/
theorem Reaches.stacked {Pushable : Machine → Value → Prop} (h : Reaches Pushable m m')
    (hm : Frame.Stacked m.frames) : Frame.Stacked m'.frames := by
  induction h with
  | refl => exact hm
  | tail _ ht ih => exact ht.stacked ih

end Machine

end ClassTrace
