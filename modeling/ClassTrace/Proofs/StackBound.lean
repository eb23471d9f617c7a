import ClassTrace.Program.Load
import ClassTrace.Proofs.Loosened
import ClassTrace.Proofs.Run

/-!
Operand stacks and their declared sizes. Instructions push only where there is room, so a step
keeps every stack within the size that its method declares, with one exception: a return hands its
value to the caller whatever the size of the caller's stack. A step breaks the bound exactly if it
is a return with a value into a caller whose stack is full. A step of any other kind that would
break it, had the methods declared more, is a fault.
-/
namespace ClassTrace

theorem Frame.Fetches.unique {f : Frame} {i j : Instruction} (hi : f.Fetches i)
    (hj : f.Fetches j) :
    i = j := by
  obtain ⟨opcode, pc, hop, hdec⟩ := hi
  obtain ⟨opcode', pc', hop', hdec'⟩ := hj
  cases hop.symm.trans hop'
  cases hdec.symm.trans hdec'
  rfl

namespace Machine

def Bounded (m : Machine) : Prop := ∀ f ∈ m.frames, f.Fits

instance (m : Machine) : Decidable m.Bounded :=
  inferInstanceAs (Decidable (∀ f ∈ m.frames, f.Fits))

/-- The next instruction hands a value to a caller whose stack is full. -/
def Overfills (m : Machine) : Prop :=
  ∃ f caller below family, m.frames = f :: caller :: below ∧ f.Fetches (.ret (some family)) ∧
    caller.method.maxStack ≤ caller.stack.length

/-- Actions without an event keep the bound. -/
theorem Quiet.bounded {m m' : Machine} (h : m.Quiet m') (hb : m.Bounded) : m'.Bounded := by
  have hframes := h.frames
  unfold Bounded at hb ⊢
  generalize m.frames = fs at hframes hb
  generalize m'.frames = fs' at hframes ⊢
  cases hframes with
  | none => exact hb
  | some rest hf =>
    intro g hg
    rcases List.mem_cons.mp hg with rfl | hrest
    · exact hf.fits (hb _ (List.mem_cons_self ..))
    · exact hb g (List.mem_cons_of_mem _ hrest)

/-- The frames below the current one wait during the quiet part of a step. -/
theorem Quiet.frames_below {m m' : Machine} {f g : Frame} {rest below : List Frame}
    (h : m.Quiet m') (hm : m.frames = f :: rest) (hm' : m'.frames = g :: below) :
    below = rest := by
  have hframes := h.frames
  rw [hm, hm'] at hframes
  cases hframes with
  | some _ _ => rfl

theorem Announces.frames {e : Event} {m m' : Machine} (h : Announces e m m') :
    m'.frames = m.frames := by
  obtain ⟨console, rfl⟩ := h
  rfl

theorem setLocal_fits {f f' : Frame} {slot : Int} {v : Value}
    (h : Frame.setLocal slot v f = .ok () f') (hf : f.Fits) : f'.Fits := by
  unfold Frame.setLocal at h
  split at h
  · cases h
    exact hf
  · cases h

/-- A return leaves the bound alone, unless it hands a value to a full caller. -/
theorem Leaves.bounded_iff {m m' : Machine} {v : Option Value} (h : Leaves v m m')
    (hb : m.Bounded) :
    m'.Bounded ↔ ¬ ∃ f caller below, m.frames = f :: caller :: below ∧ v.isSome = true ∧
      caller.method.maxStack ≤ caller.stack.length := by
  cases h with
  | toHost hm h =>
    have hnil : m'.Bounded := by
      unfold Bounded
      rw [h.frames]
      exact nofun
    refine iff_of_true hnil ?_
    rintro ⟨f, caller, below, hframes, -, -⟩
    rw [hm] at hframes
    cases hframes
  | toCaller hm h =>
    rename_i f caller below
    have hcaller : caller.Fits := hb caller (by simp [hm])
    have hrest : ∀ g ∈ below, g.Fits := fun g hg => hb g (by simp [hm, hg])
    unfold Bounded
    rw [h.frames, hm]
    constructor
    · rintro hall ⟨_, _, _, heq, hsome, hfull⟩
      cases heq
      obtain ⟨w, rfl⟩ := Option.isSome_iff_exists.mp hsome
      have hfits := hall _ (List.mem_cons_self ..)
      simp only [Frame.Fits, Frame.resume, Option.toList_some, List.cons_append, List.nil_append,
        List.length_cons] at hfits
      omega
    · intro hnot g hg
      rcases List.mem_cons.mp hg with rfl | hold
      · cases v with
        | none => exact hcaller
        | some w =>
          have hroom : ¬ caller.method.maxStack ≤ caller.stack.length :=
            fun hfull => hnot ⟨f, caller, below, rfl, rfl, hfull⟩
          simp only [Frame.Fits, Frame.resume, Option.toList_some, List.cons_append,
            List.nil_append, List.length_cons]
          omega
      · exact hrest g hold

/-- Only a return with a value can overfill. -/
theorem not_overfills {m : Machine} {f : Frame} {rest : List Frame} {i : Instruction}
    (hm : m.frames = f :: rest) (hfetch : f.Fetches i) (hi : ∀ family, i ≠ .ret (some family)) :
    ¬ m.Overfills := by
  rintro ⟨g, caller, below, family, hframes, hg, -⟩
  cases hm.symm.trans hframes
  exact hi family (hfetch.unique hg)

/-- A successful step keeps the bound exactly if it does not overfill. -/
theorem StepsTo.bounded_iff {m m' : Machine} (h : StepsTo m m') (hb : m.Bounded) :
    m'.Bounded ↔ ¬ m.Overfills := by
  obtain ⟨f, rest, hm⟩ := List.exists_cons_of_ne_nil h.1
  obtain ⟨i, hfetch, m₁, hq, hend⟩ := step_ok hm h.2
  have hb₁ := hq.bounded hb
  cases hend with
  | silent hi =>
    refine iff_of_true hb₁ (not_overfills hm hfetch ?_)
    rintro family rfl
    cases hi
  | library => exact iff_of_true hb₁ (not_overfills hm hfetch nofun)
  | assign hheap hi hm₁ hold hset hv h =>
    refine iff_of_true ?_ (not_overfills hm hfetch ?_)
    · unfold Bounded
      rw [h.frames]
      intro g hg
      rcases List.mem_cons.mp hg with rfl | hrest
      · exact setLocal_fits hset (hb₁ _ (by simp [hm₁]))
      · exact hb₁ g (by simp [hm₁, hrest])
    · rintro family rfl
      cases hi
  | setField hheap hi hget hold hv h =>
    refine iff_of_true ?_ (not_overfills hm hfetch ?_)
    · unfold Bounded
      rw [h.frames]
      exact hb₁
    · rintro family rfl
      cases hi
  | setElement hheap hget hold hstorable hv h =>
    refine iff_of_true ?_ (not_overfills hm hfetch nofun)
    unfold Bounded
    rw [h.frames]
    exact hb₁
  | call hheap href howner h =>
    obtain ⟨hcode, hdepth, hbegins, hstack, hreturn, hsrc, h⟩ := h
    refine iff_of_true ?_ (not_overfills hm hfetch nofun)
    unfold Bounded
    rw [h.frames]
    intro g hg
    rcases List.mem_cons.mp hg with rfl | hrest
    · simp [Frame.Fits, hstack]
    · exact hb₁ g hrest
  | ret hheap hsome hv h =>
    rename_i family v
    rw [h.bounded_iff hb₁]
    refine not_congr ⟨?_, ?_⟩
    · rintro ⟨g, caller, below, hm₁, hv, hfull⟩
      obtain ⟨k, rfl⟩ := Option.isSome_iff_exists.mp (hsome ▸ hv)
      have hrest := hq.frames_below hm hm₁
      exact ⟨f, caller, below, k, hrest ▸ hm, hfetch, hfull⟩
    · rintro ⟨g, caller, below, k, hframes, hg, hfull⟩
      cases hm.symm.trans hframes
      cases hfetch.unique hg
      obtain ⟨g₁, rest₁, hm₁⟩ : ∃ g₁ rest₁, m₁.frames = g₁ :: rest₁ := by
        cases h with
        | toHost hm₁ => exact ⟨_, _, hm₁⟩
        | toCaller hm₁ => exact ⟨_, _, hm₁⟩
      have hrest := hq.frames_below hm hm₁
      subst hrest
      exact ⟨g₁, caller, below, hm₁, hsome, hfull⟩

/-- A transition other than a step leaves no frame or one with an empty stack. -/
theorem Transition.bounded_iff {Pushable : Machine → Value → Prop} {m m' : Machine}
    (ht : Transition Pushable m m') (hb : m.Bounded) :
    m'.Bounded ↔ ¬ (StepsTo m m' ∧ m.Overfills) := by
  have hhost : m.frames = [] → m'.Bounded → (m'.Bounded ↔ ¬ (StepsTo m m' ∧ m.Overfills)) :=
    fun hm hb' => iff_of_true hb' fun h => h.1.1 hm
  cases ht with
  | push hm | configure hm | texts hm => exact hhost hm hb
  | pop hm h =>
    unfold hostPop at h
    split at h
    · cases h
    · cases h
      exact hhost hm hb
  | enter hm h =>
    obtain ⟨m₁, hq, -, hcode, hdepth, hbegins, hstack, hreturn, hsrc, h⟩ :=
      (ends_enter (Quiet.refl m)).of_ok h
    refine hhost hm ?_
    unfold Bounded
    rw [h.frames]
    intro g hg
    rcases List.mem_cons.mp hg with rfl | hrest
    · simp [Frame.Fits, hstack]
    · exact hq.bounded hb g hrest
  | refuse hm h => exact hhost hm nofun
  | step h => simp only [h.bounded_iff hb, h, true_and]
  | fault hm h =>
    refine iff_of_true nofun fun hs => ?_
    cases hs.1.2.symm.trans h

/-- A step that overfills does not fail: the caller gets one value more than its stack may
hold. -/
theorem StepsTo.overfilled {m m' : Machine} (h : StepsTo m m') (hb : m.Bounded)
    (ho : m.Overfills) :
    ∃ caller below, m'.frames = caller :: below ∧
      caller.stack.length = caller.method.maxStack + 1 := by
  obtain ⟨f, caller, below, family, hm, hf, hfull⟩ := ho
  obtain ⟨i, hfetch, m₁, hq, hend⟩ := step_ok hm h.2
  cases hfetch.unique hf
  have hcaller : caller.stack.length ≤ caller.method.maxStack := hb caller (by simp [hm])
  cases hend with
  | silent hi => cases hi
  | assign _ hi => cases hi
  | setField _ hi => cases hi
  | ret hheap hsome hv h =>
    obtain ⟨w, rfl⟩ := Option.isSome_iff_exists.mp hsome
    cases h with
    | toHost hm₁ =>
      cases hq.frames_below hm hm₁
    | toCaller hm₁ h =>
      cases hq.frames_below hm hm₁
      refine ⟨_, _, h.frames, ?_⟩
      simp only [Frame.resume, Option.toList_some, List.cons_append, List.nil_append,
        List.length_cons]
      omega

def widen (extra : Nat) (m : Machine) : Machine :=
  { m with
    program :=
      { m.program with methods := m.program.methods.map fun a => a.resize (a.maxStack + extra) }
    frames :=
      m.frames.map fun f => { f with method := f.method.resize (f.method.maxStack + extra) } }

theorem room_widen (extra : Nat) (m : Machine) :
    (Slack.room extra).Machines m (m.widen extra) := by
  refine ⟨_, _, _, ?_, ?_, rfl, rfl⟩
  · exact List.forall₂_map_right_iff.mpr (List.forall₂_same.mpr fun a _ => ⟨_, rfl, rfl⟩)
  · exact List.forall₂_map_right_iff.mpr (List.forall₂_same.mpr fun f _ => ⟨_, rfl, rfl⟩)

/-- A stack that is within its declared size has all of the extra places free. -/
theorem Bounded.room {extra : Nat} {m m' : Machine} (hb : m.Bounded)
    (h : (Slack.room extra).Machines m m') :
    ∀ f ∈ m'.frames, f.stack.length + extra ≤ f.method.maxStack := by
  have hframes := h.frames
  unfold Bounded at hb
  generalize m.frames = fs at hframes hb
  generalize m'.frames = fs' at hframes ⊢
  induction hframes with
  | nil => exact nofun
  | cons hf _ ih =>
    intro g hg
    rcases List.mem_cons.mp hg with rfl | hrest
    · obtain ⟨n, hn, rfl⟩ := hf
      have hfits : _ ≤ _ := hb _ (List.mem_cons_self ..)
      change _ ≤ n
      change n = _ at hn
      dsimp only
      omega
    · exact ih (fun f hf => hb f (List.mem_cons_of_mem _ hf)) g hrest

/-- A step that would go beyond a declared size, if the size were larger, is a fault, unless it is
a return into a full caller. -/
theorem step_full {m m₁' : Machine} {extra : Nat} (hb : m.Bounded) (ho : ¬ m.Overfills)
    (hstep : step (m.widen extra) = .ok () m₁')
    (hbeyond : ∃ f ∈ m₁'.frames, f.method.maxStack < f.stack.length + extra) :
    ∃ e m₁ n, step m = .error e m₁ ∧ e.cause = .fault (.stackFull n) := by
  have hagrees := Slack.step_agrees (room_widen extra m)
  rw [hstep] at hagrees
  generalize hm : step m = r at hagrees
  cases hagrees with
  | @ok _ _ m₁ _ _ h =>
    have hb₁ : m₁.Bounded := by
      by_cases hnil : m.frames = []
      · unfold step at hm
        rw [hnil] at hm
        cases hm
        exact hb
      · exact (StepsTo.bounded_iff ⟨hnil, hm⟩ hb).mpr ho
    obtain ⟨f, hf, hlt⟩ := hbeyond
    have hle := hb₁.room h f hf
    omega
  | @excused e m₁ _ hexcused =>
    obtain ⟨location, cause⟩ := e
    cases cause with
    | fault f =>
      obtain ⟨n, rfl⟩ := hexcused
      exact ⟨_, m₁, n, rfl, rfl⟩
    | outside message => exact hexcused.elim

/-- Any transition but a step that overfills. -/
def Keeps (m m' : Machine) : Prop :=
  Transition (fun _ _ => True) m m' ∧ ¬ (StepsTo m m' ∧ m.Overfills)

/-- Up to the first step that overfills all stacks are within their declared sizes, and that step
breaks the bound without a fault. Any other step that would break it, if every method declared
more, is a fault of bad code. -/
theorem bounded_until_overfilled (program : Class) (library : Library) (settings : Settings)
    (runId : Bytes) (console : Console) (m : Machine)
    (hreach : Relation.ReflTransGen Keeps (start program library settings runId console) m) :
    m.Bounded ∧ (∀ m', Transition (fun _ _ => True) m m' →
      (m'.Bounded ↔ ¬ (StepsTo m m' ∧ m.Overfills)) ∧
      (StepsTo m m' ∧ m.Overfills → ∃ caller below, m'.frames = caller :: below ∧
        caller.stack.length = caller.method.maxStack + 1)) ∧
    ∀ extra m', step (m.widen extra) = .ok () m' →
      (∃ f ∈ m'.frames, f.method.maxStack < f.stack.length + extra) → ¬ m.Overfills →
      ∃ e m₁ fault, step m = .error e m₁ ∧ e.cause = .fault fault ∧ fault.kind = .badCode := by
  have hb : m.Bounded := by
    induction hreach with
    | refl =>
      unfold Bounded
      rw [start_frames]
      exact nofun
    | tail _ hk ih => exact (hk.1.bounded_iff ih).mpr hk.2
  refine ⟨hb, fun m' ht => ⟨ht.bounded_iff hb, fun h => h.1.overfilled hb h.2⟩, ?_⟩
  intro extra m' hstep hbeyond ho
  obtain ⟨e, m₁, n, herror, hcause⟩ := step_full hb ho hstep hbeyond
  exact ⟨e, m₁, .stackFull n, herror, hcause, rfl⟩

def fullPush : ClassFile where
  minor := 0
  major := 52
  pool := #[none, some (.utf8 "T"), some (.classRef 1), some (.utf8 "main"), some (.utf8 "()V")]
  flags := 0x21
  thisClass := 2
  superClass := 0
  interfaces := []
  fields := []
  methods := [⟨⟨8, 3, 4, "main", "()V", []⟩, some ⟨0, 0, [0x04, 0xB1], [], [], [], []⟩⟩]

def fullPushRun : Option (Nat × Bool) :=
  match Class.load fullPush with
  | .ok program => match program.methodByName? "main" with
    | some method => match enter method .static (start program .default {} [] {}) with
      | .ok _ m => match step (m.widen 1) with
        | .ok _ m' =>
          some (m.frames.length, m'.frames.any fun f => f.method.maxStack < f.stack.length + 1)
        | .error _ _ => none
      | .error _ _ => none
    | none => none
  | .error _ => none

/-- A push where no place is declared is a fault. With one place more it would succeed. -/
theorem bounded_until_overfilled_fullPush : ∃ program m m', Class.load fullPush = .ok program ∧
    Relation.ReflTransGen Keeps (start program .default {} [] {}) m ∧ m.frames.length = 1 ∧
    m.Bounded ∧
    step (m.widen 1) = .ok () m' ∧ (∃ f ∈ m'.frames, f.method.maxStack < f.stack.length + 1) ∧
    ∃ e m₁ fault, step m = .error e m₁ ∧ e.cause = .fault fault ∧ fault.kind = .badCode := by
  have hrun : fullPushRun = some (1, true) := by decide +kernel
  unfold fullPushRun at hrun
  split at hrun
  · rename_i program hload
    split at hrun
    · split at hrun
      · rename_i m henter
        split at hrun
        · rename_i m' hstep
          obtain ⟨hone, hany⟩ := Prod.mk.inj (Option.some.inj hrun)
          have hbeyond : ∃ f ∈ m'.frames, f.method.maxStack < f.stack.length + 1 := by
            obtain ⟨f, hf, hlt⟩ := List.any_eq_true.mp hany
            exact ⟨f, hf, of_decide_eq_true hlt⟩
          have hkeeps : Keeps (start program .default {} [] {}) m :=
            ⟨.enter (start_frames ..) henter, fun h => h.1.1 (start_frames ..)⟩
          have hsingle : ¬ m.Overfills := by
            intro ho
            obtain ⟨f, caller, below, family, hframes, -, -⟩ := ho
            rw [hframes] at hone
            simp at hone
          have hreach := Relation.ReflTransGen.single hkeeps
          obtain ⟨hbounded, -, hfault⟩ :=
            bounded_until_overfilled program .default {} [] {} m hreach
          exact ⟨program, m, m', hload, hreach, hone, hbounded, hstep, hbeyond,
            hfault 1 m' hstep hbeyond hsingle⟩
        · cases hrun
      · cases hrun
    · cases hrun
  · cases hrun

def fullCaller : ClassFile where
  minor := 0
  major := 52
  pool := #[none, some (.utf8 "T"), some (.classRef 1), some (.utf8 "main"), some (.utf8 "f"),
    some (.utf8 "()I"), some (.nameAndType 4 5), some (.methodRef 2 6)]
  flags := 0x21
  thisClass := 2
  superClass := 0
  interfaces := []
  fields := []
  methods := [
    ⟨⟨8, 3, 5, "main", "()I", []⟩, some ⟨0, 0, [0xB8, 0, 7, 0xAC], [], [], [], []⟩⟩,
    ⟨⟨8, 4, 5, "f", "()I", []⟩, some ⟨1, 0, [0x04, 0xAC], [], [], [], []⟩⟩]

/-- `main` declares no place for the value that it gets from `f`, and it gets the value all the
same. -/
theorem fullCaller_not_bounded : ∃ program, Class.load fullCaller = .ok program ∧
    ∃ m, Reaches (fun _ _ => True) (start program .default {} [] {}) m ∧ ¬ m.Bounded := by
  have hrun : (Class.load fullCaller).toOption.map (fun program =>
      decide (program.after (.byName "main") 3).Bounded) =
        some false := by decide +kernel
  cases hload : Class.load fullCaller with
  | error e =>
    rw [hload] at hrun
    cases hrun
  | ok program =>
    rw [hload] at hrun
    exact ⟨program, rfl, _, program.reaches_after (.byName "main") 3,
      of_decide_eq_false (Option.some.inj hrun)⟩

end Machine

end ClassTrace
