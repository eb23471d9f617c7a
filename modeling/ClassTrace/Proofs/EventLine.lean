import ClassTrace.Proofs.Transfer

/-!
Events tell the line of the instruction that they come from. What an instruction does before its
event moves neither the address that lines are looked up with nor the document.
-/
namespace ClassTrace.Machine

structure Aligned (m m' : Machine) : Prop where
  line : m'.line = m.line
  document : m'.document = m.document
  settings : m'.settings = m.settings

theorem Aligned.refl (m : Machine) : m.Aligned m := ⟨rfl, rfl, rfl⟩

def ReportsLine (m m' : Machine) : Prop := ∃ e, m'.document = m.recorded e ∧ e.line = m.line

section Actions

variable {m₀ m : Machine} {I : Machine → Prop}

theorem Aligned.records {m' : Machine} {e : Event} (h : m₀.Aligned m)
    (hd : m'.document = m.recorded e) (he : e.line = m.line) : m₀.ReportsLine m' := by
  refine ⟨e, hd.trans ?_, he.trans h.line⟩
  unfold recorded
  rw [h.settings, h.document]

theorem Aligned.reportsLine {m' : Machine} {e : Event} (h : m₀.Aligned m) (ha : Announces e m m')
    (he : e.line = m.line) : m₀.ReportsLine m' := by
  obtain ⟨console, rfl⟩ := ha
  exact h.records rfl he

theorem Aligned.top {f f' : Frame} {rest : List Frame} (h : m₀.Aligned m)
    (hm : m.frames = f :: rest) (hf : f'.line = f.line) :
    m₀.Aligned { m with frames := f' :: rest } := by
  refine ⟨?_, h.document, h.settings⟩
  rw [← h.line]
  unfold Machine.line
  rw [hm]
  exact hf

theorem aligned_check {α : Type} {x : Except Fault α} (h : m₀.Aligned m) :
    Ends (fun _ => True) (check x) m fun _ m' => m₀.Aligned m' := by
  cases x with
  | error f => exact trivial
  | ok a => exact h

theorem aligned_onStack {α : Type} {x : StackM α} (h : m₀.Aligned m) :
    Ends (fun _ => True) (onStack x) m fun _ m' => m₀.Aligned m' := by
  unfold Ends onStack
  cases hm : m.frames with
  | nil =>
    cases x m.host with
    | ok a host =>
      refine ⟨?_, h.document, h.settings⟩
      rw [← h.line]
      unfold Machine.line
      rw [hm]
    | error e host => exact trivial
  | cons f rest =>
    simp only [Frame.onStack]
    cases x f.stack with
    | ok a stack =>
      simp only
      exact h.top hm rfl
    | error e stack => simp only

theorem aligned_onFrame {α : Type} {x : FrameM α} (h : m₀.Aligned m)
    (hx : ∀ f a f', x f = .ok a f' → f'.line = f.line) :
    Ends (fun _ => True) (onFrame x) m fun _ m' => m₀.Aligned m' := by
  unfold Ends onFrame
  cases hm : m.frames with
  | nil => exact trivial
  | cons f rest =>
    cases hf : x f with
    | ok a f' =>
      simp only [hf]
      exact h.top hm (hx f a f' hf)
    | error e f' =>
      simp only [hf]

theorem line_getLocal {slot : Nat} (f : Frame) (v : Value) (f' : Frame)
    (h : Frame.getLocal slot f = .ok v f') : f'.line = f.line := by
  unfold Frame.getLocal at h
  split at h
  · split at h
    · cases h
      rfl
    · cases h
  · cases h

theorem line_setLocal {slot : Nat} {v : Value} (f : Frame) (u : Unit) (f' : Frame)
    (h : Frame.setLocal slot v f = .ok u f') : f'.line = f.line := by
  unfold Frame.setLocal at h
  split at h
  · cases h
    rfl
  · cases h

theorem aligned_popArray (h : m₀.Aligned m) :
    Ends (fun _ => True) popArray m fun _ m' => m₀.Aligned m' := by
  refine (aligned_onStack h).bind fun v m h => ?_
  cases v with
  | ref id =>
    refine ends_get.bind ?_
    rintro _ m ⟨rfl, rfl⟩
    exact (aligned_check h).bind fun _ m h => Ends.of_pure h
  | _ => exact Ends.of_throw trivial

theorem aligned_popObject (h : m₀.Aligned m) :
    Ends (fun _ => True) popObject m fun _ m' => m₀.Aligned m' := by
  refine (aligned_onStack h).bind fun v m h => ?_
  cases v with
  | ref id =>
    refine ends_get.bind ?_
    rintro _ m ⟨rfl, rfl⟩
    exact (aligned_check h).bind fun _ m h => Ends.of_pure h
  | _ => exact Ends.of_throw trivial

theorem aligned_elementAt {a : ArrayRef} {i : Int32} (h : m₀.Aligned m) :
    Ends (fun _ => True) (elementAt a i) m fun _ m' => m₀.Aligned m' := by
  unfold elementAt
  split
  · exact Ends.of_throw trivial
  · split
    · exact Ends.of_pure h
    · exact Ends.of_throw trivial

theorem aligned_fieldRef {index : UInt16} (h : m₀.Aligned m) :
    Ends (fun _ => True) (fieldRef index) m fun _ m' => m₀.Aligned m' := by
  refine ends_get.bind ?_
  rintro _ m ⟨rfl, rfl⟩
  exact aligned_check h

theorem line_store {slot : Nat} {v : Value} (h : m₀.Aligned m) :
    Ends (fun _ => True) (store slot v) m fun _ m' => m₀.ReportsLine m' := by
  refine (aligned_onFrame h line_getLocal).bind fun old m h => ?_
  refine (aligned_onFrame h line_setLocal).bind fun _ m h => ?_
  unfold Ends
  cases hm : m.frames with
  | nil => simp only [bind, EStateM.bind, onFrame, hm]
  | cons f rest =>
    have hget : onFrame get m = .ok f m := by
      unfold onFrame
      simp only [hm]
      show EStateM.Result.ok f { m with frames := f :: rest } = .ok f m
      rw [← hm]
    rw [bind_of_ok hget]
    refine h.reportsLine (announces_report _ m) ?_
    unfold Machine.line
    rw [hm]
    rfl

theorem line_increment {slot : Nat} {delta : Int32} (h : m₀.Aligned m) :
    Ends (fun _ => True) (increment slot delta) m fun _ m' => m₀.ReportsLine m' := by
  refine (aligned_onFrame h line_getLocal).bind fun v m h => ?_
  cases v with
  | int n => exact line_store h
  | _ => exact Ends.of_throw trivial

theorem line_arrayStore {s : ElementStore} (h : m₀.Aligned m) :
    Ends (fun _ => True) (arrayStore s) m fun _ m' => m₀.ReportsLine m' := by
  refine (aligned_onStack h).bind fun v m h => ?_
  refine (aligned_onStack h).bind fun i m h => ?_
  refine (aligned_popArray h).bind fun a m h => ?_
  refine (aligned_elementAt h).bind fun old m h => ?_
  dsimp only
  split
  · exact Ends.of_throw_bind trivial
  · have h' :
        m₀.Aligned
          { m with heap := m.heap.setElement a.id i.toInt.toNat (narrow a.element v s) } :=
      ⟨h.line, h.document, h.settings⟩
    exact h'.reportsLine (announces_report _ _) rfl

theorem line_setField {o : ObjectRef} {name : Bytes} {v : Value} (h : m₀.Aligned m) :
    Ends (fun _ => True) (setField o name v) m fun _ m' => m₀.ReportsLine m' := by
  unfold setField
  split
  · have h' : m₀.Aligned { m with heap := m.heap.setField o.id name v } :=
      ⟨h.line, h.document, h.settings⟩
    exact h'.reportsLine (announces_report _ _) rfl
  · exact Ends.of_throw trivial

theorem line_putField {index : UInt16} (h : m₀.Aligned m) :
    Ends (fun _ => True) (putField index) m fun _ m' => m₀.ReportsLine m' := by
  refine (aligned_fieldRef h).bind fun r m h => ?_
  refine (aligned_onStack h).bind fun v m h => ?_
  exact (aligned_popObject h).bind fun o m h => line_setField h

theorem line_putStatic {index : UInt16} (h : m₀.Aligned m) :
    Ends (fun _ => True) (putStatic index) m fun _ m' => m₀.ReportsLine m' := by
  refine (aligned_fieldRef h).bind fun r m h => ?_
  refine ends_get.bind ?_
  rintro _ m ⟨rfl, rfl⟩
  dsimp only
  split
  · exact Ends.of_throw_bind trivial
  · refine (aligned_onStack h).bind fun v m h => ?_
    refine ends_get.bind ?_
    rintro _ m ⟨rfl, rfl⟩
    exact (aligned_check h).bind fun _ m h => line_setField h

/-- The event of a call tells the line of the caller. -/
theorem line_enter {method : Method} {kind : CallKind} (h : m₀.Aligned m) :
    Ends (fun _ => True) (enter method kind) m fun _ m' => m₀.ReportsLine m' := by
  unfold enter
  dsimp only
  split
  · exact Ends.of_throw_bind trivial
  refine ends_get.bind ?_
  rintro _ m ⟨rfl, rfl⟩
  refine ends_get.bind ?_
  rintro _ m ⟨rfl, rfl⟩
  split
  · exact Ends.of_throw_bind trivial
  -- The frame is added after the line was looked up, so the event is the one of the caller's
  -- line.
  have hreport : ∀ {m₁ : Machine} (f : Frame) (args : List Bytes) (r : LogRecord), m₀.Aligned m₁ →
      m₀.ReportsLine (log r (report (.event (.call m₁.line method.name kind.name args))
        { m₁ with frames := f :: m₁.frames })) := by
    intro m₁ f args r h₁
    obtain ⟨console, heq⟩ := (announces_report (.call m₁.line method.name kind.name args)
      { m₁ with frames := f :: m₁.frames }).log r
    rw [heq]
    exact h₁.records rfl rfl
  refine (aligned_onStack h).bind fun args m h => ?_
  split
  · refine (aligned_onStack h).bind fun receiver m h => ?_
    split
    · exact Ends.of_throw_bind trivial
    · exact hreport _ _ _ h
  · exact hreport _ _ _ h

theorem line_ret {v : Option Value} (h : m₀.Aligned m) :
    Ends (fun _ => True) (ret v) m fun _ m' => m₀.ReportsLine m' := by
  refine (ends_ret (Quiet.refl m)).mono (fun _ _ => trivial) fun _ m' hl => ?_
  have hline : ∀ f rest, m.frames = f :: rest → f.line = m.line := by
    intro f rest hm
    unfold Machine.line
    rw [hm]
  cases hl with
  | toHost hm ha | toCaller hm ha =>
    obtain ⟨console, rfl⟩ := ha
    exact h.records rfl (hline _ _ hm)

theorem line_invoke {mode : CallMode} {index : UInt16} (m : Machine) :
    Ends (fun _ => True) (invoke mode index) m fun _ m' =>
      m'.document = m.document ∨ m.ReportsLine m' := by
  refine ends_get.bind ?_
  rintro _ m ⟨rfl, rfl⟩
  refine Ends.bind (Q := fun _ m' => m' = m) ?_ ?_
  · exact (ends_check (Quiet.refl m)).mono (fun _ _ => trivial) fun _ _ h => h.1
  rintro r m rfl
  split
  · refine ends_get.bind ?_
    rintro _ m ⟨rfl, rfl⟩
    dsimp only
    split
    · exact Ends.of_throw trivial
    · split
      · exact Ends.of_throw_bind trivial
      · exact (line_enter (.refl m)).mono (fun _ h => h) fun _ _ h => Or.inr h
  · exact (ends_invokeLibrary (.refl m)).mono (fun _ _ => trivial) fun _ _ h => Or.inl h.document

end Actions

/-- An instruction that has no event leaves the document alone. -/
theorem Finishes.document {m m' : Machine} {i : Instruction} (h : Finishes m i m')
    (hi : i.isSilent = true) : m'.document = m.document := by
  obtain ⟨m₁, hq, hend⟩ := h
  cases hend with
  | silent => exact hq.document
  | assign _ hslot =>
    cases i with
    | store | increment => cases hi
    | _ => cases hslot
  | setField _ hstores =>
    cases i with
    | putStatic | putField => cases hi
    | _ => cases hstores
  | _ => cases hi

/-- Whatever instruction is run, an event that it reports tells the line it began at. -/
theorem line_run {i : Instruction} (hi : i.Literal) (m : Machine) :
    Ends (fun _ => True) i.run m fun _ m' => m'.document = m.document ∨ m.ReportsLine m' := by
  by_cases hs : i.isSilent = true
  · refine (Instruction.ends_run hi (.refl m) rfl).mono (fun _ _ => trivial) fun _ m' h => ?_
    exact Or.inl (h.document hs)
  have reports :
      ∀ {x : Exec Unit} {m₁ : Machine}, Ends (fun _ => True) x m₁ (fun _ => m.ReportsLine) →
      Ends (fun _ => True) x m₁ fun _ m' => m'.document = m.document ∨ m.ReportsLine m' :=
    fun h => h.mono (fun _ h => h) fun _ _ h => Or.inr h
  cases i with
  | store family slot =>
    exact (aligned_onStack (.refl m)).bind fun v m₁ h => reports (line_store h)
  | increment slot delta => exact reports (line_increment (.refl m))
  | arrayStore s => exact reports (line_arrayStore (.refl m))
  | putStatic index => exact reports (line_putStatic (.refl m))
  | putField index => exact reports (line_putField (.refl m))
  | invoke mode index => exact line_invoke m
  | ret family =>
    cases family with
    | none => exact reports (line_ret (.refl m))
    | some family => exact (aligned_onStack (.refl m)).bind fun v m₁ h => reports (line_ret h)
  | _ => exact absurd rfl hs

/-- A step has no event, or one that tells the line of the address that the step began at. -/
theorem step_line {m m' : Machine} {f : Frame} {rest : List Frame} (hm : m.frames = f :: rest)
    (h : step m = .ok () m') : m'.document = m.document ∨
      ∃ e, m'.document = m.recorded e ∧ e.line = f.method.line f.pc := by
  obtain ⟨i, hfetch, -⟩ := step_ok hm h
  obtain ⟨opcode, next, console, hop, hdec, hrun⟩ := step_runs hm hfetch h
  have hpc : f.pc < f.method.code.size := (Array.getElem?_eq_some_iff.mp hop).1
  have hopcode :=
    ((Instruction.decode_hasOpcode opcode f.method.code (f.pc + 1) hpc).of_ok hdec).1
  exact (line_run hopcode.literal _).of_ok hrun

end ClassTrace.Machine
