import ClassTrace.Proofs.Lockstep
import ClassTrace.Proofs.Run

/-!
Calls of the host in lockstep. What holds of steps is lifted to runs, to the calls that the host
can make, and to whatever else it does with a machine between them.
-/
namespace ClassTrace

namespace Outcome

def map (g : Machine → Machine) : Outcome → Outcome
  | .finished m => .finished (g m)
  | .failed e m => .failed e (g m)
  | .unfinished m => .unfinished (g m)

/-- How a call ends is its answer and the machine that it leaves. -/
theorem eq_map {o o' : Outcome} {g : Machine → Machine} (hanswer : o'.answer = o.answer)
    (hmachine : o'.machine = g o.machine) : o' = o.map g := by
  cases o <;> cases o' <;> cases hanswer <;> cases hmachine <;> rfl

end Outcome

namespace Variation

variable {V : Variation} {m m' : Machine}

inductive Outcomes (V : Variation) : Outcome → Outcome → Prop
  | finished {m m' : Machine} (h : V.Machines m m') : Outcomes V (.finished m) (.finished m')
  | failed {m m' : Machine} {e : RunError} (h : V.Machines m m') :
      Outcomes V (.failed e m) (.failed e m')
  | unfinished {m m' : Machine} (h : V.Machines m m') :
      Outcomes V (.unfinished m) (.unfinished m')
  | excused {m : Machine} {e : RunError} {o : Outcome} (he : V.Causes e.cause) :
      Outcomes V (.failed e m) o

/-- Runs of machines that vary come to outcomes that agree, step by step. -/
theorem finish_agrees (fuel : Nat) (h : V.Machines m m')
    (hmode : V.OneMode ∨ ∀ m₂, Machine.Runs m m₂ → m₂.Neutral) :
    V.Outcomes (Machine.finish fuel m) (Machine.finish fuel m') := by
  have hempty : ∀ {m m' : Machine}, V.Machines m m' → m'.frames.isEmpty = m.frames.isEmpty := by
    intro m m' h
    rw [Bool.eq_iff_iff, List.isEmpty_iff_length_eq_zero, List.isEmpty_iff_length_eq_zero,
      h.length_frames]
  induction fuel generalizing m m' with
  | zero =>
    unfold Machine.finish
    rw [hempty h]
    split
    · exact .finished h
    · exact .unfinished h
  | succ fuel ih =>
    unfold Machine.finish
    rw [hempty h]
    split
    · exact .finished h
    · rename_i hsome
      have hstep := step_agrees h (hmode.imp_right fun hruns => hruns m .refl)
      dsimp only
      generalize hs : Machine.step m = r at hstep
      generalize Machine.step m' = r' at hstep
      cases hstep with
      | ok _ h' =>
        refine ih h' (hmode.imp_right fun hruns m₂ hrun => hruns m₂ (.head ⟨?_, hs⟩ hrun))
        exact fun hnil => hsome (List.isEmpty_iff.mpr hnil)
      | error h' => exact .failed (h'.setFrames .nil)
      | excused he => exact .excused he

theorem call_agrees (fuel : Nat) {method method' : Method} (hmethod : V.Methods method method')
    (h : V.Machines m m')
    (hmode : V.OneMode ∨ ∀ m₁ m₂, Machine.enter method .static m = .ok () m₁ →
      Machine.Runs m₁ m₂ →
      m₂.Neutral) :
    V.Outcomes (Machine.call fuel method m) (Machine.call fuel method' m') := by
  obtain ⟨t, ht, rfl⟩ := hmethod
  have henter := Same.enter ht .static m m' h
  unfold Machine.call
  generalize hentered : Machine.enter method .static m = r at henter
  generalize Machine.enter (method.annotate t) .static m' = r' at henter
  cases henter with
  | ok _ h' => exact finish_agrees fuel h' (hmode.imp_right fun hruns m₂ => hruns _ m₂ hentered)
  | error h' => exact .failed (h'.setFrames .nil)
  | excused he => exact .excused he

theorem find?_methods {methods methods' : List Method}
    (h : List.Forall₂ V.Methods methods methods') (name : Bytes) :
    Option.Rel V.Methods (methods.find? (·.name == name)) (methods'.find? (·.name == name)) := by
  induction h with
  | nil => exact .none
  | @cons method _ _ _ hmethod _ ih =>
    obtain ⟨t, ht, rfl⟩ := hmethod
    have hname : (method.annotate t).name = method.name := rfl
    rw [List.find?_cons, List.find?_cons, hname]
    split
    · exact .some ⟨t, ht, rfl⟩
    · exact ih

theorem filter_static {found found' : Option Method} (h : Option.Rel V.Methods found found') :
    Option.Rel V.Methods (found.filter (·.isStatic)) (found'.filter (·.isStatic)) := by
  cases h with
  | none => exact .none
  | @some method _ hmethod =>
    obtain ⟨t, ht, rfl⟩ := hmethod
    have hstatic : (method.annotate t).isStatic = method.isStatic := rfl
    rw [Option.filter_some, Option.filter_some, hstatic]
    split
    · exact .some ⟨t, ht, rfl⟩
    · exact .none

theorem entryMethod?_methods (h : V.Machines m m') :
    Option.Rel V.Methods m.entryMethod? m'.entryMethod? := by
  obtain ⟨w, hw, rfl⟩ := h
  have hexact := method?_methods hw.methods m.settings.entryPoint "([Ljava/lang/String;)V"
  have hname := find?_methods hw.methods m.settings.entryPoint
  unfold Machine.entryMethod?
  dsimp only [Machine.vary]
  generalize m.program.method? m.settings.entryPoint _ = found at hexact
  generalize Class.method? _ m.settings.entryPoint _ = found' at hexact
  cases hexact with
  | some hmethod => exact .some hmethod
  | none => exact hname

/-- A call of the host is set up with the same method but for its annotations. -/
theorem setup_agrees (c : HostCall) (h : V.Machines m m') :
    Option.Rel (fun p p' : Method × Machine => V.Methods p.1 p'.1 ∧ V.Machines p.2 p'.2)
      (c.setup m) (c.setup m') := by
  have hpair : ∀ {found found' : Option Method}, Option.Rel V.Methods found found' →
      Option.Rel (fun p p' : Method × Machine => V.Methods p.1 p'.1 ∧ V.Machines p.2 p'.2)
        (found.map (·, m)) (found'.map (·, m')) := by
    intro found found' hfound
    cases hfound with
    | none => exact .none
    | some hmethod => exact .some ⟨hmethod, h⟩
  cases c with
  | byName name =>
    refine hpair (filter_static ?_)
    obtain ⟨w, hw, rfl⟩ := h
    exact find?_methods hw.methods name
  | exact name descriptor =>
    refine hpair (filter_static ?_)
    obtain ⟨w, hw, rfl⟩ := h
    exact method?_methods hw.methods name descriptor
  | entry args =>
    have hfound := filter_static (entryMethod?_methods h)
    unfold HostCall.setup
    dsimp only
    generalize m.entryMethod?.filter _ = found at hfound
    generalize m'.entryMethod?.filter _ = found' at hfound
    cases hfound with
    | none => exact .none
    | @some method _ hmethod =>
      refine .some ⟨hmethod, ?_⟩
      obtain ⟨t, -, rfl⟩ := hmethod
      have hparams : (method.annotate t).signature = method.signature := rfl
      dsimp only
      rw [hparams]
      split
      · exact h
      · obtain ⟨w, hw, rfl⟩ := h
        exact ⟨w, ⟨hw.methods, hw.frames, hw.depth, hw.branches, hw.document, hw.console⟩, rfl⟩

/-- A call of the host comes to the same on both machines, if they have the same mode of branches
or no instruction of the run depends on it. -/
theorem perform_agrees (c : HostCall) (fuel : Nat) (h : V.Machines m m')
    (hmode : V.OneMode ∨ ∀ m₁ m₂, c.Entered m m₁ → Machine.Runs m₁ m₂ → m₂.Neutral) :
    V.Outcomes (c.perform fuel m) (c.perform fuel m') := by
  have hsetup := setup_agrees c h
  have hmissing : c.missing m' = c.missing m := by
    obtain ⟨w, -, rfl⟩ := h
    cases c with
    | byName | exact | entry => rfl
  rw [HostCall.perform_eq, HostCall.perform_eq, hmissing]
  generalize hfound : c.setup m = target at hsetup
  generalize c.setup m' = target' at hsetup
  cases hsetup with
  | none => exact .failed h
  | some hpair =>
    exact call_agrees fuel hpair.1 hpair.2 (hmode.imp_right fun hruns m₁ m₂ hs =>
      hruns m₁ m₂ ⟨_, _, hfound, hs⟩)

/-- Where nothing is excused, the host learns the same from both machines. -/
theorem operation_agrees (hexcused : ∀ f, ¬ V.excused f) (hdepth : ∀ d, V.depth d d)
    (op : HostOperation) (h : V.Machines m m') (hmode : V.OneMode) :
    (op.perform m').1 = (op.perform m).1 ∧ V.Machines (op.perform m).2 (op.perform m').2 := by
  cases op with
  | push v =>
    obtain ⟨w, hw, rfl⟩ := h
    exact ⟨rfl, w, ⟨hw.methods, hw.frames, hw.depth, hw.branches, hw.document, hw.console⟩, rfl⟩
  | pop =>
    have hhost := h.host_eq
    unfold HostOperation.perform Machine.hostPop
    rw [hhost]
    cases m.host with
    | nil => exact ⟨rfl, h⟩
    | cons v rest => exact ⟨rfl, h.setHost rest⟩
  | configure entryPoint maxDepth legacyBranches =>
    obtain ⟨w, hw, rfl⟩ := h
    exact ⟨rfl, { w with maxDepth, legacyBranches },
      ⟨hw.methods, hw.frames, hdepth maxDepth, (hmode _ _).mpr rfl, hw.document, hw.console⟩, rfl⟩
  | call c fuel =>
    have hcall := perform_agrees c fuel h (.inl hmode)
    change (c.perform fuel m').answer = (c.perform fuel m).answer ∧
      V.Machines (c.perform fuel m).machine (c.perform fuel m').machine
    generalize c.perform fuel m = o at hcall
    generalize c.perform fuel m' = o' at hcall
    cases hcall with
    | finished h' | failed h' | unfinished h' => exact ⟨rfl, h'⟩
    | @excused _ e _ he =>
      obtain ⟨location, cause⟩ := e
      cases cause with
      | fault f => exact absurd he (hexcused f)
      | outside message => exact he.elim

/-- The same operations, one after the other, get the same answers. -/
theorem operations_agree (hexcused : ∀ f, ¬ V.excused f) (hdepth : ∀ d, V.depth d d)
    (ops : List HostOperation) (h : V.Machines m m')
    (hmode : V.OneMode := by exact fun _ _ => Iff.rfl) :
    List.Forall₂ (fun r r' : HostAnswer × Machine => r'.1 = r.1 ∧ V.Machines r.2 r'.2)
      (HostOperation.performAll ops m) (HostOperation.performAll ops m') := by
  induction ops generalizing m m' with
  | nil => exact .nil
  | cons op ops ih =>
    have hop := operation_agrees hexcused hdepth op h hmode
    exact .cons hop (ih hop.2)

end Variation

end ClassTrace
