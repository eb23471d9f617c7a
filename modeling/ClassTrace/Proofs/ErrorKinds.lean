import ClassTrace.Proofs.FaultLocation

/-!
The kinds of errors. What an operation of the host fails with is of exactly one kind, unless its
run came to a print that was refused: that error is passed on as it is, and it is of the kinds
that it was before.
-/
namespace ClassTrace

def Cause.kinds : Cause → List FaultKind
  | .fault f => [f.kind]
  | .outside error => error.kinds

namespace HostCall

open Machine

/-- The run of the call comes to a print that is refused with the error. -/
def Refused (c : HostCall) (m : Machine) (error : OutsideError) : Prop :=
  ∃ m₁ m₂, c.Entered m m₁ ∧ Runs m₁ m₂ ∧ m₂.RefusesPrint error

/-- A call fails with an error from outside if and only if its run comes to a refused print. -/
theorem outside_iff_refused {c : HostCall} {fuel : Nat} {m m' : Machine} {e : RunError}
    (hl : m.library.Reliable) (hfail : c.perform fuel m = .failed e m') (error : OutsideError) :
    e.cause = .outside error ↔ c.Refused m error := by
  rcases failed_cases hfail with ⟨hnone, fault, rfl⟩ | ⟨m₁, m₂, m₃, hentered, hrun, -, hstep⟩
  · refine iff_of_false (fun hcause => by cases hcause) ?_
    rintro ⟨m₁, _, h₁, -⟩
    exact hnone m₁ h₁
  · constructor
    · intro hcause
      rw [← hentered.runs_library hrun] at hl
      exact ⟨m₁, m₂, hentered, hrun, (step_outside_iff hl).mp ⟨e, m₃, hstep, hcause⟩⟩
    · rintro ⟨m₁', m₂', hentered', hrun', hrefuses⟩
      cases hentered.unique hentered'
      rw [← hentered.runs_library hrun'] at hl
      -- The refused print fails, and a run has one failing step only.
      obtain ⟨e', m₃', hstep', hcause⟩ := (step_outside_iff hl).mpr hrefuses
      cases Runs.fails_unique hrun hrun' hstep hstep'
      cases hstep.symm.trans hstep'
      exact hcause

end HostCall

namespace HostOperation

def Refused (m : Machine) (error : OutsideError) : HostOperation → Prop
  | .call c _ => c.Refused m error
  | _ => False

theorem outside_iff_refused {op : HostOperation} {m : Machine} {e : RunError}
    (hl : m.library.Reliable) (hfail : (op.perform m).1 = .failed e) (error : OutsideError) :
    e.cause = .outside error ↔ op.Refused m error := by
  cases op with
  | push v => cases hfail
  | configure entryPoint maxDepth legacyBranches => cases hfail
  | pop =>
    dsimp only [perform] at hfail
    split at hfail
    · cases hfail
    · cases hfail
      exact iff_of_false (fun hcause => by cases hcause) (fun h => h)
  | call c fuel =>
    have hanswer : (c.perform fuel m).answer = .failed e := hfail
    cases hperform : c.perform fuel m with
    | finished m' | unfinished m' =>
      rw [hperform] at hanswer
      cases hanswer
    | failed e' m' =>
      rw [hperform] at hanswer
      cases hanswer
      exact c.outside_iff_refused hl hperform error

/-- Whatever the host did before and whatever stands behind the console, an operation fails with
an error of exactly one kind, unless it is a call that comes to a print that is refused with an
error of no kind or of several. What a print was refused with keeps its kinds and its message. -/
theorem failures_of_one_kind {program : Class} {settings : Settings} {runId : Bytes}
    {console : Console} {m : Machine} {op : HostOperation} {e : RunError}
    (hreach : Machine.Reaches (fun _ _ => True)
      (.start program .default settings runId console) m)
    (hfail : (op.perform m).1 = .failed e) :
    ((∃! kind, kind ∈ e.cause.kinds) ↔ ∀ error, op.Refused m error →
      ∃! kind, kind ∈ error.kinds) ∧
    ∀ error, op.Refused m error → e.cause.kinds = error.kinds ∧
      e.cause.message = error.message := by
  have hl : m.library.Reliable := by
    obtain ⟨_, _, -, hstart⟩ := Machine.start_eq program .default settings runId console
    rw [hreach.library, hstart]
    exact Library.default_reliable
  have hrefused := fun error => outside_iff_refused hl hfail error
  refine ⟨?_, fun error h => ?_⟩
  · cases hcause : e.cause with
    | fault f =>
      refine iff_of_true ⟨f.kind, List.mem_singleton_self _, fun _ => List.mem_singleton.mp⟩ ?_
      intro error h
      cases hcause.symm.trans ((hrefused error).mpr h)
    | outside error =>
      constructor
      · intro hone error' h
        cases hcause.symm.trans ((hrefused error').mpr h)
        exact hone
      · exact fun hall => hall error ((hrefused error).mp hcause)
  · rw [(hrefused error).mpr h]
    exact ⟨rfl, rfl⟩

def printing : Class where
  name := "T"
  super := []
  pool := #[none,
    some (.fieldRef ⟨⟨"java/lang/System", 0⟩, ⟨"out", "Ljava/io/PrintStream;",
      .plain (.value (.object "java/io/PrintStream"))⟩, .value (.object "java/io/PrintStream")⟩),
    some (.methodRef ⟨⟨"java/io/PrintStream", 0⟩, ⟨"println", "()V", .method ⟨[], .void⟩⟩,
      ⟨[], .void⟩, false⟩)]
  fields := []
  methods := [
    { owner := "T", name := "main", descriptor := "()V", signature := ⟨[], .void⟩,
      isStatic := true, maxStack := 1, code := #[0xB2, 0, 1, 0xB6, 0, 2, 0xB1] }]

def noRoom : OutsideError := { message := "no room" }

def printingNowhere : Machine :=
  .start printing .default {} [] { out := { room := some 0, refusal := noRoom } }

theorem perform_printingNowhere : ((call (.byName "main") 10).perform printingNowhere).1 =
    .failed ⟨some ⟨"T.main()V", 3, some 0xB6⟩, .outside noRoom⟩ := by decide +kernel

/-- Where there is no room on the output, ending a line is an error of no kind. -/
theorem refused_print_of_no_kind :
    ∃ e, ((call (.byName "main") 10).perform printingNowhere).1 = .failed e ∧
      ¬ ∃! kind, kind ∈ e.cause.kinds := by
  refine ⟨_, perform_printingNowhere, ?_⟩
  rintro ⟨kind, hkind, -⟩
  cases hkind

/-- On the same machine the host gets an error of one kind for a pop, since that prints
nothing. -/
theorem failures_of_one_kind_printing :
    (∃ error, (call (.byName "main") 10).Refused printingNowhere error) ∧
    (pop.perform printingNowhere).1 = .failed ⟨none, .fault .stackEmpty⟩ ∧
    ∃! kind, kind ∈ (Cause.fault .stackEmpty).kinds := by
  have hpop : (pop.perform printingNowhere).1 = .failed ⟨none, .fault .stackEmpty⟩ := by
    decide +kernel
  have hreach : Machine.Reaches (fun _ _ => True) printingNowhere printingNowhere := .refl
  refine ⟨?_, hpop, (failures_of_one_kind hreach hpop).1.mpr fun error h => h.elim⟩
  -- The error is of no kind, so a print must have been refused.
  refine Classical.byContradiction fun hnone => ?_
  obtain ⟨kind, hkind, -⟩ := (failures_of_one_kind hreach perform_printingNowhere).1.mpr
    fun error h => absurd ⟨error, h⟩ hnone
  cases hkind

end HostOperation

end ClassTrace
