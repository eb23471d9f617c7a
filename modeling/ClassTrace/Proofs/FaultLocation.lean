import ClassTrace.Proofs.Printing

/-!
Where errors are said to arise. A call of the host that fails after it has entered its method
fails in exactly one step of its run, and the error names the method and the address that this
step began at. What the instruction had read and popped before it failed does not show, nor does a
method that it was about to call. One sort of errors has a location before it comes to the
machine: what stands behind the console may refuse a print with the error of another run, and this
one is passed on as it is.
-/
namespace ClassTrace

namespace Machine

/-- Steps are determined by the machine. -/
theorem StepsTo.unique {m m₁ m₂ : Machine} (h₁ : StepsTo m m₁) (h₂ : StepsTo m m₂) : m₁ = m₂ := by
  have heq := h₁.2.symm.trans h₂.2
  cases heq
  rfl

/-- A run that has reached a failing step goes no further. -/
theorem Runs.eq_of_fails {m m₁ m' : Machine} {e : RunError} (h : Runs m m₁)
    (hfail : step m = .error e m') : m₁ = m := by
  rcases h.cases_head with rfl | ⟨m₂, hs, -⟩
  · rfl
  · rw [hs.2] at hfail
    cases hfail

/-- A run has at most one failing step. -/
theorem Runs.fails_unique {m m₁ m₂ m₁' m₂' : Machine} {e₁ e₂ : RunError} (h₁ : Runs m m₁)
    (h₂ : Runs m m₂) (hfail₁ : step m₁ = .error e₁ m₁') (hfail₂ : step m₂ = .error e₂ m₂') :
    m₁ = m₂ := by
  have hunique : Relator.RightUnique StepsTo := fun _ _ _ ha hb => ha.unique hb
  rcases Relation.ReflTransGen.total_of_right_unique hunique h₁ h₂ with h | h
  · exact (Runs.eq_of_fails h hfail₁).symm
  · exact Runs.eq_of_fails h hfail₂

end Machine

/-- The error tells the address of the frame, and the opcode there if there is one. -/
structure Location.Names (l : Location) (f : Frame) : Prop where
  method : l.method = f.method.fullName
  pc : l.pc = f.pc
  inside : l.opcode.isSome = true ↔ f.pc < f.method.code.size
  opcode : ∀ opcode, l.opcode = some opcode → f.method.code[f.pc]? = some opcode
  -- An error that arises while a method is called is at the call.
  call : ∀ mode index, f.Fetches (.invoke mode index) → l.opcode = some mode.opcode

theorem Location.names (f : Frame) :
    Location.Names ⟨f.method.fullName, f.pc, f.method.code[f.pc]?⟩ f where
  method := rfl
  pc := rfl
  inside := by simp
  opcode := fun _ h => h
  call := by
    intro mode index hfetch
    obtain ⟨opcode, hop, hopcode⟩ := hfetch.hasOpcode
    rw [hop, hopcode]

def RunError.Names (e : RunError) (f : Frame) : Prop := ∃ l, e.location = some l ∧ l.Names f

namespace HostCall

open Machine

/-- A call enters one machine at most. -/
theorem Entered.unique {c : HostCall} {m m₁ m₂ : Machine} (h₁ : c.Entered m m₁)
    (h₂ : c.Entered m m₂) :
    m₁ = m₂ := by
  obtain ⟨method, m₀, hsetup, hs⟩ := h₁
  obtain ⟨method', m₀', hsetup', hs'⟩ := h₂
  cases hsetup.symm.trans hsetup'
  cases hs.symm.trans hs'
  rfl

/-- Entering a method changes neither the library nor what stands behind the channels. -/
theorem Entered.kept {c : HostCall} {m m₁ : Machine} (h : c.Entered m m₁) :
    m₁.library = m.library ∧ m.console.SameWriters m₁.console := by
  obtain ⟨method, m₀, hsetup, hs⟩ := h
  have hm₀ : m₀.library = m.library ∧ m₀.console = m.console := by
    rcases setup_eq hsetup with rfl | ⟨args, rfl⟩
    · exact ⟨rfl, rfl⟩
    · exact ⟨rfl, rfl⟩
  have hconsole : m₀.console.SameTexts m₁.console :=
    ((Steady.enter method .static m₀).of_ok hs).console
  rw [hm₀.2] at hconsole
  obtain ⟨m₂, hq, -, _, _, _, _, _, _, console, rfl⟩ := (ends_enter (Quiet.refl m₀)).of_ok hs
  exact ⟨hq.library.trans hm₀.1, hconsole.toSameWriters⟩

theorem Entered.runs_library {c : HostCall} {m m₁ m₂ : Machine} (h : c.Entered m m₁)
    (hrun : Runs m₁ m₂) : m₂.library = m.library := by
  have hreach : Reaches (fun _ _ => True) m₁ m₂ := hrun.reaches
  rw [hreach.library, h.kept.1]

/-- A call fails with a fault before it has entered its method, or in a step of its run. -/
theorem failed_cases {c : HostCall} {fuel : Nat} {m m' : Machine} {e : RunError}
    (hfail : c.perform fuel m = .failed e m') :
    ((∀ m₁, ¬ c.Entered m m₁) ∧ ∃ fault, e = ⟨none, .fault fault⟩) ∨
      ∃ m₁ m₂ m₃, c.Entered m m₁ ∧ Runs m₁ m₂ ∧ m₂.frames ≠ [] ∧ step m₂ = .error e m₃ := by
  have h := c.perform_results fuel m
  rw [hfail] at h
  cases h with
  | missing hsetup =>
    refine .inl ⟨?_, _, rfl⟩
    rintro m₁ ⟨method, m₀, hsetup', -⟩
    cases hsetup.symm.trans hsetup'
  | @refused method m₀ m₁ cause hsetup hs =>
    refine .inl ⟨?_, ?_⟩
    · rintro m₁ ⟨method', m₀', hsetup', hs'⟩
      cases hsetup.symm.trans hsetup'
      cases hs.symm.trans hs'
    · cases cause with
      | fault fault => exact ⟨fault, rfl⟩
      | outside error => exact absurd ⟨m₁, hs⟩ (Closed.enter method .static m₀ error)
  | entered hsetup hs h =>
    cases h with
    | failed hrun hne hstep => exact .inr ⟨_, _, _, ⟨_, _, hsetup, hs⟩, hrun, hne, hstep⟩

end HostCall

end ClassTrace
