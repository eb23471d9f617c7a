import Mathlib.Logic.Relation
import ClassTrace.Proofs.Step

/-!
Runs and calls of the host. A call that ends is a run of successful steps from a new frame: it
ends when no frame is left or at a step that fails, and either way no frame is left afterwards.
What the host can bring a machine to by any calls, pushes and pops is reachable by single
transitions.
-/
namespace ClassTrace

namespace Machine

def StepsTo (m m' : Machine) : Prop := m.frames ≠ [] ∧ step m = .ok () m'

abbrev Runs : Machine → Machine → Prop := Relation.ReflTransGen StepsTo

inductive Concludes (m : Machine) : Outcome → Prop
  | finished {m' : Machine} (hrun : Runs m m') (hm : m'.frames = []) : Concludes m (.finished m')
  | unfinished {m' : Machine} (hrun : Runs m m') (hm : m'.frames ≠ []) :
      Concludes m (.unfinished m')
  | failed {m₁ m₂ : Machine} {e : RunError} (hrun : Runs m m₁) (hm : m₁.frames ≠ [])
      (hstep : step m₁ = .error e m₂) : Concludes m (.failed e { m₂ with frames := [] })

theorem Concludes.head {m m' : Machine} {o : Outcome} (hs : StepsTo m m') (h : Concludes m' o) :
    Concludes m o := by
  cases h with
  | finished hrun hm => exact .finished (.head hs hrun) hm
  | unfinished hrun hm => exact .unfinished (.head hs hrun) hm
  | failed hrun hm hstep => exact .failed (.head hs hrun) hm hstep

/-- A run goes on until no frame is left, a step fails or the fuel is used up. -/
theorem finish_concludes (fuel : Nat) (m : Machine) : Concludes m (finish fuel m) := by
  induction fuel generalizing m with
  | zero =>
    unfold finish
    by_cases hm : m.frames = []
    · rw [if_pos (List.isEmpty_iff.mpr hm)]
      exact .finished .refl hm
    · rw [if_neg (by simpa using hm)]
      exact .unfinished .refl hm
  | succ fuel ih =>
    unfold finish
    by_cases hm : m.frames = []
    · rw [if_pos (List.isEmpty_iff.mpr hm)]
      exact .finished .refl hm
    · rw [if_neg (by simpa using hm)]
      cases hs : step m with
      | ok _ m' => exact (ih m').head ⟨hm, hs⟩
      | error e m' => exact .failed .refl hm hs

end Machine

inductive HostCall where
  | byName (name : Bytes)
  | exact (name descriptor : Bytes)
  | entry (args : List Bytes)

namespace HostCall

def perform (c : HostCall) (fuel : Nat) (m : Machine) : Outcome :=
  match c with
  | .byName name => m.invokeByName fuel name
  | .exact name descriptor => m.invokeExact fuel name descriptor
  | .entry args => m.run fuel args

/-- The method that is meant, and the machine with its arguments on the host's stack. -/
def setup (c : HostCall) (m : Machine) : Option (Method × Machine) :=
  match c with
  | .byName name => ((m.program.methodByName? name).filter (·.isStatic)).map (·, m)
  | .exact name descriptor => ((m.program.method? name descriptor).filter (·.isStatic)).map (·, m)
  | .entry args => (m.entryMethod?.filter (·.isStatic)).map fun method =>
      (method, if method.signature.params.isEmpty then m else m.pushTexts args)

/-- The machine just after the method was entered. -/
def Entered (c : HostCall) (m m₁ : Machine) : Prop :=
  ∃ method m₀, c.setup m = some (method, m₀) ∧ Machine.enter method .static m₀ = .ok () m₁

def missing (c : HostCall) (m : Machine) : Fault :=
  match c with
  | .byName name => .noStaticMethod m.program.name name []
  | .exact name descriptor => .noStaticMethod m.program.name name descriptor
  | .entry _ => .noEntryPoint m.program.name m.settings.entryPoint

/-- A call finds its method, enters it and runs it to its end. -/
theorem perform_eq (c : HostCall) (fuel : Nat) (m : Machine) :
    c.perform fuel m = match c.setup m with
      | none => .failed ⟨none, .fault (c.missing m)⟩ m
      | some (method, m₀) => m₀.call fuel method := by
  -- The two calls by name differ in how the method is looked up only.
  have hstatic : ∀ (method? : Option Method) (missing : Fault),
      m.callStatic fuel method? missing =
        match (method?.filter (·.isStatic)).map (·, m) with
        | none => .failed ⟨none, .fault missing⟩ m
        | some (method, m₀) => m₀.call fuel method := by
    intro method? missing
    cases method? with
    | none => rfl
    | some method =>
      cases hs : method.isStatic with
      | true => simp [Machine.callStatic, Option.filter, hs]
      | false => simp [Machine.callStatic, Option.filter, hs]
  cases c with
  | byName name => exact hstatic _ _
  | exact name descriptor => exact hstatic _ _
  | entry args =>
    unfold perform setup Machine.run missing
    cases m.entryMethod? with
    | none => rfl
    | some method =>
      cases hs : method.isStatic with
      | false => simp [Option.filter, hs]
      | true =>
        by_cases hp : method.signature.params = []
        · simp [Option.filter, hs, hp]
        · simp [Option.filter, hs, hp]

inductive Results (c : HostCall) (m : Machine) : Outcome → Prop
  | missing (hsetup : c.setup m = none) : Results c m (.failed ⟨none, .fault (c.missing m)⟩ m)
  | refused {method : Method} {m₀ m₁ : Machine} {cause : Cause}
      (hsetup : c.setup m = some (method, m₀))
      (hs : Machine.enter method .static m₀ = .error cause m₁) :
      Results c m (.failed ⟨none, cause⟩ { m₁ with frames := [] })
  | entered {method : Method} {m₀ m₁ : Machine} {o : Outcome}
      (hsetup : c.setup m = some (method, m₀)) (hs : Machine.enter method .static m₀ = .ok () m₁)
      (h : m₁.Concludes o) : Results c m o

/-- A call comes to one of its results. -/
theorem perform_results (c : HostCall) (fuel : Nat) (m : Machine) :
    c.Results m (c.perform fuel m) := by
  rw [perform_eq]
  cases hsetup : c.setup m with
  | none => exact .missing hsetup
  | some target =>
    obtain ⟨method, m₀⟩ := target
    show c.Results m (m₀.call fuel method)
    unfold Machine.call
    cases hs : Machine.enter method .static m₀ with
    | error cause m₁ => exact .refused hsetup hs
    | ok _ m₁ => exact .entered hsetup hs (Machine.finish_concludes fuel m₁)

/-- Setting up a call at most puts an array of texts on the host's stack. -/
theorem setup_eq {c : HostCall} {m m₀ : Machine} {method : Method}
    (h : c.setup m = some (method, m₀)) : m₀ = m ∨ ∃ args, m₀ = m.pushTexts args := by
  cases c with
  | byName name | exact name descriptor =>
    obtain ⟨_, -, heq⟩ := Option.map_eq_some_iff.mp h
    cases heq
    exact Or.inl rfl
  | entry args =>
    obtain ⟨_, -, heq⟩ := Option.map_eq_some_iff.mp h
    cases heq
    split
    · exact Or.inl rfl
    · exact Or.inr ⟨args, rfl⟩

/-- Setting a call up leaves the events, the settings and the frames alone. -/
theorem setup_keeps {c : HostCall} {m m₀ : Machine} {method : Method}
    (h : c.setup m = some (method, m₀)) :
    m₀.events = m.events ∧ m₀.settings = m.settings ∧ m₀.frames = m.frames := by
  rcases setup_eq h with rfl | ⟨args, rfl⟩
  · exact ⟨rfl, rfl, rfl⟩
  · exact ⟨rfl, rfl, rfl⟩

end HostCall

namespace Machine

/-- What the host does with a machine, and the steps of its calls. A call that fails, on entry or
later, leaves no frame. `Pushable` says which values the host may push. -/
inductive Transition (Pushable : Machine → Value → Prop) : Machine → Machine → Prop
  | push {m : Machine} {v : Value} (hm : m.frames = []) (hv : Pushable m v) :
      Transition Pushable m (m.hostPush v)
  | pop {m m' : Machine} {v : Value} (hm : m.frames = []) (h : m.hostPop = .ok (v, m')) :
      Transition Pushable m m'
  | configure {m : Machine} (hm : m.frames = []) (entryPoint : Bytes) (maxDepth : Int)
      (legacyBranches : Bool) :
      Transition Pushable m
        { m with settings := { m.settings with entryPoint, maxDepth, legacyBranches } }
  | texts {m : Machine} (hm : m.frames = []) (args : List Bytes) :
      Transition Pushable m (m.pushTexts args)
  | enter {m m' : Machine} {method : Method} (hm : m.frames = [])
      (h : enter method .static m = .ok () m') : Transition Pushable m m'
  | refuse {m m' : Machine} {method : Method} {cause : Cause} (hm : m.frames = [])
      (h : Machine.enter method .static m = .error cause m') :
      Transition Pushable m { m' with frames := [] }
  | step {m m' : Machine} (h : StepsTo m m') : Transition Pushable m m'
  | fault {m m' : Machine} {e : RunError} (hm : m.frames ≠ []) (h : step m = .error e m') :
      Transition Pushable m { m' with frames := [] }

abbrev Reaches (Pushable : Machine → Value → Prop) : Machine → Machine → Prop :=
  Relation.ReflTransGen (Transition Pushable)

variable {Pushable : Machine → Value → Prop}

/-- A description changes neither the trace nor anything outside of document and console. -/
theorem report_description (m : Machine) {r : Report} (hr : ∀ e, r ≠ .event e) :
    ∃ document console, document.trace = m.document.trace ∧
      m.report r = { m with document, console } := by
  refine ⟨_, _, ?_, report_eq r m⟩
  cases r with
  | event e => exact absurd rfl (hr e)
  | _ => split <;> rfl

theorem report_functions (methods : List Method) (m : Machine) :
    ∃ document console, document.trace = m.document.trace ∧
      methods.foldl (fun m f =>
        m.report (.function ⟨f.name, f.signature.result.spelling, f.paramNames⟩)) m =
        { m with document, console } := by
  induction methods generalizing m with
  | nil => exact ⟨m.document, m.console, rfl, rfl⟩
  | cons method rest ih =>
    obtain ⟨d, c, ht, heq⟩ := report_description m
      (r := .function ⟨method.name, method.signature.result.spelling, method.paramNames⟩) nofun
    obtain ⟨d', c', ht', heq'⟩ := ih { m with document := d, console := c }
    exact ⟨d', c', ht'.trans ht, by rw [List.foldl_cons, heq, heq']⟩

/-- A machine starts with one object on its heap, no frame and no event. -/
theorem start_eq (program : Class) (library : Library) (settings : Settings) (runId : Bytes)
    (console : Console) : ∃ document console', document.trace = #[] ∧
      start program library settings runId console =
        { program, library, settings, document, console := console',
          heap := ⟨#[program.newObject]⟩ } := by
  unfold start
  obtain ⟨d, c, ht, heq⟩ := report_functions program.methods
    { program, library, settings, document := { runId }, console }
  simp only [heq]
  obtain ⟨d', c', ht', heq'⟩ := report_description
    { program, library, settings, document := d, console := c }
    (r := .classInfo ⟨program.name, program.fieldNames, []⟩) nofun
  rw [heq']
  exact ⟨d', c', ht'.trans ht, rfl⟩

/-- A new machine has no frame. -/
theorem start_frames (program : Class) (library : Library) (settings : Settings) (runId : Bytes)
    (console : Console) : (start program library settings runId console).frames = [] := by
  obtain ⟨_, _, -, hstart⟩ := start_eq program library settings runId console
  rw [hstart]

/-- What no transition changes. -/
theorem Transition.kept {m m' : Machine} (ht : Transition Pushable m m') :
    m'.program = m.program ∧ m'.library = m.library ∧
      m'.settings.recording = m.settings.recording := by
  have hquiet : ∀ {m₁ : Machine}, m.Quiet m₁ → m₁.program = m.program ∧ m₁.library = m.library ∧
      m₁.settings.recording = m.settings.recording :=
    fun hq => ⟨hq.program, hq.library, congrArg Settings.recording hq.settings⟩
  cases ht with
  | push | configure | texts => exact ⟨rfl, rfl, rfl⟩
  | pop hm h =>
    unfold hostPop at h
    split at h
    · cases h
    · cases h
      exact ⟨rfl, rfl, rfl⟩
  | enter hm h =>
    obtain ⟨m₁, hq, -, _, _, _, _, _, _, console, rfl⟩ := (ends_enter (Quiet.refl m)).of_ok h
    exact (hquiet hq :)
  | refuse hm h => exact (hquiet ((ends_enter (Quiet.refl m)).of_error h) :)
  | step h =>
    obtain ⟨f, rest, hm⟩ := List.exists_cons_of_ne_nil h.1
    obtain ⟨i, -, hi⟩ := step_ok hm h.2
    obtain ⟨hp, hl, hs⟩ := hi.kept
    exact ⟨hp, hl, congrArg Settings.recording hs⟩
  | fault hm h => exact (hquiet (step_error h) :)

/-- Whatever the host does, the class, the library and the recording stay the same. -/
theorem Reaches.kept {m m' : Machine} (h : Reaches Pushable m m') :
    m'.program = m.program ∧ m'.library = m.library ∧
      m'.settings.recording = m.settings.recording := by
  induction h with
  | refl => exact ⟨rfl, rfl, rfl⟩
  | tail _ ht ih =>
    obtain ⟨hp, hl, hr⟩ := ht.kept
    exact ⟨hp.trans ih.1, hl.trans ih.2.1, hr.trans ih.2.2⟩

theorem Runs.reaches {m m' : Machine} (h : Runs m m') : Reaches Pushable m m' :=
  h.lift id fun _ _ hs => .step hs

end Machine

def Outcome.machine : Outcome → Machine
  | .finished m | .failed _ m | .unfinished m => m

namespace HostCall

variable {Pushable : Machine → Value → Prop}

theorem reaches_setup {c : HostCall} {m m₀ : Machine} {method : Method} (hm : m.frames = [])
    (h : c.setup m = some (method, m₀)) : Machine.Reaches Pushable m m₀ ∧ m₀.frames = [] := by
  rcases setup_eq h with rfl | ⟨args, rfl⟩
  · exact ⟨.refl, hm⟩
  · exact ⟨.single (.texts hm args), hm⟩

/-- Calls of the host are made of transitions, whatever they come to. -/
theorem reaches_perform (c : HostCall) (fuel : Nat) {m : Machine} (hm : m.frames = []) :
    Machine.Reaches Pushable m (c.perform fuel m).machine := by
  have h := c.perform_results fuel m
  generalize c.perform fuel m = o at h ⊢
  cases h with
  | missing hsetup => exact .refl
  | refused hsetup hs =>
    obtain ⟨hr, hm₀⟩ := reaches_setup hm hsetup
    exact hr.tail (.refuse hm₀ hs)
  | entered hsetup hs h =>
    obtain ⟨hr, hm₀⟩ := reaches_setup hm hsetup
    have hr₁ : Machine.Reaches Pushable m _ := hr.tail (.enter hm₀ hs)
    cases h with
    | finished hrun => exact hr₁.trans hrun.reaches
    | unfinished hrun => exact hr₁.trans hrun.reaches
    | failed hrun hne hstep => exact (hr₁.trans hrun.reaches).tail (.fault hne hstep)

end HostCall

/-- The machine after so many steps of a call, when the host has done nothing else. -/
def Class.after (program : Class) (c : HostCall) (steps : Nat) : Machine :=
  (c.perform steps (.start program .default {} [] {})).machine

theorem Class.reaches_after {Pushable : Machine → Value → Prop} (program : Class) (c : HostCall)
    (steps : Nat) :
    Machine.Reaches Pushable (.start program .default {} [] {}) (program.after c steps) :=
  c.reaches_perform steps (Machine.start_frames ..)

inductive HostOperation where
  | push (v : Value)
  | pop
  | configure (entryPoint : Bytes) (maxDepth : Int) (legacyBranches : Bool)
  | call (c : HostCall) (fuel : Nat)

inductive HostAnswer where
  | done
  | popped (v : Value)
  | failed (e : RunError)
  | unfinished
deriving DecidableEq

def Outcome.answer : Outcome → HostAnswer
  | .finished _ => .done
  | .failed e _ => .failed e
  | .unfinished _ => .unfinished

namespace HostOperation

def perform (m : Machine) : HostOperation → HostAnswer × Machine
  | .push v => (.done, m.hostPush v)
  | .pop => match m.hostPop with
    | .ok (v, m') => (.popped v, m')
    | .error f => (.failed ⟨none, .fault f⟩, m)
  | .configure entryPoint maxDepth legacyBranches =>
    (.done, { m with settings := { m.settings with entryPoint, maxDepth, legacyBranches } })
  | .call c fuel => ((c.perform fuel m).answer, (c.perform fuel m).machine)

def performAll : List HostOperation → Machine → List (HostAnswer × Machine)
  | [], _ => []
  | op :: ops, m => op.perform m :: performAll ops (op.perform m).2

end HostOperation

end ClassTrace
