import ClassTrace.Proofs.Lockstep

/-!
Runs under looser limits. Two machines that differ in the limits that are set to them, the
declared sizes of operand stacks and the depth of calls, do the same until the tighter one runs
into its limit. What may differ is a slack: it says which limits may take the place of others, and
which faults excuse the tighter machine from going on like the other.
-/
namespace ClassTrace

def Method.resize (method : Method) (size : Nat) : Method := { method with maxStack := size }

/-- Which limits may take the place of others. A limit is kept, or it is loosened and running into
the tighter one is excused. -/
structure Slack where
  size : Method → Nat → Prop
  depth : Int → Int → Prop
  excused : Fault → Prop
  size_cases : ∀ method n, size method n → n = method.maxStack ∨
    method.maxStack ≤ n ∧ excused (.stackFull method.maxStack)
  depth_cases : ∀ d d', depth d d' → d' = d ∨ d ≤ d' ∧ excused (.tooDeep d)

namespace Slack

/-- A depth that is kept needs no excuse. -/
theorem depth_kept (d d' : Int) (h : d' = d) : d' = d ∨ d ≤ d' ∧ False := .inl h

def kept : Slack where
  size method n := n = method.maxStack
  depth d d' := d' = d
  excused _ := False
  size_cases _ _ hn := .inl hn
  depth_cases := depth_kept

def deeper {d d' : Int} (hle : d ≤ d') : Slack where
  size method n := n = method.maxStack
  depth a b := a = d ∧ b = d'
  excused f := f.kind = .stackOverflow
  size_cases _ _ hn := .inl hn
  depth_cases a b hab := .inr ⟨by omega, rfl⟩

def larger : Slack where
  size method n := method.maxStack ≤ n
  depth d d' := d' = d
  excused f := ∃ n, f = .stackFull n
  size_cases _ _ hn := .inr ⟨hn, _, rfl⟩
  depth_cases _ _ hd := .inl hd

/-- Every declared size may be larger by `extra`, and a full stack is an excuse. -/
def room (extra : Nat) : Slack where
  size method n := n = method.maxStack + extra
  depth d d' := d' = d
  excused f := ∃ n, f = .stackFull n
  size_cases _ _ hn := .inr ⟨by omega, _, rfl⟩
  depth_cases _ _ hd := .inl hd

end Slack

def Machine.relimit (m : Machine) (methods : List Method) (frames : List Frame) (maxDepth : Int) :
    Machine :=
  { m with
    program := { m.program with methods }
    frames
    settings := { m.settings with maxDepth } }

namespace Slack

variable (S : Slack)

def Frames (f g : Frame) : Prop :=
  ∃ n, S.size f.method n ∧ g = { f with method := f.method.resize n }

def Methods (method method' : Method) : Prop := ∃ n, S.size method n ∧ method' = method.resize n

def Machines (m m' : Machine) : Prop :=
  ∃ methods frames maxDepth, List.Forall₂ S.Methods m.program.methods methods ∧
    List.Forall₂ S.Frames m.frames frames ∧ S.depth m.settings.maxDepth maxDepth ∧
    m' = m.relimit methods frames maxDepth

def Causes : Cause → Prop
  | .fault f => S.excused f
  | .outside _ => False

variable {S}

theorem Machines.frames {m m' : Machine} (h : S.Machines m m') :
    List.Forall₂ S.Frames m.frames m'.frames := by
  obtain ⟨_, _, _, _, hframes, _, rfl⟩ := h
  exact hframes

/-- Where all sizes are kept, methods and frames are the same. -/
theorem methods_eq (hsize : ∀ method n, S.size method n ↔ n = method.maxStack) :
    S.Methods = Eq := by
  funext method method'
  refine propext ⟨?_, ?_⟩
  · rintro ⟨n, hn, rfl⟩
    rw [(hsize method n).mp hn]
    rfl
  · rintro rfl
    exact ⟨method.maxStack, (hsize _ _).mpr rfl, rfl⟩

theorem frames_eq (hsize : ∀ method n, S.size method n ↔ n = method.maxStack) :
    S.Frames = Eq := by
  funext f g
  refine propext ⟨?_, ?_⟩
  · rintro ⟨n, hn, rfl⟩
    rw [(hsize f.method n).mp hn]
    rfl
  · rintro rfl
    exact ⟨f.method.maxStack, (hsize _ _).mpr rfl, rfl⟩

def Resized (S : Slack) (method : Method) (t : Annotations) : Prop :=
  S.size method t.maxStack ∧ t = { method.annotations with maxStack := t.maxStack }

theorem Resized.annotate {method : Method} {t : Annotations} (h : S.Resized method t) :
    method.annotate t = method.resize t.maxStack := by
  rw [h.2]
  rfl

theorem resized {method : Method} {n : Nat} (hn : S.size method n) :
    S.Resized method { method.annotations with maxStack := n } := ⟨hn, rfl⟩

/-- Looser limits are a variation in which events, document and console are the same. -/
def variation (S : Slack) : Variation where
  annotations := S.Resized
  depth := S.depth
  branches := fun legacy legacy' => legacy' = legacy
  event := Eq
  document := Eq
  console := Eq
  excused := S.excused
  size_cases := fun method t ht => S.size_cases method t.maxStack ht.1
  depth_cases := S.depth_cases
  event_refl := fun _ => rfl
  event_line := by
    intro method t pc e ht
    rw [ht.annotate]
    rfl
  event_assign := by
    intro f t slot old new ht
    unfold Frame.annotate
    rw [ht.annotate]
    rfl
  record := by
    rintro d _ e _ rfl rfl
    rfl
  log := by
    rintro c _ r rfl
    rfl
  logEvent := by
    rintro c _ e _ rfl rfl
    rfl
  writes := by
    rintro channel bytes c _ rfl
    cases Console.write channel bytes c with
    | ok _ d => exact .ok rfl rfl
    | error e d => exact .error rfl

theorem oneMode (S : Slack) : S.variation.OneMode := fun _ _ => Iff.rfl

theorem frames_iff {f g : Frame} : S.variation.Frames f g ↔ S.Frames f g := by
  constructor
  · rintro ⟨t, ht, rfl⟩
    refine ⟨t.maxStack, ht.1, ?_⟩
    unfold Frame.annotate
    rw [ht.annotate]
  · rintro ⟨n, hn, rfl⟩
    exact ⟨_, resized hn, rfl⟩

theorem methods_iff {method method' : Method} :
    S.variation.Methods method method' ↔ S.Methods method method' := by
  constructor
  · rintro ⟨t, ht, rfl⟩
    exact ⟨t.maxStack, ht.1, ht.annotate⟩
  · rintro ⟨n, hn, rfl⟩
    exact ⟨_, resized hn, rfl⟩

/-- As a variation, looser limits relate the machines that they relate. -/
theorem machines_iff {m m' : Machine} : S.variation.Machines m m' ↔ S.Machines m m' := by
  constructor
  · rintro ⟨w, hw, rfl⟩
    refine ⟨w.methods, w.frames, w.maxDepth, hw.methods.imp fun _ _ => methods_iff.mp,
      hw.frames.imp fun _ _ => frames_iff.mp, hw.depth, ?_⟩
    have hdocument : m.document = w.document := hw.document
    have hconsole : m.console = w.console := hw.console
    have hbranches : w.legacyBranches = m.settings.legacyBranches := hw.branches
    unfold Machine.vary Machine.relimit
    rw [hdocument, hconsole, hbranches]
  · rintro ⟨methods, frames, maxDepth, hmethods, hframes, hdepth, rfl⟩
    exact ⟨⟨methods, frames, maxDepth, m.settings.legacyBranches, m.document, m.console⟩,
      ⟨hmethods.imp fun _ _ => methods_iff.mpr, hframes.imp fun _ _ => frames_iff.mpr, hdepth,
        rfl, rfl, rfl⟩,
      rfl⟩

/-- A step is the same under looser limits, unless it runs into a limit of its own. -/
theorem step_agrees {m m' : Machine} (h : S.Machines m m') :
    Agrees S.Machines (fun e : RunError => S.Causes e.cause) Eq (Machine.step m)
      (Machine.step m') := by
  have hagrees := Variation.step_agrees (machines_iff.mpr h) (.inl S.oneMode)
  generalize Machine.step m = r at hagrees
  generalize Machine.step m' = r' at hagrees
  cases hagrees with
  | ok heq h' => exact .ok heq (machines_iff.mp h')
  | error h' => exact .error (machines_iff.mp h')
  | @excused e _ _ he =>
    refine .excused ?_
    obtain ⟨location, cause⟩ := e
    cases cause with
    | fault f => exact he
    | outside message => exact he

end Slack

end ClassTrace
