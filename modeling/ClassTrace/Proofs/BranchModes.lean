import ClassTrace.Proofs.HostLockstep
import ClassTrace.Proofs.Loosened

/-!
The two modes of branches. In the legacy mode `ifge` does what `ifle` does in the other mode, and
the other way round; no other opcode looks at the mode. So a run in which these two pop zeros only
is the same in both modes.
-/
namespace ClassTrace

namespace Opcode

def ifge : UInt8 := 0x9C

def ifle : UInt8 := 0x9E

end Opcode

/-- The conditions that differ between the modes are those of two opcodes. -/
theorem Condition.legacy_eq_self {condition : Condition}
    (hge : condition.zeroOpcode ≠ Opcode.ifge) (hle : condition.zeroOpcode ≠ Opcode.ifle) :
    condition.legacy = condition := by
  cases condition with
  | ge => exact absurd rfl hge
  | le => exact absurd rfl hle
  | _ => rfl

def Frame.zeroBranch (legacy : Bool) (condition : Condition) : FrameM Unit := fun f =>
  match Fetch.offset f.method.code f.pc with
  | .ok offset pc => Operation.run legacy (.ifZero condition offset) { f with pc }
  | .error e pc => .error e { f with pc }

namespace Machine

def inMode (legacy : Bool) (m : Machine) : Machine :=
  { m with settings := { m.settings with legacyBranches := legacy } }

def dispatch (opcode : UInt8) : Exec Unit := do
  let i ← onFrame (Frame.fetch opcode)
  i.run

theorem execute_eq_dispatch (f : Frame) (opcode : UInt8) : execute f opcode = (do
    onFrame (modify Frame.advance)
    modify (log (execRecord f opcode))
    dispatch opcode) := rfl

def mapResult (g : Machine → Machine) :
    EStateM.Result Cause Machine Unit → EStateM.Result Cause Machine Unit
  | .ok a m => .ok a (g m)
  | .error cause m => .error cause (g m)

/-- What is done to a frame does not depend on the mode of branches. -/
theorem onFrame_inMode (x : FrameM Unit) (legacy : Bool) (m : Machine) :
    onFrame x (m.inMode legacy) = mapResult (inMode legacy) (onFrame x m) := by
  have hframes : (m.inMode legacy).frames = m.frames := rfl
  unfold onFrame
  rw [hframes]
  cases m.frames with
  | nil => rfl
  | cons f rest =>
    dsimp only
    cases x f with
    | ok a f' => rfl
    | error e f' => rfl

/-- A comparison with zero goes by the condition that the mode gives to its opcode. -/
theorem dispatch_zeroOpcode (condition : Condition) (m : Machine) :
    dispatch condition.zeroOpcode m =
      onFrame (Frame.zeroBranch m.settings.legacyBranches condition) m := by
  have hdecode : ∀ code pc, Instruction.decode condition.zeroOpcode code pc =
      match Fetch.offset code pc with
      | .ok offset pc => .ok (.operate (.ifZero condition offset)) pc
      | .error e pc => .error e pc := by
    intro code pc
    have hread : Instruction.decode condition.zeroOpcode =
        (do return .operate (.ifZero condition (← Fetch.offset))) := by
      cases condition <;> simp [Instruction.decode, Instruction.decodeControl,
        Condition.zeroOpcode, Instruction.condition, Instruction.conditions]
    rw [hread]
    change EStateM.bind (Fetch.offset code) _ pc = _
    unfold EStateM.bind
    cases Fetch.offset code pc <;> rfl
  change EStateM.bind (onFrame (Frame.fetch condition.zeroOpcode)) _ m = _
  unfold EStateM.bind onFrame Frame.fetch Frame.zeroBranch
  cases hm : m.frames with
  | nil => rfl
  | cons f rest =>
    dsimp only
    rw [hdecode]
    cases Fetch.offset f.method.code f.pc with
    | error e pc => rfl
    | ok offset pc => rfl

/-- In the legacy mode a branch with zero does what its counterpart does in the other mode. -/
theorem dispatch_legacy (condition : Condition) (m : Machine) :
    dispatch condition.zeroOpcode (m.inMode true) =
      mapResult (inMode true) (dispatch condition.legacy.zeroOpcode (m.inMode false)) := by
  have hlegacy : Frame.zeroBranch true condition = Frame.zeroBranch false condition.legacy := rfl
  rw [dispatch_zeroOpcode, dispatch_zeroOpcode]
  change onFrame (Frame.zeroBranch true condition) _ = _
  rw [hlegacy]
  exact onFrame_inMode (Frame.zeroBranch false condition.legacy) true (m.inMode false)

end Machine

namespace Variation

/-- Nothing differs but the mode of branches; the second machine has the given one. -/
def mode (legacy : Bool) : Variation :=
  { Slack.kept.variation with branches := fun _ legacy' => legacy' = legacy }

theorem mode_machines {legacy : Bool} {m m' : Machine} :
    (mode legacy).Machines m m' ↔ m' = m.inMode legacy := by
  have hsize : ∀ method n, Slack.kept.size method n ↔ n = method.maxStack := fun _ _ => Iff.rfl
  have hmethods : (mode legacy).Methods = Eq :=
    (funext₂ fun _ _ => propext Slack.methods_iff).trans (Slack.methods_eq hsize)
  have hframes : (mode legacy).Frames = Eq :=
    (funext₂ fun _ _ => propext Slack.frames_iff).trans (Slack.frames_eq hsize)
  constructor
  · rintro ⟨⟨methods, frames, maxDepth, legacy', document, console⟩, hw, rfl⟩
    have hm : m.program.methods = methods := by simpa [hmethods] using hw.methods
    have hf : m.frames = frames := by simpa [hframes] using hw.frames
    have hd : maxDepth = m.settings.maxDepth := hw.depth
    have hb : legacy' = legacy := hw.branches
    have hdoc : m.document = document := hw.document
    have hc : m.console = console := hw.console
    subst hm hf hd hb hdoc hc
    rfl
  · rintro rfl
    refine ⟨⟨m.program.methods, m.frames, m.settings.maxDepth, legacy, m.document, m.console⟩,
      ⟨?_, ?_, rfl, rfl, rfl, rfl⟩, rfl⟩
    · rw [hmethods, List.forall₂_eq_eq_eq]
    · rw [hframes, List.forall₂_eq_eq_eq]

/-- An opcode other than the two does the same in both modes. -/
theorem same_dispatch {V : Variation} {opcode : UInt8} (hge : opcode ≠ Opcode.ifge)
    (hle : opcode ≠ Opcode.ifle) : V.Same (Machine.dispatch opcode) := by
  have hfetch :
      Follows V.Frames V.excused (fun i j => i = j ∧ i.HasOpcode opcode) (Frame.fetch opcode)
      (Frame.fetch opcode) := by
    rintro f _ ⟨t, ht, rfl⟩
    unfold Frame.fetch
    dsimp only [Frame.annotate, Method.annotate]
    cases hdec : Instruction.decode opcode f.method.code f.pc with
    | error e pc => exact .error ⟨t, ht, rfl⟩
    | ok i pc =>
      exact .ok ⟨rfl, ((Instruction.decode_yields opcode _ _).of_ok hdec).1⟩ ⟨t, ht, rfl⟩
  refine Follows.bind (follows_onFrame hfetch) ?_
  rintro i _ ⟨rfl, hopcode⟩
  refine Same.instruction (.inr ?_)
  rintro condition offset rfl
  change opcode = condition.zeroOpcode at hopcode
  exact Condition.legacy_eq_self (hopcode ▸ hge) (hopcode ▸ hle)

end Variation

namespace Machine

def Tests (m : Machine) (v : Int32) : Prop :=
  ∃ f rest opcode i, m.frames = f :: rest ∧ f.method.code[f.pc]? = some opcode ∧
    (opcode = Opcode.ifge ∨ opcode = Opcode.ifle) ∧ f.Fetches i ∧ f.stack.head? = some (.int v)

/-- Where no number but zero is tested, the modes agree. -/
theorem neutral_of_tests {m : Machine} (h : ∀ v, m.Tests v → v = 0) : m.Neutral := by
  rintro f rest condition offset v hm ⟨opcode, next, hop, hdec⟩ hv
  have hopcode : opcode = condition.zeroOpcode :=
    ((Instruction.decode_yields opcode _ _).of_ok hdec).1
  have hzero : opcode = Opcode.ifge ∨ opcode = Opcode.ifle → v = 0 := fun htwo =>
    h v ⟨f, rest, opcode, _, hm, hop, htwo, ⟨opcode, next, hop, hdec⟩, hv⟩
  cases condition with
  | ge =>
    rw [hzero (.inl hopcode)]
    decide
  | le =>
    rw [hzero (.inr hopcode)]
    decide
  | _ => rfl

/-- In the legacy mode `ifge` and `ifle` change places and every other opcode does the same, where
an opcode is dispatched after the step to the next address and the record of the instruction. A
call of the host is the same in both modes if every `ifge` and `ifle` that it comes to in the
default mode pops zero. -/
theorem legacy_mode_swaps_branches (m : Machine) :
    (∀ f opcode, execute f opcode = (do
      onFrame (modify Frame.advance)
      modify (log (execRecord f opcode))
      dispatch opcode)) ∧
    dispatch Opcode.ifge (m.inMode true) =
      mapResult (inMode true) (dispatch Opcode.ifle (m.inMode false)) ∧
    dispatch Opcode.ifle (m.inMode true) =
      mapResult (inMode true) (dispatch Opcode.ifge (m.inMode false)) ∧
    (∀ opcode, opcode ≠ Opcode.ifge → opcode ≠ Opcode.ifle →
      dispatch opcode (m.inMode true) =
        mapResult (inMode true) (dispatch opcode (m.inMode false))) ∧
    ∀ (c : HostCall) (fuel : Nat),
      (∀ m₁ m₂ v, c.Entered (m.inMode false) m₁ → Runs m₁ m₂ → m₂.Tests v → v = 0) →
      c.perform fuel (m.inMode true) = (c.perform fuel (m.inMode false)).map (inMode true) := by
  have hmodes : (Variation.mode true).Machines (m.inMode false) (m.inMode true) :=
    Variation.mode_machines.mpr rfl
  refine ⟨execute_eq_dispatch, dispatch_legacy .ge m, dispatch_legacy .le m, ?_, ?_⟩
  · intro opcode hge hle
    have hagrees := Variation.same_dispatch hge hle _ _ hmodes
    generalize dispatch opcode (m.inMode false) = r at hagrees
    generalize dispatch opcode (m.inMode true) = r' at hagrees
    cases hagrees with
    | ok _ h => rw [Variation.mode_machines.mp h]; rfl
    | error h => rw [Variation.mode_machines.mp h]; rfl
    | @excused cause _ _ he => cases cause <;> exact he.elim
  · intro c fuel hzero
    have hagrees := Variation.perform_agrees c fuel hmodes (.inr fun m₁ m₂ hentered hrun =>
      neutral_of_tests fun v => hzero m₁ m₂ v hentered hrun)
    generalize c.perform fuel (m.inMode false) = o at hagrees
    generalize c.perform fuel (m.inMode true) = o' at hagrees
    cases hagrees with
    | finished h | failed h | unfinished h => rw [Variation.mode_machines.mp h]; rfl
    | @excused _ e _ he =>
      obtain ⟨location, cause⟩ := e
      cases cause <;> exact he.elim

def trail : (fuel : Nat) → Machine → List Machine
  | 0, m => [m]
  | fuel + 1, m => m :: match step m with
    | .ok _ m' => trail fuel m'
    | .error _ _ => []

/-- A run that comes to an end goes through no other machines than those of its trail. -/
theorem mem_trail {m m₂ : Machine} (hrun : Runs m m₂) {fuel : Nat}
    (hends : (finish fuel m).answer ≠ .unfinished) : m₂ ∈ trail fuel m := by
  induction hrun using Relation.ReflTransGen.head_induction_on generalizing fuel with
  | refl =>
    cases fuel with
    | zero => exact List.mem_cons_self ..
    | succ fuel => exact List.mem_cons_self ..
  | @head m m' hstep _ ih =>
    have hempty : ¬ m.frames.isEmpty = true := fun hnil => hstep.1 (List.isEmpty_iff.mp hnil)
    unfold finish at hends
    rw [if_neg hempty] at hends
    cases fuel with
    | zero => exact absurd rfl hends
    | succ fuel =>
      dsimp only at hends
      rw [hstep.2] at hends
      refine List.mem_cons_of_mem _ ?_
      rw [hstep.2]
      exact ih hends

def signs : Class where
  name := "T"
  super := []
  pool := #[none]
  fields := []
  methods := [
    { owner := "T", name := "nonNegative", descriptor := "(I)I",
      signature := ⟨[.primitive .int], .value (.primitive .int)⟩, isStatic := true, maxStack := 1,
      maxLocals := 1, code := #[0x1A, 0x9C, 0, 5, 0x03, 0xAC, 0x04, 0xAC] }]

def signOf (v : Int32) : Machine := hostPush (.int v) (start signs .default {} [] {})

def testsZero (m : Machine) : Bool :=
  match m.frames with
  | [] => true
  | f :: _ => match f.method.code[f.pc]?, f.stack.head? with
    | some opcode, some (.int v) => (opcode ≠ Opcode.ifge ∧ opcode ≠ Opcode.ifle) ∨ v = 0
    | _, _ => true

theorem eq_zero_of_tests {m : Machine} {v : Int32} (hzero : m.testsZero = true) (h : m.Tests v) :
    v = 0 := by
  obtain ⟨f, rest, opcode, i, hm, hop, htwo, -, hv⟩ := h
  unfold testsZero at hzero
  rw [hm] at hzero
  dsimp only at hzero
  rw [hop, hv] at hzero
  rcases of_decide_eq_true hzero with ⟨hge, hle⟩ | hv
  · exact absurd htwo (not_or.mpr ⟨hge, hle⟩)
  · exact hv

def runTestsZero (c : HostCall) (fuel : Nat) (m : Machine) : Bool :=
  match c.setup m with
  | none => true
  | some (method, m₀) => match enter method .static m₀ with
    | .ok _ m₁ => (finish fuel m₁).answer ≠ .unfinished ∧ (trail fuel m₁).all testsZero
    | .error _ _ => true

theorem tests_of_runTestsZero {c : HostCall} {fuel : Nat} {m m₁ m₂ : Machine} {v : Int32}
    (h : runTestsZero c fuel m = true) (hentered : c.Entered m m₁) (hrun : Runs m₁ m₂)
    (ht : m₂.Tests v) :
    v = 0 := by
  obtain ⟨method, m₀, hsetup, hs⟩ := hentered
  unfold runTestsZero at h
  rw [hsetup] at h
  dsimp only at h
  rw [hs] at h
  obtain ⟨hends, hall⟩ := of_decide_eq_true h
  exact eq_zero_of_tests (List.all_eq_true.mp hall m₂ (mem_trail hrun hends)) ht

open HostCall in
/-- Zero is nonnegative in both modes; of other numbers the legacy mode says the opposite. -/
theorem legacy_mode_swaps_branches_signs :
    (∀ m₁ m₂ v, (byName "nonNegative").Entered ((signOf 0).inMode false) m₁ → Runs m₁ m₂ →
      m₂.Tests v → v = 0) ∧
    (byName "nonNegative").perform 10 ((signOf 0).inMode true) =
      ((byName "nonNegative").perform 10 ((signOf 0).inMode false)).map (inMode true) ∧
    ((byName "nonNegative").perform 10 ((signOf 0).inMode true)).machine.host = [.int 1] ∧
    ((byName "nonNegative").perform 10 ((signOf 5).inMode false)).machine.host = [.int 1] ∧
    ((byName "nonNegative").perform 10 ((signOf 5).inMode true)).machine.host = [.int 0] := by
  have hzero :
      ∀ m₁ m₂ v, (byName "nonNegative").Entered ((signOf 0).inMode false) m₁ → Runs m₁ m₂ →
      m₂.Tests v → v = 0 := by
    have hruns : runTestsZero (byName "nonNegative") 10 ((signOf 0).inMode false) = true := by
      decide +kernel
    exact fun _ _ _ => tests_of_runTestsZero hruns
  exact ⟨hzero, (legacy_mode_swaps_branches (signOf 0)).2.2.2.2 (byName "nonNegative") 10 hzero,
    by decide +kernel, by decide +kernel, by decide +kernel⟩

end Machine

end ClassTrace
