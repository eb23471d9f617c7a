import ClassTrace.Proofs.HeapShape
import ClassTrace.Proofs.HostLockstep
import ClassTrace.Proofs.Loosened

/-!
Limits are only limits. A call of the host that does not run into the bound on the depth of calls
comes to the same under any higher bound. One that does not overflow an operand stack comes to the
same if methods declare larger stacks.
-/
namespace ClassTrace

def HostAnswer.FaultsWith (P : Fault → Prop) (a : HostAnswer) : Prop :=
  ∃ location f, a = .failed ⟨location, .fault f⟩ ∧ P f

/-- A call that ends leaves no frame. -/
theorem HostCall.perform_frames {c : HostCall} {fuel : Nat} {m : Machine} (hm : m.frames = [])
    (hends : (c.perform fuel m).answer ≠ .unfinished) :
    (c.perform fuel m).machine.frames = [] := by
  have h := c.perform_results fuel m
  generalize c.perform fuel m = o at h hends ⊢
  cases h with
  | missing => exact hm
  | refused => rfl
  | entered _ _ h =>
    cases h with
    | finished _ hnil => exact hnil
    | unfinished => exact absurd rfl hends
    | failed => rfl

namespace Machine

def deepen (maxDepth : Int) (m : Machine) : Machine :=
  { m with settings := { m.settings with maxDepth } }

def remake (methods : List Method) (m : Machine) : Machine :=
  { m with program := { m.program with methods } }

end Machine

namespace Slack

/-- A call that does not run into a limit comes to the same under the looser ones. -/
theorem perform_agrees {S : Slack} {m m' : Machine} (c : HostCall) (fuel : Nat)
    (h : S.Machines m m') (hfault : ¬ (c.perform fuel m).answer.FaultsWith S.excused) :
    (c.perform fuel m').answer = (c.perform fuel m).answer ∧
      S.Machines (c.perform fuel m).machine (c.perform fuel m').machine := by
  have hagrees := Variation.perform_agrees c fuel (machines_iff.mpr h) (.inl S.oneMode)
  generalize c.perform fuel m = o at hagrees hfault ⊢
  generalize c.perform fuel m' = o' at hagrees ⊢
  cases hagrees with
  | finished h' | failed h' | unfinished h' => exact ⟨rfl, machines_iff.mp h'⟩
  | @excused _ e _ he =>
    obtain ⟨location, cause⟩ := e
    cases cause with
    | fault f => exact absurd ⟨location, f, rfl, he⟩ hfault
    | outside message => exact he.elim

/-- Machines that differ in the depth allowed are one machine with two bounds. -/
theorem deeper_machines {d d' : Int} {hle : d ≤ d'} {m m' : Machine} :
    (deeper hle).Machines m m' ↔ m.settings.maxDepth = d ∧ m' = m.deepen d' := by
  have hsize : ∀ method n, (deeper hle).size method n ↔ n = method.maxStack := fun _ _ => Iff.rfl
  unfold Machines
  rw [methods_eq hsize, frames_eq hsize, List.forall₂_eq_eq_eq, List.forall₂_eq_eq_eq]
  constructor
  · rintro ⟨_, _, _, rfl, rfl, ⟨hd, rfl⟩, rfl⟩
    exact ⟨hd, rfl⟩
  · rintro ⟨hd, rfl⟩
    exact ⟨_, _, d', rfl, rfl, ⟨hd, rfl⟩, rfl⟩

theorem larger_remake {m : Machine} {methods : List Method} (hm : m.frames = [])
    (h : List.Forall₂ larger.Methods m.program.methods methods) :
    larger.Machines m (m.remake methods) := by
  refine ⟨methods, [], m.settings.maxDepth, h, ?_, rfl, ?_⟩
  · rw [hm]
    exact .nil
  · unfold Machine.remake Machine.relimit
    rw [hm]

/-- Without frames, only the methods of the class can be larger. -/
theorem eq_remake_of_larger {m m' : Machine} (h : larger.Machines m m') (hm : m.frames = []) :
    m' = m.remake m'.program.methods := by
  obtain ⟨methods, frames, maxDepth, -, hframes, hdepth, rfl⟩ := h
  rw [hm, List.forall₂_nil_left_iff] at hframes
  subst hframes
  change maxDepth = m.settings.maxDepth at hdepth
  subst hdepth
  unfold Machine.remake Machine.relimit
  rw [hm]

end Slack

namespace HostCall

open Machine

/-- A call that comes to its end without a stack overflow is the same under any higher bound on
the depth of calls, and one that comes to its end without an overflow of an operand stack is the
same with larger stacks: answer, events, heap, console and the host's stack are what they were. -/
theorem limits_only_limit (c : HostCall) (fuel : Nat) (m : Machine) :
    (∀ maxDepth, m.settings.maxDepth ≤ maxDepth →
      ¬ (c.perform fuel m).answer.FaultsWith (·.kind = .stackOverflow) →
      c.perform fuel (m.deepen maxDepth) = (c.perform fuel m).map (deepen maxDepth)) ∧
    ∀ methods, List.Forall₂ (fun a b => a.maxStack ≤ b.maxStack ∧ b = a.resize b.maxStack)
        m.program.methods methods → m.frames = [] → (c.perform fuel m).answer ≠ .unfinished →
      ¬ (c.perform fuel m).answer.FaultsWith (fun f => ∃ n, f = .stackFull n) →
      c.perform fuel (m.remake methods) = (c.perform fuel m).map (remake methods) := by
  constructor
  · intro maxDepth hle hfault
    have hdeeper : (Slack.deeper hle).Machines m (m.deepen maxDepth) :=
      Slack.deeper_machines.mpr ⟨rfl, rfl⟩
    obtain ⟨hanswer, hmachine⟩ := Slack.perform_agrees c fuel hdeeper hfault
    exact Outcome.eq_map hanswer (Slack.deeper_machines.mp hmachine).2
  · intro methods hmethods hm hends hfault
    have hlarger : Slack.larger.Machines m (m.remake methods) :=
      Slack.larger_remake hm (hmethods.imp fun a b hab => ⟨b.maxStack, hab⟩)
    obtain ⟨hanswer, hmachine⟩ := Slack.perform_agrees c fuel hlarger hfault
    refine Outcome.eq_map hanswer ?_
    have hreaches : Reaches (fun _ _ => True) (m.remake methods)
        (c.perform fuel (m.remake methods)).machine :=
      c.reaches_perform fuel hm
    have hprogram := hreaches.program
    have heq := Slack.eq_remake_of_larger hmachine (perform_frames hm hends)
    rwa [hprogram] at heq

def counting (maxStack : Nat) : Class where
  name := "T"
  super := []
  pool := #[none, some (.methodRef ⟨⟨"T", 0⟩,
    ⟨"count", "(I)I", .method ⟨[.primitive .int], .value (.primitive .int)⟩⟩,
    ⟨[.primitive .int], .value (.primitive .int)⟩, false⟩)]
  fields := []
  methods := [
    { owner := "T", name := "count", descriptor := "(I)I",
      signature := ⟨[.primitive .int], .value (.primitive .int)⟩, isStatic := true, maxStack,
      maxLocals := 1,
      code := #[0x1A, 0x99, 0, 12, 0x04, 0x1A, 0x04, 0x64, 0xB8, 0, 1, 0x60, 0xAC, 0x03, 0xAC] }]

def countingTwo : Machine :=
  hostPush (.int 2) (start (counting 3) .default { maxDepth := 3 } [] {})

/-- `count` calls itself as often as its argument says. For the argument 2 both limits are as
tight as they can be, and looser ones change nothing. -/
theorem limits_only_limit_counting :
    ((byName "count").perform 40 countingTwo).answer = .done ∧
    ((byName "count").perform 40 countingTwo).machine.host = [.int 2] ∧
    ((byName "count").perform 40 (countingTwo.deepen 2)).answer =
      .failed ⟨some ⟨"T.count(I)I", 8, some 0xB8⟩, .fault (.tooDeep 2)⟩ ∧
    (byName "count").perform 40 (countingTwo.deepen 1024) =
      ((byName "count").perform 40 countingTwo).map (deepen 1024) ∧
    (byName "count").perform 40 (countingTwo.remake (counting 10).methods) =
      ((byName "count").perform 40 countingTwo).map (remake (counting 10).methods) := by
  have hdone : ((byName "count").perform 40 countingTwo).answer = .done := by decide +kernel
  have hfault : ∀ P, ¬ ((byName "count").perform 40 countingTwo).answer.FaultsWith P := by
    rintro P ⟨location, f, hfailed, -⟩
    rw [hdone] at hfailed
    cases hfailed
  have hlimits := limits_only_limit (byName "count") 40 countingTwo
  refine ⟨hdone, by decide +kernel, by decide +kernel, ?_, ?_⟩
  · exact hlimits.1 1024 (by decide +kernel) (hfault _)
  · refine hlimits.2 _ (.cons ?_ .nil) (by decide +kernel) (by rw [hdone]; decide) (hfault _)
    exact ⟨by decide, rfl⟩

end HostCall

end ClassTrace
