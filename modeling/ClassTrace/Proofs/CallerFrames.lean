import ClassTrace.Proofs.Transfer

/-!
Callers and what they call. From the call of a method to the return from it, whatever runs in
between, the frames of the callers wait unchanged at the bottom, and so does the host's stack. The
frame that called goes on after its instruction, with its locals as they were; of its stack the
arguments are gone, and a value is on top if the callee returned one. A call of the host that
fails leaves an end piece of the host's stack.
-/
namespace ClassTrace

namespace Machine

/-- Successful steps that all lead to more than `depth` frames. -/
abbrev RunsAbove (depth : Nat) : Machine → Machine → Prop :=
  Relation.ReflTransGen fun m m' => StepsTo m m' ∧ depth < m'.frames.length

def opcode? (m : Machine) : Option UInt8 := m.frames.head?.bind fun f => f.method.code[f.pc]?

/-- The current frame of `m` calls a method of the class, and `m'` is the first machine after that
with as many frames. The method begins in `m₁`, and its last instruction in `m₂`. -/
structure Calls (m m₁ m₂ m' : Machine) : Prop where
  enters : StepsTo m m₁
  deeper : m₁.frames.length = m.frames.length + 1
  run : RunsAbove m.frames.length m₁ m₂
  leaves : StepsTo m₂ m'
  back : m'.frames.length = m.frames.length

/-- The frames `waiting` are at the bottom, and the frame above them will return to `returnPc`. -/
def Suspends (waiting : List Frame) (returnPc : Option Nat) (fs : List Frame) : Prop :=
  ∃ above callee, fs = above ++ callee :: waiting ∧ callee.returnPc = returnPc

/-- One step leaves the waiting frames alone, unless it makes one of them the current one. -/
theorem Moves.suspends {i : Instruction} {fs fs' waiting : List Frame} {returnPc : Option Nat}
    (h : Moves i fs fs') (hs : Suspends waiting returnPc fs)
    (hdepth : waiting.length < fs'.length) :
    Suspends waiting returnPc fs' := by
  obtain ⟨above, callee, hfs, hreturn⟩ := hs
  cases h with
  | stay h =>
    cases above with
    | nil =>
      cases hfs
      exact ⟨[], _, rfl, h.trans hreturn⟩
    | cons f above =>
      cases hfs
      exact ⟨_ :: above, callee, rfl, hreturn⟩
  | call h =>
    cases above with
    | nil =>
      cases hfs
      exact ⟨[_], _, rfl, h.trans hreturn⟩
    | cons f above =>
      cases hfs
      exact ⟨_ :: _ :: above, callee, rfl, hreturn⟩
  | ret =>
    rcases above with - | ⟨f, - | ⟨g, above⟩⟩
    · cases hfs
      simp at hdepth
    · cases hfs
      exact ⟨[], _, rfl, hreturn⟩
    · cases hfs
      exact ⟨_ :: above, callee, rfl, hreturn⟩
  | last => simp at hdepth

/-- A step takes away one frame at most. -/
theorem Moves.length_le {i : Instruction} {fs fs' : List Frame} (h : Moves i fs fs') :
    fs.length ≤ fs'.length + 1 := by
  cases h <;> simp only [List.length_cons, List.length_nil] <;> omega

/-- A run above the waiting frames leaves them and the host's stack alone. -/
theorem Suspends.run {waiting : List Frame} {returnPc : Option Nat} {m m' : Machine}
    (hs : Suspends waiting returnPc m.frames) (hrun : RunsAbove waiting.length m m') :
    Suspends waiting returnPc m'.frames ∧ m'.host = m.host := by
  induction hrun with
  | refl => exact ⟨hs, rfl⟩
  | tail _ hstep ih =>
    obtain ⟨hstep, hdepth⟩ := hstep
    obtain ⟨hsuspends, hhost⟩ := ih
    obtain ⟨f, rest, hm⟩ := List.exists_cons_of_ne_nil hstep.1
    obtain ⟨i, -, hmoves, hkept⟩ := hstep.moves hm
    have hne := List.ne_nil_of_length_pos (Nat.zero_lt_of_lt hdepth)
    exact ⟨hmoves.suspends hsuspends hdepth, (hkept hne).trans hhost⟩

/-- The step that makes a waiting frame the current one again is the return to it. -/
theorem Suspends.leave {waiting : List Frame} {returnPc : Option Nat} {m m' : Machine}
    (hs : Suspends waiting returnPc m.frames) (h : StepsTo m m')
    (hdepth : m'.frames.length = waiting.length) :
    ∃ opcode v, m.opcode? = some opcode ∧ Returned opcode v ∧
      (waiting = [] ∧ m'.frames = [] ∧ m'.host = v.toList ++ m.host ∨
        ∃ caller below, waiting = caller :: below ∧ m'.host = m.host ∧
          m'.frames = caller.resume returnPc v :: below) := by
  obtain ⟨above, callee, hm, rfl⟩ := hs
  obtain ⟨f, rest, hcons⟩ := List.exists_cons_of_ne_nil h.1
  obtain ⟨i, -, hmoves, -⟩ := h.moves hcons
  have hle := hmoves.length_le
  have hnil : above = [] := by
    rw [hm, hdepth, List.length_append, List.length_cons] at hle
    exact List.length_eq_zero_iff.mp (by omega)
  subst hnil
  obtain ⟨opcode, v, hop, hv, hback⟩ := h.leave hm hdepth
  refine ⟨opcode, v, ?_, hv, hback⟩
  unfold opcode?
  rw [hm]
  exact hop

/-- The caller after a call, and what is below it. -/
theorem Calls.caller {m m₁ m₂ m' : Machine} {f : Frame} {below : List Frame}
    (h : Calls m m₁ m₂ m') (hm : m.frames = f :: below) :
    ∃ method taken stack opcode v, f.Invokes m.program method ∧
      f.stack = taken ++ stack ∧ taken.length = method.arity ∧
      m₂.opcode? = some opcode ∧ Returned opcode v ∧ m'.host = m.host ∧
      m'.frames = { f with opPc := f.pc, pc := f.pc + 3, stack := v.toList ++ stack } ::
        below := by
  obtain ⟨method, taken, stack, callee, hinvokes, htaken, hlen, hreturn, hframes, hhost⟩ :=
    h.enters.call hm h.deeper
  have hs : Suspends ({ f with opPc := f.pc, pc := f.pc + 3, stack } :: below) (some (f.pc + 3))
      m₁.frames := ⟨[], callee, hframes, hreturn⟩
  have hdepth : m.frames.length = below.length + 1 := by rw [hm, List.length_cons]
  have hrun := h.run
  rw [hdepth] at hrun
  obtain ⟨hs₂, hhost₂⟩ := hs.run hrun
  obtain ⟨opcode, v, hop, hv, hback⟩ := hs₂.leave h.leaves (h.back.trans hdepth)
  rcases hback with ⟨hnil, -⟩ | ⟨caller, below', hcons, hhost', hframes'⟩
  · cases hnil
  · cases hcons
    exact ⟨method, taken, stack, opcode, v, hinvokes, htaken, hlen, hop, hv,
      (hhost'.trans hhost₂).trans hhost, hframes'⟩

theorem Runs.above {m m' : Machine} (h : Runs m m') (hne : m'.frames ≠ []) :
    RunsAbove 0 m m' := by
  induction h with
  | refl => exact .refl
  | tail _ hstep ih => exact (ih hstep.1).tail ⟨hstep, List.length_pos_iff.mpr hne⟩

/-- A method that the host has entered is the only one, without the values that it takes. -/
theorem enter_host {method : Method} {kind : CallKind} {m m₁ : Machine} (hm : m.frames = [])
    (h : enter method kind m = .ok () m₁) : ∃ taken, m.host = taken ++ m₁.host ∧
      taken.length = method.arity ∧ Suspends [] none m₁.frames := by
  obtain ⟨taken, stack, callee, htaken, hlen, hreturn, hframes, hhost⟩ := enter_ok h
  rw [setOperands_nil hm] at hframes hhost
  unfold operands at htaken
  unfold resumeAt at hreturn
  rw [hm] at htaken hreturn
  refine ⟨taken, ?_, hlen, [], callee, ?_, hreturn⟩
  · rw [hhost]
    exact htaken
  · rw [hframes]
    exact congrArg _ hm

end Machine

namespace HostCall

open Machine

/-- The host's stack when the method is called: for an entry method with parameters, the array of
its texts is on top. -/
def stackBefore (c : HostCall) (m : Machine) : Stack :=
  match c.setup m with
  | some (_, m₀) => m₀.host
  | none => m.host

/-- Only the arguments of an entry method are pushed before a call. -/
theorem stackBefore_eq (c : HostCall) (m : Machine) : c.stackBefore m = m.host ∨
    ∃ args method, c = .entry args ∧ m.entryMethod? = some method ∧ method.signature.params ≠ [] ∧
      c.stackBefore m = .ref m.heap.next :: m.host := by
  unfold stackBefore
  cases hsetup : c.setup m with
  | none => exact Or.inl rfl
  | some target =>
    cases c with
    | byName name | exact name descriptor =>
      obtain ⟨_, -, rfl⟩ := Option.map_eq_some_iff.mp hsetup
      exact Or.inl rfl
    | entry args =>
      obtain ⟨method, hmethod, rfl⟩ := Option.map_eq_some_iff.mp hsetup
      have hentry := (Option.filter_eq_some_iff.mp hmethod).1
      dsimp only
      split
      · exact Or.inl rfl
      · rename_i hparams
        exact Or.inr ⟨args, method, rfl, hentry, by simpa using hparams, rfl⟩

/-- The host's stack after a call that returns. -/
theorem finished_host {c : HostCall} {fuel : Nat} {m m' : Machine} (hm : m.frames = [])
    (h : c.perform fuel m = .finished m') : ∃ method m₀ m₁ m₂ taken stack opcode v,
      c.setup m = some (method, m₀) ∧ Machine.enter method .static m₀ = .ok () m₁ ∧ Runs m₁ m₂ ∧
      StepsTo m₂ m' ∧ c.stackBefore m = taken ++ stack ∧ taken.length = method.arity ∧
      m₂.opcode? = some opcode ∧ Returned opcode v ∧ m'.frames = [] ∧
      m'.host = v.toList ++ stack := by
  have hresults := c.perform_results fuel m
  rw [h] at hresults
  cases hresults with
  | entered hsetup henter hends =>
    rename_i method m₀ m₁
    have hm₀ : m₀.frames = [] := (setup_keeps hsetup).2.2.trans hm
    obtain ⟨taken, hhost, hlen, hs⟩ := enter_host hm₀ henter
    cases hends with
    | finished hrun hnil =>
      rcases hrun.cases_tail with heq | ⟨m₂, hrun₂, hstep⟩
      · obtain ⟨above, callee, hframes, -⟩ := hs
        rw [← heq, hnil] at hframes
        simp at hframes
      · obtain ⟨hs₂, hhost₂⟩ := hs.run (Runs.above hrun₂ hstep.1)
        obtain ⟨opcode, v, hop, hv, hback⟩ := hs₂.leave hstep (congrArg List.length hnil)
        rcases hback with ⟨-, -, hhost'⟩ | ⟨_, _, hcons, -⟩
        · refine ⟨method, m₀, m₁, m₂, taken, m₁.host, opcode, v, hsetup, henter, hrun₂,
            hstep, ?_, hlen, hop, hv, hnil, hhost₂ ▸ hhost'⟩
          unfold stackBefore
          rw [hsetup]
          exact hhost
        · cases hcons

/-- The host's stack after a call that fails. -/
theorem failed_host {c : HostCall} {fuel : Nat} {m m' : Machine} {e : RunError}
    (hm : m.frames = []) (h : c.perform fuel m = .failed e m') : m'.host <:+ c.stackBefore m := by
  have hresults := c.perform_results fuel m
  rw [h] at hresults
  unfold stackBefore
  cases hresults with
  | missing hsetup => simp only [hsetup, List.suffix_refl]
  | refused hsetup henter =>
    rw [hsetup]
    exact ((ends_enter (Quiet.refl _)).of_error henter).host
  | entered hsetup henter hends =>
    rename_i method m₀ m₁
    rw [hsetup]
    have hm₀ : m₀.frames = [] := (setup_keeps hsetup).2.2.trans hm
    obtain ⟨taken, hhost, -, hs⟩ := enter_host hm₀ henter
    cases hends with
    | failed hrun hne hstep =>
      obtain ⟨-, hhost₂⟩ := hs.run (Runs.above hrun hne)
      refine ⟨taken, ?_⟩
      show taken ++ _ = m₀.host
      rw [hhost, (step_error hstep).hostKept hne, hhost₂]

end HostCall

namespace Machine

/-- Callers are untouched by what they call. A frame that calls a method goes on, when the method
has returned, after its instruction, with the declared arguments replaced by what the method
returned; nothing else of it has changed, nor the frames below. The host's stack changes in the
same way by a call of the host that returns, and one that fails leaves an end piece of it. -/
theorem callers_kept (m : Machine) :
    (∀ f below m₁ m₂ m', m.frames = f :: below → Calls m m₁ m₂ m' →
      ∃ method taken stack opcode v, f.Invokes m.program method ∧
        f.stack = taken ++ stack ∧ taken.length = method.arity ∧
        m₂.opcode? = some opcode ∧ Returned opcode v ∧ m'.host = m.host ∧
        m'.frames = { f with opPc := f.pc, pc := f.pc + 3, stack := v.toList ++ stack } ::
          below) ∧
    (m.frames = [] → ∀ (c : HostCall) (fuel : Nat),
      (c.stackBefore m = m.host ∨ ∃ args method, c = .entry args ∧ m.entryMethod? = some method ∧
        method.signature.params ≠ [] ∧ c.stackBefore m = .ref m.heap.next :: m.host) ∧
      (∀ m', c.perform fuel m = .finished m' → ∃ method m₀ m₁ m₂ taken stack opcode v,
        c.setup m = some (method, m₀) ∧ enter method .static m₀ = .ok () m₁ ∧ Runs m₁ m₂ ∧
        StepsTo m₂ m' ∧ c.stackBefore m = taken ++ stack ∧ taken.length = method.arity ∧
        m₂.opcode? = some opcode ∧ Returned opcode v ∧ m'.frames = [] ∧
        m'.host = v.toList ++ stack) ∧
      ∀ e m', c.perform fuel m = .failed e m' → m'.host <:+ c.stackBefore m) := by
  refine ⟨fun f below m₁ m₂ m' hm h => h.caller hm, fun hm c fuel => ⟨c.stackBefore_eq m, ?_, ?_⟩⟩
  · exact fun m' h => HostCall.finished_host hm h
  · exact fun e m' h => HostCall.failed_host hm h

def addingMain : Method where
  owner := "T"
  name := "main"
  descriptor := "()I"
  signature := ⟨[], .value (.primitive .int)⟩
  isStatic := true
  maxStack := 3
  code := #[0x04, 0x05, 0x06, 0xB8, 0, 1, 0xAC]

def adding : Class where
  name := "T"
  super := []
  pool := #[none, some (.methodRef ⟨⟨"T", 0⟩,
    ⟨"add", "(II)I", .method ⟨[.primitive .int, .primitive .int], .value (.primitive .int)⟩⟩,
    ⟨[.primitive .int, .primitive .int], .value (.primitive .int)⟩, false⟩)]
  fields := []
  methods := [addingMain,
    { owner := "T", name := "add", descriptor := "(II)I",
      signature := ⟨[.primitive .int, .primitive .int], .value (.primitive .int)⟩,
      isStatic := true, maxStack := 2, maxLocals := 2, code := #[0x1A, 0x1B, 0x60, 0xAC] }]

def addingRun : Nat → Machine
  | 0 => match enter addingMain .static (start adding .default {} [] {}) with
    | .ok _ m | .error _ m => m
  | n + 1 => match step (addingRun n) with
    | .ok _ m | .error _ m => m

def addingSteps (n : Nat) : Bool :=
  !(addingRun n).frames.isEmpty && match step (addingRun n) with
    | .ok _ _ => true
    | .error _ _ => false

theorem addingRun_stepsTo {n : Nat} (h : addingSteps n = true) :
    StepsTo (addingRun n) (addingRun (n + 1)) := by
  obtain ⟨hne, hok⟩ := Bool.and_eq_true_iff.mp h
  refine ⟨by simpa using hne, ?_⟩
  cases hstep : step (addingRun n) with
  | ok _ m => rw [show addingRun (n + 1) = m by rw [addingRun, hstep]]
  | error e m =>
    rw [hstep] at hok
    cases hok

/-- Of the numbers 1, 2 and 3 on the stack of the caller, `add` takes two. The first is still
there when the sum comes back. -/
theorem callers_kept_adding : ∃ f, (addingRun 3).frames = [f] ∧
    Calls (addingRun 3) (addingRun 4) (addingRun 7) (addingRun 8) ∧
    f.pc = 3 ∧ f.stack = [.int 3, .int 2, .int 1] ∧
    (addingRun 8).frames.map (fun g => (g.pc, g.stack)) = [(6, [.int 5, .int 1])] ∧
    ∃ method taken stack opcode v, f.Invokes (addingRun 3).program method ∧
      f.stack = taken ++ stack ∧ taken.length = method.arity ∧
      (addingRun 7).opcode? = some opcode ∧ Returned opcode v ∧
      (addingRun 8).host = (addingRun 3).host ∧
      (addingRun 8).frames =
        [{ f with opPc := f.pc, pc := f.pc + 3, stack := v.toList ++ stack }] := by
  have hsteps : ∀ n < 8, addingSteps n = true := by decide +kernel
  have hdeep : ∀ n < 8, 4 ≤ n → (addingRun n).frames.length = 2 := by decide +kernel
  have h3 : (addingRun 3).frames.length = 1 := by decide +kernel
  have h8 : (addingRun 8).frames.length = 1 := by decide +kernel
  have habove : ∀ n < 7, 4 ≤ n → StepsTo (addingRun n) (addingRun (n + 1)) ∧
      (addingRun 3).frames.length < (addingRun (n + 1)).frames.length := by
    intro n hn hle
    refine ⟨addingRun_stepsTo (hsteps n (by omega)), ?_⟩
    rw [h3, hdeep (n + 1) (by omega) (by omega)]
    omega
  have hcalls : Calls (addingRun 3) (addingRun 4) (addingRun 7) (addingRun 8) := by
    refine ⟨addingRun_stepsTo (hsteps 3 (by omega)), ?_, ?_,
      addingRun_stepsTo (hsteps 7 (by omega)), h8.trans h3.symm⟩
    · rw [h3]
      exact hdeep 4 (by omega) (by omega)
    · have hfirst : RunsAbove (addingRun 3).frames.length (addingRun 4) (addingRun 5) :=
        .single (habove 4 (by omega) (by omega))
      exact (hfirst.tail (habove 5 (by omega) (by omega))).tail (habove 6 (by omega) (by omega))
  obtain ⟨f, hf⟩ := List.length_eq_one_iff.mp h3
  have hbefore : (addingRun 3).frames.map (fun g => (g.pc, g.stack)) =
      [(3, [.int 3, .int 2, .int 1])] := by decide +kernel
  rw [hf] at hbefore
  simp only [List.map_cons, List.map_nil, List.cons.injEq, Prod.mk.injEq] at hbefore
  obtain ⟨⟨hpc, hstack⟩, -⟩ := hbefore
  exact ⟨f, hf, hcalls, hpc, hstack, by decide +kernel,
    (callers_kept (addingRun 3)).1 f [] _ _ _ hf hcalls⟩

end Machine

end ClassTrace
