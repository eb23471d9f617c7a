import ClassTrace.Proofs.StackBound

/-!
Steps that call and steps that return, exactly. A call takes its arguments and its receiver off
the caller's stack, leaves the caller at the address after the instruction and puts one frame on
top. A return takes the frame away and hands over a value of the kind that its opcode prescribes,
or none.
-/
namespace ClassTrace

namespace Family

def Holds (family : Family) (v : Value) : Prop :=
  if family = .reference then v.isReference = true else v.kind = family.kind

/-- What a return pops is of its family. -/
theorem holds_of_pop {family : Family} {v : Value} {s s' : Stack} (h : family.pop s = .ok v s') :
    family.Holds v := by
  obtain rfl : s = v :: s' := (family.pop_pops s).of_ok h
  cases family with
  | int | long | float | double =>
    cases v <;> cases h
    rfl
  | reference =>
    change (if v.isReference = true then (pure v : StackM Value) else throw _) s' = _ at h
    split at h
    · assumption
    · cases h

end Family

inductive Returned : UInt8 → Option Value → Prop
  | void : Returned 0xB1 none
  | value {family : Family} {v : Value} (hv : family.Holds v) :
      Returned family.returnOpcode (some v)

def Method.arity (method : Method) : Nat :=
  method.signature.params.length + if method.isStatic then 0 else 1

/-- The instruction of the frame is a call of the method, which is one of the class. -/
def Frame.Invokes (f : Frame) (program : Class) (method : Method) : Prop :=
  ∃ mode index r, f.method.code[f.pc]? = some (CallMode.opcode mode) ∧
    f.Fetches (.invoke mode index) ∧
    program.pool.methodRef index = .ok r ∧ r.owner.name = program.name ∧
    program.method? r.nameType.name r.nameType.descriptor = some method

theorem Stack.popArgs_length {params : List FieldType} {args : List Value} {s s' : Stack}
    (h : popArgs params s = .ok args s') : args.length = params.length := by
  have hall : ∀ (types : List FieldType) (s : Stack),
      Ends (fun _ => True) (types.mapM popTyped) s fun args _ => args.length = types.length := by
    intro types
    induction types with
    | nil => exact fun s => Ends.of_pure rfl
    | cons t rest ih =>
      intro s
      rw [List.mapM_cons]
      refine ((popTyped_pops t s).mono (fun _ _ => trivial) fun _ _ h => h).bind fun v s₁ _ => ?_
      exact (ih s₁).bind fun vs s₂ hvs => Ends.of_pure (congrArg (· + 1) hvs)
  have hargs :
      Ends (fun _ => True) (popArgs params) s fun args _ => args.length = params.length := by
    refine (hall params.reverse s).bind fun vs s₁ hvs => Ends.of_pure ?_
    simpa using hvs
  exact hargs.of_ok h

namespace Machine

def operands (m : Machine) : Stack :=
  match m.frames with
  | [] => m.host
  | f :: _ => f.stack

def setOperands (stack : Stack) (m : Machine) : Machine :=
  match m.frames with
  | [] => { m with host := stack }
  | f :: rest => { m with frames := { f with stack } :: rest }

theorem setOperands_nil {m : Machine} (hm : m.frames = []) (stack : Stack) :
    m.setOperands stack = { m with host := stack } := by
  unfold setOperands
  rw [hm]

theorem setOperands_cons {m : Machine} {f : Frame} {rest : List Frame} (hm : m.frames = f :: rest)
    (stack : Stack) : m.setOperands stack = { m with frames := { f with stack } :: rest } := by
  unfold setOperands
  rw [hm]

theorem operands_setOperands (m : Machine) (stack : Stack) :
    (m.setOperands stack).operands = stack := by
  unfold operands
  cases hm : m.frames with
  | nil =>
    rw [setOperands_nil hm]
    simp only [hm]
  | cons f rest => rw [setOperands_cons hm]

theorem setOperands_setOperands (m : Machine) (s t : Stack) :
    (m.setOperands s).setOperands t = m.setOperands t := by
  cases hm : m.frames with
  | nil =>
    rw [setOperands_nil hm, setOperands_nil hm]
    exact setOperands_nil (m := { m with host := s }) hm t
  | cons f rest =>
    rw [setOperands_cons hm, setOperands_cons hm]
    rfl

theorem resumeAt_setOperands (m : Machine) (stack : Stack) :
    (m.setOperands stack).resumeAt = m.resumeAt := by
  unfold resumeAt
  cases hm : m.frames with
  | nil => rw [setOperands_nil hm, hm]
  | cons f rest =>
    rw [setOperands_cons hm]
    rfl

/-- An action on the stack changes the operand stack in use and nothing else. -/
theorem onStack_ok {α : Type} {x : StackM α} {a : α} {m m' : Machine}
    (h : onStack x m = .ok a m') :
    ∃ stack, x m.operands = .ok a stack ∧ m' = m.setOperands stack := by
  unfold onStack at h
  unfold operands
  cases hm : m.frames with
  | nil =>
    simp only [hm] at h
    cases hx : x m.host with
    | ok b stack =>
      rw [hx] at h
      cases h
      exact ⟨stack, rfl, by rw [setOperands_nil hm, hm]⟩
    | error e stack =>
      rw [hx] at h
      cases h
  | cons f rest =>
    simp only [hm, Frame.onStack] at h
    cases hx : x f.stack with
    | ok b stack =>
      rw [hx] at h
      cases h
      exact ⟨stack, rfl, (setOperands_cons hm stack).symm⟩
    | error e stack =>
      rw [hx] at h
      cases h

theorem placed_frames (f : Frame) (kind : CallKind) (args : List Value) (m : Machine) :
    (placed f kind args m).frames = { f.setArgs args with returnPc := m.resumeAt } :: m.frames ∧
      (placed f kind args m).host = m.host := by
  unfold placed Machine.log
  simp only [report_eq]
  split
  · exact ⟨rfl, rfl⟩
  · exact ⟨rfl, rfl⟩

def entryFrame (method : Method) (receiver? : Option Value) (args : List Value) : Frame :=
  match receiver? with
  | some receiver => ((Frame.fresh method).setReceiver receiver).setArgs args
  | none => (Frame.fresh method).setArgs args

/-- A method that is entered has taken its arguments, and its receiver, off the stack in use, and
its frame was made with these. -/
theorem enter_takes {method : Method} {kind : CallKind} {m m' : Machine}
    (h : enter method kind m = .ok () m') : ∃ args receiver? stack,
      m.operands = args.reverse ++ (receiver?.toList ++ stack) ∧
      args.length = method.signature.params.length ∧ receiver?.isSome = !method.isStatic ∧
      m'.frames = { entryFrame method receiver? args with returnPc := m.resumeAt } ::
        (m.setOperands stack).frames ∧
      m'.host = (m.setOperands stack).host := by
  rw [enter_eq] at h
  split at h
  · cases h
  split at h
  · cases h
  change EStateM.bind (onStack _) _ m = _ at h
  unfold EStateM.bind at h
  cases hargs : onStack (Stack.popArgs method.signature.params) m with
  | error e m₁ =>
    rw [hargs] at h
    cases h
  | ok args m₁ =>
    simp only [hargs] at h
    obtain ⟨s₁, hpop, rfl⟩ := onStack_ok hargs
    have hlen := Stack.popArgs_length hpop
    have hs₁ : m.operands = args.reverse ++ s₁ := (Stack.popArgs_pops _ m.operands).of_ok hpop
    cases hstatic : method.isStatic with
    | true =>
      rw [if_pos hstatic] at h
      cases h
      obtain ⟨hframes, hhost⟩ := placed_frames (Frame.fresh method) kind args (m.setOperands s₁)
      rw [resumeAt_setOperands] at hframes
      exact ⟨args, none, s₁, hs₁, hlen, rfl, hframes, hhost⟩
    | false =>
      rw [if_neg (by simp [hstatic])] at h
      change EStateM.bind (onStack _) _ _ = _ at h
      unfold EStateM.bind at h
      cases hreceiver : onStack Stack.popReference (m.setOperands s₁) with
      | error e m₂ =>
        rw [hreceiver] at h
        cases h
      | ok receiver m₂ =>
        simp only [hreceiver] at h
        obtain ⟨s₂, hpop₂, rfl⟩ := onStack_ok hreceiver
        rw [operands_setOperands] at hpop₂
        have hs₂ : s₁ = receiver :: s₂ := (Stack.popReference_pops s₁).of_ok hpop₂
        split at h
        · cases h
        · cases h
          rw [setOperands_setOperands]
          obtain ⟨hframes, hhost⟩ :=
            placed_frames ((Frame.fresh method).setReceiver receiver) kind args (m.setOperands s₂)
          rw [resumeAt_setOperands] at hframes
          rw [hs₂] at hs₁
          exact ⟨args, some receiver, s₂, hs₁, hlen, rfl, hframes, hhost⟩

/-- A method that was entered has taken its arguments and its receiver off the stack. -/
theorem enter_ok {method : Method} {kind : CallKind} {m m' : Machine}
    (h : enter method kind m = .ok () m') : ∃ taken stack callee,
      m.operands = taken ++ stack ∧ taken.length = method.arity ∧ callee.returnPc = m.resumeAt ∧
        m'.frames = callee :: (m.setOperands stack).frames ∧
        m'.host = (m.setOperands stack).host := by
  obtain ⟨args, receiver?, stack, hoperands, hlen, hreceiver, hframes, hhost⟩ := enter_takes h
  refine ⟨args.reverse ++ receiver?.toList, stack, _, ?_, ?_, rfl, hframes, hhost⟩
  · rw [hoperands, List.append_assoc]
  · rw [List.length_append, List.length_reverse, hlen]
    unfold Method.arity
    cases receiver? with
    | none =>
      have hstatic : method.isStatic = true := by simpa using hreceiver
      simp [hstatic]
    | some receiver =>
      have hinstance : method.isStatic = false := by simpa using hreceiver
      simp [hinstance]

def located (location : Location) (result : EStateM.Result Cause Machine Unit) :
    EStateM.Result RunError Machine Unit :=
  match result with
  | .ok _ m => .ok () m
  | .error cause m => .error (cause.raisedAt location) m

theorem located_eq_ok {location : Location} {result : EStateM.Result Cause Machine Unit}
    {m : Machine} :
    located location result = .ok () m ↔ result = .ok () m := by
  cases result <;> simp [located]

/-- A step runs the instruction that is fetched. -/
theorem step_eq {m : Machine} {f : Frame} {rest : List Frame} {opcode : UInt8} {i : Instruction}
    {next : Nat} (hm : m.frames = f :: rest) (hop : f.method.code[f.pc]? = some opcode)
    (hdec : Instruction.decode opcode f.method.code (f.pc + 1) = .ok i next) : ∃ console,
      step m = located ⟨f.method.fullName, f.pc, some opcode⟩
        (i.run { m with frames := { f with opPc := f.pc, pc := next } :: rest, console }) := by
  obtain ⟨console, hfetched⟩ := m.fetched_eq f rest opcode next
  refine ⟨console, ?_⟩
  unfold step
  cases hrun :
      i.run { m with frames := { f with opPc := f.pc, pc := next } :: rest, console } with
  | ok _ m' => simp only [hm, hop, execute_eq hm, hdec, hfetched, hrun, located]
  | error cause m' => simp only [hm, hop, execute_eq hm, hdec, hfetched, hrun, located]

/-- A successful step has fetched an instruction and run it. -/
theorem step_runs {m m' : Machine} {f : Frame} {rest : List Frame} {i : Instruction}
    (hm : m.frames = f :: rest) (hfetch : f.Fetches i) (h : step m = .ok () m') :
    ∃ opcode next console, f.method.code[f.pc]? = some opcode ∧
      Instruction.decode opcode f.method.code (f.pc + 1) = .ok i next ∧
      i.run { m with frames := { f with opPc := f.pc, pc := next } :: rest, console } =
        .ok () m' := by
  obtain ⟨opcode, next, hop, hdec⟩ := hfetch
  obtain ⟨console, hstep⟩ := step_eq hm hop hdec
  rw [hstep, located_eq_ok] at h
  exact ⟨opcode, next, console, hop, hdec, h⟩

/-- What one step with the instruction does to the frames. -/
inductive Moves : Instruction → List Frame → List Frame → Prop
  | stay {i : Instruction} {f f' : Frame} {rest : List Frame} (h : f'.returnPc = f.returnPc) :
      Moves i (f :: rest) (f' :: rest)
  | call {mode : CallMode} {index : UInt16} {f f' callee : Frame} {rest : List Frame}
      (h : f'.returnPc = f.returnPc) :
      Moves (.invoke mode index) (f :: rest) (callee :: f' :: rest)
  | ret {family : Option Family} {f caller : Frame} {v : Option Value} {below : List Frame} :
      Moves (.ret family) (f :: caller :: below) (caller.resume f.returnPc v :: below)
  | last {family : Option Family} {f : Frame} : Moves (.ret family) [f] []

theorem Finishes.moves {m m' : Machine} {i : Instruction} (hne : m.frames ≠ [])
    (h : Finishes m i m') :
    Moves i m.frames m'.frames ∧ (m'.frames ≠ [] → m'.host = m.host) := by
  obtain ⟨m₁, hq, hend⟩ := h
  obtain ⟨f, rest, hm⟩ := List.exists_cons_of_ne_nil hne
  have hhost : m₁.host = m.host := hq.hostKept hne
  obtain ⟨f₁, hm₁, hf₁⟩ : ∃ f₁, m₁.frames = f₁ :: rest ∧ f₁.returnPc = f.returnPc := by
    have hframes := hq.frames
    rw [hm] at hframes
    generalize m₁.frames = fs at hframes
    cases hframes with
    | some _ hf => exact ⟨_, rfl, hf.returnPc⟩
  rw [hm]
  cases hend with
  | silent | library =>
    rw [hm₁]
    exact ⟨.stay hf₁, fun _ => hhost⟩
  | assign _ _ hframes _ hset _ h =>
    obtain ⟨console, rfl⟩ := h
    cases hm₁.symm.trans hframes
    refine ⟨.stay ?_, fun _ => hhost⟩
    unfold Frame.setLocal at hset
    split at hset
    · cases hset
      exact hf₁
    · cases hset
  | setField _ _ _ _ _ h | setElement _ _ _ _ _ h =>
    obtain ⟨console, rfl⟩ := h
    refine ⟨?_, fun _ => hhost⟩
    show Moves _ _ m₁.frames
    rw [hm₁]
    exact .stay hf₁
  | call _ _ _ h =>
    obtain ⟨_, _, _, _, _, _, console, rfl⟩ := h
    refine ⟨?_, fun _ => hhost⟩
    show Moves _ _ (_ :: m₁.frames)
    rw [hm₁]
    exact .call hf₁
  | ret _ _ _ h =>
    cases h with
    | toHost hframes h =>
      obtain ⟨console, rfl⟩ := h
      cases hm₁.symm.trans hframes
      exact ⟨.last, fun hnil => absurd rfl hnil⟩
    | toCaller hframes h =>
      obtain ⟨console, rfl⟩ := h
      cases hm₁.symm.trans hframes
      rw [hf₁]
      exact ⟨.ret, fun _ => hhost⟩

/-- What a step of a machine with the current frame `f` does to the frames. -/
theorem StepsTo.moves {m m' : Machine} {f : Frame} {rest : List Frame} (h : StepsTo m m')
    (hm : m.frames = f :: rest) : ∃ i, f.Fetches i ∧ Moves i m.frames m'.frames ∧
      (m'.frames ≠ [] → m'.host = m.host) := by
  obtain ⟨i, hfetch, hi⟩ := step_ok hm h.2
  exact ⟨i, hfetch, hi.moves h.1⟩

theorem invokeOwn_ok {mode : CallMode} {name descriptor : Bytes} {m m' : Machine}
    (h : invokeOwn mode name descriptor m = .ok () m') :
    ∃ method kind, m.program.method? name descriptor = some method ∧
      enter method kind m = .ok () m' := by
  have hget : (get : Exec Machine) m = .ok m m := rfl
  unfold invokeOwn at h
  rw [bind_of_ok hget] at h
  cases hmethod : m.program.method? name descriptor with
  | none =>
    rw [hmethod] at h
    cases h
  | some method =>
    simp only [hmethod] at h
    split at h
    · cases h
    · exact ⟨method, _, rfl, h⟩

/-- A call that makes the frames more is one of a method of the class. -/
theorem invoke_deeper {mode : CallMode} {index : UInt16} {m m' : Machine}
    (h : invoke mode index m = .ok () m') (hdepth : m'.frames.length ≠ m.frames.length) :
    ∃ r method kind, m.program.pool.methodRef index = .ok r ∧ r.owner.name = m.program.name ∧
      m.program.method? r.nameType.name r.nameType.descriptor = some method ∧
        enter method kind m = .ok () m' := by
  change EStateM.bind (check (m.program.pool.methodRef index)) _ m = _ at h
  cases href : m.program.pool.methodRef index with
  | error e =>
    rw [href] at h
    cases h
  | ok r =>
    rw [href] at h
    change (if r.owner.name = m.program.name then (_ : Exec Unit) else _) m = _ at h
    split at h
    · rename_i howner
      obtain ⟨method, kind, hmethod, henter⟩ := invokeOwn_ok h
      exact ⟨r, method, kind, rfl, howner, hmethod, henter⟩
    · have hq := (ends_invokeLibrary (Quiet.refl m)).of_ok h
      exact absurd hq.frames.length hdepth

/-- A step that makes the frames more is a call: the caller stands after the instruction, without
the values that the method takes. -/
theorem StepsTo.call {m m₁ : Machine} {f : Frame} {below : List Frame} (h : StepsTo m m₁)
    (hm : m.frames = f :: below) (hdepth : m₁.frames.length = m.frames.length + 1) :
    ∃ method taken stack callee, f.Invokes m.program method ∧
      f.stack = taken ++ stack ∧ taken.length = method.arity ∧ callee.returnPc = some (f.pc + 3) ∧
      m₁.frames = callee :: { f with opPc := f.pc, pc := f.pc + 3, stack } :: below ∧
      m₁.host = m.host := by
  obtain ⟨i, hfetch, hmoves, -⟩ := h.moves hm
  obtain ⟨opcode, next, console, hop, hdec, hrun⟩ := step_runs hm hfetch h.2
  rw [hm] at hmoves hdepth
  generalize hframes : m₁.frames = fs at hmoves hdepth
  cases hmoves with
  | stay => simp at hdepth
  | ret =>
    simp only [List.length_cons] at hdepth
    omega
  | last => simp at hdepth
  | call =>
    rename_i mode index _ _ _
    obtain ⟨rfl, rfl⟩ := Instruction.decode_invoke (Array.getElem?_eq_some_iff.mp hop).1 hdec
    have hne : m₁.frames.length ≠ below.length + 1 := by
      rw [hframes]
      simp
    obtain ⟨r, method, kind, href, howner, hmethod, henter⟩ := invoke_deeper hrun hne
    obtain ⟨taken, stack, callee, htaken, hlen, hreturn, hcallee, hhost⟩ := enter_ok henter
    rw [setOperands_cons rfl] at hcallee hhost
    have hinvokes : f.Invokes m.program method :=
      ⟨mode, index, r, hop, hfetch, href, howner, hmethod⟩
    exact ⟨method, taken, stack, callee, hinvokes, htaken, hlen, hreturn,
      hframes ▸ hcallee, hhost⟩

/-- A step that makes the frames fewer is a return. The caller, or the host, gets the value. -/
theorem StepsTo.leave {m m' : Machine} {f : Frame} {rest : List Frame} (h : StepsTo m m')
    (hm : m.frames = f :: rest) (hdepth : m'.frames.length = rest.length) :
    ∃ opcode v, f.method.code[f.pc]? = some opcode ∧ Returned opcode v ∧
      (rest = [] ∧ m'.frames = [] ∧ m'.host = v.toList ++ m.host ∨
        ∃ caller below, rest = caller :: below ∧ m'.host = m.host ∧
          m'.frames = caller.resume f.returnPc v :: below) := by
  obtain ⟨i, hfetch, hmoves, -⟩ := h.moves hm
  obtain ⟨opcode, next, console, hop, hdec, hrun⟩ := step_runs hm hfetch h.2
  obtain ⟨family, rfl⟩ : ∃ family, i = .ret family := by
    rw [hm] at hmoves
    generalize m'.frames = fs at hmoves hdepth
    cases hmoves with
    | stay => simp at hdepth
    | call =>
      simp only [List.length_cons] at hdepth
      omega
    | ret => exact ⟨_, rfl⟩
    | last => exact ⟨_, rfl⟩
  have hpc : f.pc < f.method.code.size := (Array.getElem?_eq_some_iff.mp hop).1
  obtain ⟨hopcode, -⟩ :=
    (Instruction.decode_hasOpcode opcode f.method.code (f.pc + 1) hpc).of_ok hdec
  -- A value is popped off the frame that is left, so its return address is that of `f`.
  have hleaves : ∀ (v : Option Value) (stack : Stack),
      Leaves v { m with
        frames := { f with opPc := f.pc, pc := next, stack } :: rest, console } m' →
      (rest = [] ∧ m'.frames = [] ∧ m'.host = v.toList ++ m.host ∨
        ∃ caller below, rest = caller :: below ∧ m'.host = m.host ∧
          m'.frames = caller.resume f.returnPc v :: below) := by
    intro v stack hleave
    cases hleave with
    | toHost hframes h =>
      obtain ⟨console', rfl⟩ := h
      cases hframes
      exact Or.inl ⟨rfl, rfl, rfl⟩
    | toCaller hframes h =>
      obtain ⟨console', rfl⟩ := h
      cases hframes
      exact Or.inr ⟨_, _, rfl, rfl, rfl⟩
  cases family with
  | none =>
    refine ⟨opcode, none, hop, hopcode ▸ .void, hleaves none f.stack ?_⟩
    exact (ends_ret (Quiet.refl _)).of_ok hrun
  | some family =>
    change EStateM.bind (onStack family.pop) _ _ = _ at hrun
    unfold EStateM.bind at hrun
    split at hrun
    · rename_i v m₁ hpop
      obtain ⟨stack, hv, rfl⟩ := onStack_ok hpop
      rw [setOperands_cons rfl] at hrun
      refine ⟨opcode, some v, hop, hopcode ▸ .value (Family.holds_of_pop hv), hleaves _ stack ?_⟩
      exact (ends_ret (Quiet.refl _)).of_ok hrun
    · cases hrun

end Machine

end ClassTrace
