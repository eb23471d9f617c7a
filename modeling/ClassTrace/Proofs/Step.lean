import ClassTrace.Machine.Host
import ClassTrace.Proofs.Call
import ClassTrace.Proofs.Memory

/-!
Steps, and runs of steps. A step that succeeds fetches the instruction at the address of the
current frame and has one of its endings; a step that fails has reported nothing. A call of the
host that ends is a run of successful steps from a new frame, which ends without frames or at a
step that fails.
-/
namespace ClassTrace

@[simp] theorem Cause.cause_raisedAt (l : Location) (cause : Cause) :
    (cause.raisedAt l).cause = cause := by
  unfold raisedAt
  cases cause.location <;> rfl

open Machine in
/-- What each instruction can do, success or failure. -/
theorem Instruction.ends_run {i : Instruction} (hi : i.Literal) {m₀ m : Machine} (h : m₀.Quiet m)
    (hh : m.heap = m₀.heap) :
    Ends m₀.Quiet i.run m fun _ m' => Finishes m₀ i m' := by
  have quiet : ∀ {x : Exec Unit}, i.isSilent = true →
      (Ends m₀.Quiet x m fun _ m' => m₀.Quiet m') →
      Ends m₀.Quiet x m fun _ m' => Finishes m₀ i m' :=
    fun hs hx => hx.mono (fun _ h => h) fun _ _ h => h.finishes hs
  cases i with
  | operate op =>
    refine ends_get.bind ?_
    rintro _ m ⟨rfl, rfl⟩
    exact quiet rfl (ends_operate hi h)
  | loadConstant form index => exact quiet rfl (ends_loadConstant h)
  | store family slot =>
    refine (ends_pop family.pop_pops h).bind ?_
    rintro v m' ⟨h', hheap, hv⟩
    exact ends_store h' (hheap.trans hh) rfl (hheap ▸ hv)
  | increment slot delta => exact ends_increment h hh
  | arrayLoad => exact quiet rfl (ends_arrayLoad h)
  | arrayStore s => exact ends_arrayStore h hh
  | arrayLength => exact quiet rfl (ends_arrayLength h)
  | newArray element => exact quiet rfl (ends_newArray h)
  | newObjectArray index => exact quiet rfl (ends_newObjectArray h)
  | getStatic index => exact quiet rfl (ends_getStatic h)
  | putStatic index => exact ends_putStatic h hh
  | getField index => exact quiet rfl (ends_getField h)
  | putField index => exact ends_putField h hh
  | new index => exact quiet rfl (ends_new h)
  | invoke mode index => exact ends_invoke h hh
  | ret family =>
    cases family with
    | none =>
      refine (ends_ret h).mono (fun _ h => h) fun _ m' hl => ?_
      refine ⟨m, h, .ret hh rfl (fun w hw => ?_) hl⟩
      cases hw
    | some family =>
      refine (ends_pop family.pop_pops h).bind ?_
      rintro v m₁ ⟨h₁, hheap, hv⟩
      refine (ends_ret h₁).mono (fun _ h => h) fun _ m' hl => ?_
      refine ⟨m₁, h₁, .ret (hheap.trans hh) rfl (fun w hw => ?_) hl⟩
      cases hw
      exact hheap ▸ hv

def Frame.Fetches (f : Frame) (i : Instruction) : Prop :=
  ∃ opcode pc, f.method.code[f.pc]? = some opcode ∧
    Instruction.decode opcode f.method.code (f.pc + 1) = .ok i pc

namespace Machine

def fetched (f : Frame) (rest : List Frame) (opcode : UInt8) (next : Nat) (m : Machine) :
    Machine :=
  { m.log (execRecord f opcode) with frames := { f with opPc := f.pc, pc := next } :: rest }

/-- Beside the address of the current frame, fetching may change the console. -/
theorem fetched_eq (f : Frame) (rest : List Frame) (opcode : UInt8) (next : Nat) (m : Machine) :
    ∃ console, m.fetched f rest opcode next =
      { m with frames := { f with opPc := f.pc, pc := next } :: rest, console } := by
  unfold fetched Machine.log
  split
  · exact ⟨_, rfl⟩
  · exact ⟨m.console, rfl⟩

/-- Executing an opcode decodes it and runs the instruction from the address after it. -/
theorem execute_eq {m : Machine} {f : Frame} {rest : List Frame} (hm : m.frames = f :: rest)
    (opcode : UInt8) : execute f opcode m =
      match Instruction.decode opcode f.method.code (f.pc + 1) with
      | .ok i next => i.run (m.fetched f rest opcode next)
      | .error e next => .error (.fault e) (m.fetched f rest opcode next) := by
  have hadvance :
      onFrame (modify Frame.advance) m = .ok () { m with frames := f.advance :: rest } := by
    unfold onFrame
    rw [hm]
    rfl
  have hlog : ∀ g : Frame, { log (execRecord f opcode) { m with frames := f.advance :: rest } with
      frames := g :: rest } = { m.log (execRecord f opcode) with frames := g :: rest } := by
    intro g
    unfold Machine.log
    split <;> rfl
  have hframes : (log (execRecord f opcode) { m with frames := f.advance :: rest }).frames =
      f.advance :: rest := by
    unfold Machine.log
    split <;> rfl
  have hfetch : ∀ m', m'.frames = f.advance :: rest → onFrame (Frame.fetch opcode) m' =
      match Instruction.decode opcode f.method.code (f.pc + 1) with
      | .ok i next => .ok i { m' with frames := { f with opPc := f.pc, pc := next } :: rest }
      | .error e next =>
        .error (.fault e) { m' with frames := { f with opPc := f.pc, pc := next } :: rest } := by
    intro m' hm'
    simp only [onFrame, hm', Frame.fetch, Frame.advance]
    cases Instruction.decode opcode f.method.code (f.pc + 1) with
    | ok i next => rfl
    | error e next => rfl
  unfold execute
  change EStateM.bind (onFrame (modify Frame.advance)) _ m = _
  simp only [EStateM.bind, hadvance]
  change EStateM.bind (onFrame (Frame.fetch opcode)) _ (log (execRecord f opcode) _) = _
  simp only [EStateM.bind, hfetch _ hframes, hlog]
  cases Instruction.decode opcode f.method.code (f.pc + 1) with
  | ok i next => rfl
  | error e next => rfl

theorem ends_execute {m : Machine} {f : Frame} {rest : List Frame} {opcode : UInt8}
    (hm : m.frames = f :: rest) (hop : f.method.code[f.pc]? = some opcode) :
    Ends m.Quiet (execute f opcode) m fun _ m' => ∃ i, f.Fetches i ∧ Finishes m i m' := by
  have hpc : f.pc < f.method.code.size := (Array.getElem?_eq_some_iff.mp hop).1
  have hyields := Instruction.decode_hasOpcode opcode f.method.code (f.pc + 1) hpc
  have hquiet : ∀ next, next ≤ f.method.code.size → m.Quiet (m.fetched f rest opcode next) ∧
      (m.fetched f rest opcode next).heap = m.heap := by
    intro next hnext
    obtain ⟨console, hfetched⟩ := m.fetched_eq f rest opcode next
    rw [hfetched]
    exact ⟨((Quiet.refl m).rearrange hm (Frame.rearranges_pc fun _ => ⟨hpc, hnext⟩)).console
      console, rfl⟩
  unfold Ends
  rw [execute_eq hm]
  cases hdec : Instruction.decode opcode f.method.code (f.pc + 1) with
  | error e next => exact (hquiet next (hyields.of_error hdec)).1
  | ok i next =>
    obtain ⟨hopcode, hnext⟩ := hyields.of_ok hdec
    obtain ⟨h, hheap⟩ := hquiet next hnext
    refine (Instruction.ends_run hopcode.literal h hheap).mono
      (fun _ h => h) fun _ m' hfinishes => ?_
    exact ⟨i, ⟨opcode, next, hop, hdec⟩, hfinishes⟩

/-- A successful step runs the instruction at the address of the current frame. -/
theorem step_ok {m m' : Machine} {f : Frame} {rest : List Frame} (hm : m.frames = f :: rest)
    (h : step m = .ok () m') : ∃ i, f.Fetches i ∧ Finishes m i m' := by
  unfold step at h
  rw [hm] at h
  dsimp only at h
  split at h
  · cases h
  · rename_i opcode hop
    cases hx : execute f opcode m with
    | ok a m₁ =>
      rw [hx] at h
      cases h
      exact (ends_execute hm hop).of_ok hx
    | error e m₁ =>
      rw [hx] at h
      cases h

/-- A step that fails has reported nothing and stored nothing. -/
theorem step_error {m m' : Machine} {e : RunError} (h : step m = .error e m') : m.Quiet m' := by
  unfold step at h
  cases hm : m.frames with
  | nil =>
    rw [hm] at h
    cases h
  | cons f rest =>
    rw [hm] at h
    dsimp only at h
    split at h
    · cases h
      exact .refl m
    · rename_i opcode hop
      cases hx : execute f opcode m with
      | ok a m₁ =>
        rw [hx] at h
        cases h
      | error e m₁ =>
        rw [hx] at h
        cases h
        exact (ends_execute hm hop).of_error hx

/-- The machine after a step of the frame `f` that has changed nothing but this frame. -/
def moved (f : Frame) (opcode : UInt8) (frames : List Frame) (m : Machine) : Machine :=
  { m.log (execRecord f opcode) with frames }

/-- What a step of the frame `f` comes to if its operation comes to the result. -/
def concluded (f : Frame) (opcode : UInt8) (rest : List Frame) (m : Machine) :
    EStateM.Result Fault Frame Unit → EStateM.Result RunError Machine Unit
  | .ok _ f' => .ok () (m.moved f opcode (f' :: rest))
  | .error e f' =>
    .error ⟨some ⟨f.method.fullName, f.pc, some opcode⟩, .fault e⟩ (m.moved f opcode (f' :: rest))

def Faults (m : Machine) (kind : FaultKind) : Prop :=
  ∃ e m' fault, step m = .error e m' ∧ e.cause = .fault fault ∧ fault.kind = kind

section Operations

variable {m : Machine} {f : Frame} {rest : List Frame} {opcode : UInt8} {next : Nat} {e : Fault}

theorem faults_of_concluded {f' : Frame} (h : step m = m.concluded f opcode rest (.error e f')) :
    m.Faults e.kind := ⟨_, _, e, h, rfl, rfl⟩

/-- A step with an operation runs it on the current frame. -/
theorem step_operate {op : Operation} (hm : m.frames = f :: rest)
    (hop : f.method.code[f.pc]? = some opcode)
    (hdec : Instruction.decode opcode f.method.code (f.pc + 1) = .ok (.operate op) next) :
    step m = m.concluded f opcode rest
      (op.run m.settings.legacyBranches { f with opPc := f.pc, pc := next }) := by
  have hsettings : (m.log (execRecord f opcode)).settings = m.settings := by
    unfold Machine.log
    split <;> rfl
  have hrun : Instruction.run (.operate op) (m.fetched f rest opcode next) =
      onFrame (op.run m.settings.legacyBranches) (m.fetched f rest opcode next) := by
    rw [← hsettings]
    rfl
  unfold step
  simp only [hm, hop, execute_eq hm, hdec, hrun]
  simp only [onFrame, fetched]
  cases op.run m.settings.legacyBranches { f with opPc := f.pc, pc := next } with
  | ok _ f' => rfl
  | error e f' => rfl

/-- A step whose instruction cannot be decoded is a fault. -/
theorem step_undecoded (hm : m.frames = f :: rest) (hop : f.method.code[f.pc]? = some opcode)
    (hdec : Instruction.decode opcode f.method.code (f.pc + 1) = .error e next) :
    step m = m.concluded f opcode rest (.error e { f with opPc := f.pc, pc := next }) := by
  unfold step
  simp only [hm, hop, execute_eq hm, hdec]
  rfl

end Operations

end Machine

end ClassTrace
