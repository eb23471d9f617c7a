import ClassTrace.Proofs.Lockstep
import ClassTrace.Proofs.Step

/-!
Errors from outside. What the machine itself finds wrong is a fault; any other error comes from
the library or from what stands behind the console. With a library in which nothing fails on its
own account, a step ends in such an error if and only if its instruction is a print that the
console refuses.
-/
namespace ClassTrace

/-- Nothing in the library fails on its own account. -/
structure Library.Reliable (l : Library) : Prop where
  routine :
    ∀ owner name descriptor error, l.routine? owner name descriptor ≠ some (.failing error)
  maker : ∀ owner error, l.maker? owner ≠ some (.failing error)
  static : ∀ owner name error, l.static? owner name ≠ some (.failing error)

/-- In the default library nothing fails on its own account. -/
theorem Library.default_reliable : Library.default.Reliable where
  routine := by
    intro owner name descriptor error h
    have hno : ∀ p ∈ Library.default.routines, p.2 ≠ .failing error := by simp [Library.default]
    obtain ⟨_, -, hmem⟩ := Library.mem_of_routine? h
    exact hno _ hmem rfl
  maker := by
    intro owner error h
    have hno : ∀ p ∈ Library.default.makers, p.2 ≠ .failing error := by simp [Library.default]
    exact hno _ (mem_of_lookup h) rfl
  static := by
    intro owner name error h
    have hno : ∀ p ∈ Library.default.statics, p.2 ≠ .failing error := by simp [Library.default]
    exact hno _ (mem_of_lookup h) rfl

theorem Library.Reliable.not_failing {l : Library} (hl : l.Reliable)
    {owner name descriptor : Bytes} {routine : Routine}
    (h : l.routine? owner name descriptor = some routine) (error : OutsideError) :
    routine ≠ .failing error := by
  rintro rfl
  exact hl.routine _ _ _ _ h

def Routine.print? (s : PrintStream) (colorEnabled : Bool) (text : Bytes) :
    Routine → Option (ConsoleM Unit)
  | .print => some (s.print colorEnabled text)
  | .println => some (s.println colorEnabled text)
  | _ => none

namespace Machine

variable {α β : Type} {m : Machine} {error : OutsideError}

def Fails (x : Exec α) (m : Machine) (error : OutsideError) : Prop :=
  ∃ m', x m = .error (.outside error) m'

/-- Of two actions one after the other, the first fails from outside or the second does. -/
theorem fails_bind_iff {x : Exec α} {g : α → Exec β} : Fails (x >>= g) m error ↔
    Fails x m error ∨ ∃ a m₁, x m = .ok a m₁ ∧ Fails (g a) m₁ error := by
  unfold Fails
  cases hx : x m with
  | ok a m₁ =>
    rw [bind_of_ok hx]
    simp
  | error e m₁ =>
    rw [bind_of_error hx]
    simp

/-- The action fails with faults only. -/
def Closed (x : Exec α) : Prop := ∀ m error, ¬ Fails x m error

/-- If the first fails with faults only, it is the second. -/
theorem Closed.fails_bind_iff {x : Exec α} {g : α → Exec β} (hx : Closed x) :
    Fails (x >>= g) m error ↔ ∃ a m₁, x m = .ok a m₁ ∧ Fails (g a) m₁ error := by
  rw [Machine.fails_bind_iff]
  exact or_iff_right (hx m error)

/-- What is done last does not matter if it fails with faults only. -/
theorem fails_then_iff {x : Exec α} {g : α → Exec β} (hg : ∀ a, Closed (g a)) :
    Fails (x >>= g) m error ↔ Fails x m error := by
  rw [fails_bind_iff]
  refine or_iff_left ?_
  rintro ⟨a, m₁, -, hfails⟩
  exact hg a m₁ error hfails

/-- The machine is read first. -/
theorem fails_get_iff {g : Machine → Exec β} : Fails (get >>= g) m error ↔ Fails (g m) m error :=
  Iff.rfl

namespace Closed

theorem pure (a : α) : Closed (Pure.pure a) := by
  rintro m error ⟨m', h⟩
  cases h

theorem fault (f : Fault) : Closed (Machine.fault f : Exec α) := by
  rintro m error ⟨m', h⟩
  cases h

theorem fault_bind (f : Fault) {g : α → Exec β} : Closed ((Machine.fault f : Exec α) >>= g) := by
  rintro m error ⟨m', h⟩
  cases h

theorem bind {x : Exec α} {g : α → Exec β} (hx : Closed x) (hg : ∀ a, Closed (g a)) :
    Closed (x >>= g) := by
  intro m error h
  rw [fails_then_iff hg] at h
  exact hx m error h

theorem of_get {g : Machine → Exec β} (hg : ∀ m, Closed (g m)) : Closed (get >>= g) :=
  fun m => hg m m

theorem modify (f : Machine → Machine) : Closed (modify f) := by
  rintro m error ⟨m', h⟩
  cases h

theorem check (x : Except Fault α) : Closed (Machine.check x) := by
  cases x with
  | ok a => exact pure a
  | error f => exact fault f

theorem onFrame (x : FrameM α) : Closed (Machine.onFrame x) := by
  rintro m error ⟨m', h⟩
  unfold Machine.onFrame at h
  split at h
  · cases h
  · split at h
    · cases h
    · cases h

theorem onStack (x : StackM α) : Closed (Machine.onStack x) := by
  rintro m error ⟨m', h⟩
  unfold Machine.onStack at h
  split at h
  · split at h
    · cases h
    · cases h
  · split at h
    · cases h
    · cases h

theorem push (v : Value) : Closed (Machine.push v) := onFrame _

theorem alloc (e : Entry) : Closed (Machine.alloc e) := by
  rintro m error ⟨m', h⟩
  cases h

theorem display (v : Value) : Closed (Machine.display v) := of_get fun _ => pure _

/-- An event is shown with the texts of two values. -/
theorem shown (old v : Value) (e : Bytes → Bytes → Event) :
    Closed (do emit (e (← Machine.display old) (← Machine.display v))) :=
  bind (display old) fun _ => bind (display v) fun _ => modify _

theorem store (slot : Nat) (v : Value) : Closed (Machine.store slot v) := by
  refine bind (onFrame _) fun old => bind (onFrame _) fun _ => bind (onFrame _) fun f => ?_
  exact shown old v fun a b => .assign f.line (f.localName slot) a b []

theorem increment (slot : Nat) (delta : Int32) : Closed (Machine.increment slot delta) := by
  refine bind (onFrame _) fun v => ?_
  split
  · exact store slot _
  · exact fault _

theorem loadConstant (form : ConstantLoad) (index : UInt16) :
    Closed (Machine.loadConstant form index) := by
  refine of_get fun m => bind (check _) fun v => ?_
  dsimp only
  split
  · exact fault_bind _
  · exact push v

theorem popArray : Closed Machine.popArray := by
  refine bind (onStack _) fun v => ?_
  split
  · exact fault _
  · exact of_get fun m => bind (check _) fun p => pure _
  · exact fault _

theorem elementAt (a : ArrayRef) (i : Int32) : Closed (Machine.elementAt a i) := by
  unfold Machine.elementAt
  split
  · exact fault _
  · split
    · exact pure _
    · exact fault _

theorem arrayStore (s : ElementStore) : Closed (Machine.arrayStore s) := by
  refine bind (onStack _) fun v => bind (onStack _) fun i => bind popArray fun a => ?_
  refine bind (elementAt a i) fun old => ?_
  dsimp only
  split
  · exact fault_bind _
  · refine bind (modify _) fun _ => of_get fun m => ?_
    exact shown old _ fun x y => .setElement m.line a.id i.toInt x y []

theorem newArray (element : FieldType) : Closed (Machine.newArray element) := by
  refine bind (onStack _) fun n => ?_
  dsimp only
  split
  · exact fault_bind _
  · exact bind (alloc _) fun v => push v

theorem popObject : Closed Machine.popObject := by
  refine bind (onStack _) fun v => ?_
  split
  · exact fault _
  · exact of_get fun m => bind (check _) fun p => pure _
  · exact fault _

theorem fieldRef (index : UInt16) : Closed (Machine.fieldRef index) := of_get fun _ => check _

theorem getField (index : UInt16) : Closed (Machine.getField index) := by
  refine bind (fieldRef index) fun r => bind popObject fun o => ?_
  split
  · exact push _
  · exact fault _

theorem setField (o : ObjectRef) (name : Bytes) (v : Value) :
    Closed (Machine.setField o name v) := by
  unfold Machine.setField
  split
  · rename_i old _
    refine bind (modify _) fun _ => of_get fun m => ?_
    exact shown old v fun x y => .setField m.line o.id name x y []
  · exact fault _

theorem putField (index : UInt16) : Closed (Machine.putField index) :=
  bind (fieldRef index) fun _ => bind (onStack _) fun v => bind popObject fun o => setField o _ v

theorem putStatic (index : UInt16) : Closed (Machine.putStatic index) := by
  refine bind (fieldRef index) fun r => of_get fun m => ?_
  dsimp only
  split
  · exact fault_bind _
  · exact bind (onStack _) fun v => of_get fun m => bind (check _) fun p => setField _ _ v

theorem receiverEntry (want : EntrySort) (v : Value) : Closed (Machine.receiverEntry want v) := by
  unfold Machine.receiverEntry
  split
  · exact fault _
  · exact of_get fun m => bind (check _) fun e => pure _
  · exact fault _

theorem receiverInt (v : Value) : Closed (Machine.receiverInt v) := by
  refine bind (receiverEntry _ v) fun p => ?_
  split
  · exact pure _
  · exact fault _

theorem receiverMap (v : Value) : Closed (Machine.receiverMap v) := by
  refine bind (receiverEntry _ v) fun p => ?_
  split
  · exact pure _
  · exact fault _

theorem receiverStream (v : Value) : Closed (Machine.receiverStream v) := by
  refine bind (receiverEntry _ v) fun p => ?_
  split
  · exact pure _
  · exact fault _

theorem receiverText (v : Value) : Closed (Machine.receiverText v) := by
  unfold Machine.receiverText
  split
  · exact pure _
  · exact fault _
  · exact fault _

/-- Beside prints and what is made to fail, no routine uses anything outside of the machine. -/
theorem routine {r : Routine} (hfailing : ∀ error, r ≠ .failing error) (hprint : r ≠ .print)
    (hprintln : r ≠ .println) (call : Invocation) : Closed (r.run call) := by
  cases r with
  | print => exact absurd rfl hprint
  | println => exact absurd rfl hprintln
  | failing error => exact absurd rfl (hfailing error)
  | box => exact alloc _
  | unbox => exact bind (receiverInt _) fun _ => pure _
  | stringLength => exact bind (receiverText _) fun _ => pure _
  | stringCharAt =>
    refine bind (receiverText _) fun text => ?_
    dsimp only
    split
    · exact fault _
    · split
      · exact pure _
      · exact fault _
  | mapGet | mapContainsKey => exact bind (receiverMap _) fun p => of_get fun m => pure _
  | mapPut => exact bind (receiverMap _) fun p => of_get fun m => bind (modify _) fun _ => pure _
  | mapSize => exact bind (receiverMap _) fun _ => pure _
  | _ => exact pure _

theorem takeArgs (method : Method) (kind : CallKind) : Closed (Machine.takeArgs method kind) := by
  refine bind (onStack _) fun args => ?_
  split
  · exact modify _
  · refine bind (onStack _) fun receiver => ?_
    split
    · exact fault _
    · exact modify _

theorem enter (method : Method) (kind : CallKind) : Closed (Machine.enter method kind) := by
  intro m error h
  unfold Fails at h
  rw [enter_eq] at h
  split at h
  · exact fault (α := Unit) _ m error h
  · split at h
    · exact fault (α := Unit) _ m error h
    · exact takeArgs method kind m error h

theorem ret (v : Option Value) : Closed (Machine.ret v) := by
  refine of_get fun m => of_get fun m' => ?_
  dsimp only
  split
  · exact fault _
  · exact bind (modify _) fun _ => bind (modify _) fun _ => bind (modify _) fun _ => modify _

theorem invokeOwn (mode : CallMode) (name descriptor : Bytes) :
    Closed (Machine.invokeOwn mode name descriptor) := by
  refine of_get fun m => ?_
  dsimp only
  split
  · exact fault _
  · split
    · exact fault_bind _
    · exact enter _ _

end Closed

section Library

/-- A static of the library is made without a failure. -/
theorem libraryStatic_not_fails (hl : m.library.Reliable) (owner name : Bytes) :
    ¬ Fails (libraryStatic owner name) m error := by
  have hremember (v : Value) : Closed (do
      modify fun m : Machine => { m with statics := (staticKey owner name, v) :: m.statics }
      return v) := .bind (.modify _) fun _ => .pure v
  unfold libraryStatic
  rw [fails_get_iff]
  dsimp only
  split
  · exact Closed.pure _ m error
  · split
    · exact Closed.fault_bind _ m error
    · exact Closed.bind (.alloc _) hremember m error
    · exact Closed.bind (.pure _) hremember m error
    · rename_i hstatic
      exact absurd hstatic (hl.static _ _ _)

/-- Reading a static field fails with faults only. -/
theorem getStatic_not_fails (hl : m.library.Reliable) (index : UInt16) :
    ¬ Fails (getStatic index) m error := by
  unfold getStatic fieldRef
  rw [bind_assoc, fails_get_iff, (Closed.check _).fails_bind_iff]
  rintro ⟨r, m₁, hr, hfails⟩
  obtain rfl : m₁ = m := by
    cases hpool : m.program.pool.fieldRef index with
    | error f =>
      rw [hpool] at hr
      cases hr
    | ok r' =>
      rw [hpool] at hr
      cases hr
      rfl
  rw [fails_get_iff] at hfails
  split at hfails
  · refine Closed.bind (.check _) (fun p => ?_) _ _ hfails
    dsimp only
    split
    · exact .push _
    · exact .fault _
  · rw [fails_then_iff fun v => .push v] at hfails
    exact libraryStatic_not_fails hl _ _ hfails

theorem new_not_fails (hl : m.library.Reliable) (index : UInt16) :
    ¬ Fails (new index) m error := by
  unfold new
  rw [fails_get_iff, (Closed.check _).fails_bind_iff]
  rintro ⟨c, m₁, -, hfails⟩
  split at hfails
  · exact Closed.bind (.alloc _) (fun v => .push v) _ _ hfails
  · split at hfails
    · exact Closed.fault _ _ _ hfails
    · exact Closed.bind (.alloc _) (fun v => .push v) _ _ hfails
    · rename_i hmaker
      exact hl.maker _ _ hmaker

end Library

section Prints

theorem receiverEntry_ref (want : EntrySort) (id : Int) (m : Machine) :
    receiverEntry want (.ref id) m =
    match m.heap.get id with
    | .ok e => .ok (id, e) m
    | .error f => .error (.fault f) m := by
  change (Machine.check (m.heap.get id) >>= fun e => pure (id, e)) m = _
  cases m.heap.get id with
  | ok e => rfl
  | error f => rfl

theorem receiverStream_ok_iff {v : Value} {s : PrintStream} {m₁ : Machine} :
    receiverStream v m = .ok s m₁ ↔ m₁ = m ∧ ∃ id, v = .ref id ∧
    m.heap.get id = .ok (.stream s) := by
  constructor
  · intro h
    cases v with
    | ref id =>
      have hentry := receiverEntry_ref .stream id m
      unfold receiverStream at h
      cases hget : m.heap.get id with
      | error f =>
        rw [hget] at hentry
        rw [bind_of_error hentry] at h
        cases h
      | ok e =>
        rw [hget] at hentry
        rw [bind_of_ok hentry] at h
        cases e with
        | stream s' =>
          cases h
          exact ⟨rfl, id, rfl, hget⟩
        | _ => cases h
    | _ => cases h
  · rintro ⟨rfl, id, rfl, hget⟩
    have hentry := receiverEntry_ref .stream id m₁
    rw [hget] at hentry
    exact bind_of_ok hentry

theorem fails_onConsole_iff {print : ConsoleM Unit} :
    Fails (onConsole print) m error ↔ ∃ console, print m.console = .error error console := by
  unfold Fails onConsole
  cases print m.console with
  | ok _ console => simp
  | error e console => simp

/-- A routine ends in an error from outside if it is a print that is refused. -/
theorem fails_routine_iff {routine : Routine} (hfailing : ∀ error, routine ≠ .failing error)
    {call : Invocation} : Fails (routine.run call) m error ↔
      ∃ id s print console, call.receiver = .ref id ∧ m.heap.get id = .ok (.stream s) ∧
        routine.print? s m.settings.colorEnabled (printText m.heap call) = some print ∧
        print m.console = .error error console := by
  -- The two print routines differ in what they do with the console only.
  have hprints : ∀ print : PrintStream → Machine → ConsoleM Unit,
      Fails (do
        let s ← receiverStream call.receiver
        let m ← get
        onConsole (print s m)
        return Value.null) m error ↔
      ∃ id s console, call.receiver = .ref id ∧ m.heap.get id = .ok (.stream s) ∧
        print s m m.console = .error error console := by
    intro print
    rw [(Closed.receiverStream _).fails_bind_iff]
    constructor
    · rintro ⟨s, m₁, hs, hfails⟩
      obtain ⟨rfl, id, hid, hget⟩ := receiverStream_ok_iff.mp hs
      rw [fails_get_iff, fails_then_iff fun _ => .pure _, fails_onConsole_iff] at hfails
      obtain ⟨console, hconsole⟩ := hfails
      exact ⟨id, s, console, hid, hget, hconsole⟩
    · rintro ⟨id, s, console, hid, hget, hconsole⟩
      refine ⟨s, m, receiverStream_ok_iff.mpr ⟨rfl, id, hid, hget⟩, ?_⟩
      rw [fails_get_iff, fails_then_iff fun _ => .pure _, fails_onConsole_iff]
      exact ⟨console, hconsole⟩
  by_cases hprint : routine = .print
  · subst hprint
    refine (hprints fun s m => s.print m.settings.colorEnabled (printText m.heap call)).trans ?_
    simp [Routine.print?]
  · by_cases hprintln : routine = .println
    · subst hprintln
      refine (hprints fun s m => s.println m.settings.colorEnabled (printText m.heap call)).trans
        ?_
      simp [Routine.print?]
    · refine iff_of_false (Closed.routine hfailing hprint hprintln call m error) ?_
      rintro ⟨id, s, print, console, -, -, hsome, -⟩
      cases routine with
      | print => exact hprint rfl
      | println => exact hprintln rfl
      | _ => cases hsome

def callRoutine (mode : CallMode) (r : MethodRef) (routine : Routine) : Exec Unit := do
  let args ← onStack (Stack.popArgs r.signature.params)
  let receiver ← if mode.isStatic then pure .null else onStack Stack.popReference
  if !mode.isStatic && receiver.isNull then
    fault (.nullReceiver (r.owner.name ++ "." ++ r.nameType.name))
  let v ← routine.run ⟨r.signature, receiver, args⟩
  if !r.signature.isVoid then push v

theorem invokeLibrary_eq_callRoutine (mode : CallMode) (r : MethodRef) (m : Machine) :
    invokeLibrary mode r m =
    if Library.owns r.owner.name then
      match m.library.routine? r.owner.name r.nameType.name r.nameType.descriptor with
      | some routine => callRoutine mode r routine m
      | none =>
        .error (.fault (.unknownMethod r.owner.name r.nameType.name r.nameType.descriptor)) m
    else .error (.fault (.unloadedClass r.owner.name)) m := by
  unfold invokeLibrary
  dsimp only
  cases Library.owns r.owner.name with
  | false => rfl
  | true =>
    have hget : (get : Exec Machine) m = .ok m m := rfl
    rw [if_neg (by decide), if_pos rfl, bind_of_ok hget]
    cases m.library.routine? r.owner.name r.nameType.name r.nameType.descriptor with
    | none => rfl
    | some routine => rfl

theorem onStack_ok_iff {x : StackM α} {f : Frame} {rest : List Frame}
    (hm : m.frames = f :: rest) {a : α} {m₁ : Machine} : onStack x m = .ok a m₁ ↔
      ∃ stack, x f.stack = .ok a stack ∧ m₁ = { m with frames := { f with stack } :: rest } := by
  unfold onStack Frame.onStack
  rw [hm]
  dsimp only
  cases x f.stack with
  | ok a' stack =>
    simp only [EStateM.Result.ok.injEq]
    constructor
    · rintro ⟨rfl, rfl⟩
      exact ⟨stack, ⟨rfl, rfl⟩, rfl⟩
    · rintro ⟨_, ⟨rfl, rfl⟩, rfl⟩
      exact ⟨rfl, rfl⟩
  | error e stack => simp

theorem popReference_ref_iff {id : Int} {s s' : Stack} :
    Stack.popReference s = .ok (.ref id) s' ↔ s = .ref id :: s' := by
  constructor
  · intro h
    exact (Stack.popReference_pops s).of_ok h
  · rintro rfl
    rfl

/-- The call of the library method, made from the frame, gets as far as to print on a stream;
`print` is what it does with the console. -/
inductive CallPrints (m : Machine) (f : Frame) (mode : CallMode) (r : MethodRef) :
    ConsoleM Unit → Prop
  | intro {routine : Routine} {args : List Value} {id : Int} {below : Stack} {s : PrintStream}
      {print : ConsoleM Unit} (hmode : mode.isStatic = false)
      (howns : Library.owns r.owner.name = true)
      (hroutine : m.library.routine? r.owner.name r.nameType.name r.nameType.descriptor =
        some routine)
      (hstack : Stack.popArgs r.signature.params f.stack = .ok args (.ref id :: below))
      (hstream : m.heap.get id = .ok (.stream s))
      (hprint : routine.print? s m.settings.colorEnabled
        (printText m.heap ⟨r.signature, .ref id, args⟩) = some print) :
      CallPrints m f mode r print

/-- A routine fails from outside exactly if it prints and is refused. -/
theorem fails_callRoutine_iff {mode : CallMode} {r : MethodRef} {routine : Routine} {f : Frame}
    {rest : List Frame} (hfailing : ∀ error, routine ≠ .failing error)
    (hm : m.frames = f :: rest) :
    Fails (callRoutine mode r routine) m error ↔ mode.isStatic = false ∧
      ∃ args id below s print console,
        Stack.popArgs r.signature.params f.stack = .ok args (.ref id :: below) ∧
        m.heap.get id = .ok (.stream s) ∧
        routine.print? s m.settings.colorEnabled (printText m.heap ⟨r.signature, .ref id, args⟩) =
          some print ∧
        print m.console = .error error console := by
  have hpush : ∀ v, Closed (if !r.signature.isVoid then push v else pure ()) := by
    intro v
    split
    · exact .push v
    · exact .pure ()
  unfold callRoutine
  rw [(Closed.onStack _).fails_bind_iff]
  cases mode.isStatic with
  | true =>
    refine iff_of_false ?_ (fun h => by cases h.1)
    rintro ⟨args, m₁, -, hfails⟩
    change Fails (routine.run ⟨r.signature, .null, args⟩ >>= _) m₁ error at hfails
    rw [fails_then_iff hpush, fails_routine_iff hfailing] at hfails
    obtain ⟨id, _, _, _, hid, -⟩ := hfails
    cases hid
  | false =>
    constructor
    · rintro ⟨args, m₁, hargs, hfails⟩
      obtain ⟨stack, hstack, rfl⟩ := (onStack_ok_iff hm).mp hargs
      change Fails (onStack Stack.popReference >>= _) _ error at hfails
      rw [(Closed.onStack _).fails_bind_iff] at hfails
      obtain ⟨receiver, m₂, hreceiver, hfails⟩ := hfails
      obtain ⟨below, hbelow, rfl⟩ := (onStack_ok_iff rfl).mp hreceiver
      dsimp only at hfails
      split at hfails
      · exact absurd hfails (Closed.fault_bind _ _ _)
      · rw [fails_then_iff hpush, fails_routine_iff hfailing] at hfails
        obtain ⟨id, s, print, console, rfl, hget, hprint, hconsole⟩ := hfails
        cases popReference_ref_iff.mp hbelow
        exact ⟨rfl, args, id, below, s, print, console, hstack, hget, hprint, hconsole⟩
    · rintro ⟨-, args, id, below, s, print, console, hstack, hget, hprint, hconsole⟩
      refine ⟨args, _, (onStack_ok_iff hm).mpr ⟨_, hstack, rfl⟩, ?_⟩
      change Fails (onStack Stack.popReference >>= _) _ error
      rw [(Closed.onStack _).fails_bind_iff]
      refine ⟨.ref id, _, (onStack_ok_iff rfl).mpr ⟨below, rfl, rfl⟩, ?_⟩
      change Fails (routine.run ⟨r.signature, .ref id, args⟩ >>= _) _ error
      rw [fails_then_iff hpush, fails_routine_iff hfailing]
      exact ⟨id, s, print, console, rfl, hget, hprint, hconsole⟩

/-- A library call fails from outside exactly if it comes to a refused print. -/
theorem fails_invokeLibrary_iff {mode : CallMode} {r : MethodRef} {f : Frame} {rest : List Frame}
    (hl : m.library.Reliable) (hm : m.frames = f :: rest) : Fails (invokeLibrary mode r) m error ↔
      ∃ print console, m.CallPrints f mode r print ∧ print m.console = .error error console := by
  unfold Fails
  rw [invokeLibrary_eq_callRoutine]
  constructor
  · rintro ⟨m', h⟩
    split at h
    · rename_i howns
      split at h
      · rename_i routine hroutine
        obtain ⟨hmode, args, id, below, s, print, console, hstack, hget, hprint, hconsole⟩ :=
          (fails_callRoutine_iff (hl.not_failing hroutine) hm).mp ⟨m', h⟩
        exact ⟨print, console, ⟨hmode, howns, hroutine, hstack, hget, hprint⟩, hconsole⟩
      · cases h
    · cases h
  · rintro ⟨print, console, ⟨hmode, howns, hroutine, hstack, hget, hprint⟩, hconsole⟩
    rw [if_pos howns, hroutine]
    exact (fails_callRoutine_iff (hl.not_failing hroutine) hm).mpr
      ⟨hmode, _, _, _, _, _, _, hstack, hget, hprint, hconsole⟩

/-- So does a call of any method, since those of the class cannot. -/
theorem fails_invoke_iff {mode : CallMode} {index : UInt16} {f : Frame} {rest : List Frame}
    (hl : m.library.Reliable) (hm : m.frames = f :: rest) : Fails (invoke mode index) m error ↔
      ∃ r print console, m.program.pool.methodRef index = .ok r ∧ r.owner.name ≠ m.program.name ∧
        m.CallPrints f mode r print ∧ print m.console = .error error console := by
  unfold invoke
  rw [fails_get_iff]
  dsimp only
  cases hr : m.program.pool.methodRef index with
  | error e =>
    exact iff_of_false (Closed.fault_bind _ m error) (fun ⟨_, _, _, h, _⟩ => by cases h)
  | ok r =>
    change Fails (if r.owner.name = m.program.name then _ else _) m error ↔ _
    split
    · rename_i hown
      refine iff_of_false (Closed.invokeOwn _ _ _ m error) ?_
      rintro ⟨r', _, _, heq, hforeign, -⟩
      cases heq
      exact hforeign hown
    · rename_i hforeign
      rw [fails_invokeLibrary_iff hl hm]
      constructor
      · rintro ⟨print, console, h⟩
        exact ⟨r, print, console, rfl, hforeign, h⟩
      · rintro ⟨r', print, console, heq, -, h⟩
        cases heq
        exact ⟨print, console, h⟩

/-- Only calls can end in an error from outside. -/
theorem instruction_not_fails {i : Instruction} (hl : m.library.Reliable)
    (hi : ∀ mode index, i ≠ .invoke mode index) : ¬ Fails i.run m error := by
  cases i with
  | invoke mode index => exact absurd rfl (hi mode index)
  | getStatic index => exact getStatic_not_fails hl index
  | new index => exact new_not_fails hl index
  | operate op => exact Closed.of_get (fun _ => .onFrame _) m error
  | loadConstant form index => exact Closed.loadConstant form index m error
  | store family slot => exact Closed.bind (.onStack _) (fun v => .store slot v) m error
  | increment slot delta => exact Closed.increment slot delta m error
  | arrayLoad =>
    exact Closed.bind (.onStack _)
      (fun i => .bind .popArray fun a => .bind (.elementAt a i) fun _ => .push _) m error
  | arrayStore s => exact Closed.arrayStore s m error
  | arrayLength => exact Closed.bind .popArray (fun _ => .push _) m error
  | newArray element => exact Closed.newArray element m error
  | newObjectArray index =>
    exact Closed.of_get (fun _ => .bind (.check _) fun c => .newArray _) m error
  | putStatic index => exact Closed.putStatic index m error
  | getField index => exact Closed.getField index m error
  | putField index => exact Closed.putField index m error
  | ret family =>
    cases family with
    | none => exact Closed.ret none m error
    | some family => exact Closed.bind (.onStack _) (fun v => .ret (some v)) m error

inductive Prints (m : Machine) : ConsoleM Unit → Prop
  | intro {f : Frame} {rest : List Frame} {mode : CallMode} {index : UInt16} {r : MethodRef}
      {print : ConsoleM Unit} (hm : m.frames = f :: rest) (hi : f.Fetches (.invoke mode index))
      (hr : m.program.pool.methodRef index = .ok r) (hforeign : r.owner.name ≠ m.program.name)
      (h : m.CallPrints f mode r print) : Prints m print

/-- The next instruction is a print, and it is refused with the error. -/
def RefusesPrint (m : Machine) (error : OutsideError) : Prop :=
  ∃ print console, m.Prints print ∧ print m.console = .error error console

/-- A print is refused or not by what stands behind the console; what was shown before has no
influence. -/
theorem CallPrints.refused_iff {f : Frame} {mode : CallMode} {r : MethodRef}
    {print : ConsoleM Unit} (h : m.CallPrints f mode r print) {c d : Console}
    (hcd : c.SameWriters d) {e : OutsideError} :
    (∃ c', print c = .error e c') ↔ ∃ d', print d = .error e d' := by
  have hfollows : Follows Console.SameWriters (fun _ => False) Eq print print := by
    obtain ⟨-, -, -, -, -, hprint⟩ := h
    unfold Routine.print? at hprint
    split at hprint
    · cases hprint
      exact Console.respected_sameWriters.print _ _ _
    · cases hprint
      exact Console.respected_sameWriters.println _ _ _
    · cases hprint
  have hends := hfollows c d hcd
  generalize print c = x at hends
  generalize print d = y at hends
  cases hends with
  | ok | error => simp
  | excused hf => exact hf.elim

theorem fetched_sameWriters (f : Frame) (rest : List Frame) (opcode : UInt8) (next : Nat)
    (m : Machine) :
    m.console.SameWriters (m.fetched f rest opcode next).console := by
  unfold fetched Machine.log
  split
  · exact (Console.sameTexts_log _ _).toSameWriters
  · exact ⟨rfl, rfl⟩

/-- An instruction that was fetched ends in an error from outside if it is a print that is
refused. -/
theorem fails_fetched_iff {i : Instruction} {f : Frame} {rest : List Frame} {opcode : UInt8}
    {next : Nat} (hl : m.library.Reliable) (hm : m.frames = f :: rest)
    (hop : f.method.code[f.pc]? = some opcode)
    (hdec : Instruction.decode opcode f.method.code (f.pc + 1) = .ok i next) :
    Fails i.run (m.fetched f rest opcode next) error ↔ m.RefusesPrint error := by
  unfold RefusesPrint
  have hfetch : ∀ {j}, f.Fetches j → j = i := by
    rintro j ⟨opcode', next', hop', hdec'⟩
    cases hop.symm.trans hop'
    cases hdec.symm.trans hdec'
    rfl
  have hwriters := fetched_sameWriters f rest opcode next m
  obtain ⟨console', hfetched⟩ := m.fetched_eq f rest opcode next
  rw [hfetched] at hwriters ⊢
  have hl' : { m with
      frames := { f with opPc := f.pc, pc := next } :: rest
      console := console' }.library.Reliable := hl
  have hcalls : ∀ {mode r print}, CallPrints { m with
      frames := { f with opPc := f.pc, pc := next } :: rest, console := console' }
        { f with opPc := f.pc, pc := next } mode r print ↔ m.CallPrints f mode r print :=
    ⟨fun ⟨h₁, h₂, h₃, h₄, h₅, h₆⟩ => ⟨h₁, h₂, h₃, h₄, h₅, h₆⟩,
      fun ⟨h₁, h₂, h₃, h₄, h₅, h₆⟩ => ⟨h₁, h₂, h₃, h₄, h₅, h₆⟩⟩
  by_cases hi : ∃ mode index, i = .invoke mode index
  · obtain ⟨mode, index, rfl⟩ := hi
    change Fails (invoke mode index) _ error ↔ _
    rw [fails_invoke_iff hl' rfl]
    constructor
    · rintro ⟨r, print, console, hr, hforeign, hcall, hconsole⟩
      have hcall' := hcalls.mp hcall
      obtain ⟨console, hconsole⟩ := (hcall'.refused_iff hwriters).mpr ⟨console, hconsole⟩
      exact ⟨print, console, ⟨hm, ⟨opcode, next, hop, hdec⟩, hr, hforeign, hcall'⟩, hconsole⟩
    · rintro ⟨print, console, ⟨hm', hi', hr, hforeign, hcall⟩, hconsole⟩
      cases hm.symm.trans hm'
      cases hfetch hi'
      obtain ⟨console, hconsole⟩ := (hcall.refused_iff hwriters).mp ⟨console, hconsole⟩
      exact ⟨_, print, console, hr, hforeign, hcalls.mpr hcall, hconsole⟩
  · refine iff_of_false (instruction_not_fails hl' fun mode index heq => hi ⟨mode, index, heq⟩) ?_
    rintro ⟨print, console, ⟨hm', hi', -⟩, -⟩
    cases hm.symm.trans hm'
    exact hi ⟨_, _, (hfetch hi').symm⟩

/-- A step ends in an error from outside if and only if its instruction is a print that is
refused. -/
theorem step_outside_iff (hl : m.library.Reliable) :
    (∃ e m', step m = .error e m' ∧ e.cause = .outside error) ↔ m.RefusesPrint error := by
  unfold step
  cases hm : m.frames with
  | nil =>
    refine iff_of_false (fun ⟨_, _, h, _⟩ => by cases h) ?_
    rintro ⟨_, _, ⟨hm', -⟩, -⟩
    cases hm.symm.trans hm'
  | cons f rest =>
    dsimp only
    cases hop : f.method.code[f.pc]? with
    | none =>
      refine iff_of_false ?_ ?_
      · rintro ⟨_, _, h, hcause⟩
        cases h
        cases hcause
      · rintro ⟨_, _, ⟨hm', ⟨opcode, _, hop', _⟩, -⟩, -⟩
        cases hm.symm.trans hm'
        cases hop.symm.trans hop'
    | some opcode =>
      dsimp only
      rw [execute_eq hm]
      cases hdec : Instruction.decode opcode f.method.code (f.pc + 1) with
      | error e next =>
        refine iff_of_false ?_ ?_
        · rintro ⟨_, _, h, hcause⟩
          cases h
          cases hcause
        · rintro ⟨_, _, ⟨hm', ⟨opcode', _, hop', hdec'⟩, -⟩, -⟩
          cases hm.symm.trans hm'
          cases hop.symm.trans hop'
          cases hdec.symm.trans hdec'
      | ok i next =>
        rw [← fails_fetched_iff hl hm hop hdec]
        unfold Fails
        dsimp only
        cases i.run (m.fetched f rest opcode next) with
        | ok _ m' => simp
        | error e m' => simp

end Prints

end Machine

end ClassTrace
