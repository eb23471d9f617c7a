import ClassTrace.Proofs.Step
import ClassTrace.Proofs.Variation
import Mathlib.Data.List.Forall2

/-!
Machines in lockstep. Two machines that differ as a variation allows do the same, step by step,
until the first fails with a fault that is excused. The annotations of methods are looked at in
four places only: a push compares the size of the stack, the entry of a method the depth of calls,
and stores, calls and returns look up what their events tell. The mode of branches is looked at by
comparisons with zero only.
-/
namespace ClassTrace

namespace Machine

def callRecord (f : Frame) (kind : CallKind) (shown : List Bytes) (depth : Nat) : LogRecord :=
  ⟨.debug, [("method", .text f.method.fullName), ("kind", .text kind.name),
    ("depth", .number depth), ("return_pc", .number (shownReturn f)),
    ("args", .texts shown)], "call"⟩

def placed (f : Frame) (kind : CallKind) (args : List Value) (m : Machine) : Machine :=
  let f := { f.setArgs args with returnPc := resumeAt m }
  let shown := args.map m.heap.display
  let called := report (.event (.call m.line f.method.name kind.name shown))
    { m with frames := f :: m.frames }
  called.log (callRecord f kind shown called.frames.length)

def takeArgs (method : Method) (kind : CallKind) : Exec Unit := do
  let args ← onStack (Stack.popArgs method.signature.params)
  if method.isStatic then modify (placed (Frame.fresh method) kind args)
  else
    let receiver ← onStack Stack.popReference
    if receiver.isNull then fault (.nullReceiver method.fullName)
    else modify (placed ((Frame.fresh method).setReceiver receiver) kind args)

/-- Entering a method needs code, then depth, and then arguments. -/
theorem enter_eq (method : Method) (kind : CallKind) (m : Machine) : enter method kind m =
    if !method.hasCode then .error (.fault (.noCode method.fullName)) m
    else if m.settings.maxDepth ≤ m.frames.length then
      .error (.fault (.tooDeep m.settings.maxDepth)) m
    else takeArgs method kind m := by
  unfold enter takeArgs
  cases method.hasCode with
  | false => rfl
  | true =>
    change (if m.settings.maxDepth ≤ m.frames.length then (_ : Exec Unit) else _) m =
      if m.settings.maxDepth ≤ m.frames.length then _ else _
    split
    · rfl
    · refine congrFun (?_ : (_ : Exec Unit) = _) m
      refine bind_congr fun args => ?_
      cases method.isStatic with
      | true => rfl
      | false =>
        refine bind_congr fun receiver => ?_
        cases receiver.isNull with
        | true => rfl
        | false => rfl

end Machine

namespace Operation

/-- Only a comparison with zero looks at the mode, and only if the modes have different conditions
for it. -/
theorem run_mode {op : Operation}
    (hop : ∀ condition offset, op = .ifZero condition offset → condition.legacy = condition)
    (legacy legacy' : Bool) : op.run legacy = op.run legacy' := by
  cases op with
  | ifZero condition offset =>
    simp only [run, hop condition offset rfl, ite_self]
  | _ => rfl

/-- In a frame where both modes agree on the comparison, the mode does not count. -/
theorem run_ifZero_mode (legacy : Bool) {condition : Condition} {offset : Int} {f : Frame}
    (hv : ∀ v, f.stack.head? = some (.int v) → condition.legacy.holds v 0 = condition.holds v 0) :
    run legacy (.ifZero condition offset) f = run false (.ifZero condition offset) f := by
  cases legacy with
  | false => rfl
  | true =>
    obtain ⟨method, locals, stack, pc, opPc, returnPc⟩ := f
    cases stack with
    | nil => rfl
    | cons v stack =>
      cases v with
      | int v =>
        change Frame.jumpIf (condition.legacy.holds v 0) offset _ =
          Frame.jumpIf (condition.holds v 0) offset _
        rw [hv v rfl]
      | _ => rfl

end Operation

/-- The instruction at hand does the same in both modes of branches: if it compares an int with
zero, the two conditions that the modes give it come out the same. -/
def Machine.Neutral (m : Machine) : Prop :=
  ∀ f rest condition offset v, m.frames = f :: rest →
    f.Fetches (.operate (.ifZero condition offset)) → f.stack.head? = some (.int v) →
    condition.legacy.holds v 0 = condition.holds v 0

structure Variant where
  methods : List Method
  frames : List Frame
  maxDepth : Int
  legacyBranches : Bool
  document : Document
  console : Console

def Machine.vary (m : Machine) (w : Variant) : Machine :=
  { m with
    program := { m.program with methods := w.methods }
    frames := w.frames
    settings := { m.settings with maxDepth := w.maxDepth, legacyBranches := w.legacyBranches }
    document := w.document
    console := w.console }

namespace Variation

variable (V : Variation) {α β γ : Type}

def Methods (method method' : Method) : Prop :=
  ∃ t, V.annotations method t ∧ method' = method.annotate t

structure Allows (m : Machine) (w : Variant) : Prop where
  methods : List.Forall₂ V.Methods m.program.methods w.methods
  frames : List.Forall₂ V.Frames m.frames w.frames
  depth : V.depth m.settings.maxDepth w.maxDepth
  branches : V.branches m.settings.legacyBranches w.legacyBranches
  document : V.document m.document w.document
  console : V.console m.console w.console

/-- The second machine differs from the first as the variation allows. -/
def Machines (m m' : Machine) : Prop := ∃ w, V.Allows m w ∧ m' = m.vary w

def Causes : Cause → Prop
  | .fault f => V.excused f
  | .outside _ => False

def OneMode : Prop := ∀ legacy legacy', V.branches legacy legacy' ↔ legacy' = legacy

/-- The action does not notice the variation. -/
def Same (x : Exec α) : Prop := Follows V.Machines V.Causes Eq x x

variable {V}

namespace Machines

variable {m m' : Machine}

theorem frames (h : V.Machines m m') : List.Forall₂ V.Frames m.frames m'.frames := by
  obtain ⟨w, hw, rfl⟩ := h
  exact hw.frames

theorem depth (h : V.Machines m m') : V.depth m.settings.maxDepth m'.settings.maxDepth := by
  obtain ⟨w, hw, rfl⟩ := h
  exact hw.depth

theorem branches (h : V.Machines m m') :
    V.branches m.settings.legacyBranches m'.settings.legacyBranches := by
  obtain ⟨w, hw, rfl⟩ := h
  exact hw.branches

theorem console (h : V.Machines m m') : V.console m.console m'.console := by
  obtain ⟨w, hw, rfl⟩ := h
  exact hw.console

theorem heap_eq (h : V.Machines m m') : m'.heap = m.heap := by
  obtain ⟨w, -, rfl⟩ := h
  rfl

theorem host_eq (h : V.Machines m m') : m'.host = m.host := by
  obtain ⟨w, -, rfl⟩ := h
  rfl

theorem length_frames (h : V.Machines m m') : m'.frames.length = m.frames.length :=
  h.frames.length_eq.symm

theorem resumeAt (h : V.Machines m m') : Machine.resumeAt m' = Machine.resumeAt m := by
  have hframes := h.frames
  unfold Machine.resumeAt
  generalize m.frames = fs at hframes
  generalize m'.frames = fs' at hframes
  cases hframes with
  | nil => rfl
  | cons hf _ =>
    obtain ⟨t, _, rfl⟩ := hf
    rfl

/-- An event at the lines of the current instructions. -/
theorem event_line (h : V.Machines m m') (e : Event) :
    V.event (e.atLine m.line) (e.atLine m'.line) := by
  have hframes := h.frames
  unfold Machine.line
  generalize m.frames = fs at hframes
  generalize m'.frames = fs' at hframes
  cases hframes with
  | nil => exact V.event_refl _
  | cons hf _ =>
    obtain ⟨t, ht, rfl⟩ := hf
    exact V.event_line _ t _ e ht

theorem setFrames (h : V.Machines m m') {frames frames' : List Frame}
    (hframes : List.Forall₂ V.Frames frames frames') :
    V.Machines { m with frames } { m' with frames := frames' } := by
  obtain ⟨w, hw, rfl⟩ := h
  exact ⟨{ w with frames := frames' },
    ⟨hw.methods, hframes, hw.depth, hw.branches, hw.document, hw.console⟩, rfl⟩

theorem setConsole (h : V.Machines m m') {console console' : Console}
    (hconsole : V.console console console') :
    V.Machines { m with console } { m' with console := console' } := by
  obtain ⟨w, hw, rfl⟩ := h
  exact ⟨{ w with console := console' },
    ⟨hw.methods, hw.frames, hw.depth, hw.branches, hw.document, hconsole⟩, rfl⟩

theorem setHost (h : V.Machines m m') (host : Stack) :
    V.Machines { m with host } { m' with host } := by
  obtain ⟨w, hw, rfl⟩ := h
  exact ⟨w, ⟨hw.methods, hw.frames, hw.depth, hw.branches, hw.document, hw.console⟩, rfl⟩

theorem setHeap (h : V.Machines m m') (f : Heap → Heap) :
    V.Machines { m with heap := f m.heap } { m' with heap := f m'.heap } := by
  obtain ⟨w, hw, rfl⟩ := h
  exact ⟨w, ⟨hw.methods, hw.frames, hw.depth, hw.branches, hw.document, hw.console⟩, rfl⟩

theorem log (h : V.Machines m m') (r : LogRecord) : V.Machines (m.log r) (m'.log r) := by
  have hlogged := h.setConsole (V.log _ _ r h.console)
  obtain ⟨w, hw, rfl⟩ := h
  unfold Machine.log
  change V.Machines _ (if m.settings.logThreshold.admits r.severity then _ else _)
  split
  · exact hlogged
  · exact ⟨w, hw, rfl⟩

theorem report (h : V.Machines m m') {e e' : Event} (he : V.event e e') :
    V.Machines (m.report (.event e)) (m'.report (.event e')) := by
  obtain ⟨w, hw, rfl⟩ := h
  rw [Machine.report_eq, Machine.report_eq]
  refine ⟨{ w with
    document := if m.settings.recording then w.document.record (.event e') else w.document
    console :=
      if m.settings.loggingReports then w.console.add (.log e'.logRecord) else w.console },
    ⟨hw.methods, hw.frames, hw.depth, hw.branches, ?_, ?_⟩, rfl⟩
  · dsimp only
    split
    · exact V.record _ _ _ _ hw.document he
    · exact hw.document
  · dsimp only
    split
    · exact V.logEvent _ _ _ _ hw.console he
    · exact hw.console

theorem log_depth (h : V.Machines m m') (r : Nat → LogRecord) :
    V.Machines (m.log (r m.frames.length)) (m'.log (r m'.frames.length)) := by
  rw [h.length_frames]
  exact h.log _

theorem placed (h : V.Machines m m') {f g : Frame} (hfg : V.Frames f g) (kind : CallKind)
    (args : List Value) :
    V.Machines (Machine.placed f kind args m) (Machine.placed g kind args m') := by
  obtain ⟨t, ht, rfl⟩ := hfg
  have hnew : V.Frames { f.setArgs args with returnPc := Machine.resumeAt m }
      { (f.annotate t).setArgs args with returnPc := Machine.resumeAt m } := ⟨t, ht, rfl⟩
  have hcalled := (h.setFrames (.cons hnew h.frames)).report
    (h.event_line (.call 0 f.method.name kind.name (args.map m.heap.display)))
  have hresume := h.resumeAt
  obtain ⟨w, hw, rfl⟩ := h
  unfold Machine.placed
  dsimp only
  rw [hresume]
  exact hcalled.log_depth (Machine.callRecord
    { f.setArgs args with returnPc := Machine.resumeAt m } kind (args.map m.heap.display))

end Machines

/-- An action on the current frame, when the two machines may get different results from it. -/
theorem follows_onFrame {Q : α → β → Prop} {x : FrameM α} {y : FrameM β}
    (hxy : Follows V.Frames V.excused Q x y) :
    Follows V.Machines V.Causes Q (Machine.onFrame x) (Machine.onFrame y) := by
  intro m m' h
  have hframes := h.frames
  unfold Machine.onFrame
  generalize m.frames = fs at hframes
  generalize m'.frames = fs' at hframes
  cases hframes with
  | nil => exact .error h
  | cons hf hrest =>
    rename_i f g rest rest'
    have hresult := hxy f g hf
    dsimp only
    generalize x f = r at hresult
    generalize y g = r' at hresult
    cases hresult with
    | ok hab hf' => exact .ok hab (h.setFrames (.cons hf' hrest))
    | error hf' => exact .error (h.setFrames (.cons hf' hrest))
    | excused he => exact .excused he

theorem getLast?_methods {methods methods' : List Method}
    (h : List.Forall₂ V.Methods methods methods') :
    Option.Rel V.Methods methods.getLast? methods'.getLast? := by
  induction h with
  | nil => exact .none
  | @cons _ _ rest rest' hmethod _ ih =>
    rw [List.getLast?_cons, List.getLast?_cons]
    generalize rest.getLast? = last at ih
    generalize rest'.getLast? = last' at ih
    cases ih with
    | none => exact .some hmethod
    | some hlast => exact .some hlast

/-- A method is found under its name and descriptor whatever its annotations. -/
theorem method?_methods {program : Class} {methods : List Method}
    (h : List.Forall₂ V.Methods program.methods methods) (name descriptor : Bytes) :
    Option.Rel V.Methods (program.method? name descriptor)
      (Class.method? { program with methods } name descriptor) := by
  refine getLast?_methods (List.rel_filter ?_ h)
  intro a b hab
  obtain ⟨t, _, rfl⟩ := hab
  exact Iff.rfl

namespace Same

theorem pure (a : α) : V.Same (Pure.pure a) := Follows.of_pure rfl

theorem throw (c : Cause) : V.Same (MonadExcept.throw c : Exec α) := Follows.of_throw c

theorem fault (f : Fault) : V.Same (Machine.fault f : Exec α) := throw (.fault f)

theorem bind {x : Exec α} {f : α → Exec β} (hx : V.Same x) (hf : ∀ a, V.Same (f a)) :
    V.Same (x >>= f) := by
  refine Follows.bind hx ?_
  intro a b hab
  subst hab
  exact hf a

theorem fault_bind (f : Fault) {g : α → Exec β} : V.Same ((Machine.fault f : Exec α) >>= g) :=
  Follows.of_throw_bind (Cause.fault f)

/-- The machine is read, for something that does not vary. -/
theorem of_get {f : Machine → Exec β} (hf : ∀ m, V.Same (f m))
    (hsame : ∀ m w, f (m.vary w) = f m) :
    V.Same (get >>= f) := by
  refine Follows.bind Follows.of_get ?_
  intro m m' h
  obtain ⟨w, -, rfl⟩ := h
  rw [hsame]
  exact hf m

theorem of_modify {f : Machine → Machine}
    (hf : ∀ m m', V.Machines m m' → V.Machines (f m) (f m')) :
    V.Same (modify f) := Follows.of_modify hf

theorem check (x : Except Fault α) : V.Same (Machine.check x) := by
  cases x with
  | ok a => exact pure a
  | error f => exact fault f

theorem onFrame {x : FrameM α} (hx : V.Framed x) : V.Same (Machine.onFrame x) :=
  follows_onFrame hx

theorem onStack (x : StackM α) : V.Same (Machine.onStack x) := by
  intro m m' h
  have hframed := onFrame (Framed.onStack x) m m' h
  have hframes := h.frames
  unfold Machine.onFrame at hframed
  unfold Machine.onStack
  generalize m.frames = fs at hframes hframed
  generalize m'.frames = fs' at hframes hframed
  cases hframes with
  | nil =>
    dsimp only
    rw [h.host_eq]
    cases x m.host with
    | ok a host => exact .ok rfl ((h.setHost host).setFrames .nil)
    | error e host => exact .error ((h.setHost host).setFrames .nil)
  | cons hf hrest => exact hframed

theorem push (v : Value) : V.Same (Machine.push v) := onFrame (Framed.push v)

theorem alloc (e : Entry) : V.Same (Machine.alloc e) := by
  intro m m' h
  have hheap := h.setHeap (·.alloc e)
  obtain ⟨w, hw, rfl⟩ := h
  exact .ok rfl hheap

theorem emit {e e' : Event} (he : V.event e e') :
    Follows V.Machines V.Causes Eq (Machine.emit e) (Machine.emit e') :=
  Follows.of_modify fun _ _ h => h.report he

theorem display (v : Value) : V.Same (Machine.display v) := by
  refine of_get (fun m => pure _) fun _ _ => rfl

/-- What is done with the texts of two values. -/
theorem shown (old v : Value) {x y : Bytes → Bytes → Exec Unit}
    (hxy : ∀ a b, Follows V.Machines V.Causes Eq (x a b) (y a b)) :
    Follows V.Machines V.Causes Eq (do x (← Machine.display old) (← Machine.display v))
      (do y (← Machine.display old) (← Machine.display v)) := by
  refine Follows.bind (display old) ?_
  rintro a _ rfl
  refine Follows.bind (display v) ?_
  rintro b _ rfl
  exact hxy a b

theorem setHeap (f : Heap → Heap) : V.Same (modify fun m => { m with heap := f m.heap }) := by
  exact of_modify fun m m' h => h.setHeap f

section Memory

theorem store (slot : Nat) (v : Value) : V.Same (Machine.store slot v) := by
  refine bind (onFrame (Framed.getLocal slot)) fun old => ?_
  refine bind (onFrame (Framed.setLocal slot v)) fun _ => ?_
  refine Follows.bind (follows_onFrame Follows.of_get) ?_
  intro f g hfg
  obtain ⟨t, ht, rfl⟩ := hfg
  exact shown old v fun a b => emit (V.event_assign f t slot a b ht)

theorem increment (slot : Nat) (delta : Int32) : V.Same (Machine.increment slot delta) := by
  refine bind (onFrame (Framed.getLocal slot)) fun v => ?_
  split
  · exact store slot _
  · exact fault _

theorem loadConstant (form : ConstantLoad) (index : UInt16) :
    V.Same (Machine.loadConstant form index) := by
  refine of_get (fun m => bind (check _) fun v => ?_) ?_
  · dsimp only
    split
    · exact fault_bind _
    · exact push v
  · exact fun _ _ => rfl

theorem popArray : V.Same Machine.popArray := by
  refine bind (onStack _) fun v => ?_
  split
  · exact fault _
  · refine of_get (fun m => bind (check _) fun p => pure _) fun _ _ => rfl
  · exact fault _

theorem elementAt (a : Machine.ArrayRef) (i : Int32) : V.Same (Machine.elementAt a i) := by
  unfold Machine.elementAt
  split
  · exact fault _
  · split
    · exact pure _
    · exact fault _

theorem arrayLoad : V.Same Machine.arrayLoad :=
  bind (onStack _) fun i => bind popArray fun a => bind (elementAt a i) fun _ => push _

theorem arrayLength : V.Same Machine.arrayLength := bind popArray fun _ => push _

/-- The line of the current instruction is shown in an event. -/
theorem emit_line (e : Bytes → Bytes → Event) (old v : Value) :
    V.Same (do
      let m ← get
      let shown ← Machine.display old
      let shown' ← Machine.display v
      Machine.emit ((e shown shown').atLine m.line)) := by
  refine Follows.bind Follows.of_get ?_
  intro m m' h
  exact shown old v fun a b => emit (h.event_line (e a b))

theorem arrayStore (s : ElementStore) : V.Same (Machine.arrayStore s) := by
  refine bind (onStack _) fun v => bind (onStack _) fun i => bind popArray fun a => ?_
  refine bind (elementAt a i) fun old => ?_
  dsimp only
  split
  · exact fault_bind _
  · exact bind (setHeap fun h => h.setElement a.id i.toInt.toNat (Machine.narrow a.element v s))
        fun _ =>
      emit_line (fun shown shown' => .setElement 0 a.id i.toInt shown shown' []) old _

theorem newArray (element : FieldType) : V.Same (Machine.newArray element) := by
  refine bind (onStack _) fun n => ?_
  dsimp only
  split
  · exact fault_bind _
  · exact bind (alloc _) fun v => push v

theorem newObjectArray (index : UInt16) : V.Same (Machine.newObjectArray index) := by
  refine of_get (fun m => bind (check _) fun c => newArray _) fun _ _ => rfl

theorem popObject : V.Same Machine.popObject := by
  refine bind (onStack _) fun v => ?_
  split
  · exact fault _
  · refine of_get (fun m => bind (check _) fun p => pure _) fun _ _ => rfl
  · exact fault _

theorem fieldRef (index : UInt16) : V.Same (Machine.fieldRef index) := by
  refine of_get (fun m => check _) fun _ _ => rfl

theorem getField (index : UInt16) : V.Same (Machine.getField index) := by
  refine bind (fieldRef index) fun r => bind popObject fun o => ?_
  split
  · exact push _
  · exact fault _

theorem setField (o : Machine.ObjectRef) (name : Bytes) (v : Value) :
    V.Same (Machine.setField o name v) := by
  unfold Machine.setField
  split
  · rename_i old _
    exact bind (setHeap fun h => h.setField o.id name v) fun _ =>
      emit_line (fun shown shown' => .setField 0 o.id name shown shown' []) old v
  · exact fault _

theorem putField (index : UInt16) : V.Same (Machine.putField index) :=
  bind (fieldRef index) fun _ => bind (onStack _) fun v => bind popObject fun o => setField o _ v

theorem libraryStatic (owner name : Bytes) : V.Same (Machine.libraryStatic owner name) := by
  have hremember (v : Value) : V.Same (do
      modify fun m : Machine => { m with statics := (staticKey owner name, v) :: m.statics }
      return v) := by
    refine bind (of_modify ?_) fun _ => pure v
    intro m m' h
    obtain ⟨w, hw, rfl⟩ := h
    exact ⟨w, ⟨hw.methods, hw.frames, hw.depth, hw.branches, hw.document, hw.console⟩, rfl⟩
  refine of_get (fun m => ?_) ?_
  · split
    · exact pure _
    · dsimp only
      split
      · exact fault_bind _
      · exact bind (alloc _) hremember
      · exact bind (pure _) hremember
      · exact bind (throw _) hremember
  · exact fun _ _ => rfl

theorem getStatic (index : UInt16) : V.Same (Machine.getStatic index) := by
  refine bind (fieldRef index) fun r => of_get (fun m => ?_) ?_
  · split
    · refine bind (check _) fun p => ?_
      dsimp only
      split
      · exact push _
      · exact fault _
    · exact bind (libraryStatic _ _) fun v => push v
  · exact fun _ _ => rfl

theorem putStatic (index : UInt16) : V.Same (Machine.putStatic index) := by
  refine bind (fieldRef index) fun r => of_get (fun m => ?_) ?_
  · dsimp only
    split
    · exact fault_bind _
    · refine bind (onStack _) fun v =>
        of_get (fun m => bind (check _) fun p => setField _ _ v) fun _ _ => rfl
  · exact fun _ _ => rfl

theorem new (index : UInt16) : V.Same (Machine.new index) := by
  refine of_get (fun m => bind (check _) fun c => ?_) ?_
  · split
    · exact bind (alloc _) fun v => push v
    · split
      · exact fault _
      · exact bind (alloc _) fun v => push v
      · exact throw _
  · exact fun _ _ => rfl

end Memory

section Calls

theorem receiverEntry (want : EntrySort) (v : Value) : V.Same (Machine.receiverEntry want v) := by
  unfold Machine.receiverEntry
  split
  · exact fault _
  · refine of_get (fun m => bind (check _) fun e => pure _) fun _ _ => rfl
  · exact fault _

theorem receiverInt (v : Value) : V.Same (Machine.receiverInt v) := by
  refine bind (receiverEntry _ v) fun p => ?_
  split
  · exact pure _
  · exact fault _

theorem receiverMap (v : Value) : V.Same (Machine.receiverMap v) := by
  refine bind (receiverEntry _ v) fun p => ?_
  split
  · exact pure _
  · exact fault _

theorem receiverStream (v : Value) : V.Same (Machine.receiverStream v) := by
  refine bind (receiverEntry _ v) fun p => ?_
  split
  · exact pure _
  · exact fault _

theorem receiverText (v : Value) : V.Same (Machine.receiverText v) := by
  unfold Machine.receiverText
  split
  · exact pure _
  · exact fault _
  · exact fault _

theorem onConsole {x : ConsoleM Unit} (hx : Follows V.console (fun _ => False) Eq x x) :
    V.Same (Machine.onConsole x) := by
  intro m m' h
  have hresult := hx _ _ h.console
  unfold Machine.onConsole
  generalize x m.console = r at hresult
  generalize x m'.console = r' at hresult
  cases hresult with
  | ok _ hconsole => exact .ok rfl (h.setConsole hconsole)
  | error hconsole => exact .error (h.setConsole hconsole)
  | excused hf => exact hf.elim

/-- Routines of the library see the heap and the console, and these are the same. -/
theorem routine (r : Routine) (call : Invocation) : V.Same (r.run call) := by
  cases r with
  | print =>
    refine bind (receiverStream _) fun s => of_get (fun m => ?_) fun _ _ => rfl
    exact bind (onConsole (V.writes.print s _ _)) fun _ => pure _
  | println =>
    refine bind (receiverStream _) fun s => of_get (fun m => ?_) fun _ _ => rfl
    exact bind (onConsole (V.writes.println s _ _)) fun _ => pure _
  | box => exact alloc _
  | unbox => exact bind (receiverInt _) fun _ => pure _
  | stringLength => exact bind (receiverText _) fun _ => pure _
  | stringCharAt =>
    refine bind (receiverText _) fun text => ?_
    dsimp only
    split
    · exact fault _
    · split
      · exact pure _
      · exact fault _
  | mapGet | mapContainsKey =>
    refine bind (receiverMap _) fun p => of_get (fun m => pure _) fun _ _ => rfl
  | mapPut =>
    refine bind (receiverMap _) fun p => of_get (fun m =>
      bind (setHeap fun h => h.setMap p.1 (p.2.put (m.heap.key (call.arg 0)) (call.arg 1)))
          fun _ =>
        pure _) fun _ _ => rfl
  | mapSize => exact bind (receiverMap _) fun _ => pure _
  | failing message => exact throw _
  | _ => exact pure _

theorem takeArgs {method : Method} {t : Annotations} (ht : V.annotations method t)
    (kind : CallKind) :
    Follows V.Machines V.Causes Eq (Machine.takeArgs method kind)
      (Machine.takeArgs (method.annotate t) kind) := by
  have hfresh : V.Frames (Frame.fresh method) (Frame.fresh (method.annotate t)) := ⟨t, ht, rfl⟩
  refine Follows.bind (onStack _) ?_
  intro args _ heq
  subst heq
  cases hstatic : method.isStatic with
  | true =>
    have hstatic' : (method.annotate t).isStatic = true := hstatic
    rw [if_pos rfl, hstatic', if_pos rfl]
    exact Follows.of_modify fun m m' h => h.placed hfresh kind args
  | false =>
    have hstatic' : (method.annotate t).isStatic = false := hstatic
    rw [if_neg Bool.false_ne_true, hstatic', if_neg Bool.false_ne_true]
    refine Follows.bind (onStack _) ?_
    intro receiver _ heq
    subst heq
    split
    · exact fault _
    · refine Follows.of_modify fun m m' h => h.placed ?_ kind args
      exact ⟨t, ht, rfl⟩

/-- A method is entered like one with other annotations. Only the comparison of depths can come
out differently. -/
theorem enter {method : Method} {t : Annotations} (ht : V.annotations method t)
    (kind : CallKind) :
    Follows V.Machines V.Causes Eq (Machine.enter method kind)
      (Machine.enter (method.annotate t) kind) := by
  intro m m' h
  have hcode : (method.annotate t).hasCode = method.hasCode := rfl
  have hname : (method.annotate t).fullName = method.fullName := rfl
  have hdepth : V.depth m.settings.maxDepth m'.settings.maxDepth := h.depth
  rw [Machine.enter_eq, Machine.enter_eq, hcode, hname, h.length_frames]
  split
  · exact .error h
  · rcases V.depth_cases _ _ hdepth with heq | ⟨hle, hexcused⟩
    · rw [heq]
      split
      · exact .error h
      · exact takeArgs ht kind m m' h
    · split
      · exact .excused hexcused
      · have hroom : ¬ m'.settings.maxDepth ≤ m.frames.length := by omega
        rw [if_neg hroom]
        exact takeArgs ht kind m m' h

theorem ret (v : Option Value) : V.Same (Machine.ret v) := by
  refine Follows.bind Follows.of_get ?_
  intro m m' hm
  refine Follows.bind Follows.of_get ?_
  intro m₁ m₁' hm₁
  have hframes := hm₁.frames
  rw [hm.heap_eq]
  generalize m₁.frames = fs at hframes
  generalize m₁'.frames = fs' at hframes
  cases hframes with
  | nil => exact fault _
  | cons hf hrest =>
    obtain ⟨t, ht, rfl⟩ := hf
    dsimp only
    refine Follows.bind (Follows.of_modify fun _ _ h => h.setFrames hrest) fun _ _ _ => ?_
    refine Follows.bind (emit (V.event_line _ t _ (.ret 0 _) ht)) fun _ _ _ => ?_
    refine Follows.bind (Follows.of_modify ?_) fun _ _ _ => ?_
    · intro s s' hs
      cases hrest with
      | nil =>
        obtain ⟨w, hw, rfl⟩ := hs
        exact ⟨w, ⟨hw.methods, hw.frames, hw.depth, hw.branches, hw.document, hw.console⟩, rfl⟩
      | cons hcaller hbelow =>
        obtain ⟨u, hu, rfl⟩ := hcaller
        exact hs.setFrames (.cons ⟨u, hu, rfl⟩ hbelow)
    · refine Follows.of_modify fun s s' hs => ?_
      rw [hs.length_frames]
      exact hs.log _

theorem invokeOwn (mode : CallMode) (name descriptor : Bytes) :
    V.Same (Machine.invokeOwn mode name descriptor) := by
  refine Follows.bind Follows.of_get ?_
  intro m m' h
  obtain ⟨w, hw, rfl⟩ := h
  have hfound := method?_methods hw.methods name descriptor
  dsimp only [Machine.vary]
  generalize m.program.method? name descriptor = found at hfound
  generalize Class.method? _ name descriptor = found' at hfound
  cases hfound with
  | none => exact fault _
  | some hmethod =>
    obtain ⟨t, ht, rfl⟩ := hmethod
    dsimp only [Method.annotate]
    split
    · exact fault_bind _
    · exact enter ht _

theorem invokeLibrary (mode : CallMode) (r : MethodRef) :
    V.Same (Machine.invokeLibrary mode r) := by
  unfold Machine.invokeLibrary
  dsimp only
  split
  · exact fault_bind _
  · refine of_get (fun m => ?_) ?_
    · split
      · exact fault _
      · rename_i found _
        have hrun (receiver : Value) (args : List Value) : V.Same (do
            let v ← found.run ⟨r.signature, receiver, args⟩
            if !r.signature.isVoid then Machine.push v) := by
          refine bind (routine found _) fun v => ?_
          split
          · exact push v
          · exact pure ()
        refine bind (onStack _) fun args => ?_
        split
        · refine bind (pure _) fun receiver => ?_
          split
          · exact fault_bind _
          · exact hrun receiver args
        · refine bind (onStack _) fun receiver => ?_
          split
          · exact fault_bind _
          · exact hrun receiver args
    · exact fun _ _ => rfl

theorem invoke (mode : CallMode) (index : UInt16) : V.Same (Machine.invoke mode index) := by
  refine of_get (fun m => bind (check _) fun r => ?_) ?_
  · split
    · exact invokeOwn mode _ _
    · exact invokeLibrary mode r
  · exact fun _ _ => rfl

/-- An operation notices the mode of branches only if it compares with zero. -/
theorem operate {op : Operation} (hop : V.OneMode ∨
      ∀ condition offset, op = .ifZero condition offset → condition.legacy = condition) :
    V.Same (Instruction.operate op).run := by
  refine Follows.bind Follows.of_get ?_
  intro m m' h
  have hrun : op.run m'.settings.legacyBranches = op.run m.settings.legacyBranches := by
    rcases hop with hone | hne
    · rw [(hone _ _).mp h.branches]
    · exact Operation.run_mode hne _ _
  rw [hrun]
  exact onFrame (Framed.operation _ op)

/-- Of all instructions only comparisons with zero look at the mode of branches. -/
theorem instruction {i : Instruction} (hi : V.OneMode ∨
      ∀ condition offset, i = .operate (.ifZero condition offset) →
        condition.legacy = condition) :
    V.Same i.run := by
  cases i with
  | operate op =>
    exact operate (hi.imp_right fun hop condition offset heq => hop condition offset (heq ▸ rfl))
  | loadConstant form index => exact loadConstant form index
  | store family slot => exact bind (onStack _) fun v => store slot v
  | increment slot delta => exact increment slot delta
  | arrayLoad => exact arrayLoad
  | arrayStore s => exact arrayStore s
  | arrayLength => exact arrayLength
  | newArray element => exact newArray element
  | newObjectArray index => exact newObjectArray index
  | getStatic index => exact getStatic index
  | putStatic index => exact putStatic index
  | getField index => exact getField index
  | putField index => exact putField index
  | new index => exact new index
  | invoke mode index => exact invoke mode index
  | ret family =>
    cases family with
    | none => exact ret none
    | some family => exact bind (onStack _) fun v => ret (some v)

end Calls

end Same

/-- A comparison with zero that comes out the same in both modes. -/
theorem ifZero_agrees {m m' : Machine} {f : Frame} {rest : List Frame} {condition : Condition}
    {offset : Int} (h : V.Machines m m') (hm : m.frames = f :: rest)
    (hv : ∀ v, f.stack.head? = some (.int v) → condition.legacy.holds v 0 = condition.holds v 0) :
    Agrees V.Machines V.Causes Eq ((Instruction.operate (.ifZero condition offset)).run m)
      ((Instruction.operate (.ifZero condition offset)).run m') := by
  have hmode : ∀ legacy, Machine.onFrame (Operation.run legacy (.ifZero condition offset)) m =
      Machine.onFrame (Operation.run false (.ifZero condition offset)) m := by
    intro legacy
    unfold Machine.onFrame
    rw [hm]
    dsimp only
    rw [Operation.run_ifZero_mode legacy hv]
  have hagrees := Same.onFrame (V := V)
    (Framed.operation m'.settings.legacyBranches (.ifZero condition offset)) m m' h
  rw [hmode] at hagrees
  change Agrees _ _ _ (Machine.onFrame (Operation.run m.settings.legacyBranches _) m) _
  rw [hmode]
  exact hagrees

/-- Both machines fetch the instruction and then run it alike, unless the first fails with an
error that is excused. -/
theorem execute_agrees {m m' : Machine} {f g : Frame} {rest rest' : List Frame} {opcode : UInt8}
    (h : V.Machines m m') (hm : m.frames = f :: rest) (hm' : m'.frames = g :: rest')
    (hop : f.method.code[f.pc]? = some opcode) (hmode : V.OneMode ∨ m.Neutral) :
    Agrees V.Machines V.Causes Eq (Machine.execute f opcode m) (Machine.execute g opcode m') := by
  have hframes := h.frames
  rw [hm, hm'] at hframes
  obtain ⟨⟨t, ht, rfl⟩, hrest⟩ := List.forall₂_cons.mp hframes
  have hfetched : ∀ next, V.Machines (m.fetched f rest opcode next)
      (m'.fetched (f.annotate t) rest' opcode next) :=
    fun next => (h.log _).setFrames (.cons ⟨t, ht, rfl⟩ hrest)
  have hcode : (f.annotate t).method.code = f.method.code := rfl
  have hpc : (f.annotate t).pc = f.pc := rfl
  rw [Machine.execute_eq hm, Machine.execute_eq hm', hcode, hpc]
  cases hdec : Instruction.decode opcode f.method.code (f.pc + 1) with
  | error e next => exact .error (hfetched next)
  | ok i next =>
    rcases hmode with hone | hneutral
    · exact Same.instruction (.inl hone) _ _ (hfetched next)
    · by_cases hzero : ∃ condition offset, i = .operate (.ifZero condition offset)
      · obtain ⟨condition, offset, rfl⟩ := hzero
        exact ifZero_agrees (hfetched next) rfl fun v hv =>
          hneutral f rest condition offset v hm ⟨opcode, next, hop, hdec⟩ hv
      · exact Same.instruction (.inr fun condition offset heq =>
          absurd ⟨condition, offset, heq⟩ hzero) _ _ (hfetched next)

/-- A step of one machine is like that of the other, unless its error is excused. -/
theorem step_agrees {m m' : Machine} (h : V.Machines m m') (hmode : V.OneMode ∨ m.Neutral) :
    Agrees V.Machines (fun e : RunError => V.Causes e.cause) Eq (Machine.step m)
      (Machine.step m') := by
  have hframes := h.frames
  unfold Machine.step
  cases hm : m.frames with
  | nil =>
    rw [hm, List.forall₂_nil_left_iff] at hframes
    rw [hframes]
    exact .ok rfl h
  | cons f rest =>
    rw [hm, List.forall₂_cons_left_iff] at hframes
    obtain ⟨g, rest', hfg, -, hm'⟩ := hframes
    rw [hm']
    have hstep :=
      fun opcode (hop : f.method.code[f.pc]? = some opcode) => execute_agrees h hm hm' hop hmode
    obtain ⟨t, -, rfl⟩ := hfg
    dsimp only [Frame.annotate, Method.annotate] at hstep ⊢
    cases hop : f.method.code[f.pc]? with
    | none => exact .error h
    | some opcode =>
      have hresult := hstep opcode hop
      dsimp only
      generalize Machine.execute f opcode m = r at hresult
      generalize Machine.execute _ opcode m' = r' at hresult
      cases hresult with
      | ok _ h' => exact .ok rfl h'
      | error h' => exact .error h'
      | excused he =>
        refine .excused ?_
        rwa [Cause.cause_raisedAt]

end Variation

end ClassTrace
