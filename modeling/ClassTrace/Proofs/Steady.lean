import ClassTrace.Proofs.DebugTables
import ClassTrace.Proofs.FieldTypes
import ClassTrace.Proofs.OutsideErrors

/-!
Actions that leave arrays, maps and streams, the statics of the library and the texts written
alone. Most of what a machine does is like that: it moves values between stacks, locals and
fields, and it adds objects of the class, boxed integers, events and log records.
-/
namespace ClassTrace

/-- Arrays, maps and streams; the other entries are objects of the class and boxed integers. -/
def Entry.isShared : Entry → Bool
  | .array _ _ | .map _ | .stream _ => true
  | .object _ _ | .integer _ => false

namespace Heap

theorem get?_alloc (h : Heap) (e : Entry) (id : Int) :
    (h.alloc e).get? id = if id = h.next then some e else h.get? id := by
  unfold get? alloc next size
  by_cases hid : id < 0
  · simp only [if_pos hid]
    rw [if_neg (by omega)]
  · simp only [if_neg hid, Array.getElem?_push]
    by_cases hnext : id.toNat = h.entries.size
    · rw [if_pos hnext, if_pos (by omega)]
    · rw [if_neg hnext, if_neg (by omega)]

/-- An entry of a heap to which one was added is that one or was there before. -/
theorem get?_of_alloc {h : Heap} {e e' : Entry} {id : Int} (he : (h.alloc e).get? id = some e') :
    h.get? id = some e' ∨ id = h.next ∧ e' = e := by
  rw [get?_alloc] at he
  split at he
  · rename_i hid
    exact .inr ⟨hid, (Option.some.inj he).symm⟩
  · exact .inl he

theorem get?_next (h : Heap) : h.get? h.next = none := by
  unfold get? next size
  simp

theorem ne_next_of_get? {h : Heap} {id : Int} {e : Entry} (he : h.get? id = some e) :
    id ≠ h.next := by
  rintro rfl
  rw [get?_next] at he
  cases he

def SameShared (h h' : Heap) : Prop :=
  ∀ id e, e.isShared = true → (h'.get? id = some e ↔ h.get? id = some e)

theorem sameShared_alloc (h : Heap) {e : Entry} (he : e.isShared = false) :
    h.SameShared (h.alloc e) := by
  intro id e' he'
  rw [get?_alloc]
  by_cases hid : id = h.next
  · rw [if_pos hid, hid, get?_next]
    refine iff_of_false ?_ nofun
    rintro ⟨⟩
    cases he.symm.trans he'
  · rw [if_neg hid]

/-- A store into a field leaves arrays, maps and streams alone. -/
theorem sameShared_setField (h : Heap) (target : Int) (name : Bytes) (v : Value) :
    h.SameShared (h.setField target name v) := by
  intro id e he
  unfold setField
  rw [get?_modify]
  split
  · cases h.get? id with
    | none => rfl
    | some e₀ =>
      cases e₀ with
      | object owner fields =>
        refine iff_of_false ?_ ?_ <;>
        · rintro ⟨⟩
          cases he
      | _ => rfl
  · rfl

end Heap

namespace Machine

variable {α β : Type} {m m' m'' : Machine}

/-- Both machines have the same arrays, maps and streams, the same statics of the library, and the
same texts written. -/
structure Alike (m m' : Machine) : Prop where
  heap : m.heap.SameShared m'.heap
  statics : m'.statics = m.statics
  console : m.console.SameTexts m'.console

theorem Alike.refl (m : Machine) : m.Alike m := ⟨fun _ _ _ => Iff.rfl, rfl, .refl _⟩

theorem Alike.trans (h : m.Alike m') (h' : m'.Alike m'') : m.Alike m'' :=
  ⟨fun id e he => (h'.heap id e he).trans (h.heap id e he), h'.statics.trans h.statics,
    h.console.trans h'.console⟩

theorem Alike.of_eq (hheap : m'.heap = m.heap) (hstatics : m'.statics = m.statics)
    (hconsole : m.console.SameTexts m'.console) : m.Alike m' :=
  ⟨by rw [hheap]; exact fun _ _ _ => Iff.rfl, hstatics, hconsole⟩

theorem alike_report (r : Report) (m : Machine) : m.Alike (m.report r) := by
  have hconsole := report_sameTexts r m
  rw [report_eq] at hconsole ⊢
  exact .of_eq rfl rfl hconsole

theorem alike_log (r : LogRecord) (m : Machine) : m.Alike (m.log r) := by
  unfold Machine.log
  split
  · exact .of_eq rfl rfl (Console.sameTexts_log _ _)
  · exact .refl m

theorem alike_placed (f : Frame) (kind : CallKind) (args : List Value) (m : Machine) :
    m.Alike (placed f kind args m) := by
  have hframe :
      m.Alike { m with frames := { f.setArgs args with returnPc := resumeAt m } :: m.frames } :=
    .of_eq rfl rfl (.refl _)
  exact (hframe.trans (alike_report _ _)).trans (alike_log _ _)

/-- The action does `g` to arrays, maps, streams, statics and texts, whether it succeeds or
fails. -/
def Does (g : Machine → Machine) (x : Exec α) : Prop :=
  ∀ m, Ends (g m).Alike x m fun _ m' => (g m).Alike m'

abbrev Steady (x : Exec α) : Prop := Does id x

theorem Does.bind {g : Machine → Machine} {x : Exec α} {k : α → Exec β} (hx : Does g x)
    (hk : ∀ a, Steady (k a)) : Does g (x >>= k) :=
  fun m => (hx m).bind fun a m₁ h₁ => (hk a m₁).mono (fun _ h => h₁.trans h) fun _ _ h =>
    h₁.trans h

namespace Steady

theorem pure (a : α) : Steady (Pure.pure a) := fun m => .of_pure (.refl m)

theorem throw (cause : Cause) : Steady (MonadExcept.throw cause : Exec α) :=
  fun m => .of_throw (.refl m)

theorem fault (f : Fault) : Steady (Machine.fault f : Exec α) := throw _

theorem bind {x : Exec α} {k : α → Exec β} (hx : Steady x) (hk : ∀ a, Steady (k a)) :
    Steady (x >>= k) :=
  Does.bind hx hk

theorem fault_bind (f : Fault) {k : α → Exec β} : Steady ((Machine.fault f : Exec α) >>= k) :=
  fun m => .of_throw_bind (.refl m)

theorem of_get {k : Machine → Exec β} (hk : ∀ m, Steady (k m)) : Steady (get >>= k) :=
  fun m => hk m m

theorem modify {f : Machine → Machine} (hf : ∀ m : Machine, m.Alike (f m)) :
    Steady (modify f) := hf

theorem check (x : Except Fault α) : Steady (Machine.check x) := by
  cases x with
  | ok a => exact pure a
  | error f => exact fault f

theorem onFrame (x : FrameM α) : Steady (Machine.onFrame x) := by
  intro m
  unfold Ends Machine.onFrame
  cases m.frames with
  | nil => exact .refl m
  | cons f rest =>
    dsimp only
    cases x f with
    | ok a f' => exact .of_eq rfl rfl (.refl _)
    | error e f' => exact .of_eq rfl rfl (.refl _)

theorem onStack (x : StackM α) : Steady (Machine.onStack x) := by
  intro m
  unfold Ends Machine.onStack
  cases m.frames with
  | nil =>
    dsimp only
    cases x m.host with
    | ok a host => exact .of_eq rfl rfl (.refl _)
    | error e host => exact .of_eq rfl rfl (.refl _)
  | cons f rest =>
    dsimp only
    cases Frame.onStack x f with
    | ok a f' => exact .of_eq rfl rfl (.refl _)
    | error e f' => exact .of_eq rfl rfl (.refl _)

theorem push (v : Value) : Steady (Machine.push v) := onFrame _

theorem alloc {e : Entry} (he : e.isShared = false) : Steady (Machine.alloc e) :=
  fun m => ⟨m.heap.sameShared_alloc he, rfl, .refl _⟩

theorem display (v : Value) : Steady (Machine.display v) := of_get fun _ => pure _

/-- An event is shown with the texts of two values. -/
theorem shown (old v : Value) (e : Bytes → Bytes → Event) :
    Steady (do emit (e (← Machine.display old) (← Machine.display v))) :=
  bind (display old) fun _ => bind (display v) fun _ => modify (alike_report _)

theorem store (slot : Nat) (v : Value) : Steady (Machine.store slot v) := by
  refine bind (onFrame _) fun old => bind (onFrame _) fun _ => bind (onFrame _) fun f => ?_
  exact shown old v fun a b => .assign f.line (f.localName slot) a b []

theorem increment (slot : Nat) (delta : Int32) : Steady (Machine.increment slot delta) := by
  refine bind (onFrame _) fun v => ?_
  split
  · exact store slot _
  · exact fault _

theorem loadConstant (form : ConstantLoad) (index : UInt16) :
    Steady (Machine.loadConstant form index) := by
  refine of_get fun m => bind (check _) fun v => ?_
  dsimp only
  split
  · exact fault_bind _
  · exact push v

theorem popArray : Steady Machine.popArray := by
  refine bind (onStack _) fun v => ?_
  split
  · exact fault _
  · exact of_get fun m => bind (check _) fun p => pure _
  · exact fault _

theorem elementAt (a : ArrayRef) (i : Int32) : Steady (Machine.elementAt a i) := by
  unfold Machine.elementAt
  split
  · exact fault _
  · split
    · exact pure _
    · exact fault _

theorem popObject : Steady Machine.popObject := by
  refine bind (onStack _) fun v => ?_
  split
  · exact fault _
  · exact of_get fun m => bind (check _) fun p => pure _
  · exact fault _

theorem fieldRef (index : UInt16) : Steady (Machine.fieldRef index) := of_get fun _ => check _

theorem getField (index : UInt16) : Steady (Machine.getField index) := by
  refine bind (fieldRef index) fun r => bind popObject fun o => ?_
  split
  · exact push _
  · exact fault _

theorem setField (o : ObjectRef) (name : Bytes) (v : Value) :
    Steady (Machine.setField o name v) := by
  unfold Machine.setField
  split
  · rename_i old _
    refine bind (modify fun m => ⟨m.heap.sameShared_setField _ _ _, rfl, .refl _⟩) fun _ => ?_
    exact of_get fun m => shown old v fun x y => .setField m.line o.id name x y []
  · exact fault _

theorem putField (index : UInt16) : Steady (Machine.putField index) :=
  bind (fieldRef index) fun _ => bind (onStack _) fun v => bind popObject fun o => setField o _ v

theorem putStatic (index : UInt16) : Steady (Machine.putStatic index) := by
  refine bind (fieldRef index) fun r => of_get fun m => ?_
  dsimp only
  split
  · exact fault_bind _
  · exact bind (onStack _) fun v => of_get fun m => bind (check _) fun p => setField _ _ v

theorem receiverEntry (want : EntrySort) (v : Value) : Steady (Machine.receiverEntry want v) := by
  unfold Machine.receiverEntry
  split
  · exact fault _
  · exact of_get fun m => bind (check _) fun e => pure _
  · exact fault _

theorem receiverInt (v : Value) : Steady (Machine.receiverInt v) := by
  refine bind (receiverEntry _ v) fun p => ?_
  split
  · exact pure _
  · exact fault _

theorem receiverMap (v : Value) : Steady (Machine.receiverMap v) := by
  refine bind (receiverEntry _ v) fun p => ?_
  split
  · exact pure _
  · exact fault _

theorem receiverStream (v : Value) : Steady (Machine.receiverStream v) := by
  refine bind (receiverEntry _ v) fun p => ?_
  split
  · exact pure _
  · exact fault _

theorem receiverText (v : Value) : Steady (Machine.receiverText v) := by
  unfold Machine.receiverText
  split
  · exact pure _
  · exact fault _
  · exact fault _

/-- Beside puts and prints, routines do nothing that lasts. -/
theorem routine {r : Routine} (hput : r ≠ .mapPut) (hprint : r ≠ .print) (hprintln : r ≠ .println)
    (call : Invocation) : Steady (r.run call) := by
  cases r with
  | mapPut => exact absurd rfl hput
  | print => exact absurd rfl hprint
  | println => exact absurd rfl hprintln
  | failing message => exact throw _
  | box => exact alloc rfl
  | unbox => exact bind (receiverInt _) fun _ => pure _
  | stringLength => exact bind (receiverText _) fun _ => pure _
  | stringCharAt =>
    refine bind (receiverText _) fun text => ?_
    dsimp only
    split
    · exact fault _
    · split
      · exact pure _
      · exact fault _
  | mapGet | mapContainsKey => exact bind (receiverMap _) fun p => of_get fun m => pure _
  | mapSize => exact bind (receiverMap _) fun _ => pure _
  | _ => exact pure _

theorem takeArgs (method : Method) (kind : CallKind) : Steady (Machine.takeArgs method kind) := by
  refine bind (onStack _) fun args => ?_
  split
  · exact modify (alike_placed _ _ _)
  · refine bind (onStack _) fun receiver => ?_
    split
    · exact fault _
    · exact modify (alike_placed _ _ _)

theorem enter (method : Method) (kind : CallKind) : Steady (Machine.enter method kind) := by
  intro m
  unfold Ends
  rw [enter_eq]
  by_cases hcode : (!method.hasCode) = true
  · rw [if_pos hcode]
    exact .refl m
  · rw [if_neg hcode]
    by_cases hdepth : m.settings.maxDepth ≤ m.frames.length
    · rw [if_pos hdepth]
      exact .refl m
    · rw [if_neg hdepth]
      exact takeArgs method kind m

theorem ret (v : Option Value) : Steady (Machine.ret v) := by
  refine of_get fun m => of_get fun m' => ?_
  dsimp only
  split
  · exact fault _
  · refine bind (modify fun m => .of_eq rfl rfl (.refl _)) fun _ =>
      bind (modify (alike_report _)) fun _ => ?_
    refine bind (modify fun m => ?_) fun _ => modify fun m => alike_log _ m
    split
    · exact .of_eq rfl rfl (.refl _)
    · exact .of_eq rfl rfl (.refl _)

theorem invokeOwn (mode : CallMode) (name descriptor : Bytes) :
    Steady (Machine.invokeOwn mode name descriptor) := by
  refine of_get fun m => ?_
  dsimp only
  split
  · exact fault _
  · split
    · exact fault_bind _
    · exact enter _ _

end Steady

section Stacks

theorem alike_setOperands (m : Machine) (stack : Stack) : m.Alike (m.setOperands stack) := by
  unfold setOperands
  split <;> exact .of_eq rfl rfl (.refl _)

theorem onStack_eq (x : StackM α) (m : Machine) : onStack x m = match x m.operands with
    | .ok a stack => .ok a (m.setOperands stack)
    | .error e stack => .error (.fault e) (m.setOperands stack) := by
  unfold onStack operands setOperands
  cases m.frames with
  | nil => rfl
  | cons f rest =>
    simp only [Frame.onStack]
    cases x f.stack with
    | ok a stack => rfl
    | error e stack => rfl

theorem onStack_of_ok {x : StackM α} {a : α} {stack : Stack} (h : x m.operands = .ok a stack) :
    onStack x m = .ok a (m.setOperands stack) := by
  rw [onStack_eq, h]

theorem onStack_of_error {x : StackM α} {e : Fault} {stack : Stack}
    (h : x m.operands = .error e stack) :
    onStack x m = .error (.fault e) (m.setOperands stack) := by
  rw [onStack_eq, h]

theorem setOperands_operands (m : Machine) : m.setOperands m.operands = m := by
  obtain ⟨_, _, _, _, _, _, frames, _, _⟩ := m
  cases frames with
  | nil => rfl
  | cons f rest => rfl

theorem onStack_pure (a : α) : onStack (pure a) = pure a := by
  funext m
  rw [onStack_eq]
  exact congrArg (EStateM.Result.ok a) (setOperands_operands m)

theorem onStack_bind (x : StackM α) (y : α → StackM β) :
    onStack (x >>= y) = onStack x >>= fun a => onStack (y a) := by
  funext m
  rw [onStack_eq]
  cases hpop : x m.operands with
  | ok a stack =>
    rw [bind_of_ok hpop, bind_of_ok (onStack_of_ok hpop), onStack_eq, operands_setOperands]
    simp only [setOperands_setOperands]
  | error e stack => rw [bind_of_error hpop, bind_of_error (onStack_of_error hpop)]

/-- A pop may succeed or fail; either way nothing but the stack has changed. -/
theorem ends_onStack_bind {x : StackM α} {k : α → Exec β} {I : Machine → Prop}
    {Q : β → Machine → Prop}
    (hok : ∀ a stack, x m.operands = .ok a stack → Ends I (k a) (m.setOperands stack) Q)
    (herror : ∀ e stack, x m.operands = .error e stack → I (m.setOperands stack)) :
    Ends I (onStack x >>= k) m Q := by
  unfold Ends
  cases hpop : x m.operands with
  | ok a stack =>
    rw [bind_of_ok (onStack_of_ok hpop)]
    exact hok a stack hpop
  | error e stack =>
    rw [bind_of_error (onStack_of_error hpop)]
    exact herror e stack hpop

end Stacks

/-- The machines differ in frames, the host's stack, the document and the log only. -/
structure Matches (m m' : Machine) : Prop where
  program : m'.program = m.program
  library : m'.library = m.library
  settings : m'.settings = m.settings
  heap : m'.heap = m.heap
  statics : m'.statics = m.statics
  console : m.console.SameTexts m'.console

theorem Matches.alike (h : m.Matches m') : m.Alike m' := .of_eq h.heap h.statics h.console

theorem matches_setOperands (m : Machine) (stack : Stack) : m.Matches (m.setOperands stack) := by
  unfold setOperands
  split <;> exact ⟨rfl, rfl, rfl, rfl, rfl, .refl _⟩

end Machine

end ClassTrace
