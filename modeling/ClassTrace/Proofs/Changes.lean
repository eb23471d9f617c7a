import ClassTrace.Proofs.AccessRange
import ClassTrace.Proofs.Steady

/-!
What a step does to arrays, maps and streams, to the statics of the library and to the texts
written. It depends on the instruction, on the operands and on what they refer to alone, and it is
done whether or not the step succeeds in the end: an entry that was made stays even if there is no
room to push its reference. So it is a function of the machine before the step, and everything
else that a step does leaves it alone.
-/
namespace ClassTrace

/-- What an instruction can do to arrays, maps, streams, statics and texts: at most one of
these. -/
inductive Change where
  | nothing
  | make (e : Entry)
  | setElement (id : Int) (index : Nat) (v : Value)
  | setMap (id : Int) (entries : KeyedMap Value)
  /-- A constant of the library is remembered under the key. -/
  | remember (key : Bytes) (v : Value)
  /-- A stream is made and remembered under the key. -/
  | openStream (key : Bytes) (s : PrintStream)
  | output (action : ConsoleM Unit)

def ConsoleM.after (action : ConsoleM Unit) (c : Console) : Console :=
  match action c with
  | .ok _ c' => c'
  | .error _ c' => c'

namespace Change

def apply (m : Machine) : Change → Machine
  | .nothing => m
  | .make e => { m with heap := m.heap.alloc e }
  | .setElement id index v => { m with heap := m.heap.setElement id index v }
  | .setMap id entries => { m with heap := m.heap.setMap id entries }
  | .remember key v => { m with statics := (key, v) :: m.statics }
  | .openStream key s =>
    { m with heap := m.heap.alloc (.stream s), statics := (key, .ref m.heap.next) :: m.statics }
  | .output action => { m with console := ConsoleM.after action m.console }

/-- A change shows the same in machines that match, if it is a print on a stream. -/
def Regular : Change → Prop
  | .output action =>
    ∀ c d, Console.SameTexts c d → (ConsoleM.after action c).SameTexts (ConsoleM.after action d)
  | _ => True

/-- Machines that match are alike after a regular change. -/
theorem Regular.alike {c : Change} (hc : c.Regular) {m m' : Machine} (h : m.Matches m') :
    (c.apply m).Alike (c.apply m') := by
  cases c with
  | nothing => exact h.alike
  | make e | setElement id index v | setMap id entries =>
    exact .of_eq (by unfold apply; rw [h.heap]) h.statics h.console
  | remember key v => exact .of_eq h.heap (by unfold apply; rw [h.statics]) h.console
  | openStream key s =>
    exact .of_eq (by unfold apply; rw [h.heap])
      (by unfold apply; rw [h.statics, h.heap]) h.console
  | output action => exact .of_eq h.heap h.statics (hc _ _ h.console)

end Change

/-- What the routine does with the entry that its receiver refers to. -/
def Routine.change (m : Machine) (call : Invocation) (routine : Routine) : Change :=
  match call.receiver with
  | .ref id => match m.heap.get? id with
    | some (.map entries) =>
      if routine = .mapPut then .setMap id (entries.put (m.heap.key (call.arg 0)) (call.arg 1))
      else .nothing
    | some (.stream s) =>
      match routine.print? s m.settings.colorEnabled (Machine.printText m.heap call) with
      | some action => .output action
      | none => .nothing
    | _ => .nothing
  | _ => .nothing

namespace Stack

def popStore (s : ElementStore) : StackM (Value × Int32 × Value) := do
  let v ← (Machine.storeFamily s).pop
  let i ← popInt
  let array ← popReference
  return (v, i, array)

def popCall (mode : CallMode) (r : MethodRef) : StackM (List Value × Value) := do
  let args ← popArgs r.signature.params
  let receiver ← if mode.isStatic then pure .null else popReference
  return (args, receiver)

end Stack

namespace Machine

def onPopped {α : Type} (x : StackM α) (change : α → Machine → Change) (m : Machine) : Change :=
  match x m.operands with
  | .ok a _ => change a m
  | .error _ _ => .nothing

def newArrayChange (element : FieldType) : Machine → Change :=
  onPopped Stack.popInt fun n _ =>
    if n < 0 then .nothing else .make (.array element (Array.replicate n.toInt.toNat .null))

def storeChange (s : ElementStore) (v : Value) (i : Int32) (array : Value)
    (m : Machine) : Change :=
  match array with
  | .ref id => match m.heap.get? id with
    | some (.array element elements) =>
      if 0 ≤ i ∧ i.toInt.toNat < elements.size ∧ storable element (narrow element v s) = true then
        .setElement id i.toInt.toNat (narrow element v s)
      else .nothing
    | _ => .nothing
  | _ => .nothing

def libraryStaticChange (owner name : Bytes) (m : Machine) : Change :=
  match m.statics.lookup (staticKey owner name), m.library.static? owner name with
  | none, some (.stream channel) =>
    .openStream (staticKey owner name) ⟨channel,
      if channel = .out then m.settings.consoleColor else none⟩
  | none, some (.constant v) => .remember (staticKey owner name) v
  | _, _ => .nothing

def newChange (name : Bytes) (m : Machine) : Change :=
  match m.library.maker? name with
  | some (.build blueprint) => .make (blueprint.build m.program)
  | _ => .nothing

def callChange (mode : CallMode) (r : MethodRef) (m : Machine) : Change :=
  if Library.owns r.owner.name then
    match m.library.routine? r.owner.name r.nameType.name r.nameType.descriptor with
    | some routine =>
      onPopped (Stack.popCall mode r) (fun p m => routine.change m ⟨r.signature, p.2, p.1⟩) m
    | none => .nothing
  else .nothing

end Machine

open Machine in
/-- What the instruction does, run from the machine, to arrays, maps, streams, statics and
texts. -/
def Instruction.change (m : Machine) : Instruction → Change
  | .newArray element => newArrayChange element m
  | .newObjectArray index => match m.program.pool.classRef index with
    | .ok c => newArrayChange (elementType c.name) m
    | .error _ => .nothing
  | .arrayStore s => onPopped (Stack.popStore s) (fun p => storeChange s p.1 p.2.1 p.2.2) m
  | .getStatic index => match m.program.pool.fieldRef index with
    | .ok r =>
      if r.owner.name = m.program.name then .nothing
      else libraryStaticChange r.owner.name r.nameType.name m
    | .error _ => .nothing
  | .new index => match m.program.pool.classRef index with
    | .ok c => if c.name = m.program.name then .nothing else newChange c.name m
    | .error _ => .nothing
  | .invoke mode index => match m.program.pool.methodRef index with
    | .ok r => if r.owner.name = m.program.name then .nothing else callChange mode r m
    | .error _ => .nothing
  | _ => .nothing

namespace Machine

variable {α β : Type} {m m' m'' : Machine}

/-- The action makes the change, whether it succeeds or fails. -/
def Makes (change : Machine → Change) (x : Exec α) : Prop := Does (fun m => (change m).apply m) x

theorem Makes.bind {change : Machine → Change} {x : Exec α} {k : α → Exec β} (hx : Makes change x)
    (hk : ∀ a, Steady (k a)) : Makes change (x >>= k) := Does.bind hx hk

theorem makes_alloc (e : Entry) : Makes (fun _ => .make e) (alloc e) := fun _ => .refl _

/-- The change depends on what frames, the host's stack, the document and the log have no part
in. -/
structure Determined (change : Machine → Change) : Prop where
  eq : ∀ m m', Matches m m' → change m' = change m
  regular : ∀ m, (change m).Regular

/-- What is popped first makes no difference but for the change that depends on it. -/
theorem makes_onPopped {x : StackM α} {k : α → Exec β} {change : α → Machine → Change}
    (hk : ∀ a, Makes (change a) (k a)) (hchange : ∀ a, Determined (change a)) :
    Makes (onPopped x change) (onStack x >>= k) := by
  intro m
  refine ends_onStack_bind (fun a stack ha => ?_) fun e stack he => ?_
  · simp only [onPopped, ha]
    have hmatches := matches_setOperands m stack
    have halike := ((hchange a).regular m).alike hmatches
    have hends := hk a (m.setOperands stack)
    simp only [(hchange a).eq _ _ hmatches] at hends
    exact hends.mono (fun _ h => halike.trans h) fun _ _ h => halike.trans h
  · simp only [onPopped, he]
    exact alike_setOperands m stack

theorem determined_newArray (element : FieldType) (n : Int32) : Determined fun _ =>
    if n < 0 then .nothing else .make (.array element (Array.replicate n.toInt.toNat .null)) := by
  refine ⟨fun _ _ _ => rfl, fun _ => ?_⟩
  split <;> trivial

/-- Making an array changes the heap also where there is no room for the reference. -/
theorem makes_newArray (element : FieldType) :
    Makes (newArrayChange element) (newArray element) := by
  refine makes_onPopped (fun n => ?_) (determined_newArray element)
  dsimp only
  by_cases hneg : n < 0
  · simp only [if_pos hneg]
    exact Steady.fault_bind _
  · simp only [if_neg hneg]
    exact (makes_alloc _).bind fun v => Steady.push v

def storeAt (s : ElementStore) (v : Value) (i : Int32) (a : ArrayRef) : Exec Unit := do
  let old ← elementAt a i
  let v := narrow a.element v s
  if !storable a.element v then fault (.wrongElement v.kind a.element)
  modify fun m => { m with heap := m.heap.setElement a.id i.toInt.toNat v }
  emit (.setElement (← get).line a.id i.toInt (← display old) (← display v) [])

def storeInto (s : ElementStore) (v : Value) (i : Int32) : Value → Exec Unit
  | .null => fault .nullArray
  | .ref id => do
    let (element, elements) ← check ((← get).heap.array id)
    storeAt s v i ⟨id, element, elements⟩
  | array => fault (.notArrayValue array.kind)

theorem arrayStore_eq (s : ElementStore) :
    arrayStore s = onStack (Stack.popStore s) >>= fun p => storeInto s p.1 p.2.1 p.2.2 := by
  unfold arrayStore Stack.popStore popArray
  simp only [onStack_bind, onStack_pure, bind_assoc, pure_bind]
  refine bind_congr fun v => bind_congr fun i => bind_congr fun array => ?_
  cases array with
  | ref id => simp only [storeInto, storeAt, bind_assoc, pure_bind]
  | _ => rfl

theorem elementAt_inside {a : ArrayRef} {i : Int32} {old : Value} (hi : 0 ≤ i)
    (hold : a.elements[i.toInt.toNat]? = some old) : elementAt a i = pure old := by
  unfold elementAt
  rw [if_neg (Int32.not_lt.mpr hi), hold]

theorem elementAt_outside {a : ArrayRef} {i : Int32}
    (h : ¬ (0 ≤ i ∧ i.toInt.toNat < a.elements.size)) :
    elementAt a i = fault (.badIndex i a.elements.size) := by
  unfold elementAt
  by_cases hi : 0 ≤ i
  · have hnone : a.elements[i.toInt.toNat]? = none :=
      Array.getElem?_eq_none (Nat.le_of_not_lt fun hlt => h ⟨hi, hlt⟩)
    rw [if_neg (Int32.not_lt.mpr hi), hnone]
  · rw [if_pos (Int32.not_le.mp hi)]

/-- A store changes one element if it is inside of the array and of its kind, and else nothing. -/
theorem ends_storeAt (s : ElementStore) (v : Value) (i : Int32) (a : ArrayRef) (m : Machine) :
    let change : Change :=
      if 0 ≤ i ∧ i.toInt.toNat < a.elements.size ∧
        storable a.element (narrow a.element v s) = true then
        .setElement a.id i.toInt.toNat (narrow a.element v s)
      else .nothing
    Ends (change.apply m).Alike (storeAt s v i a) m fun _ m' => (change.apply m).Alike m' := by
  dsimp only
  unfold storeAt
  by_cases hinside : 0 ≤ i ∧ i.toInt.toNat < a.elements.size
  · obtain ⟨hi, hlt⟩ := hinside
    rw [elementAt_inside hi (Array.getElem?_eq_getElem hlt), pure_bind]
    by_cases hstorable : storable a.element (narrow a.element v s) = true
    · rw [if_pos ⟨hi, hlt, hstorable⟩]
      simp only [hstorable, Bool.not_true, Bool.false_eq_true, if_false]
      refine Ends.bind (Q := fun _ m' => Alike _ m') (Alike.refl _) fun _ m₁ h₁ => ?_
      exact (Steady.of_get (fun m => Steady.shown _ _ fun x y =>
        .setElement m.line a.id i.toInt x y []) m₁).mono
        (fun _ h => h₁.trans h) fun _ _ h => h₁.trans h
    · rw [if_neg fun h => hstorable h.2.2]
      simp only [hstorable]
      exact .of_throw_bind (.refl m)
  · rw [if_neg fun h => hinside ⟨h.1, h.2.1⟩, elementAt_outside hinside]
    exact .of_throw_bind (.refl m)

theorem makes_storeInto (s : ElementStore) (v : Value) (i : Int32) (array : Value) :
    Makes (storeChange s v i array) (storeInto s v i array) := by
  intro m
  cases array with
  | ref id =>
    change Ends _ (check (m.heap.array id) >>= fun p => storeAt s v i ⟨id, p.1, p.2⟩) m _
    unfold Heap.array Heap.get
    simp only [storeChange]
    cases h : m.heap.get? id with
    | none => exact .of_throw_bind (.refl m)
    | some e =>
      cases e with
      | array element elements => exact ends_storeAt s v i ⟨id, element, elements⟩ m
      | _ => exact .of_throw_bind (.refl m)
  | _ => exact .of_throw (.refl m)

theorem determined_storeChange (s : ElementStore) (v : Value) (i : Int32) (array : Value) :
    Determined (storeChange s v i array) := by
  refine ⟨fun m m' h => by simp only [storeChange, h.heap], fun m => ?_⟩
  unfold storeChange
  split
  · split
    · split <;> trivial
    · trivial
  · trivial

/-- A store into an array makes the change that its operands tell. -/
theorem makes_arrayStore (s : ElementStore) :
    Makes (onPopped (Stack.popStore s) fun p => storeChange s p.1 p.2.1 p.2.2)
      (arrayStore s) := by
  rw [arrayStore_eq]
  exact makes_onPopped (fun _ => makes_storeInto _ _ _ _) fun _ => determined_storeChange _ _ _ _

/-- Asking for a static of the library makes it the first time. -/
theorem makes_libraryStatic (owner name : Bytes) :
    Makes (libraryStaticChange owner name) (libraryStatic owner name) := by
  intro m
  have hget : (get : Exec Machine) m = .ok m m := rfl
  unfold Ends libraryStatic libraryStaticChange
  dsimp only
  rw [bind_of_ok hget]
  cases m.statics.lookup (staticKey owner name) with
  | some v => exact Alike.refl m
  | none =>
    cases m.library.static? owner name with
    | none => exact Alike.refl m
    | some source =>
      cases source with
      | stream channel => exact Alike.refl _
      | constant v => exact Alike.refl _
      | failing message => exact Alike.refl m

theorem makes_getStatic (index : UInt16) : Makes (fun m => (Instruction.getStatic index).change m)
    (getStatic index) := by
  intro m
  simp only [Instruction.change]
  change Ends _ (check (m.program.pool.fieldRef index) >>= _) m _
  cases m.program.pool.fieldRef index with
  | error f => exact .of_throw_bind (.refl m)
  | ok r =>
    change Ends _ (if r.owner.name = m.program.name then (_ : Exec Unit) else _) m _
    by_cases hown : r.owner.name = m.program.name
    · simp only [if_pos hown]
      refine Steady.bind (Steady.check _) (fun p => ?_) m
      split
      · exact Steady.push _
      · exact Steady.fault _
    · simp only [if_neg hown]
      exact (makes_libraryStatic _ _).bind (fun v => Steady.push v) m

theorem makes_new (index : UInt16) :
    Makes (fun m => (Instruction.new index).change m) (new index) := by
  intro m
  simp only [Instruction.change]
  change Ends _ (check (m.program.pool.classRef index) >>= _) m _
  cases m.program.pool.classRef index with
  | error f => exact .of_throw_bind (.refl m)
  | ok c =>
    change Ends _ (if c.name = m.program.name then (_ : Exec Unit) else _) m _
    by_cases hown : c.name = m.program.name
    · simp only [if_pos hown]
      exact Steady.bind (Steady.alloc (e := m.program.newObject) rfl) (fun v => Steady.push v) m
    · simp only [if_neg hown, newChange]
      cases m.library.maker? c.name with
      | none => exact .of_throw (.refl m)
      | some maker =>
        cases maker with
        | build blueprint => exact (makes_alloc _).bind (fun v => Steady.push v) m
        | failing message => exact .of_throw (.refl m)

theorem Respected.after {R : Console → Console → Prop} (hR : Console.Respected R)
    {routine : Routine} {s : PrintStream} {colorEnabled : Bool} {text : Bytes}
    {action : ConsoleM Unit} (h : routine.print? s colorEnabled text = some action)
    {c d : Console} (hcd : R c d) :
    R (ConsoleM.after action c) (ConsoleM.after action d) := by
  have hfollows : Follows R (fun _ => False) Eq action action := by
    unfold Routine.print? at h
    split at h
    · cases h
      exact hR.print _ _ _
    · cases h
      exact hR.println _ _ _
    · cases h
  have hends := hfollows c d hcd
  unfold ConsoleM.after
  generalize action c = x at hends
  generalize action d = y at hends
  cases hends with
  | ok _ h' | error h' => exact h'
  | excused hf => exact hf.elim

theorem determined_routine (routine : Routine) (call : Invocation) :
    Determined fun m => routine.change m call := by
  refine ⟨fun m m' h => by simp only [Routine.change, h.heap, h.settings], fun m => ?_⟩
  unfold Routine.change
  split
  · split
    · split <;> trivial
    · split
      · rename_i action haction
        exact fun c d hcd => Respected.after Console.respected_sameTexts haction hcd
      · trivial
    · trivial
  · trivial

theorem receiverMap_ok_iff {v : Value} {id : Int} {entries : KeyedMap Value} {m₁ : Machine} :
    receiverMap v m = .ok (id, entries) m₁ ↔
    m₁ = m ∧ v = .ref id ∧ m.heap.get? id = some (.map entries) := by
  constructor
  · intro h
    cases v with
    | ref id' =>
      have hentry := receiverEntry_ref .map id' m
      unfold receiverMap at h
      cases hget : m.heap.get id' with
      | error f =>
        rw [hget] at hentry
        rw [bind_of_error hentry] at h
        cases h
      | ok e =>
        rw [hget] at hentry
        rw [bind_of_ok hentry] at h
        cases e with
        | map entries' =>
          cases h
          exact ⟨rfl, rfl, Heap.get_eq_ok hget⟩
        | _ => cases h
    | _ => cases h
  · rintro ⟨rfl, rfl, hget⟩
    exact receiverMap_ok hget

/-- A put into a map makes its change if its receiver is a map. -/
theorem makes_mapPut (call : Invocation) :
    Makes (fun m => Routine.mapPut.change m call) (mapPut call) := by
  intro m
  dsimp only
  cases h : receiverMap call.receiver m with
  | ok p m₁ =>
    obtain ⟨id, entries⟩ := p
    obtain ⟨rfl, hid, hget⟩ := receiverMap_ok_iff.mp h
    unfold Ends mapPut
    rw [bind_of_ok h]
    simp only [Routine.change, hid, hget]
    exact Alike.refl _
  | error e m₁ =>
    have halike := (Steady.receiverMap call.receiver m).of_error h
    have hnothing : Routine.mapPut.change m call = .nothing := by
      unfold Routine.change
      split
      · rename_i id hid
        split
        · rename_i entries hget
          cases h.symm.trans (receiverMap_ok_iff.mpr ⟨rfl, hid, hget⟩)
        · rfl
        · rfl
      · rfl
    unfold Ends mapPut
    rw [bind_of_error h, hnothing]
    exact halike

theorem makes_onConsole (action : ConsoleM Unit) :
    Makes (fun _ => .output action) (onConsole action) := by
  intro m
  unfold Ends onConsole
  simp only [Change.apply, ConsoleM.after]
  cases action m.console with
  | ok _ console => exact Alike.refl _
  | error e console => exact Alike.refl _

/-- So does a print if its receiver is a stream. -/
theorem makes_print {routine : Routine} (call : Invocation)
    (print : PrintStream → Machine → ConsoleM Unit) (hrun : routine.run call = do
      let s ← receiverStream call.receiver
      let m ← get
      onConsole (print s m)
      return Value.null)
    (hprint : ∀ s m, routine.print? s m.settings.colorEnabled (printText m.heap call) =
      some (print s m))
    (hput : routine ≠ .mapPut) : Makes (fun m => routine.change m call) (routine.run call) := by
  intro m
  dsimp only
  rw [hrun]
  cases h : receiverStream call.receiver m with
  | ok s m₁ =>
    obtain ⟨rfl, id, hid, hget⟩ := receiverStream_ok_iff.mp h
    have hchange : routine.change m₁ call = .output (print s m₁) := by
      simp only [Routine.change, hid, Heap.get_eq_ok hget, hprint s m₁]
    have hends := (makes_onConsole (print s m₁)).bind (fun _ => Steady.pure Value.null) m₁
    unfold Ends
    rw [bind_of_ok h, hchange]
    exact hends
  | error e m₁ =>
    have halike := (Steady.receiverStream call.receiver m).of_error h
    have hnothing : routine.change m call = .nothing := by
      unfold Routine.change
      split
      · rename_i id hid
        split
        · rw [if_neg hput]
        · rename_i s hget
          have hget' : m.heap.get id = .ok (.stream s) := by simp [Heap.get, hget]
          cases h.symm.trans (receiverStream_ok_iff.mpr ⟨rfl, id, hid, hget'⟩)
        · rfl
      · rfl
    unfold Ends
    rw [bind_of_error h, hnothing]
    exact halike

/-- What a routine does to its receiver is the change that is told of it. -/
theorem makes_routine (routine : Routine) (call : Invocation) :
    Makes (fun m => routine.change m call) (routine.run call) := by
  by_cases hput : routine = .mapPut
  · subst hput
    exact makes_mapPut call
  by_cases hprint : routine = .print
  · subst hprint
    exact makes_print call (fun s m =>
      s.print m.settings.colorEnabled (printText m.heap call)) rfl (fun _ _ => rfl) hput
  by_cases hprintln : routine = .println
  · subst hprintln
    exact makes_print call (fun s m =>
      s.println m.settings.colorEnabled (printText m.heap call)) rfl (fun _ _ => rfl) hput
  have hnothing : ∀ m, routine.change m call = .nothing := by
    intro m
    have hno : ∀ s colorEnabled text, routine.print? s colorEnabled text = none := by
      intro s colorEnabled text
      cases routine with
      | print => exact absurd rfl hprint
      | println => exact absurd rfl hprintln
      | _ => rfl
    simp only [Routine.change, if_neg hput, hno]
    split
    · split <;> rfl
    · rfl
  simp only [Makes, hnothing]
  exact Steady.routine hput hprint hprintln call

def answerTo (mode : CallMode) (r : MethodRef) (routine : Routine) (args : List Value)
    (receiver : Value) :
    Exec Unit := do
  if !mode.isStatic && receiver.isNull then
    fault (.nullReceiver (r.owner.name ++ "." ++ r.nameType.name))
  let v ← routine.run ⟨r.signature, receiver, args⟩
  if !r.signature.isVoid then push v

theorem callRoutine_eq (mode : CallMode) (r : MethodRef) (routine : Routine) :
    callRoutine mode r routine = onStack (Stack.popCall mode r) >>= fun p =>
      answerTo mode r routine p.1 p.2 := by
  unfold callRoutine Stack.popCall
  cases mode <;> simp only [CallMode.isStatic, if_true, Bool.false_eq_true, if_false,
    onStack_bind, onStack_pure, bind_assoc, pure_bind] <;> rfl

theorem makes_answerTo (mode : CallMode) (r : MethodRef) (routine : Routine) (args : List Value)
    (receiver : Value) :
    Makes (fun m => routine.change m ⟨r.signature, receiver, args⟩)
      (answerTo mode r routine args receiver) := by
  unfold answerTo
  dsimp only
  by_cases hnull : (!mode.isStatic && receiver.isNull) = true
  · rw [if_pos hnull]
    cases receiver with
    | null => exact Steady.fault_bind _
    | _ => simp [Value.isNull] at hnull
  · rw [if_neg hnull]
    refine (makes_routine routine _).bind fun v => ?_
    split
    · exact Steady.push v
    · exact Steady.pure ()

/-- A call changes something only if it is one of a library method. -/
theorem makes_invoke (mode : CallMode) (index : UInt16) :
    Makes (fun m => (Instruction.invoke mode index).change m) (invoke mode index) := by
  intro m
  simp only [Instruction.change]
  change Ends _ (check (m.program.pool.methodRef index) >>= _) m _
  cases m.program.pool.methodRef index with
  | error f => exact .of_throw_bind (.refl m)
  | ok r =>
    change Ends _ (if r.owner.name = m.program.name then (_ : Exec Unit) else _) m _
    by_cases hown : r.owner.name = m.program.name
    · simp only [if_pos hown]
      exact Steady.invokeOwn _ _ _ m
    · simp only [if_neg hown]
      unfold Ends
      rw [invokeLibrary_eq_callRoutine]
      simp only [callChange]
      by_cases howns : Library.owns r.owner.name = true
      · simp only [if_pos howns]
        cases m.library.routine? r.owner.name r.nameType.name r.nameType.descriptor with
        | none => exact Alike.refl m
        | some routine =>
          dsimp only
          rw [callRoutine_eq]
          exact makes_onPopped (fun _ => makes_answerTo _ _ _ _ _)
            (fun _ => determined_routine _ _) m
      · simp only [if_neg howns]
        exact Alike.refl m

end Machine

open Machine in
/-- An instruction makes the change that is told of it, whether it succeeds or fails. -/
theorem Instruction.makes_change (i : Instruction) : Makes (fun m => i.change m) i.run := by
  cases i with
  | operate op => exact Steady.of_get fun _ => Steady.onFrame _
  | loadConstant form index => exact Steady.loadConstant form index
  | store family slot => exact Steady.bind (Steady.onStack _) fun v => Steady.store slot v
  | increment slot delta => exact Steady.increment slot delta
  | arrayLoad =>
    exact Steady.bind (Steady.onStack _) fun i => Steady.bind Steady.popArray fun a =>
      Steady.bind (Steady.elementAt a i) fun _ => Steady.push _
  | arrayStore s => exact makes_arrayStore s
  | arrayLength => exact Steady.bind Steady.popArray fun _ => Steady.push _
  | newArray element => exact makes_newArray element
  | newObjectArray index =>
    intro m
    simp only [change]
    change Ends _ (check (m.program.pool.classRef index) >>= _) m _
    cases m.program.pool.classRef index with
    | error f => exact .of_throw_bind (.refl m)
    | ok c => exact makes_newArray _ m
  | getStatic index => exact makes_getStatic index
  | putStatic index => exact Steady.putStatic index
  | getField index => exact Steady.getField index
  | putField index => exact Steady.putField index
  | new index => exact makes_new index
  | invoke mode index => exact makes_invoke mode index
  | ret family =>
    cases family with
    | none => exact Steady.ret none
    | some family => exact Steady.bind (Steady.onStack _) fun v => Steady.ret (some v)

def Frame.instruction? (f : Frame) : Option Instruction :=
  match f.method.code[f.pc]? with
  | none => none
  | some opcode => match Instruction.decode opcode f.method.code (f.pc + 1) with
    | .ok i _ => some i
    | .error _ _ => none

theorem Frame.instruction?_eq_some_iff {f : Frame} {i : Instruction} :
    f.instruction? = some i ↔ f.Fetches i := by
  unfold instruction? Fetches
  cases hop : f.method.code[f.pc]? with
  | none => simp
  | some opcode =>
    cases hdec : Instruction.decode opcode f.method.code (f.pc + 1) with
    | ok j next => simp [hdec]
    | error e next => simp [hdec]

namespace Machine

variable {m m' : Machine}

def change (m : Machine) : Change :=
  match m.frames with
  | [] => .nothing
  | f :: _ => match f.instruction? with
    | some i => i.change m
    | none => .nothing

theorem change_of_fetches {f : Frame} {rest : List Frame} {i : Instruction}
    (hm : m.frames = f :: rest) (hi : f.Fetches i) : m.change = i.change m := by
  simp only [change, hm, Frame.instruction?_eq_some_iff.mpr hi]

/-- A change is made by the instruction that the current frame is at. -/
theorem fetches_of_change (h : m.change ≠ .nothing) :
    ∃ f rest i, m.frames = f :: rest ∧ f.Fetches i ∧ m.change = i.change m := by
  cases hm : m.frames with
  | nil => exact absurd (by simp only [change, hm]) h
  | cons f rest =>
    cases hi : f.instruction? with
    | none => exact absurd (by simp only [change, hm, hi]) h
    | some i =>
      have hfetch := Frame.instruction?_eq_some_iff.mp hi
      exact ⟨f, rest, i, rfl, hfetch, change_of_fetches hm hfetch⟩

theorem onPopped_congr {α : Type} {x : StackM α} {change : α → Machine → Change}
    (hchange : ∀ a, Determined (change a)) (h : m.Matches m')
    (hoperands : m'.operands = m.operands) :
    onPopped x change m' = onPopped x change m := by
  unfold onPopped
  rw [hoperands]
  cases x m.operands with
  | ok a stack => exact (hchange a).eq m m' h
  | error e stack => rfl

theorem onPopped_regular {α : Type} {x : StackM α} {change : α → Machine → Change}
    (hchange : ∀ a, Determined (change a)) (m : Machine) : (onPopped x change m).Regular := by
  unfold onPopped
  cases x m.operands with
  | ok a stack => exact (hchange a).regular m
  | error e stack => trivial

/-- The change depends on the operands, beside what machines that match have in common. -/
theorem instruction_change_congr (h : m.Matches m') (hoperands : m'.operands = m.operands)
    (i : Instruction) :
    i.change m' = i.change m := by
  have hnew : ∀ element, newArrayChange element m' = newArrayChange element m := fun element =>
    onPopped_congr (determined_newArray element) h hoperands
  cases i with
  | newArray element => exact hnew element
  | newObjectArray index => simp only [Instruction.change, h.program, hnew]
  | arrayStore s => exact onPopped_congr (fun _ => determined_storeChange _ _ _ _) h hoperands
  | getStatic index =>
    simp only [Instruction.change, h.program, libraryStaticChange, h.statics, h.library,
      h.settings]
  | new index => simp only [Instruction.change, h.program, newChange, h.library]
  | invoke mode index =>
    have hcall : ∀ r, callChange mode r m' = callChange mode r m := by
      intro r
      simp only [callChange, h.library,
        onPopped_congr (fun _ => determined_routine _ _) h hoperands]
    simp only [Instruction.change, h.program, hcall]
  | _ => rfl

/-- The changes of all instructions are regular. -/
theorem instruction_change_regular (m : Machine) (i : Instruction) : (i.change m).Regular := by
  cases i with
  | newArray element => exact onPopped_regular (determined_newArray element) m
  | newObjectArray index =>
    unfold Instruction.change
    dsimp only
    split
    · exact onPopped_regular (determined_newArray _) m
    · trivial
  | arrayStore s => exact onPopped_regular (fun _ => determined_storeChange _ _ _ _) m
  | getStatic index =>
    unfold Instruction.change libraryStaticChange
    dsimp only
    split
    · split
      · trivial
      · split <;> trivial
    · trivial
  | new index =>
    unfold Instruction.change newChange
    dsimp only
    split
    · split
      · trivial
      · split <;> trivial
    · trivial
  | invoke mode index =>
    unfold Instruction.change callChange
    dsimp only
    split
    · split
      · trivial
      · split
        · split
          · exact onPopped_regular (fun _ => determined_routine _ _) m
          · trivial
        · trivial
    · trivial
  | _ => trivial

theorem operands_cons {f : Frame} {rest : List Frame} (hm : m.frames = f :: rest) :
    m.operands = f.stack := by
  unfold operands
  rw [hm]

theorem matches_fetched {f : Frame} {rest : List Frame} (hm : m.frames = f :: rest)
    (opcode : UInt8) (next : Nat) : m.Matches (m.fetched f rest opcode next) ∧
      (m.fetched f rest opcode next).operands = m.operands := by
  have hoperands := operands_cons hm
  unfold fetched Machine.log
  split
  · exact ⟨⟨rfl, rfl, rfl, rfl, rfl, Console.sameTexts_log _ _⟩, hoperands.symm⟩
  · exact ⟨⟨rfl, rfl, rfl, rfl, rfl, .refl _⟩, hoperands.symm⟩

/-- A step makes the change of its instruction, whether it succeeds or fails. -/
theorem step_changes (m : Machine) :
    Ends (m.change.apply m).Alike step m fun _ m' => (m.change.apply m).Alike m' := by
  unfold Ends step
  cases hm : m.frames with
  | nil =>
    simp only [change, hm]
    exact Alike.refl m
  | cons f rest =>
    dsimp only
    cases hop : f.method.code[f.pc]? with
    | none =>
      simp only [change, hm, Frame.instruction?, hop]
      exact Alike.refl m
    | some opcode =>
      dsimp only
      rw [execute_eq hm]
      cases hdec : Instruction.decode opcode f.method.code (f.pc + 1) with
      | error e next =>
        simp only [change, hm, Frame.instruction?, hop, hdec]
        exact (matches_fetched hm opcode next).1.alike
      | ok i next =>
        dsimp only
        obtain ⟨hmatches, hoperands⟩ := matches_fetched hm opcode next
        rw [change_of_fetches hm ⟨opcode, next, hop, hdec⟩]
        have halike := (instruction_change_regular m i).alike hmatches
        have hends := i.makes_change (m.fetched f rest opcode next)
        simp only [instruction_change_congr hmatches hoperands i] at hends
        unfold Ends at hends
        cases hrun : i.run (m.fetched f rest opcode next) with
        | ok _ m' =>
          rw [hrun] at hends
          exact halike.trans hends
        | error e m' =>
          rw [hrun] at hends
          exact halike.trans hends

/-- So does every transition, save that the host may put an array of texts on its stack. -/
theorem Transition.changes {Pushable : Machine → Value → Prop} (ht : Transition Pushable m m') :
    (m.change.apply m).Alike m' ∨ m.frames = [] ∧ ∃ args, m' = m.pushTexts args := by
  have hidle : m.frames = [] → m.Alike m' → (m.change.apply m).Alike m' := by
    intro hm h
    simp only [change, hm]
    exact h
  cases ht with
  | push hm hv => exact .inl (hidle hm (.of_eq rfl rfl (.refl _)))
  | pop hm h =>
    unfold hostPop at h
    split at h
    · cases h
    · cases h
      exact .inl (hidle hm (.of_eq rfl rfl (.refl _)))
  | configure hm => exact .inl (hidle hm (.of_eq rfl rfl (.refl _)))
  | texts hm args => exact .inr ⟨hm, args, rfl⟩
  | enter hm h => exact .inl (hidle hm ((Steady.enter _ _ m).of_ok h))
  | refuse hm h =>
    have halike := (Steady.enter _ _ m).of_error h
    exact .inl (hidle hm (halike.trans (.of_eq rfl rfl (.refl _))))
  | step h => exact .inl ((step_changes m).of_ok h.2)
  | fault hm h => exact .inl (((step_changes m).of_error h).trans (.of_eq rfl rfl (.refl _)))

/-- The next instruction makes an array of the given length, with elements of the type. -/
inductive NewArray (m : Machine) : FieldType → Nat → Prop
  | primitive {f : Frame} {rest : List Frame} {element : FieldType} {n : Int32} {below : Stack}
      (hm : m.frames = f :: rest) (hi : f.Fetches (.newArray element))
      (hs : f.stack = .int n :: below) (hn : 0 ≤ n) : NewArray m element n.toInt.toNat
  | object {f : Frame} {rest : List Frame} {index : UInt16} {c : ClassName} {n : Int32}
      {below : Stack} (hm : m.frames = f :: rest) (hi : f.Fetches (.newObjectArray index))
      (hc : m.program.pool.classRef index = .ok c) (hs : f.stack = .int n :: below) (hn : 0 ≤ n) :
      NewArray m (elementType c.name) n.toInt.toNat

inductive StoresElement (m : Machine) (s : ElementStore) (id : Int) (i : Int32) (v : Value) : Prop
  | intro {f : Frame} {rest : List Frame} {below : Stack} (hm : m.frames = f :: rest)
      (hi : f.Fetches (.arrayStore s)) (hs : f.stack = v :: .int i :: .ref id :: below)

/-- The next instruction asks for a static field of a class that is not the loaded one. -/
inductive AsksStatic (m : Machine) (owner name : Bytes) : Prop
  | intro {f : Frame} {rest : List Frame} {index : UInt16} {r : FieldRef}
      (hm : m.frames = f :: rest) (hi : f.Fetches (.getStatic index))
      (hr : m.program.pool.fieldRef index = .ok r) (hforeign : r.owner.name ≠ m.program.name)
      (howner : r.owner.name = owner) (hname : r.nameType.name = name)

/-- The next instruction of the frame `f` calls a library method on the entry with the id; `below`
is what it leaves on the stack. -/
inductive CallsLibrary (m : Machine) (f : Frame) (routine : Routine) (signature : Signature)
    (id : Int) (args : List Value) (below : Stack) : Prop
  | intro {rest : List Frame} {mode : CallMode} {index : UInt16} {r : MethodRef}
      (hm : m.frames = f :: rest) (hi : f.Fetches (.invoke mode index))
      (hmode : mode.isStatic = false) (hr : m.program.pool.methodRef index = .ok r)
      (hforeign : r.owner.name ≠ m.program.name) (howns : Library.owns r.owner.name = true)
      (hroutine : m.library.routine? r.owner.name r.nameType.name r.nameType.descriptor =
        some routine)
      (hsignature : r.signature = signature)
      (hargs : Stack.popArgs signature.params f.stack = .ok args (.ref id :: below))

inductive PutsIntoMap (m : Machine) (id : Int) : Value → Value → Prop
  | intro {f : Frame} {signature : Signature} {args : List Value} {below : Stack}
      (h : m.CallsLibrary f .mapPut signature id args below) :
      PutsIntoMap m id (args.getD 0 .null) (args.getD 1 .null)

/-- What brings the change about: one instruction each. -/
inductive Occasion (m : Machine) : Change → Prop
  | nothing : Occasion m .nothing
  | newArray {element : FieldType} {length : Nat} (h : m.NewArray element length) :
      Occasion m (.make (.array element (Array.replicate length .null)))
  | built {name : Bytes} {blueprint : Blueprint}
      (h : m.library.maker? name = some (.build blueprint)) :
      Occasion m (.make (blueprint.build m.program))
  | stored {s : ElementStore} {id : Int} {i : Int32} {v : Value} {element : FieldType}
      {elements : Array Value} (h : m.StoresElement s id i v)
      (hget : m.heap.get? id = some (.array element elements)) (hi : 0 ≤ i)
      (hlt : i.toInt.toNat < elements.size)
      (hstorable : storable element (narrow element v s) = true) :
      Occasion m (.setElement id i.toInt.toNat (narrow element v s))
  | put {id : Int} {k v : Value} {entries : KeyedMap Value} (h : m.PutsIntoMap id k v)
      (hget : m.heap.get? id = some (.map entries)) :
      Occasion m (.setMap id (entries.put (m.heap.key k) v))
  | opened {owner name : Bytes} {channel : Channel} (h : m.AsksStatic owner name)
      (hnew : m.statics.lookup (staticKey owner name) = none)
      (hsource : m.library.static? owner name = some (.stream channel)) :
      Occasion m (.openStream (staticKey owner name)
        ⟨channel, if channel = .out then m.settings.consoleColor else none⟩)
  | remembered {owner name : Bytes} {v : Value} (h : m.AsksStatic owner name)
      (hnew : m.statics.lookup (staticKey owner name) = none)
      (hsource : m.library.static? owner name = some (.constant v)) :
      Occasion m (.remember (staticKey owner name) v)
  | printed {f : Frame} {routine : Routine} {signature : Signature} {id : Int} {args : List Value}
      {below : Stack} {s : PrintStream} {action : ConsoleM Unit}
      (h : m.CallsLibrary f routine signature id args below)
      (hget : m.heap.get? id = some (.stream s))
      (haction : routine.print? s m.settings.colorEnabled
        (printText m.heap ⟨signature, .ref id, args⟩) = some action) : Occasion m (.output action)

section Occasions

variable {f : Frame} {rest : List Frame}

theorem occasion_newArray {element : FieldType} (hm : m.frames = f :: rest)
    (hnew : ∀ n below, f.stack = .int n :: below → 0 ≤ n → m.NewArray element n.toInt.toNat) :
    m.Occasion (newArrayChange element m) := by
  unfold newArrayChange onPopped
  cases hpop : Stack.popInt m.operands with
  | error e stack => exact .nothing
  | ok n below =>
    dsimp only
    have hoperands : m.operands = .int n :: below := (Stack.popInt_pops _).of_ok hpop
    rw [operands_cons hm] at hoperands
    split
    · exact .nothing
    · rename_i hneg
      exact .newArray (hnew n below hoperands (Int32.not_lt.mp hneg))

theorem popStore_ok {s : ElementStore} {v : Value} {i : Int32} {array : Value}
    {stack below : Stack} (h : Stack.popStore s stack = .ok (v, i, array) below) :
    stack = v :: .int i :: array :: below := by
  obtain ⟨v', s₁, hv, h⟩ := bind_ok_iff.mp h
  obtain ⟨i', s₂, hi, h⟩ := bind_ok_iff.mp h
  obtain ⟨array', s₃, harray, h⟩ := bind_ok_iff.mp h
  cases h
  have h₁ : stack = [v] ++ s₁ := ((storeFamily s).pop_pops stack).of_ok hv
  have h₂ : s₁ = [.int i] ++ s₂ := (Stack.popInt_pops s₁).of_ok hi
  have h₃ : s₂ = [array] ++ below := (Stack.popReference_pops s₂).of_ok harray
  rw [h₁, h₂, h₃]
  rfl

theorem occasion_arrayStore {s : ElementStore} (hm : m.frames = f :: rest)
    (hi : f.Fetches (.arrayStore s)) :
    m.Occasion ((Instruction.arrayStore s).change m) := by
  simp only [Instruction.change, onPopped]
  cases hpop : Stack.popStore s m.operands with
  | error e stack => exact .nothing
  | ok p below =>
    obtain ⟨v, i, array⟩ := p
    have hoperands := popStore_ok hpop
    rw [operands_cons hm] at hoperands
    cases array with
    | ref id =>
      simp only [storeChange]
      split
      · rename_i element elements hget
        split
        · rename_i hconditions
          obtain ⟨hnonneg, hlt, hstorable⟩ := hconditions
          exact .stored ⟨hm, hi, hoperands⟩ hget hnonneg hlt hstorable
        · exact .nothing
      · exact .nothing
    | _ => exact .nothing

theorem occasion_getStatic {index : UInt16} (hm : m.frames = f :: rest)
    (hi : f.Fetches (.getStatic index)) :
    m.Occasion ((Instruction.getStatic index).change m) := by
  simp only [Instruction.change]
  split
  · rename_i r hr
    split
    · exact .nothing
    · rename_i hforeign
      have hasks : m.AsksStatic r.owner.name r.nameType.name := ⟨hm, hi, hr, hforeign, rfl, rfl⟩
      unfold libraryStaticChange
      split
      · rename_i channel hnew hsource
        exact .opened hasks hnew hsource
      · rename_i v hnew hsource
        exact .remembered hasks hnew hsource
      · exact .nothing
  · exact .nothing

theorem popCall_ok {mode : CallMode} {r : MethodRef} {args : List Value} {receiver : Value}
    {stack below : Stack} (h : Stack.popCall mode r stack = .ok (args, receiver) below)
    (hreceiver : receiver ≠ .null) : mode.isStatic = false ∧
      Stack.popArgs r.signature.params stack = .ok args (receiver :: below) := by
  obtain ⟨args', s₁, hargs, h⟩ := bind_ok_iff.mp h
  cases hmode : mode.isStatic with
  | true =>
    rw [if_pos hmode] at h
    cases h
    exact absurd rfl hreceiver
  | false =>
    rw [if_neg (by rw [hmode]; exact nofun)] at h
    obtain ⟨receiver', s₂, hpop, h⟩ := bind_ok_iff.mp h
    cases h
    have hs₁ : s₁ = [receiver] ++ below := (Stack.popReference_pops s₁).of_ok hpop
    rw [hs₁] at hargs
    exact ⟨rfl, hargs⟩

/-- A change by a call is one by the library method that is called. -/
theorem occasion_invoke {mode : CallMode} {index : UInt16} (hm : m.frames = f :: rest)
    (hi : f.Fetches (.invoke mode index)) :
    m.Occasion ((Instruction.invoke mode index).change m) := by
  have hoperands := operands_cons hm
  simp only [Instruction.change]
  split
  · rename_i r hr
    split
    · exact .nothing
    · rename_i hforeign
      unfold callChange
      split
      · rename_i howns
        split
        · rename_i routine hroutine
          unfold onPopped
          cases hpop : Stack.popCall mode r m.operands with
          | error e stack => exact .nothing
          | ok p below =>
            obtain ⟨args, receiver⟩ := p
            cases receiver with
            | ref id =>
              obtain ⟨hmode, hargs⟩ := popCall_ok hpop nofun
              rw [hoperands] at hargs
              have hcalls : m.CallsLibrary f routine r.signature id args below :=
                .intro hm hi hmode hr hforeign howns hroutine rfl hargs
              simp only [Routine.change]
              split
              · rename_i entries hget
                split
                · rename_i hput
                  subst hput
                  exact .put (.intro hcalls) hget
                · exact .nothing
              · rename_i s hget
                split
                · rename_i action haction
                  exact .printed hcalls hget haction
                · exact .nothing
              · exact .nothing
            | _ => exact .nothing
        · exact .nothing
      · exact .nothing
  · exact .nothing

end Occasions

/-- The change that the next step makes has its occasion. -/
theorem change_occasion (m : Machine) : m.Occasion m.change := by
  by_cases hnothing : m.change = .nothing
  · rw [hnothing]
    exact .nothing
  · obtain ⟨f, rest, i, hm, hi, hchange⟩ := fetches_of_change hnothing
    rw [hchange]
    cases i with
    | newArray element => exact occasion_newArray hm fun n below hs hn => .primitive hm hi hs hn
    | newObjectArray index =>
      simp only [Instruction.change]
      split
      · rename_i c hc
        exact occasion_newArray hm fun n below hs hn => .object hm hi hc hs hn
      · exact .nothing
    | arrayStore s => exact occasion_arrayStore hm hi
    | getStatic index => exact occasion_getStatic hm hi
    | new index =>
      simp only [Instruction.change, newChange]
      split
      · split
        · exact .nothing
        · split
          · rename_i hmaker
            exact .built hmaker
          · exact .nothing
      · exact .nothing
    | invoke mode index => exact occasion_invoke hm hi
    | _ => exact .nothing

/-- A call of a library method makes the change of its routine. -/
theorem CallsLibrary.change {f : Frame} {routine : Routine} {signature : Signature} {id : Int}
    {args : List Value} {below : Stack} (h : m.CallsLibrary f routine signature id args below) :
    m.change = routine.change m ⟨signature, .ref id, args⟩ := by
  obtain @⟨rest, mode, index, r, hm, hi, hmode, hr, hforeign, howns, hroutine, rfl, hargs⟩ := h
  have hpop : Stack.popCall mode r m.operands = .ok (args, .ref id) below := by
    rw [operands_cons hm]
    unfold Stack.popCall
    rw [bind_of_ok hargs, if_neg (by rw [hmode]; exact nofun)]
    rfl
  rw [change_of_fetches hm hi]
  simp only [Instruction.change, hr, if_neg hforeign, callChange, if_pos howns, hroutine,
    onPopped, hpop]

theorem CallsLibrary.frames_ne {f : Frame} {routine : Routine} {signature : Signature} {id : Int}
    {args : List Value} {below : Stack} (h : m.CallsLibrary f routine signature id args below) :
    m.frames ≠ [] := by
  obtain ⟨hm, -⟩ := h
  rw [hm]
  exact List.cons_ne_nil _ _

end Machine

end ClassTrace
