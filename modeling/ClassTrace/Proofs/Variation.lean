import ClassTrace.Machine.Step
import ClassTrace.Proofs.Follows

/-!
Variations of a machine. A method declares a size for its operand stacks and has tables that tell
source lines and the names of variables; a machine has a bound on the depth of calls and a mode of
branches, and it leaves a document and a console. A variation says how far these may differ
between two machines that otherwise are the same, and which faults excuse the first from going on
like the second. This module has what a variation must satisfy and, with it, what the operations
on one frame do.
-/
namespace ClassTrace

structure Annotations where
  maxStack : Nat
  lines : Array Int
  localVariables : List Variable
  paramNames : List Bytes

def Method.annotations (method : Method) : Annotations :=
  ⟨method.maxStack, method.lines, method.localVariables, method.paramNames⟩

def Method.annotate (method : Method) (t : Annotations) : Method :=
  { method with
    maxStack := t.maxStack
    lines := t.lines
    localVariables := t.localVariables
    paramNames := t.paramNames }

def Event.atLine (line : Int) : Event → Event
  | .assign _ name old new tag => .assign line name old new tag
  | .setField _ object field old new tag => .setField line object field old new tag
  | .setElement _ array index old new tag => .setElement line array index old new tag
  | .call _ function kind args => .call line function kind args
  | .ret _ value => .ret line value

def Frame.assignment (f : Frame) (slot : Nat) (old new : Bytes) : Event :=
  .assign f.line (f.localName slot) old new []

def Frame.annotate (f : Frame) (t : Annotations) : Frame :=
  { f with method := f.method.annotate t }

/-- How far two machines may differ. Of each limit the second has the same, or it has a looser one
and running into the tighter one is excused. The modes of branches may differ in any way. Events
may differ as the tables of the methods make them, and document and console as the events do. -/
structure Variation where
  annotations : Method → Annotations → Prop
  depth : Int → Int → Prop
  branches : Bool → Bool → Prop
  event : Event → Event → Prop
  document : Document → Document → Prop
  console : Console → Console → Prop
  excused : Fault → Prop
  size_cases : ∀ method t, annotations method t → t.maxStack = method.maxStack ∨
    method.maxStack ≤ t.maxStack ∧ excused (.stackFull method.maxStack)
  depth_cases : ∀ d d', depth d d' → d' = d ∨ d ≤ d' ∧ excused (.tooDeep d)
  event_refl : ∀ e, event e e
  event_line : ∀ method t pc (e : Event), annotations method t →
    event (e.atLine (method.line pc)) (e.atLine ((method.annotate t).line pc))
  event_assign : ∀ (f : Frame) t slot old new, annotations f.method t →
    event (f.assignment slot old new) ((f.annotate t).assignment slot old new)
  record : ∀ (d d' : Document) e e', document d d' → event e e' →
    document (d.record (.event e)) (d'.record (.event e'))
  log : ∀ (c c' : Console) r, console c c' → console (c.add (.log r)) (c'.add (.log r))
  logEvent : ∀ (c c' : Console) (e e' : Event), console c c' → event e e' →
    console (c.add (.log e.logRecord)) (c'.add (.log e'.logRecord))
  writes : Console.Respected console

namespace Variation

variable (V : Variation) {α β : Type}

def Frames (f g : Frame) : Prop := ∃ t, V.annotations f.method t ∧ g = f.annotate t

/-- The action on a frame does not notice the variation. -/
def Framed (x : FrameM α) : Prop := Follows V.Frames V.excused Eq x x

variable {V}

namespace Framed

theorem pure (a : α) : V.Framed (Pure.pure a) := Follows.of_pure rfl

theorem throw (e : Fault) : V.Framed (MonadExcept.throw e : FrameM α) := Follows.of_throw e

theorem bind {x : FrameM α} {f : α → FrameM β} (hx : V.Framed x) (hf : ∀ a, V.Framed (f a)) :
    V.Framed (x >>= f) := by
  refine Follows.bind hx ?_
  intro a b hab
  subst hab
  exact hf a

theorem throw_bind (e : Fault) {f : α → FrameM β} :
    V.Framed ((MonadExcept.throw e : FrameM α) >>= f) := Follows.of_throw_bind e

/-- A stack is used in the same way whatever the annotations. -/
theorem onStack (x : StackM α) : V.Framed (Frame.onStack x) := by
  intro f g hfg
  obtain ⟨t, ht, rfl⟩ := hfg
  unfold Frame.onStack
  dsimp only [Frame.annotate]
  cases x f.stack with
  | ok a stack => exact .ok rfl ⟨t, ht, rfl⟩
  | error e stack => exact .error ⟨t, ht, rfl⟩

/-- The only place where the declared size counts. -/
theorem push (v : Value) : V.Framed (Frame.push v) := by
  intro f g hfg
  obtain ⟨t, ht, rfl⟩ := hfg
  have hcases : (f.annotate t).method.maxStack = f.method.maxStack ∨ _ := V.size_cases _ _ ht
  unfold Frame.push
  by_cases hroom : f.stack.length < f.method.maxStack
  · have hroom' : (f.annotate t).stack.length < (f.annotate t).method.maxStack := by
      change f.stack.length < t.maxStack
      rcases V.size_cases _ _ ht with hsize | ⟨hle, -⟩ <;> omega
    rw [if_pos hroom, if_pos hroom']
    exact .ok rfl ⟨t, ht, rfl⟩
  · rw [if_neg hroom]
    rcases hcases with hsize | ⟨-, hexcused⟩
    · have hroom' : ¬ (f.annotate t).stack.length < (f.annotate t).method.maxStack := by
        rw [hsize]
        exact hroom
      rw [if_neg hroom', hsize]
      exact .error ⟨t, ht, rfl⟩
    · exact .excused hexcused

theorem pushAll (values : List Value) : V.Framed (Frame.pushAll values) := by
  induction values with
  | nil => exact pure ()
  | cons v rest ih => exact bind (push v) fun _ => ih

theorem peek (depth : Nat) : V.Framed (Frame.peek depth) := by
  intro f g hfg
  obtain ⟨t, ht, rfl⟩ := hfg
  unfold Frame.peek
  dsimp only [Frame.annotate]
  split
  · exact .ok rfl ⟨t, ht, rfl⟩
  · exact .error ⟨t, ht, rfl⟩

theorem getLocal (i : Int) : V.Framed (Frame.getLocal i) := by
  intro f g hfg
  obtain ⟨t, ht, rfl⟩ := hfg
  unfold Frame.getLocal
  dsimp only [Frame.annotate]
  split
  · split
    · exact .ok rfl ⟨t, ht, rfl⟩
    · exact .error ⟨t, ht, rfl⟩
  · exact .error ⟨t, ht, rfl⟩

theorem setLocal (i : Int) (v : Value) : V.Framed (Frame.setLocal i v) := by
  intro f g hfg
  obtain ⟨t, ht, rfl⟩ := hfg
  unfold Frame.setLocal
  by_cases hi : 0 ≤ i ∧ i + v.slots ≤ f.locals.size
  · have hi' : 0 ≤ i ∧ i + v.slots ≤ (f.annotate t).locals.size := hi
    rw [if_pos hi, if_pos hi']
    exact .ok rfl ⟨t, ht, rfl⟩
  · have hi' : ¬ (0 ≤ i ∧ i + v.slots ≤ (f.annotate t).locals.size) := hi
    rw [if_neg hi, if_neg hi']
    exact .error ⟨t, ht, rfl⟩

theorem jump (offset : Int) : V.Framed (Frame.jump offset) := by
  intro f g hfg
  obtain ⟨t, ht, rfl⟩ := hfg
  unfold Frame.jump
  dsimp only
  by_cases hi : 0 ≤ f.opPc + offset ∧ f.opPc + offset < f.method.code.size
  · have hi' : 0 ≤ (f.annotate t).opPc + offset ∧
        (f.annotate t).opPc + offset < (f.annotate t).method.code.size := hi
    rw [if_pos hi, if_pos hi']
    exact .ok rfl ⟨t, ht, rfl⟩
  · have hi' : ¬ (0 ≤ (f.annotate t).opPc + offset ∧
        (f.annotate t).opPc + offset < (f.annotate t).method.code.size) := hi
    rw [if_neg hi, if_neg hi']
    exact .error ⟨t, ht, rfl⟩

theorem jumpIf (condition : Bool) (offset : Int) : V.Framed (Frame.jumpIf condition offset) := by
  unfold Frame.jumpIf
  split
  · exact jump offset
  · exact pure ()

/-- An instruction that takes one number and pushes what it makes of it. -/
theorem unary {x : StackM α} (make : α → Value) :
    V.Framed (do Frame.push (make (← Frame.onStack x))) :=
  bind (onStack x) fun a => push (make a)

theorem binary {x : StackM α} (make : α → α → Value) :
    V.Framed (do
      let b ← Frame.onStack x
      let a ← Frame.onStack x
      Frame.push (make a b)) :=
  bind (onStack x) fun b => bind (onStack x) fun a => push (make a b)

theorem load (family : Family) (slot : Nat) : V.Framed (Frame.load family slot) := by
  refine bind (getLocal slot) ?_
  intro v
  dsimp only
  split
  · split
    · exact throw_bind _
    · exact push v
  · split
    · exact throw_bind _
    · exact push v

theorem convert (c : Conversion) : V.Framed (Frame.convert c) := by
  cases c <;> exact unary _

theorem intBinary (op : IntOp) : V.Framed (Frame.intBinary op) := by
  refine bind (onStack _) fun b => bind (onStack _) fun a => ?_
  split
  · exact push _
  · exact throw _

theorem longBinary (op : IntOp) : V.Framed (Frame.longBinary op) := by
  unfold Frame.longBinary
  dsimp only
  split
  · rw [map_eq_pure_bind, bind_assoc]
    refine bind (onStack _) fun b => bind (pure _) fun b => bind (onStack _) fun a => ?_
    split
    · exact push _
    · exact throw _
  · refine bind (onStack _) fun b => bind (onStack _) fun a => ?_
    split
    · exact push _
    · exact throw _

theorem tableSwitch (fallback low high : Int32) (offsets : Array Int32) :
    V.Framed (Frame.tableSwitch fallback low high offsets) := by
  refine bind (onStack _) fun key => ?_
  split
  · exact jump _
  · exact jump _

theorem lookupSwitch (fallback : Int32) (pairs : List (Int32 × Int32)) (cut : Option Nat) :
    V.Framed (Frame.lookupSwitch fallback pairs cut) := by
  refine bind (onStack _) fun key => ?_
  split
  · exact throw _
  · split
    · exact jump _
    · exact jump _

theorem shuffle (s : Shuffle) : V.Framed s.run := by
  cases s with
  | pop =>
    refine bind (onStack _) fun v => ?_
    split
    · exact throw _
    · exact pure ()
  | pop2 =>
    refine bind (onStack _) fun v₁ => ?_
    split
    · refine bind (onStack _) fun v₂ => ?_
      split
      · exact throw _
      · exact pure ()
    · exact pure ()
  | dup =>
    refine bind (peek 0) fun v => ?_
    dsimp only
    split
    · exact throw_bind _
    · exact push v
  | dupX1 =>
    refine bind (onStack _) fun v₁ => bind (onStack _) fun v₂ => ?_
    dsimp only
    split
    · exact throw_bind _
    · exact pushAll _
  | dupX2 =>
    refine bind (onStack _) fun v₁ => bind (onStack _) fun v₂ => ?_
    split
    · exact pushAll _
    · exact bind (onStack _) fun v₃ => pushAll _
  | dup2 =>
    refine bind (onStack _) fun v₁ => ?_
    split
    · exact pushAll _
    · exact bind (onStack _) fun v₂ => pushAll _
  | dup2X1 =>
    refine bind (onStack _) fun v₁ => bind (onStack _) fun v₂ => ?_
    split
    · exact pushAll _
    · exact bind (onStack _) fun v₃ => pushAll _
  | dup2X2 =>
    refine bind (onStack _) fun v₁ => bind (onStack _) fun v₂ => ?_
    split
    · exact pushAll _
    · refine bind (onStack _) fun v₃ => ?_
      split
      · exact pushAll _
      · split
        · exact pushAll _
        · exact bind (onStack _) fun v₄ => pushAll _
  | swap =>
    refine bind (onStack _) fun v₁ => bind (onStack _) fun v₂ => ?_
    dsimp only
    split
    · exact throw_bind _
    · exact pushAll _

/-- No operation notices the variation, as long as the mode of branches is the same. -/
theorem operation (legacy : Bool) (op : Operation) : V.Framed (op.run legacy) := by
  cases op with
  | nop => exact pure ()
  | push v => exact push v
  | load family slot => exact load family slot
  | shuffle s => exact shuffle s
  | intBinary op => exact intBinary op
  | longBinary op => exact longBinary op
  | floatBinary op => exact binary _
  | doubleBinary op => exact binary _
  | negInt | negLong | negFloat | negDouble => exact unary _
  | convert c => exact convert c
  | compareLong => exact binary _
  | compareFloat nanIsGreater => exact binary _
  | compareDouble nanIsGreater => exact binary _
  | ifZero condition offset => exact bind (onStack _) fun a => jumpIf _ _
  | ifInts condition offset =>
    exact bind (onStack _) fun b => bind (onStack _) fun a => jumpIf _ _
  | ifSame same offset => exact bind (onStack _) fun b => bind (onStack _) fun a => jumpIf _ _
  | ifNull null offset => exact bind (onStack _) fun v => jumpIf _ _
  | goto offset => exact jump offset
  | tableSwitch fallback low high offsets => exact tableSwitch fallback low high offsets
  | lookupSwitch fallback pairs cut => exact lookupSwitch fallback pairs cut

end Framed

end Variation

end ClassTrace
