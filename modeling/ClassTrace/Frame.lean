import ClassTrace.OperandStack
import ClassTrace.Program

/-!
Frames: one activation of a method, with its locals, its operand stack and the address it is at.
While an instruction runs, `opPc` is its address and `pc` the address after what was read of it.
-/
namespace ClassTrace

structure Frame where
  method : Method
  locals : Array Value
  stack : Stack := []
  pc : Nat := 0
  opPc : Nat := 0
  returnPc : Option Nat := none
deriving DecidableEq

abbrev FrameM := EStateM Fault Frame

namespace Frame

def fresh (m : Method) : Frame := { method := m, locals := Array.replicate m.localSize .null }

/-- The frame with the arguments of a call in the slots of their parameters. -/
def setArgs (f : Frame) (args : List Value) : Frame :=
  { f with
    locals := (f.method.paramSlots.zip args).foldl
      (fun ls (slot, v) => ls.setIfInBounds slot v) f.locals }

def setReceiver (f : Frame) (v : Value) : Frame := { f with locals := f.locals.setIfInBounds 0 v }

def line (f : Frame) : Int := f.method.line f.opPc

def onStack {α : Type} (x : StackM α) : FrameM α := fun f =>
  match x f.stack with
  | .ok a stack => .ok a { f with stack }
  | .error e stack => .error e { f with stack }

/-- A push beyond the declared size of the stack is a fault. -/
def push (v : Value) : FrameM Unit := fun f =>
  if f.stack.length < f.method.maxStack then .ok () { f with stack := v :: f.stack }
  else .error (.stackFull f.method.maxStack) f

def pop : FrameM Value := onStack Stack.pop

def popInt : FrameM Int32 := onStack Stack.popInt

def popLong : FrameM Int64 := onStack Stack.popLong

def popFloat : FrameM Float32 := onStack Stack.popFloat

def popDouble : FrameM Float := onStack Stack.popDouble

def popReference : FrameM Value := onStack Stack.popReference

def peek (depth : Nat) : FrameM Value := fun f =>
  match f.stack[depth]? with
  | some v => .ok v f
  | none => .error .stackEmpty f

def getLocal (i : Int) : FrameM Value := fun f =>
  if 0 ≤ i then
    match f.locals[i.toNat]? with
    | some v => .ok v f
    | none => .error (.badLocal i f.locals.size) f
  else .error (.badLocal i f.locals.size) f

/-- A long or a double takes the next slot too, which becomes null. -/
def setLocal (i : Int) (v : Value) : FrameM Unit := fun f =>
  if 0 ≤ i ∧ i + v.slots ≤ f.locals.size then
    let locals := f.locals.setIfInBounds i.toNat v
    .ok ()
      { f with locals := if v.isWide then locals.setIfInBounds (i.toNat + 1) .null else locals }
  else .error (.badLocal i f.locals.size) f

/-- Control goes to an address relative to that of the instruction being run. -/
def jump (offset : Int) : FrameM Unit := fun f =>
  let target := f.opPc + offset
  if 0 ≤ target ∧ target < f.method.code.size then .ok () { f with pc := target.toNat }
  else .error (.branchOutside target f.method.code.size) f

/-- The name of a slot for a store just done: that of its variable after the instruction, where
the scope of a new variable begins, else at the instruction, else made up. -/
def localName (f : Frame) (slot : Nat) : Bytes :=
  match f.method.variableAt? f.pc slot with
  | some v => v.name
  | none => match f.method.variableAt? f.opPc slot with
    | some v => v.name
    | none => "local" ++ Bytes.decimal slot

end Frame

end ClassTrace
