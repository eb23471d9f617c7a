import ClassTrace.Frame.Operation
import ClassTrace.Machine.Routine

/-!
Calls and returns. A call takes its arguments off the caller's stack; a return leaves its value
there.
-/
namespace ClassTrace

/-- How a method was called, as trace events tell it. -/
inductive CallKind where
  | static
  | method
  | constructor
deriving DecidableEq, Repr

def CallKind.name : CallKind → Bytes
  | .static => "static"
  | .method => "method"
  | .constructor => "constructor"

/-- The frame of a caller that goes on after a call. It gets the value
whatever the size of its stack. -/
def Frame.resume (f : Frame) (returnPc : Option Nat) (v : Option Value) : Frame :=
  { f with pc := returnPc.getD f.pc, stack := v.toList ++ f.stack }

namespace Machine

def shownReturn (f : Frame) : Int := match f.returnPc with
  | some pc => pc
  | none => -1

def resumeAt (m : Machine) : Option Nat := m.frames.head?.map (·.pc)

def enter (method : Method) (kind : CallKind) : Exec Unit := do
  if !method.hasCode then fault (.noCode method.fullName)
  let maxDepth := (← get).settings.maxDepth
  if maxDepth ≤ (← get).frames.length then fault (.tooDeep maxDepth)
  let args ← onStack (Stack.popArgs method.signature.params)
  let mut f := Frame.fresh method
  if !method.isStatic then
    let receiver ← onStack Stack.popReference
    if receiver.isNull then fault (.nullReceiver method.fullName)
    f := f.setReceiver receiver
  let line := (← get).line
  f := { f.setArgs args with returnPc := resumeAt (← get) }
  modify fun m => { m with frames := f :: m.frames }
  let shown := args.map (← get).heap.display
  emit (.call line method.name kind.name shown)
  modify fun m => m.log ⟨.debug, [("method", .text method.fullName), ("kind", .text kind.name),
    ("depth", .number m.frames.length), ("return_pc", .number (shownReturn f)),
    ("args", .texts shown)], "call"⟩

/-- Ends the current frame and hands the value, if there is one, to the caller. -/
def ret (v : Option Value) : Exec Unit := do
  let heap := (← get).heap
  match (← get).frames with
  | [] => fault .stackEmpty
  | f :: rest =>
    let shown := match v with
      | some v => heap.display v
      | none => Event.voidValue
    modify fun m => { m with frames := rest }
    emit (.ret f.line shown)
    modify fun m => match rest with
      | [] => { m with host := v.toList ++ m.host }
      | caller :: below => { m with frames := caller.resume f.returnPc v :: below }
    modify fun m => m.log ⟨.debug, [("method", .text f.method.fullName), ("value", .text shown),
      ("depth", .number m.frames.length), ("return_pc", .number (shownReturn f))], "return"⟩

def invokeOwn (mode : CallMode) (name descriptor : Bytes) : Exec Unit := do
  let program := (← get).program
  match program.method? name descriptor with
  | none => fault (.unknownMethod program.name name descriptor)
  | some method =>
    if method.isStatic ≠ mode.isStatic then fault (.calledAs method.fullName mode.opcode)
    enter method (match mode with
      | .static => .static
      | .virtual => .method
      | .special => if name = "<init>" then .constructor else .method)

def invokeLibrary (mode : CallMode) (r : MethodRef) : Exec Unit := do
  let owner := r.owner.name
  let name := r.nameType.name
  if !Library.owns owner then fault (.unloadedClass owner)
  match (← get).library.routine? owner name r.nameType.descriptor with
  | none => fault (.unknownMethod owner name r.nameType.descriptor)
  | some routine =>
    let args ← onStack (Stack.popArgs r.signature.params)
    let receiver ← if mode.isStatic then pure .null else onStack Stack.popReference
    if !mode.isStatic && receiver.isNull then fault (.nullReceiver (owner ++ "." ++ name))
    let v ← routine.run ⟨r.signature, receiver, args⟩
    if !r.signature.isVoid then push v

def invoke (mode : CallMode) (index : UInt16) : Exec Unit := do
  let program := (← get).program
  let r ← check (program.pool.methodRef index)
  if r.owner.name = program.name then invokeOwn mode r.nameType.name r.nameType.descriptor
  else invokeLibrary mode r

end Machine

end ClassTrace
