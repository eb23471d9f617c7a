import ClassTrace.Instruction.Decode
import ClassTrace.Machine.Call
import ClassTrace.Machine.Memory

/-!
Running a machine step by step. A step fetches the instruction at the current address, decodes it
and runs it; an error tells where it arose.
-/
namespace ClassTrace

/-- The cause of an error, with the location of the step in which it arose if that was added to
it. -/
structure RunError where
  location : Option Location
  cause : Cause
deriving DecidableEq, Repr

/-- The error of a step at the location. A cause that comes with a location is passed on as it
is. -/
def Cause.raisedAt (l : Location) (cause : Cause) : RunError :=
  match cause.location with
  | some _ => ⟨none, cause⟩
  | none => ⟨some l, cause⟩

def RunError.message (e : RunError) : Bytes :=
  match e.location with
  | some l => l.text ++ ": " ++ e.cause.message
  | none => e.cause.message

open Machine in
def Instruction.run : Instruction → Exec Unit
  | .operate op => do onFrame (op.run (← get).settings.legacyBranches)
  | .loadConstant form index => Machine.loadConstant form index
  | .store family slot => do Machine.store slot (← onStack family.pop)
  | .increment slot delta => Machine.increment slot delta
  | .arrayLoad => Machine.arrayLoad
  | .arrayStore s => Machine.arrayStore s
  | .arrayLength => Machine.arrayLength
  | .newArray element => Machine.newArray element
  | .newObjectArray index => Machine.newObjectArray index
  | .getStatic index => Machine.getStatic index
  | .putStatic index => Machine.putStatic index
  | .getField index => Machine.getField index
  | .putField index => Machine.putField index
  | .new index => Machine.new index
  | .invoke mode index => Machine.invoke mode index
  | .ret none => Machine.ret none
  | .ret (some family) => do Machine.ret (some (← onStack family.pop))

def Frame.fetch (opcode : UInt8) : FrameM Instruction := fun f =>
  match Instruction.decode opcode f.method.code f.pc with
  | .ok i pc => .ok i { f with pc }
  | .error e pc => .error e { f with pc }

def Frame.advance (f : Frame) : Frame := { f with opPc := f.pc, pc := f.pc + 1 }

namespace Machine

def execRecord (f : Frame) (opcode : UInt8) : LogRecord :=
  ⟨.trace, [("method", .text f.method.fullName), ("pc", .number f.pc),
    ("op", .text (Opcode.name opcode)), ("stack", .number f.stack.length)], "exec"⟩

def execute (f : Frame) (opcode : UInt8) : Exec Unit := do
  onFrame (modify Frame.advance)
  modify (log (execRecord f opcode))
  let i ← onFrame (Frame.fetch opcode)
  i.run

/-- One step of the current frame. Without a frame there is nothing to do. -/
def step : EStateM RunError Machine Unit := fun m =>
  match m.frames with
  | [] => .ok () m
  | f :: _ => match f.method.code[f.pc]? with
    | none => .error ⟨some ⟨f.method.fullName, f.pc, none⟩, .fault .pastEnd⟩ m
    | some opcode => match execute f opcode m with
      | .ok _ m => .ok () m
      | .error cause m => .error (cause.raisedAt ⟨f.method.fullName, f.pc, some opcode⟩) m

end Machine

end ClassTrace
