import ClassTrace.Frame
import ClassTrace.Library
import ClassTrace.Trace.Document

/-!
The machine that runs the methods of one class. Its state holds everything that a call can change:
the host's operand stack, the frames with the innermost first, the heap, the library statics made
so far, the document of the trace and what was shown. A failing action keeps the changes made
before it failed.
-/
namespace ClassTrace

/-- `recording` is whether reports reach the document, `loggingReports` whether they are logged
too. -/
structure Settings where
  entryPoint : Bytes := "main"
  maxDepth : Int := 1024
  legacyBranches : Bool := false
  consoleColor : Option (List Nat) := some [33]
  colorEnabled : Bool := false
  logThreshold : Threshold := .disabled
  recording : Bool := true
  loggingReports : Bool := false
deriving DecidableEq

structure Machine where
  program : Class
  library : Library
  settings : Settings
  heap : Heap := {}
  statics : List (Bytes × Value) := []
  host : Stack := []
  frames : List Frame := []
  document : Document
  console : Console := {}

/-- Why an action of the machine fails: a fault, or an error that comes from outside of it. -/
inductive Cause where
  | fault (f : Fault)
  | outside (error : OutsideError)
deriving DecidableEq, Repr

def Cause.message : Cause → Bytes
  | .fault f => f.message
  | .outside error => error.message

/-- The location that comes with an error from outside. -/
def Cause.location : Cause → Option Location
  | .fault _ => none
  | .outside error => error.location

abbrev Exec := EStateM Cause Machine

namespace Machine

def fault {α : Type} (f : Fault) : Exec α := throw (.fault f)

def check {α : Type} : Except Fault α → Exec α
  | .ok a => pure a
  | .error f => fault f

def log (r : LogRecord) (m : Machine) : Machine :=
  if m.settings.logThreshold.admits r.severity then
    { m with console := m.console.add (.log r) } else m

def report (r : Report) (m : Machine) : Machine :=
  let m := if m.settings.recording then { m with document := m.document.record r } else m
  if m.settings.loggingReports then { m with console := m.console.add (.log r.logRecord) } else m

def emit (e : Event) : Exec Unit := modify (report (.event e))

def display (v : Value) : Exec Bytes := return (← get).heap.display v

def onFrame {α : Type} (x : FrameM α) : Exec α := fun m =>
  match m.frames with
  | [] => .error (.fault .stackEmpty) m
  | f :: rest => match x f with
    | .ok a f => .ok a { m with frames := f :: rest }
    | .error e f => .error (.fault e) { m with frames := f :: rest }

/-- An action on the operand stack in use: that of the current frame, or the host's if there is
none. -/
def onStack {α : Type} (x : StackM α) : Exec α := fun m =>
  match m.frames with
  | [] => match x m.host with
    | .ok a host => .ok a { m with host }
    | .error e host => .error (.fault e) { m with host }
  | f :: rest => match Frame.onStack x f with
    | .ok a f => .ok a { m with frames := f :: rest }
    | .error e f => .error (.fault e) { m with frames := f :: rest }

def push (v : Value) : Exec Unit := onFrame (Frame.push v)

/-- The source line of the instruction being run, -1 for the host. -/
def line (m : Machine) : Int :=
  match m.frames with
  | [] => -1
  | f :: _ => f.line

def alloc (e : Entry) : Exec Value := fun m =>
  .ok (.ref m.heap.next) { m with heap := m.heap.alloc e }

def singleton (m : Machine) : Except Fault (Bytes × Fields) := m.heap.object 0

/-- A machine for a class: its methods and the class are reported, and the first heap entry is
made. -/
def start (program : Class) (library : Library) (settings : Settings) (runId : Bytes)
    (console : Console) : Machine :=
  let m : Machine := { program, library, settings, document := { runId }, console }
  let m := program.methods.foldl
    (fun m f => m.report (.function ⟨f.name, f.signature.result.spelling, f.paramNames⟩)) m
  let m := m.report (.classInfo ⟨program.name, program.fieldNames, []⟩)
  { m with heap := m.heap.alloc program.newObject }

end Machine

end ClassTrace
