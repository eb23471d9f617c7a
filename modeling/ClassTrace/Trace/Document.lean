import ClassTrace.Trace.Event

/-!
The document that a run leaves: the functions and classes described and the events in their order.
-/
namespace ClassTrace

structure Document where
  runId : Bytes
  classes : Array ClassInfo := #[]
  functions : Array FunctionInfo := #[]
  trace : Array Event := #[]
deriving DecidableEq, Repr

namespace Document

def record (d : Document) : Report → Document
  | .function f => { d with functions := d.functions.push f }
  | .classInfo c => { d with classes := d.classes.push c }
  | .event e => { d with trace := d.trace.push e }

def count (d : Document) (name : Bytes) : Nat := d.trace.countP (·.name == name)

end Document

end ClassTrace
