import ClassTrace.Machine
import ClassTrace.Number.Extremum
import ClassTrace.Number.Power
import ClassTrace.Text.Utf16

/-!
What library methods do. A routine gets its arguments as they were popped; it reads of each the
number or text that it needs. A routine that works on a heap entry checks what its receiver refers
to.
-/
namespace ClassTrace

/-- A call of a library method. The receiver is null for static methods. -/
structure Invocation where
  signature : Signature
  receiver : Value := .null
  args : List Value := []
deriving DecidableEq

namespace Invocation

def arg (call : Invocation) (i : Nat) : Value := call.args.getD i .null

end Invocation

namespace Machine

/-- The id and the entry that a receiver refers to; `want` is the sort that is expected. -/
def receiverEntry (want : EntrySort) (v : Value) : Exec (Int × Entry) := do
  match v with
  | .null => fault .nullDereference
  | .ref id => return (id, ← check ((← get).heap.get id))
  | v => fault (.notReceiver want v.kind)

def receiverInt (v : Value) : Exec Int32 := do
  match ← receiverEntry .integer v with
  | (_, .integer n) => pure n
  | (id, e) => fault (.wrongReceiver id e.sort .integer)

def receiverMap (v : Value) : Exec (Int × KeyedMap Value) := do
  match ← receiverEntry .map v with
  | (id, .map m) => pure (id, m)
  | (id, e) => fault (.wrongReceiver id e.sort .map)

def receiverStream (v : Value) : Exec PrintStream := do
  match ← receiverEntry .stream v with
  | (_, .stream s) => pure s
  | (id, e) => fault (.wrongReceiver id e.sort .stream)

def receiverText (v : Value) : Exec Bytes :=
  match v with
  | .string s => pure s
  | .null => fault .nullDereference
  | v => fault (.notString v.kind)

/-- A refused write is an error from outside. -/
def onConsole (x : ConsoleM Unit) : Exec Unit := fun m =>
  match x m.console with
  | .ok _ console => .ok () { m with console }
  | .error e console => .error (.outside e) { m with console }

/-- The text of a value printed at a type: a boolean by its name, a character as itself. -/
def printable (h : Heap) (v : Value) : FieldType → Bytes
  | .primitive .boolean => if v.asInt ≠ 0 then "true" else "false"
  | .primitive .char => Bytes.ofChar (Utf16.charOfUnit v.asInt.toUInt32.toUInt16)
  | _ => h.display v

/-- The text that a print routine writes: its first argument, if it takes any. -/
def printText (h : Heap) (call : Invocation) : Bytes :=
  match call.args, call.signature.params with
  | v :: _, t :: _ => printable h v t
  | _, _ => []

def mapGet (call : Invocation) : Exec Value := do
  let (_, entries) ← receiverMap call.receiver
  let key := (← get).heap.key (call.arg 0)
  return (entries.get? key).getD .null

/-- Returns the previous value, or null if there was none. -/
def mapPut (call : Invocation) : Exec Value := do
  let (id, entries) ← receiverMap call.receiver
  let key := (← get).heap.key (call.arg 0)
  modify fun m => { m with heap := m.heap.setMap id (entries.put key (call.arg 1)) }
  return (entries.get? key).getD .null

def mapContainsKey (call : Invocation) : Exec Value := do
  let (_, entries) ← receiverMap call.receiver
  let key := (← get).heap.key (call.arg 0)
  return .bool (entries.contains key)

def stringCharAt (call : Invocation) : Exec Value := do
  let units := Utf16.units (← receiverText call.receiver)
  let i := (call.arg 0).asInt
  if i < 0 then fault (.badStringIndex i units.length)
  else match units[i.toInt.toNat]? with
    | some u => return .int u.toUInt32.toInt32
    | none => fault (.badStringIndex i units.length)

/-- Operations on singles are done as doubles. -/
def onSingles (f : Float → Float → Float) (call : Invocation) : Value :=
  .float (f (call.arg 0).asFloat.toFloat (call.arg 1).asFloat.toFloat).toFloat32

def onDoubles (f : Float → Float → Float) (call : Invocation) : Value :=
  .double (f (call.arg 0).asDouble (call.arg 1).asDouble)

end Machine

open Machine in
/-- Runs a routine. Those without a result return null. -/
def Routine.run (call : Invocation) : Routine → Exec Value
  | .print => do
    let s ← receiverStream call.receiver
    let m ← get
    onConsole (s.print m.settings.colorEnabled (printText m.heap call))
    return .null
  | .println => do
    let s ← receiverStream call.receiver
    let m ← get
    onConsole (s.println m.settings.colorEnabled (printText m.heap call))
    return .null
  | .minInt => return .int (min (call.arg 0).asInt (call.arg 1).asInt)
  | .maxInt => return .int (max (call.arg 0).asInt (call.arg 1).asInt)
  | .minLong => return .long (min (call.arg 0).asLong (call.arg 1).asLong)
  | .maxLong => return .long (max (call.arg 0).asLong (call.arg 1).asLong)
  | .minFloat => return onSingles Extremum.lesser call
  | .maxFloat => return onSingles Extremum.greater call
  | .minDouble => return onDoubles Extremum.lesser call
  | .maxDouble => return onDoubles Extremum.greater call
  | .power => return onDoubles Power.power call
  | .absInt =>
    let v := (call.arg 0).asInt
    return .int (if v < 0 then -v else v)
  | .absLong =>
    let v := (call.arg 0).asLong
    return .long (if v < 0 then -v else v)
  | .absFloat => return .float (call.arg 0).asFloat.toFloat.abs.toFloat32
  | .absDouble => return .double (call.arg 0).asDouble.abs
  | .squareRoot => return .double (call.arg 0).asDouble.sqrt
  | .nothing => return .null
  | .box => alloc (.integer (call.arg 0).asInt)
  | .unbox => return .int (← receiverInt call.receiver)
  | .stringLength => return .int (Int32.ofNat (Utf16.units (← receiverText call.receiver)).length)
  | .stringCharAt => Machine.stringCharAt call
  | .mapGet => Machine.mapGet call
  | .mapPut => Machine.mapPut call
  | .mapContainsKey => Machine.mapContainsKey call
  | .mapSize => return .int (Int32.ofNat (← receiverMap call.receiver).2.size)
  | .constant v => return v
  | .failing error => throw (.outside error)

end ClassTrace
