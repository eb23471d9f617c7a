import ClassTrace.Fault

/-!
Operand stacks, the top first. A pop that finds a value of the wrong kind has taken it all the
same.
-/
namespace ClassTrace

abbrev Stack := List Value

abbrev StackM := EStateM Fault Stack

namespace Stack

def pop : StackM Value
  | [] => .error .stackEmpty []
  | v :: rest => .ok v rest

def popInt : StackM Int32 := do
  match ← pop with
  | .int v => pure v
  | v => throw (.wrongKind .int v.kind)

def popLong : StackM Int64 := do
  match ← pop with
  | .long v => pure v
  | v => throw (.wrongKind .long v.kind)

def popFloat : StackM Float32 := do
  match ← pop with
  | .float v => pure v
  | v => throw (.wrongKind .float v.kind)

def popDouble : StackM Float := do
  match ← pop with
  | .double v => pure v
  | v => throw (.wrongKind .double v.kind)

/-- Null, a string or a heap reference. -/
def popReference : StackM Value := do
  let v ← pop
  if v.isReference then pure v else throw (.notReference v.kind)

def popTyped : FieldType → StackM Value
  | .primitive .long => return .long (← popLong)
  | .primitive .float => return .float (← popFloat)
  | .primitive .double => return .double (← popDouble)
  | .primitive _ => return .int (← popInt)
  | _ => popReference

/-- A field whose type is void takes an int. -/
def popResult : ResultType → StackM Value
  | .void => return .int (← popInt)
  | .value t => popTyped t

/-- The arguments of a call in the order of the parameters; the last one is on top. -/
def popArgs (params : List FieldType) : StackM (List Value) := do
  let args ← params.reverse.mapM popTyped
  return args.reverse

end Stack

end ClassTrace
