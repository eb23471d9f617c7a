import ClassTrace.Machine.Step

/-!
What the host does with a machine: it pushes arguments, calls static methods and pops results. A
call runs until its method has returned, or for as many steps as it is given.
-/
namespace ClassTrace

/-- How a call from the host ends. -/
inductive Outcome where
  | finished (m : Machine)
  | failed (e : RunError) (m : Machine)
  | unfinished (m : Machine)

namespace Machine

def hostPush (v : Value) (m : Machine) : Machine := { m with host := v :: m.host }

def hostPop (m : Machine) : Except Fault (Value × Machine) :=
  match m.host with
  | [] => .error .stackEmpty
  | v :: rest => .ok (v, { m with host := rest })

def abort (e : RunError) (m : Machine) : Outcome := .failed e { m with frames := [] }

def finish : (fuel : Nat) → Machine → Outcome
  | fuel, m =>
    if m.frames.isEmpty then .finished m
    else match fuel with
      | 0 => .unfinished m
      | fuel + 1 => match step m with
        | .ok _ m => finish fuel m
        | .error e m => abort e m

def call (fuel : Nat) (method : Method) (m : Machine) : Outcome :=
  match enter method .static m with
  | .ok _ m => finish fuel m
  | .error cause m => abort ⟨none, cause⟩ m

def callStatic (fuel : Nat) (method? : Option Method) (missing : Fault) (m : Machine) : Outcome :=
  match method? with
  | some method =>
    if method.isStatic then m.call fuel method else .failed ⟨none, .fault missing⟩ m
  | none => .failed ⟨none, .fault missing⟩ m

def invokeByName (fuel : Nat) (name : Bytes) (m : Machine) : Outcome :=
  m.callStatic fuel (m.program.methodByName? name) (.noStaticMethod m.program.name name [])

def invokeExact (fuel : Nat) (name descriptor : Bytes) (m : Machine) : Outcome :=
  m.callStatic fuel (m.program.method? name descriptor)
    (.noStaticMethod m.program.name name descriptor)

/-- The method that a run starts with: preferably one that takes an array of strings. -/
def entryMethod? (m : Machine) : Option Method :=
  m.program.method? m.settings.entryPoint "([Ljava/lang/String;)V" <|>
    m.program.methodByName? m.settings.entryPoint

def pushTexts (args : List Bytes) (m : Machine) : Machine :=
  let texts := Entry.array (.object "java/lang/String") (args.map Value.string).toArray
  hostPush (.ref m.heap.next) { m with heap := m.heap.alloc texts }

def run (fuel : Nat) (args : List Bytes) (m : Machine) : Outcome :=
  let missing : Fault := .noEntryPoint m.program.name m.settings.entryPoint
  match m.entryMethod? with
  | none => .failed ⟨none, .fault missing⟩ m
  | some method =>
    if !method.isStatic then .failed ⟨none, .fault missing⟩ m
    else if method.signature.params.isEmpty then m.call fuel method
    else (m.pushTexts args).call fuel method

end Machine

end ClassTrace
