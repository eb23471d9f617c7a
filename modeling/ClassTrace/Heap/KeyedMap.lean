import ClassTrace.Text.Bytes

/-!
Maps from keys as programs see them. Numbers and strings are keyed by value, a boxed integer by
the integer in it, and any other object by its identity. Float keys are equal when the numbers
are.
-/
namespace ClassTrace

inductive Key where
  | null
  | int (v : Int32)
  | long (v : Int64)
  | float (v : Float32)
  | double (v : Float)
  | string (s : Bytes)
  | entry (id : Int)
  | missing (id : Int)
deriving DecidableEq

namespace Key

/-- Whether two keys designate the same entry. Zeros of either sign do, and a NaN never does. -/
def same : Key → Key → Bool
  | .float a, .float b => a == b
  | .double a, .double b => a == b
  | a, b => a = b

end Key

structure KeyedMap (α : Type) where
  entries : List (Key × α) := []

namespace KeyedMap

variable {α : Type}

def className : Bytes := "java/util/HashMap"

def get? (m : KeyedMap α) (k : Key) : Option α :=
  (m.entries.find? fun e => k.same e.1).map (·.2)

def contains (m : KeyedMap α) (k : Key) : Bool := m.entries.any fun e => k.same e.1

/-- Replaces the entry with the key, key and all, or adds one. -/
def put (m : KeyedMap α) (k : Key) (v : α) : KeyedMap α :=
  if m.contains k then ⟨m.entries.map fun e => if k.same e.1 then (k, v) else e⟩
  else ⟨m.entries ++ [(k, v)]⟩

def size (m : KeyedMap α) : Nat := m.entries.length

end KeyedMap

end ClassTrace
