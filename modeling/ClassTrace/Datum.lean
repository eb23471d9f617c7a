import ClassTrace.Text.Bytes

/-!
Data of no fixed form, as documents may carry for an event. A record has each name once.
-/
namespace ClassTrace

inductive Datum where
  | null
  | bool (b : Bool)
  | int (n : Int)
  | float (x : Float)
  | text (t : Bytes)
  | bytes (b : Bytes)
  | list (items : List Datum)
  | object (fields : List (Bytes × Datum))

namespace Datum

/-- The fields of a record with one more, which replaces an earlier one of its name. -/
def insert (fields : List (Bytes × Datum)) (name : Bytes) (value : Datum) :
    List (Bytes × Datum) :=
  if fields.any (·.1 = name) then fields.map fun f => if f.1 = name then (name, value) else f
  else fields ++ [(name, value)]

/-- A record given field by field, where the last of several values for a name counts. -/
def ofFields (fields : List (Bytes × Datum)) : Datum :=
  .object (fields.foldl (fun all f => insert all f.1 f.2) [])

end Datum

end ClassTrace
