import ClassTrace.Datum
import ClassTrace.Number.Decimal
import ClassTrace.Text.Fold

/-!
JSON values as they are read. Numbers keep the parts they are written with, because what a number
means depends on where it stands. An object has its fields as given, repeated names and all.
-/
namespace ClassTrace

/-- A number as it is written, and in parts: its whole digits, the digits after a point and the
power of ten after a mark. -/
structure JsonNumber where
  written : Bytes
  negative : Bool
  whole : Nat
  fraction : Option (List Nat)
  exponent : Option Int
deriving DecidableEq, Repr

inductive JsonValue where
  | null
  | bool (b : Bool)
  | number (n : JsonNumber)
  | text (t : Bytes)
  | list (items : List JsonValue)
  | object (fields : List (Bytes × JsonValue))

namespace JsonNumber

def int? (n : JsonNumber) : Option Int :=
  match n.fraction, n.exponent with
  | none, none =>
    let value : Int := if n.negative then -n.whole else n.whole
    if -0x8000000000000000 ≤ value ∧ value < 0x8000000000000000 then some value else none
  | _, _ => none

def float? (n : JsonNumber) : Option Float :=
  let digits := n.fraction.getD []
  Binary.ofDecimal? n.negative (digits.foldl (fun m d => m * 10 + d) n.whole)
    (n.exponent.getD 0 - digits.length)

end JsonNumber

namespace JsonValue

def isNull : JsonValue → Bool
  | .null => true
  | _ => false

def text? : JsonValue → Option Bytes
  | .text t => some t
  | _ => none

def int? : JsonValue → Option Int
  | .number n => n.int?
  | _ => none

def list? : JsonValue → Option (List JsonValue)
  | .list items => some items
  | _ => none

/-- All values given for a name, which is matched without regard to case. -/
def members? : JsonValue → Option (String → List JsonValue)
  | .object fields =>
    some fun name => (fields.filter fun f => Fold.matchesName name f.1).map (·.2)
  | _ => none

mutual

/-- The data that a value stands for. Every number is a double. -/
def datum? : JsonValue → Option Datum
  | .null => some .null
  | .bool b => some (.bool b)
  | .number n => n.float?.map .float
  | .text t => some (.text t)
  | .list items => (datumItems? items).map .list
  | .object fields => (datumFields? fields).map Datum.ofFields

def datumItems? : List JsonValue → Option (List Datum)
  | [] => some []
  | item :: rest => match datum? item, datumItems? rest with
    | some d, some ds => some (d :: ds)
    | _, _ => none

def datumFields? : List (Bytes × JsonValue) → Option (List (Bytes × Datum))
  | [] => some []
  | (name, value) :: rest => match datum? value, datumFields? rest with
    | some d, some ds => some ((name, d) :: ds)
    | _, _ => none

end

end JsonValue

end ClassTrace
