import ClassTrace.Datum
import ClassTrace.Text.Fold

/-!
CBOR items as they are read. A text has its chunks as given; only where a text is used do they
have to be UTF-8. A map has its keys and values as given, repeated keys and all.
-/
namespace ClassTrace

inductive CborItem where
  | unsigned (n : Nat)
  /-- The number `-1 - n`. -/
  | negative (n : Nat)
  | bytes (b : Bytes)
  | text (chunks : List Bytes)
  | list (items : List CborItem)
  | map (entries : List (CborItem × CborItem))
  | tag (number : Nat) (content : CborItem)
  | null
  | bool (b : Bool)
  | simple (n : Nat)
  | float (x : Float)

namespace CborItem

def tagFits (number : Nat) (content : CborItem) : Bool :=
  match number, content with
  | 0, .text _ => true
  | 1, .unsigned _ | 1, .negative _ | 1, .float _ => true
  | 2, .bytes _ | 3, .bytes _ => true
  | n, _ => 3 < n

/-- The item under its tags. Bytes tagged as a number are that number. -/
def untagged? : CborItem → Option CborItem
  | .tag number content =>
    if tagFits number content then
      match number, content with
      | 2, .bytes b => some (.unsigned b.toNat)
      | 3, .bytes b => some (.negative b.toNat)
      | _, content => untagged? content
    else none
  | item => some item

def isNull : CborItem → Bool
  | .null => true
  | .tag _ content => content.isNull
  | _ => false

def join? (chunks : List Bytes) : Option Bytes :=
  if chunks.all Utf8.isValid then some chunks.flatten else none

def text? (item : CborItem) : Option Bytes :=
  match item.untagged? with
  | some (.text chunks) => join? chunks
  | _ => none

def int? (item : CborItem) : Option Int :=
  let fitting (n : Int) : Option Int :=
    if -0x8000000000000000 ≤ n ∧ n < 0x8000000000000000 then some n else none
  match item.untagged? with
  | some (.unsigned n) | some (.simple n) => fitting n
  | some (.negative n) => fitting (-1 - n)
  | _ => none

def list? (item : CborItem) : Option (List CborItem) :=
  match item.untagged? with
  | some (.list items) => some items
  | _ => none

/-- The name that a key is. Integers are keys too, but name nothing. -/
def name? : CborItem → Option (Option Bytes)
  | .text chunks => (join? chunks).map some
  | .unsigned _ | .negative _ => some none
  | _ => none

/-- The first value given for a name, which is matched without regard to case. -/
def members? (item : CborItem) : Option (String → List CborItem) := do
  let .map entries ← item.untagged? | none
  let named ← entries.mapM fun (key, value) => (name? key).map (·, value)
  return fun name => ((named.filter fun (key, _) => match key with
    | some key => key.length = name.utf8ByteSize && Fold.matchesName name key
    | none => false).map (·.2)).take 1

mutual

/-- The data that an item stands for. The keys of maps have to be texts. -/
def datum? : CborItem → Option Datum
  | .unsigned n => some (.int n)
  | .negative n => some (.int (-1 - n))
  | .bytes b => some (.bytes b)
  | .text chunks => (join? chunks).map .text
  | .list items => (datumItems? items).map .list
  | .map entries => (datumEntries? entries).map Datum.ofFields
  | .tag number content =>
    if tagFits number content then
      match number, content with
      | 2, .bytes b => some (.int b.toNat)
      | 3, .bytes b => some (.int (-1 - b.toNat))
      | _, content => datum? content
    else none
  | .null => some .null
  | .bool b => some (.bool b)
  | .simple n => some (.int n)
  | .float x => some (.float x)

def datumItems? : List CborItem → Option (List Datum)
  | [] => some []
  | item :: rest => match datum? item, datumItems? rest with
    | some d, some ds => some (d :: ds)
    | _, _ => none

def datumEntries? : List (CborItem × CborItem) → Option (List (Bytes × Datum))
  | [] => some []
  | (key, value) :: rest => match text? key, datum? value, datumEntries? rest with
    | some name, some d, some ds => some ((name, d) :: ds)
    | _, _, _ => none

end

end CborItem

end ClassTrace
