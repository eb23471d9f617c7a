import ClassTrace.Cbor.Parser
import ClassTrace.Json.Parser
import ClassTrace.Trace.Format

/-!
Documents as they are read back. Lists that a document leaves out are absent, and the data of an
event is whatever the document has. What a document gives more than once is settled field by
field.
-/
namespace ClassTrace

structure ClassRow where
  name : Bytes := []
  fields : Option (List Bytes) := none
  tag : Bytes := []

structure FunctionRow where
  name : Bytes := []
  returnType : Bytes := []
  params : Option (List Bytes) := none

structure EventRow where
  line : Int := 0
  event : Bytes := []
  data : Datum := .null
  tag : Bytes := []

structure Archive where
  runId : Bytes := []
  classes : Option (List ClassRow) := none
  functions : Option (List FunctionRow) := none
  trace : Option (List EventRow) := none

/-- How the values of a format are looked at. The values for a name are those that count, in
order. -/
structure ValueView (α : Type) where
  isNull : α → Bool
  text? : α → Option Bytes
  int? : α → Option Int
  list? : α → Option (List α)
  members? : α → Option (String → List α)
  datum? : α → Option Datum

def JsonValue.view : ValueView JsonValue where
  isNull := isNull
  text? := text?
  int? := int?
  list? := list?
  members? := members?
  datum? := datum?

def CborItem.view : ValueView CborItem where
  isNull := isNull
  text? := text?
  int? := int?
  list? := list?
  members? := members?
  datum? := datum?

namespace ValueView

variable {α β : Type} (view : ValueView α)

/-- The text that was given last. Null leaves the one before. -/
def text (values : List α) : Option Bytes :=
  ((values.filter fun v => !view.isNull v).mapM view.text?).map fun texts =>
    texts.getLast?.getD []

def int (values : List α) : Option Int :=
  ((values.filter fun v => !view.isNull v).mapM view.int?).map fun numbers =>
    numbers.getLast?.getD 0

def datum (values : List α) : Option Datum :=
  (values.mapM view.datum?).map fun data => data.getLast?.getD .null

def lists (values : List α) : Option (List (Option (List α))) :=
  values.mapM fun v => if view.isNull v then some none else (view.list? v).map some

/-- Divides lists into groups: one that is null or empty begins a new group after it. -/
def groups : List (Option (List α)) → List (List (List α))
  | [] => [[]]
  | none :: rest => [] :: groups rest
  | some [] :: rest => [] :: groups rest
  | some items :: rest => match groups rest with
    | group :: others => (items :: group) :: others
    | [] => [[items]]

/-- The items in each place of some lists, read one over the other. -/
def columns (read : List α → Option β) (lists : List (List α)) : Option (List β) :=
  let width := (lists.map List.length).foldl max 0
  (List.range width).mapM fun i => read (lists.filterMap fun items => items[i]?)

/-- The list that was given last. Its items are read over those of the lists before it in their
places, unless there was none or an empty list in between. Null takes the whole list away. -/
def list (read : List α → Option β) (values : List α) : Option (Option (List β)) := do
  let lists ← view.lists values
  let items ← (groups lists).mapM (columns read)
  return (lists.getLast?.join).map fun shown => (items.getLast?.getD []).take shown.length

def texts (values : List α) : Option (Option (List Bytes)) := view.list view.text values

/-- All values that records give for a name. A record that is null gives none. -/
def record (values : List α) : Option (String → List α) := do
  let records ← (values.filter fun v => !view.isNull v).mapM view.members?
  return fun name => records.flatMap fun get => get name

def classRow (values : List α) : Option ClassRow := do
  let get ← view.record values
  let fields ← view.texts (get "fields")
  return { name := ← view.text (get "name"), fields, tag := ← view.text (get "tag") }

def functionRow (values : List α) : Option FunctionRow := do
  let get ← view.record values
  let params ← view.texts (get "parameters")
  return { name := ← view.text (get "name"),
           returnType := ← view.text (get "returnType"), params }

def eventRow (values : List α) : Option EventRow := do
  let get ← view.record values
  let line ← view.int (get "line")
  let data ← view.datum (get "event_data")
  return { line, event := ← view.text (get "event"), data, tag := ← view.text (get "tag") }

def archive (v : α) : Option Archive := do
  let get ← view.record [v]
  let classes ← view.list view.classRow (get "classes")
  let functions ← view.list view.functionRow (get "functions")
  let trace ← view.list view.eventRow (get "trace")
  return { runId := ← view.text (get "run_id"), classes, functions, trace }

end ValueView

/-- Reads a document. Both forms of JSON are read alike. -/
def Archive.decode (input : Bytes) : Format → Option Archive
  | .json | .pretty => (JsonValue.parse input).toOption >>= JsonValue.view.archive
  | .cbor => CborItem.parse input >>= CborItem.view.archive

end ClassTrace
