import ClassTrace.Console
import ClassTrace.Fault
import ClassTrace.Heap.KeyedMap
import ClassTrace.Program

/-!
The heap. Entries are only ever added, and the id of an entry is the number of those before it.
Array elements start as null, and a load reads a null element as the zero of the element type.
-/
namespace ClassTrace

abbrev Fields := List (Bytes × Value)

namespace Fields

def fresh (names : List Bytes) : Fields := names.eraseDups.map (·, .null)

def get? (fields : Fields) (name : Bytes) : Option Value := fields.lookup name

def set (fields : Fields) (name : Bytes) (v : Value) : Fields :=
  fields.map fun f => if f.1 = name then (name, v) else f

end Fields

inductive Entry where
  | object (owner : Bytes) (fields : Fields)
  | array (element : FieldType) (elements : Array Value)
  | integer (v : Int32)
  | map (m : KeyedMap Value)
  | stream (s : PrintStream)

namespace Entry

def sort : Entry → EntrySort
  | .object _ _ => .object
  | .array _ _ => .array
  | .integer _ => .integer
  | .map _ => .map
  | .stream _ => .stream

def element (type : FieldType) (v : Value) : Value := if v.isNull then type.zero else v

/-- A text for the entry with the given id: class and id, or the number in a box. -/
def text (id : Int) : Entry → Bytes
  | .object owner _ => owner.dotted ++ "@" ++ Bytes.decimal id
  | .array element _ => element.spelling ++ "[]@" ++ Bytes.decimal id
  | .integer v => Bytes.decimal v.toInt
  | .map _ => KeyedMap.className.dotted ++ "@" ++ Bytes.decimal id
  | .stream _ => PrintStream.className.dotted ++ "@" ++ Bytes.decimal id

end Entry

def Class.newObject (c : Class) : Entry := .object c.name (Fields.fresh c.fieldNames)

def boxClass : Bytes := "java/lang/Integer"

structure Heap where
  entries : Array Entry := #[]

namespace Heap

def size (h : Heap) : Nat := h.entries.size

def alloc (h : Heap) (e : Entry) : Heap := ⟨h.entries.push e⟩

def next (h : Heap) : Int := h.size

def get? (h : Heap) (id : Int) : Option Entry :=
  if id < 0 then none else h.entries[id.toNat]?

def get (h : Heap) (id : Int) : Except Fault Entry :=
  match h.get? id with
  | some e => .ok e
  | none => .error (.noEntry id)

def object (h : Heap) (id : Int) : Except Fault (Bytes × Fields) := do
  match ← h.get id with
  | .object owner fields => .ok (owner, fields)
  | e => .error (.notObject id e.sort)

def array (h : Heap) (id : Int) : Except Fault (FieldType × Array Value) := do
  match ← h.get id with
  | .array element elements => .ok (element, elements)
  | e => .error (.notArray id e.sort)

def modify (h : Heap) (id : Int) (f : Entry → Entry) : Heap := ⟨h.entries.modify id.toNat f⟩

def setField (h : Heap) (id : Int) (name : Bytes) (v : Value) : Heap :=
  h.modify id fun e => match e with
    | .object owner fields => .object owner (fields.set name v)
    | e => e

def setElement (h : Heap) (id : Int) (index : Nat) (v : Value) : Heap :=
  h.modify id fun e => match e with
    | .array element elements => .array element (elements.setIfInBounds index v)
    | e => e

def setMap (h : Heap) (id : Int) (m : KeyedMap Value) : Heap :=
  h.modify id fun e => match e with
    | .map _ => .map m
    | e => e

def display (h : Heap) (v : Value) : Bytes :=
  match v with
  | .ref id => match h.get? id with
    | some e => e.text id
    | none => v.text
  | v => v.text

/-- The key under which a map holds a value. A value of no known kind is taken for a reference to
the first entry. -/
def key (h : Heap) (v : Value) : Key :=
  match v with
  | .null => .null
  | .int v => .int v
  | .long v => .long v
  | .float v => .float v
  | .double v => .double v
  | .string s => .string s
  | v => match h.get? v.payload with
    | some (.integer v) => .int v
    | some _ => .entry v.payload
    | none => .missing v.payload

end Heap

end ClassTrace
