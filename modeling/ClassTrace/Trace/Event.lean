import ClassTrace.Log

/-!
Trace events. All values arrive rendered as texts. A report is an event or the description of a
function or a class, and each report also has a log record.
-/
namespace ClassTrace

inductive Event where
  | assign (line : Int) (name old new tag : Bytes)
  | setField (line object : Int) (field old new tag : Bytes)
  | setElement (line array index : Int) (old new tag : Bytes)
  | call (line : Int) (function kind : Bytes) (args : List Bytes)
  | ret (line : Int) (value : Bytes)
deriving DecidableEq, Repr

/-- A method as a document describes it. -/
structure FunctionInfo where
  name : Bytes
  returnType : Bytes
  params : List Bytes
deriving DecidableEq, Repr

/-- A class as a document describes it. -/
structure ClassInfo where
  name : Bytes
  fields : List Bytes
  tag : Bytes
deriving DecidableEq, Repr

inductive Report where
  | function (info : FunctionInfo)
  | classInfo (info : ClassInfo)
  | event (event : Event)
deriving DecidableEq, Repr

namespace Event

def voidValue : Bytes := "void"

def name : Event → Bytes
  | .assign .. => "store"
  | .setField .. => "store_field"
  | .setElement .. => "store_element"
  | .call .. => "call"
  | .ret .. => "return"

def line : Event → Int
  | .assign line .. | .setField line .. | .setElement line .. | .call line .. | .ret line .. =>
    line

def tag : Event → Bytes
  | .assign _ _ _ _ tag | .setField _ _ _ _ _ tag | .setElement _ _ _ _ _ tag => tag
  | .call _ _ kind _ => kind
  | .ret .. => []

def tagged (tag : Bytes) (fields : List (Bytes × LogValue)) : List (Bytes × LogValue) :=
  if tag.isEmpty then fields else fields ++ [(("tag" : Bytes), .text tag)]

def logRecord (e : Event) : LogRecord :=
  let fields : List (Bytes × LogValue) := match e with
    | .assign line name old new tag =>
      tagged tag [("line", .number line), ("name", .text name), ("old", .text old),
        ("new", .text new)]
    | .setField line object field old new tag =>
      tagged tag [("line", .number line), ("object", .number object), ("field", .text field),
        ("old", .text old), ("new", .text new)]
    | .setElement line array index old new tag =>
      tagged tag [("line", .number line), ("array", .number array), ("index", .number index),
        ("old", .text old), ("new", .text new)]
    | .call line function kind args =>
      [("line", .number line), ("function", .text function), ("kind", .text kind),
        ("args", .texts args)]
    | .ret line value => [("line", .number line), ("value", .text value)]
  ⟨.info, fields, e.name⟩

end Event

/-- Descriptions are logged for debugging, events for information. -/
def Report.logRecord : Report → LogRecord
  | .function f =>
    ⟨.debug, [("function", .text f.name), ("return_type", .text f.returnType),
      ("params", .texts f.params)], "define function"⟩
  | .classInfo c =>
    ⟨.debug, [("class", .text c.name), ("fields", .texts c.fields), ("tag", .text c.tag)],
      "define class"⟩
  | .event e => e.logRecord

end ClassTrace
