import ClassTrace.Node.Cbor
import ClassTrace.Node.Json
import ClassTrace.Text.Quoted
import ClassTrace.Trace.Document

/-!
Documents as they are written: the tree of a document and the formats for it.
-/
namespace ClassTrace

def Node.unlessEmpty (name text : Bytes) : List (Bytes × Node) :=
  if text.isEmpty then [] else [(name, .text text)]

def ClassInfo.node (c : ClassInfo) : Node :=
  .object ([(("name" : Bytes), .text c.name), ("fields", Node.texts c.fields)] ++
    Node.unlessEmpty "tag" c.tag)

def FunctionInfo.node (f : FunctionInfo) : Node :=
  .object [("name", .text f.name), ("returnType", .text f.returnType),
    ("parameters", Node.texts f.params)]

namespace Event

def data : Event → List (Bytes × Node)
  | .assign _ name old new _ =>
    [("name", .text name), ("oldValue", .text old), ("newValue", .text new)]
  | .setField _ object field old new _ =>
    [("objectId", .number object), ("fieldName", .text field), ("oldVal", .text old),
      ("newVal", .text new)]
  | .setElement _ array index old new _ =>
    [("arrayId", .number array), ("index", .number index), ("oldValue", .text old),
      ("newValue", .text new)]
  | .call _ function _ args => [("funcName", .text function), ("args", Node.texts args)]
  | .ret _ value => [("value", .text value)]

def node (e : Event) : Node :=
  .object ([(("line" : Bytes), .number e.line), ("event", .text e.name),
    ("event_data", .object e.data)] ++ Node.unlessEmpty "tag" e.tag)

end Event

def Document.node (d : Document) : Node :=
  .object (Node.unlessEmpty "run_id" d.runId ++
    [(("classes" : Bytes), .list (d.classes.toList.map ClassInfo.node)),
      ("functions", .list (d.functions.toList.map FunctionInfo.node)),
      ("trace", .list (d.trace.toList.map Event.node))])

inductive Format where
  | json
  | pretty
  | cbor
deriving DecidableEq, Repr

namespace Format

def name : Format → Bytes
  | .json => "json"
  | .pretty => "pretty"
  | .cbor => "cbor"

def ofName? (text : Bytes) : Option Format := [json, pretty, cbor].find? fun f => f.name = text

def unknownMessage (text : Bytes) : Bytes := "trace: unknown format " ++ Quoted.text text

/-- The same, with the names to choose from. -/
def choiceMessage (text : Bytes) : Bytes := unknownMessage text ++ " (want json, pretty or cbor)"

end Format

/-- A document in a format, without the end of line that follows a text. -/
def Document.encode (d : Document) (colored : Bool) : Format → Bytes
  | .json => d.node.renderJson .plain 0
  | .pretty => d.node.renderJson (.pretty colored) 0
  | .cbor => d.node.encodeCbor

def Document.writes (d : Document) (colored : Bool) (format : Format) : List Bytes :=
  d.encode colored format :: if format = .cbor then [] else ["\n"]

end ClassTrace
