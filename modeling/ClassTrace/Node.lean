import ClassTrace.Text.Bytes

/-!
Trees of numbers, texts, lists and records, the form in which documents are written.
-/
namespace ClassTrace

inductive Node where
  | number (n : Int)
  | text (t : Bytes)
  | list (items : List Node)
  | object (fields : List (Bytes × Node))

namespace Node

def texts (ts : List Bytes) : Node := .list (ts.map .text)

end Node

end ClassTrace
