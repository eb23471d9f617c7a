import ClassTrace.Node
import ClassTrace.Text.Utf8

/-!
Writing trees as JSON, each item and each field on a line of its own. A style says how texts are
escaped, whether fields are sorted by name, and whether terminal colors are added.
-/
namespace ClassTrace.Node

structure JsonStyle where
  escapesMarkup : Bool
  sorted : Bool
  colored : Bool
deriving DecidableEq, Repr

namespace JsonStyle

/-- For other programs to read. -/
def plain : JsonStyle := ⟨true, false, false⟩

/-- For people to read. -/
def pretty (colored : Bool) : JsonStyle := ⟨false, true, colored⟩

def paint (style : JsonStyle) (color text : Bytes) : Bytes :=
  if style.colored then "\x1b[" ++ color ++ "m" ++ text ++ "\x1b[0;22m" else text

def keyColor : Bytes := "34;1"

def textColor : Bytes := "32;1"

def numberColor : Bytes := "36;1"

/-- Control characters, quotes, backslashes and line separators are escaped, and markup on demand.
A stray byte is written as the replacement character. -/
def escape (style : JsonStyle) : Utf8.Piece → Bytes
  | .stray _ => Bytes.ofChar Utf8.replacement
  | .char c => match c.toNat with
    | 8 => "\\b"
    | 9 => "\\t"
    | 10 => "\\n"
    | 12 => "\\f"
    | 13 => "\\r"
    | 34 => "\\\""
    | 92 => "\\\\"
    | n =>
      let isMarkup := c = '<' ∨ c = '>' ∨ c = '&'
      if n < 0x20 ∨ n = 0x2028 ∨ n = 0x2029 ∨ (style.escapesMarkup ∧ isMarkup) then
        "\\u" ++ Bytes.hex 4 n
      else Bytes.ofChar c

def quote (style : JsonStyle) (t : Bytes) : Bytes :=
  "\"" ++ (Utf8.pieces t).flatMap style.escape ++ "\""

end JsonStyle

def indent (depth : Nat) : Bytes := List.replicate (2 * depth) ' '.toUInt8

/-- Lines between brackets, each a level deeper than the brackets. -/
def block (opening closing : Bytes) (depth : Nat) (lines : List Bytes) : Bytes :=
  if lines.isEmpty then opening ++ closing
  else
    opening ++ "\n" ++ Bytes.join ",\n" (lines.map fun line => indent (depth + 1) ++ line) ++
      "\n" ++ indent depth ++ closing

def fieldLines (style : JsonStyle) (fields : List (Bytes × Bytes)) : List Bytes :=
  let fields := if style.sorted then fields.mergeSort fun a b => Bytes.le a.1 b.1 else fields
  fields.map fun (key, value) => style.paint JsonStyle.keyColor (style.quote key) ++ ": " ++ value

mutual

/-- The text of a tree whose first line starts at a depth already indented. -/
def renderJson (style : JsonStyle) (depth : Nat) : Node → Bytes
  | .number n => style.paint JsonStyle.numberColor (Bytes.decimal n)
  | .text t => style.paint JsonStyle.textColor (style.quote t)
  | .list items => block "[" "]" depth (renderItems style (depth + 1) items)
  | .object fields =>
    block "\x7b" "\x7d" depth (fieldLines style (renderFields style (depth + 1) fields))

def renderItems (style : JsonStyle) (depth : Nat) : List Node → List Bytes
  | [] => []
  | item :: rest => renderJson style depth item :: renderItems style depth rest

def renderFields (style : JsonStyle) (depth : Nat) : List (Bytes × Node) → List (Bytes × Bytes)
  | [] => []
  | (key, value) :: rest => (key, renderJson style depth value) :: renderFields style depth rest

end

end ClassTrace.Node
