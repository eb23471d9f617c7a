import ClassTrace.Text.Quoted

/-!
What can be wrong with a text that should be JSON: it ends too early, or there is a character
where it cannot stand.
-/
namespace ClassTrace

/-- Where in a text a character stands that cannot stand there. -/
inductive JsonPlace where
  | value
  | name
  | afterName
  | afterField
  | afterItem
  | afterAll
  | number
  | text
  | word (whole : Bytes) (expected : UInt8)
deriving DecidableEq, Repr

namespace JsonPlace

def message : JsonPlace → Bytes
  | .value => "looking for beginning of value"
  | .name => "looking for beginning of object key string"
  | .afterName => "after object key"
  | .afterField => "after object key:value pair"
  | .afterItem => "after array element"
  | .afterAll => "after top-level value"
  | .number => "in numeric literal"
  | .text => "in string"
  | .word whole expected =>
    "in literal " ++ whole ++ " (expecting " ++ Quoted.code expected ++ ")"

end JsonPlace

/-- `found` starts with the character. -/
inductive JsonProblem where
  | ended
  | character (found : Bytes) (place : JsonPlace)
  | escape (text : Bytes)
  | tooDeep
deriving DecidableEq, Repr

namespace JsonProblem

def needsQuotes : Utf8.Piece → Bool
  | .stray _ => true
  | .char c => c = '\x60' || c = ' ' || c = Utf8.replacement || !Printable.isPrintable c

def message : JsonProblem → Bytes
  | .ended => "unexpected end of JSON input"
  | .character found place => "invalid character " ++ Quoted.first found ++ " " ++ place.message
  | .escape text =>
    let shown : Bytes :=
      if (Utf8.pieces text).any needsQuotes then Quoted.text text else "\x60" ++ text ++ "\x60"
    "invalid escape sequence " ++ shown ++ " in string"
  | .tooDeep => "exceeded max depth"

end JsonProblem

end ClassTrace
