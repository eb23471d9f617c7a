import ClassTrace.Number.Literal
import ClassTrace.Text.Utf8

/-!
Structured log records, one JSON object to a line: the level first, the fields in their order, the
time if there is a clock, and the message last.
-/
namespace ClassTrace

inductive Severity where
  | trace
  | debug
  | info
  | warn
  | error
deriving DecidableEq, Repr

namespace Severity

def name : Severity → Bytes
  | .trace => "trace"
  | .debug => "debug"
  | .info => "info"
  | .warn => "warn"
  | .error => "error"

def rank : Severity → Int
  | .trace => -1
  | .debug => 0
  | .info => 1
  | .warn => 2
  | .error => 3

end Severity

/-- The least rank that is logged. -/
structure Threshold where
  rank : Int
deriving DecidableEq, Repr

namespace Threshold

/-- No record has a rank this high. -/
def noLevel : Threshold := ⟨6⟩

def disabled : Threshold := ⟨7⟩

def admits (t : Threshold) (s : Severity) : Bool := t.rank ≤ s.rank

def named : List (String × Int) :=
  [("trace", -1), ("debug", 0), ("info", 1), ("warn", 2), ("error", 3), ("fatal", 4),
    ("panic", 5), ("disabled", 7), ("", 6)]

inductive ParseError where
  | unknown (text : Bytes)
  | outOfBounds (rank : Int)
deriving DecidableEq, Repr

def ParseError.message : ParseError → Bytes
  | .unknown text => "Unknown Level String: '" ++ text ++ "', defaulting to NoLevel"
  | .outOfBounds rank =>
    "Out-Of-Bounds Level: '" ++ Bytes.decimal rank ++ "', defaulting to NoLevel"

def parse (text : Bytes) : Except ParseError Threshold :=
  match named.find? fun (name, _) => Bytes.ofString name = text with
  | some (_, rank) => .ok ⟨rank⟩
  | none => match Literal.decimal text with
    | .error _ => .error (.unknown text)
    | .ok rank => if rank < -128 ∨ 127 < rank then .error (.outOfBounds rank) else .ok ⟨rank⟩

end Threshold

inductive LogValue where
  | text (t : Bytes)
  | number (n : Int)
  | texts (ts : List Bytes)
deriving DecidableEq, Repr

structure LogRecord where
  severity : Severity
  fields : List (Bytes × LogValue)
  message : Bytes
deriving DecidableEq, Repr

namespace LogRecord

/-- Control characters are escaped, and a stray byte is written as an escaped replacement
character. -/
def escape : Utf8.Piece → Bytes
  | .stray _ => "\\ufffd"
  | .char c => match c.toNat with
    | 8 => "\\b"
    | 9 => "\\t"
    | 10 => "\\n"
    | 12 => "\\f"
    | 13 => "\\r"
    | 34 => "\\\""
    | 92 => "\\\\"
    | n => if n < 0x20 ∨ n = 0x7F then "\\u" ++ Bytes.hex 4 n else Bytes.ofChar c

def quote (t : Bytes) : Bytes := "\"" ++ (Utf8.pieces t).flatMap escape ++ "\""

def value : LogValue → Bytes
  | .text t => quote t
  | .number n => Bytes.decimal n
  | .texts ts => "[" ++ Bytes.join "," (ts.map quote) ++ "]"

def render (clock : Option Bytes) (r : LogRecord) : Bytes :=
  let time := match clock with
    | some t => [(("time" : Bytes), LogValue.text t)]
    | none => []
  let all := [(("level" : Bytes), LogValue.text r.severity.name)] ++ r.fields ++ time ++
    [(("message" : Bytes), LogValue.text r.message)]
  "\x7b" ++ Bytes.join "," (all.map fun (key, v) => quote key ++ ":" ++ value v) ++ "\x7d\n"

end LogRecord

end ClassTrace
