import ClassTrace.Number.DecimalLiteral
import ClassTrace.Text.Base64
import ClassTrace.Timestamp
import ClassTrace.Yaml

/-!
What scalars stand for. A plain text may be null, a truth value, a number or a time, and its first
character tells which of them it can be. A tag asks for one of them.
-/
namespace ClassTrace

inductive YamlScalar where
  | null
  | bool (b : Bool)
  | int (n : Int)
  | float (x : Float)
  | time (t : Timestamp)
  | text (t : Bytes)

namespace YamlTag

def null : Bytes := "!!null"

def text : Bytes := "!!str"

def merge : Bytes := "!!merge"

def sequence : Bytes := "!!seq"

def mapping : Bytes := "!!map"

def binary : Bytes := "!!binary"

def timestamp : Bytes := "!!timestamp"

def float : Bytes := "!!float"

def standard : Bytes := "tag:yaml.org,2002:"

def short (tag : Bytes) : Bytes :=
  if standard.isPrefixOf tag then "!!" ++ tag.drop standard.length else tag

def isResolved (tag : Bytes) : Bool :=
  [text, null, timestamp, float, "!!bool", "!!int"].contains tag

end YamlTag

namespace YamlScalar

def tag : YamlScalar → Bytes
  | .null => YamlTag.null
  | .bool _ => "!!bool"
  | .int _ => "!!int"
  | .float _ => YamlTag.float
  | .time _ => YamlTag.timestamp
  | .text _ => YamlTag.text

def infinity : Float := Float.ofBits 0x7FF0000000000000

def negativeInfinity : Float := Float.ofBits 0xFFF0000000000000

def notANumber : Float := Float.ofBits 0x7FF8000000000001

def words : List (Bytes × YamlScalar) :=
  [("", .null), ("~", .null), ("null", .null), ("Null", .null), ("NULL", .null),
    ("true", .bool true), ("True", .bool true), ("TRUE", .bool true),
    ("false", .bool false), ("False", .bool false), ("FALSE", .bool false),
    (".nan", .float notANumber), (".NaN", .float notANumber), (".NAN", .float notANumber),
    (".inf", .float infinity), (".Inf", .float infinity), (".INF", .float infinity),
    ("+.inf", .float infinity), ("+.Inf", .float infinity), ("+.INF", .float infinity),
    ("-.inf", .float negativeInfinity), ("-.Inf", .float negativeInfinity),
    ("-.INF", .float negativeInfinity)]

def inBase? (base : Nat) (text : Bytes) : Option Int :=
  let magnitude (t : Bytes) :=
    if t.isEmpty then .error .invalid else Literal.digits base false 0 t
  (Literal.signed magnitude text).toOption

def afterMark? (base : Nat) (mark text : Bytes) : Option Int :=
  if mark.isPrefixOf text then inBase? base (text.drop mark.length)
  else if ("-" ++ mark).isPrefixOf text then inBase? base ("-" ++ text.drop (mark.length + 1))
  else none

/-- A number that starts with a sign or a digit. Underscores in it do not count. -/
def number? (text : Bytes) : Option YamlScalar :=
  let digits := text.filter (· ≠ Literal.underscore)
  ((Literal.anyBase digits).toOption.map YamlScalar.int) <|>
    ((Literal.marked digits).toOption.map fun n => .int n) <|>
    ((Literal.double? digits).map .float) <|>
    ((afterMark? 2 "0b" digits).map .int) <|> ((afterMark? 8 "0o" digits).map .int)

/-- What a text stands for that is not quoted. Times are only looked for if so asked. -/
def ofPlain (times : Bool) (text : Bytes) : YamlScalar :=
  match words.lookup text with
  | some value => value
  | none => match text with
    | [] => .null
    | b :: _ =>
      if b = '.'.toUInt8 then ((Literal.separatedDouble? text).map .float).getD (.text text)
      else if b = '+'.toUInt8 || b = '-'.toUInt8 || Literal.isDecimalDigit b then
        let time := if times then Timestamp.parse? text else none
        ((time.map YamlScalar.time) <|> number? text).getD (.text text)
      else .text text

def toFloat : YamlScalar → YamlScalar
  | .int n =>
    if -0x8000000000000000 ≤ n ∧ n < 0x8000000000000000 then
      ((Binary.ofDecimal? (decide (n < 0)) n.natAbs 0).map .float).getD (.int n)
    else .int n
  | value => value

def resolve (tag text : Bytes) : Except YamlProblem YamlScalar :=
  if tag = YamlTag.text then .ok (.text text)
  else if tag = YamlTag.binary then
    match Base64.decode? text with
    | some bytes => .ok (.text bytes)
    | none => .error .badBinary
  else if !YamlTag.isResolved tag then .ok (.text text)
  else
    let plain := ofPlain (tag = YamlTag.timestamp) text
    let value := if tag = YamlTag.float then plain.toFloat else plain
    if value.tag = tag then .ok value else .error (.wrongTag value.tag text tag)

end YamlScalar

def YamlTag.implied (text : Bytes) : Bytes := (YamlScalar.ofPlain true text).tag

end ClassTrace
