import ClassTrace.Command.Scalar
import ClassTrace.Json.Parser
import ClassTrace.Yaml.Value

/-!
Configuration files: settings by name, in YAML, JSON or TOML. Of TOML only the flat form is read,
with a setting to a line. Names are compared in lower case.
-/
namespace ClassTrace

/-- `path` has the names and the places in lists under which a number stands. -/
inductive ConfigProblem where
  | unsupported (extension : Bytes)
  | noReader
  | yaml (problem : YamlProblem)
  | json (problem : JsonProblem)
  | notObject (found : Bytes)
  | hugeNumber (written : Bytes) (path : List Bytes)
  | badLine (number : Nat)
deriving DecidableEq, Repr

def ConfigProblem.message : ConfigProblem → Bytes
  | .unsupported extension => "Unsupported Config Type " ++ Quoted.text extension
  | .noReader => "While parsing config: decoder not found for this format"
  | .yaml problem => "While parsing config: " ++ problem.message
  | .json problem => "While parsing config: " ++ problem.message
  | .notObject found =>
    "While parsing config: json: cannot unmarshal " ++ found ++
      " into Go value of type map[string]interface \x7b\x7d"
  | .hugeNumber written path =>
    "While parsing config: json: cannot unmarshal number " ++ written ++ " into ." ++
      Bytes.join "." path ++ " of type float64"
  | .badLine number =>
    "While parsing config: toml: line " ++ Bytes.decimal number ++ ": invalid setting"

/-- Settings by name. One that is set to null has no value. -/
abbrev Config := List (Bytes × Scalar)

namespace Config

def lowerCase (t : Bytes) : Bytes := t.map Literal.lower

/-- The settings that have a value. Of several with one name the last is taken. -/
def ofSettings (settings : List (Bytes × Option Scalar)) : Config :=
  let named := settings.map fun (name, value) => (lowerCase name, value)
  let isLast (i : Nat) (name : Bytes) := !((named.drop (i + 1)).any fun s => s.1 = name)
  (named.zipIdx.filter fun (s, i) => isLast i s.1).filterMap fun ((name, value), _) =>
    value.map (name, ·)

def ofYamlValue : YamlValue → Option Scalar
  | .scalar .null => none
  | .scalar (.bool b) => some (.bool b)
  | .scalar (.int n) => some (.int n)
  | .scalar (.float x) => some (.float x)
  | .scalar (.time t) => some (.time t)
  | .scalar (.text t) => some (.text t)
  | .list _ | .map .. => some .compound

def parseYaml (input : Bytes) : Except ConfigProblem Config :=
  match YamlNode.parseFields input with
  | .error problem => .error (.yaml problem)
  | .ok fields =>
    .ok (ofSettings (fields.map fun (key, value) => (key.textOr [], ofYamlValue value)))

mutual

def hugeNumber? : JsonValue → Option (Bytes × List Bytes)
  | .number n => if n.float?.isNone then some (n.written, []) else none
  | .list items => hugeItem? 0 items
  | .object fields => hugeField? fields
  | _ => none

def hugeItem? (index : Nat) : List JsonValue → Option (Bytes × List Bytes)
  | [] => none
  | item :: rest => match hugeNumber? item with
    | some (written, path) => some (written, Bytes.decimal index :: path)
    | none => hugeItem? (index + 1) rest

def hugeField? : List (Bytes × JsonValue) → Option (Bytes × List Bytes)
  | [] => none
  | (name, value) :: rest => match hugeNumber? value with
    | some (written, path) => some (written, name :: path)
    | none => hugeField? rest

end

def ofJsonValue : JsonValue → Option Scalar
  | .null => none
  | .bool b => some (.bool b)
  | .number n => n.float?.map .float
  | .text t => some (.text t)
  | .list _ | .object _ => some .compound

def ofJson : JsonValue → Except ConfigProblem Config
  | .null => .ok []
  | .bool _ => .error (.notObject "bool")
  | .number _ => .error (.notObject "number")
  | .text _ => .error (.notObject "string")
  | .list _ => .error (.notObject "array")
  | .object fields => match hugeField? fields with
    | some (written, path) => .error (.hugeNumber written path)
    | none => .ok (ofSettings (fields.map fun (name, value) => (name, ofJsonValue value)))

def parseJson (input : Bytes) : Except ConfigProblem Config :=
  match JsonValue.parse input with
  | .error problem => .error (.json problem)
  | .ok value => ofJson value

def trim (t : Bytes) : Bytes :=
  let isBlank (b : UInt8) : Bool := b = 32 || b = 9 || b = 13
  ((t.dropWhile isBlank).reverse.dropWhile isBlank).reverse

def flatValue? (t : Bytes) : Option Scalar :=
  match trim t with
  | [] => none
  | quote :: rest =>
    if quote = '"'.toUInt8 ∨ quote = '\''.toUInt8 then some (.text (rest.takeWhile (· ≠ quote)))
    else match ofYamlValue (.scalar (.ofPlain false (trim (t.takeWhile (· ≠ '#'.toUInt8))))) with
      | some (.text _) => none
      | value => value

def readLines : (number : Nat) → List Bytes → Except ConfigProblem (List (Bytes × Option Scalar))
  | _, [] => .ok []
  | number, line :: rest =>
    let line := trim line
    if line.isEmpty || line.head? = some '#'.toUInt8 then readLines (number + 1) rest
    else match flatValue? ((line.dropWhile (· ≠ '='.toUInt8)).drop 1) with
      | none => .error (.badLine number)
      | some value => (readLines (number + 1) rest).map fun more =>
        (trim (line.takeWhile (· ≠ '='.toUInt8)), some value) :: more

def parseToml (input : Bytes) : Except ConfigProblem Config :=
  (readLines 1 (Bytes.split 10 input)).map ofSettings

def extensions : List String :=
  ["json", "toml", "yaml", "yml", "properties", "props", "prop", "hcl", "tfvars", "dotenv",
    "env", "ini"]

def parse (extension input : Bytes) : Except ConfigProblem Config :=
  if extension = "json" then parseJson input
  else if extension = "yaml" ∨ extension = "yml" then parseYaml input
  else if extension = "toml" then parseToml input
  else .error .noReader

end Config

end ClassTrace
