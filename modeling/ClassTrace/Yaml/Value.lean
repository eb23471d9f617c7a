import ClassTrace.Number.FloatText
import ClassTrace.Yaml.Parser

/-!
The values of nodes. All mismatches of a text are reported together. A mapping must not have a key
twice. Under the key `<<` it has other mappings, whose entries it takes over unless it has the key
itself.
-/
namespace ClassTrace

/-- A mapping is named if all its keys are texts. -/
inductive YamlValue where
  | scalar (value : YamlScalar)
  | list (items : List YamlValue)
  | map (named : Bool) (entries : List (YamlScalar × YamlValue))

namespace YamlScalar

def textOr (other : Bytes) : YamlScalar → Bytes
  | .text t => t
  | _ => other

/-- Whether two keys are the same. Floats and times are never looked up. -/
def sameKey : YamlScalar → YamlScalar → Bool
  | .null, .null => true
  | .bool a, .bool b => a = b
  | .int a, .int b => a = b
  | .text a, .text b => a = b
  | _, _ => false

def shown : YamlScalar → Bytes
  | .null => "interface \x7b\x7d(nil)"
  | .bool b => if b then "true" else "false"
  | .int n => Bytes.decimal n
  | .float x => FloatText.writtenOut x
  | .time t => t.text
  | .text t => Quoted.text t

def before : YamlScalar → YamlScalar → Bool
  | .text a, .text b => a.le b
  | .int a, .int b => a ≤ b
  | _, _ => true

end YamlScalar

namespace YamlValue

mutual

def shown : YamlValue → Bytes
  | .scalar s => s.shown
  | .list items => "[]interface \x7b\x7d\x7b" ++ Bytes.join ", " (shownItems items) ++ "\x7d"
  | .map named entries =>
    let start : Bytes := if named then "map[string]" else "map[interface \x7b\x7d]"
    let sorted := (shownEntries entries).mergeSort fun a b => a.1.before b.1
    start ++ "interface \x7b\x7d\x7b" ++ Bytes.join ", " (sorted.map (·.2)) ++ "\x7d"

def shownItems : List YamlValue → List Bytes
  | [] => []
  | item :: rest => shown item :: shownItems rest

def shownEntries : List (YamlScalar × YamlValue) → List (YamlScalar × Bytes)
  | [] => []
  | (key, value) :: rest => (key, key.shown ++ ":" ++ shown value) :: shownEntries rest

end

end YamlValue

namespace YamlNode

def line : YamlNode → Nat
  | .scalar line .. | .sequence line .. | .mapping line .. | .reference line .. => line

/-- What a node is known by as a key: its text, or its name if it is a reference. -/
def keyText : YamlNode → Bytes
  | .scalar _ _ text => text
  | .reference _ name _ => name
  | _ => []

/-- Whether two nodes count as the same key. All sequences do, and all mappings. -/
def sameKey : YamlNode → YamlNode → Bool
  | .scalar _ _ a, .scalar _ _ b => a = b
  | .reference _ a _, .reference _ b _ => a = b
  | .sequence .., .sequence .. | .mapping .., .mapping .. => true
  | _, _ => false

def isMerge : YamlNode → Bool
  | .scalar _ tag text => tag = YamlTag.merge && text = "<<"
  | _ => false

def isNamed : (fuel : Nat) → YamlNode → Bool
  | 0, _ => false
  | fuel + 1, node => match node with
    | .scalar _ tag _ => tag = YamlTag.text || tag = YamlTag.merge
    | .reference _ _ (some target) => isNamed fuel target
    | _ => false

def isMapping : YamlNode → Bool
  | .mapping .. | .reference _ _ (some (.mapping ..)) | .reference _ _ none => true
  | _ => false

end YamlNode

/-- Reports mismatches as it goes on; other problems end it. -/
abbrev YamlDecoder := StateT (List Bytes) (Except YamlProblem)

namespace YamlDecoder

def report (line : Nat) (text : Bytes) : YamlDecoder Unit :=
  modify (· ++ ["line " ++ Bytes.decimal line ++ ": " ++ text])

/-- Reports that a node cannot be what is wanted. Long texts are cut short. -/
def mismatch (node : YamlNode) (wanted : Bytes) : YamlDecoder Unit :=
  let found : Bytes := match node with
    | .scalar _ tag text =>
      tag ++ " \x60" ++ (if 10 < text.length then text.take 7 ++ "..." else text) ++ "\x60"
    | .sequence _ tag _ =>
      if tag = YamlTag.sequence || tag = YamlTag.mapping then tag else tag ++ " \x60\x60"
    | .mapping _ tag _ =>
      if tag = YamlTag.sequence || tag = YamlTag.mapping then tag else tag ++ " \x60\x60"
    | .reference .. => []
  report node.line ("cannot unmarshal " ++ found ++ " into " ++ wanted)

def reportRepeated : List (YamlNode × YamlNode) → YamlDecoder Unit
  | [] => return ()
  | (key, _) :: rest => do
    for (other, _) in rest do
      if key.sameKey other then
        report other.line ("mapping key " ++ Quoted.text other.keyText ++
          " already defined at line " ++ Bytes.decimal key.line)
    reportRepeated rest

def checkRepeated (entries : List (YamlNode × YamlNode)) : YamlDecoder Bool := do
  let before := (← get).length
  reportRepeated entries
  return (← get).length = before

/-- A key of a named mapping, unless it is null: scalars are taken by their texts. -/
def readName : (fuel : Nat) → YamlNode → YamlDecoder (Option YamlScalar)
  | 0, _ => return none
  | fuel + 1, node => match node with
    | .scalar _ tag text => do
      match ← YamlScalar.resolve tag text with
      | .null => return none
      | value => return some (.text (if tag = YamlTag.binary then value.textOr text else text))
    | .sequence .. => do
      mismatch node "string"
      return none
    | .mapping _ _ entries => do
      if ← checkRepeated entries then mismatch node "string"
      return none
    | .reference _ name none => throw (.endlessAnchor name)
    | .reference _ _ (some target) => readName fuel target

mutual

def readValue : (fuel : Nat) → YamlNode → YamlDecoder (Option YamlValue)
  | 0, _ => return none
  | fuel + 1, node => match node with
    | .scalar _ tag text => do return some (.scalar (← YamlScalar.resolve tag text))
    | .sequence _ _ items => do return some (.list ((← items.mapM (readValue fuel)).filterMap id))
    | .mapping _ _ entries => do
      let named := entries.all fun (key, _) => key.isNamed fuel
      match ← readMapping fuel named none entries with
      | none => return none
      | some (_, done) => return some (.map named done)
    | .reference _ name none => throw (.endlessAnchor name)
    | .reference _ _ (some target) => readValue fuel target

/-- The entries of a mapping, with the keys that are not to be taken over into it any more. When
it is itself taken over into another one, `taken` has the keys of that. -/
def readMapping : (fuel : Nat) → (named : Bool) → (taken : Option (List YamlScalar)) →
    List (YamlNode × YamlNode) →
    YamlDecoder (Option (List YamlScalar × List (YamlScalar × YamlValue)))
  | 0, _, _, _ => return none
  | fuel + 1, named, taken, entries => do
    if !(← checkRepeated entries) then return none
    let (own, done) ← readEntries fuel named (taken.getD [])
      (entries.filter fun (key, _) => !key.isMerge)
    match entries.find? fun (key, _) => key.isMerge with
    | none => return some (own, done)
    | some (_, merged) =>
      let keys ← if taken.isSome then pure own else readKeys fuel (entries.map (·.1))
      let (keys, more) ← readMerged fuel named keys merged
      return some (keys, done ++ more)

def readKeys : (fuel : Nat) → List YamlNode → YamlDecoder (List YamlScalar)
  | 0, _ => return []
  | fuel + 1, nodes => do
    return (← nodes.mapM (readValue fuel)).filterMap fun
      | some (.scalar s) => some s
      | _ => none

def readEntries :
    (fuel : Nat) → (named : Bool) → (taken : List YamlScalar) → List (YamlNode × YamlNode) →
    YamlDecoder (List YamlScalar × List (YamlScalar × YamlValue))
  | 0, _, taken, _ => return (taken, [])
  | _, _, taken, [] => return (taken, [])
  | fuel + 1, named, taken, (keyNode, valueNode) :: rest => do
    match ← if named then readName fuel keyNode else readKey fuel keyNode with
    | none => readEntries fuel named taken rest
    | some key =>
      if taken.any key.sameKey then readEntries fuel named taken rest
      else
        let value ← readValue fuel valueNode
        let (taken, more) ← readEntries fuel named (key :: taken) rest
        return (taken, (value.map fun v => (key, v)).toList ++ more)

/-- A key of a mapping that is not named. It must be a scalar. -/
def readKey : (fuel : Nat) → YamlNode → YamlDecoder (Option YamlScalar)
  | 0, _ => return none
  | fuel + 1, node => do
    match ← readValue fuel node with
    | none => return none
    | some (.scalar s) => return some s
    | some value => throw (.badKey value.shown)

/-- Takes over the entries of a mapping, or of those in a list. -/
def readMerged : (fuel : Nat) → (named : Bool) → (taken : List YamlScalar) → YamlNode →
    YamlDecoder (List YamlScalar × List (YamlScalar × YamlValue))
  | 0, _, taken, _ => return (taken, [])
  | fuel + 1, named, taken, node => match node with
    | .mapping _ _ entries => do
      return (← readMapping fuel named (some taken) entries).getD (taken, [])
    | .reference _ name none => throw (.endlessAnchor name)
    | .reference _ _ (some (.mapping line tag entries)) =>
      readMerged fuel named taken (.mapping line tag entries)
    | .sequence _ _ items => readMergedItems fuel named taken items
    | _ => throw .badMerge

def readMergedItems : (fuel : Nat) → (named : Bool) → (taken : List YamlScalar) → List YamlNode →
    YamlDecoder (List YamlScalar × List (YamlScalar × YamlValue))
  | 0, _, taken, _ => return (taken, [])
  | _, _, taken, [] => return (taken, [])
  | fuel + 1, named, taken, item :: rest => do
    if !item.isMapping then throw .badMerge
    let (taken, first) ← readMerged fuel named taken item
    let (taken, more) ← readMergedItems fuel named taken rest
    return (taken, first ++ more)

end

end YamlDecoder

namespace YamlNode

def namedMapping : Bytes := "map[string]interface \x7b\x7d"

def readFields (fuel : Nat) (node : YamlNode) : YamlDecoder (List (YamlScalar × YamlValue)) :=
  match node with
  | .mapping _ _ entries => do
    return ((← YamlDecoder.readMapping fuel true none entries).map (·.2)).getD []
  | .scalar _ tag text => do
    match ← YamlScalar.resolve tag text with
    | .null => return []
    | _ =>
      YamlDecoder.mismatch node namedMapping
      return []
  | _ => do
    YamlDecoder.mismatch node namedMapping
    return []

/-- The entries of the mapping that a text is. A text that is null, or holds nothing, has none. -/
def parseFields (input : Bytes) : Except YamlProblem (List (YamlScalar × YamlValue)) := do
  match ← YamlNode.parse input with
  | none => return []
  | some node =>
    let (fields, mismatches) ← (readFields (8 * input.length + 16) node).run []
    if mismatches.isEmpty then return fields else throw (.mismatches mismatches)

end YamlNode

end ClassTrace
