import ClassTrace.Yaml.Lexer
import ClassTrace.Yaml.Source
import ClassTrace.Yaml.Resolve

/-!
The nodes of a YAML text, of which the first document alone is read. A node may be left out: then
it is an empty scalar, which stands for null.
-/
namespace ClassTrace

/-- An anchor with the node that has it, unless that is still being read. -/
structure YamlAnchor where
  name : Bytes
  node : Option YamlNode

/-- `anchors` has the last one first; `handles` are those of tags, with what they stand for. -/
structure YamlReading where
  lexer : YamlLexer
  anchors : List YamlAnchor := []
  handles : List (Bytes × Bytes) := []

abbrev YamlReader := StateT YamlReading (Except YamlProblem)

namespace YamlReader

def peek : YamlReader YamlToken := do
  let s ← get
  let (token, lexer) ← s.lexer.peek
  set { s with lexer }
  return token

def skip : YamlReader Unit := modify fun s => { s with lexer := s.lexer.drop }

def next : YamlReader YamlToken := do
  skip
  peek

def absent (mark : YamlMark) : YamlNode := .scalar (mark.line + 1) YamlTag.null []

def enterAnchor (name : Bytes) : YamlReader Nat := do
  let s ← get
  set { s with anchors := ⟨name, none⟩ :: s.anchors }
  return s.anchors.length

def closeAnchor (place : Nat) (node : YamlNode) : YamlReader Unit :=
  modify fun s =>
    let i := s.anchors.length - 1 - place
    { s with anchors := s.anchors.modify i fun a => { a with node } }

/-- What stands before the content of a node. -/
structure Properties where
  mark : YamlMark
  anchor : Option Bytes := none
  tag : Bytes := []

def fullTag (begun found : YamlMark) (handle rest : Bytes) : YamlReader Bytes := do
  if handle.isEmpty then return rest
  match (← get).handles.lookup handle with
  | some start =>
    if (start ++ rest).isEmpty then throw (.layout begun found .undefinedHandle)
    else return start ++ rest
  | none => throw (.layout begun found .undefinedHandle)

/-- Reads an anchor and a tag, in either order, if they are there. A tag is checked after both. -/
def readProperties : YamlReader Properties := do
  let token ← peek
  match token.kind with
  | .anchor name =>
    let second ← next
    match second.kind with
    | .tag handle rest =>
      let _ ← next
      return ⟨token.mark, some name, ← fullTag token.mark second.mark handle rest⟩
    | _ => return ⟨token.mark, some name, []⟩
  | .tag handle rest =>
    let second ← next
    match second.kind with
    | .anchor name =>
      let _ ← next
      return ⟨token.mark, some name, ← fullTag token.mark token.mark handle rest⟩
    | _ => return ⟨token.mark, none, ← fullTag token.mark token.mark handle rest⟩
  | _ => return ⟨token.mark, none, []⟩

def collectionTag (tag usual : Bytes) : Bytes :=
  if tag.isEmpty || tag = "!" then usual else YamlTag.short tag

/-- The tag of a scalar: its own, or else the one that its text stands for. In quotes that is a
text. -/
def scalarTag (tag : Bytes) (plain : Bool) (text : Bytes) : Bytes :=
  if !(tag.isEmpty || tag = "!") then YamlTag.short tag
  else if !plain then YamlTag.text
  else if text = "<<" then YamlTag.merge
  else YamlTag.implied text

def readReference (mark : YamlMark) (name : Bytes) : YamlReader YamlNode := do
  match (← get).anchors.find? (·.name = name) with
  | none => throw (.unknownAnchor name)
  | some anchor =>
    skip
    return .reference (mark.line + 1) name anchor.node

def endsBlockKey : YamlTokenKind → Bool
  | .key | .value | .blockEnd => true
  | _ => false

def endsItem : YamlTokenKind → Bool
  | .blockEntry | .blockEnd => true
  | _ => false

def endsFlowItem : YamlTokenKind → Bool
  | .flowEntry | .flowSequenceEnd => true
  | _ => false

def endsFlowField : YamlTokenKind → Bool
  | .flowEntry | .flowMappingEnd => true
  | _ => false

mutual

/-- Reads a node. Only a node in a block may start a block, and only a value in a mapping a
sequence that is not indented. -/
def readNode : (fuel : Nat) → (block indentless : Bool) → YamlReader YamlNode
  | 0, _, _ => do throw (.layout {} (← peek).mark .noContent)
  | fuel + 1, block, indentless => do
    let token ← peek
    match token.kind with
    | .reference name => readReference token.mark name
    | _ =>
      let properties ← readProperties
      match properties.anchor with
      | none => readContent fuel block indentless properties
      | some name =>
        let place ← enterAnchor name
        let node ← readContent fuel block indentless properties
        closeAnchor place node
        return node

def readContent : (fuel : Nat) → (block indentless : Bool) → Properties → YamlReader YamlNode
  | 0, _, _, properties => do throw (.layout properties.mark (← peek).mark .noContent)
  | fuel + 1, block, indentless, properties => do
    let token ← peek
    let line := properties.mark.line + 1
    let sequence := YamlNode.sequence line (collectionTag properties.tag YamlTag.sequence)
    let mapping := YamlNode.mapping line (collectionTag properties.tag YamlTag.mapping)
    match token.kind, block with
    | .scalar plain text, _ =>
      skip
      return .scalar line (scalarTag properties.tag plain text) text
    | .flowSequence, _ =>
      skip
      return sequence (← readFlowItems fuel token.mark true [])
    | .flowMapping, _ =>
      skip
      return mapping (← readFlowFields fuel token.mark true [])
    | .blockSequence, true =>
      skip
      return sequence (← readItems fuel token.mark [])
    | .blockMapping, true =>
      skip
      return mapping (← readFields fuel token.mark [])
    | kind, _ =>
      if indentless && kind = .blockEntry then return sequence (← readIndentless fuel [])
      if properties.anchor.isSome || !properties.tag.isEmpty then
        return .scalar line (scalarTag properties.tag true []) []
      throw (.layout properties.mark token.mark .noContent)

def readItems :
    (fuel : Nat) → (begun : YamlMark) → (done : List YamlNode) → YamlReader (List YamlNode)
  | 0, begun, _ => do throw (.layout begun (← peek).mark .noEntry)
  | fuel + 1, begun, done => do
    let token ← peek
    match token.kind with
    | .blockEnd =>
      skip
      return done.reverse
    | .blockEntry =>
      let item ← if endsItem (← next).kind then pure (absent token.mark)
        else readNode fuel true false
      readItems fuel begun (item :: done)
    | _ => throw (.layout begun token.mark .noEntry)

/-- The items of a sequence that is not indented: it ends where no further item starts. -/
def readIndentless : (fuel : Nat) → (done : List YamlNode) → YamlReader (List YamlNode)
  | 0, done => return done.reverse
  | fuel + 1, done => do
    let token ← peek
    match token.kind with
    | .blockEntry =>
      let after ← next
      let item ←
        if endsItem after.kind || endsBlockKey after.kind then pure (absent token.mark)
        else readNode fuel true false
      readIndentless fuel (item :: done)
    | _ => return done.reverse

def readFields : (fuel : Nat) → (begun : YamlMark) → (done : List (YamlNode × YamlNode)) →
    YamlReader (List (YamlNode × YamlNode))
  | 0, begun, _ => do throw (.layout begun (← peek).mark .noKey)
  | fuel + 1, begun, done => do
    let token ← peek
    match token.kind with
    | .blockEnd =>
      skip
      return done.reverse
    | .key =>
      let key ← if endsBlockKey (← next).kind then pure (absent token.mark)
        else readNode fuel true true
      let value ← readBlockValue fuel
      readFields fuel begun ((key, value) :: done)
    | _ => throw (.layout begun token.mark .noKey)

def readBlockValue : (fuel : Nat) → YamlReader YamlNode
  | 0 => return absent {}
  | fuel + 1 => do
    let token ← peek
    if token.kind ≠ .value then return absent token.mark
    if endsBlockKey (← next).kind then return absent token.mark
    readNode fuel true true

/-- The items of a sequence in brackets. One that starts as a key is a mapping of one entry. -/
def readFlowItems : (fuel : Nat) → (begun : YamlMark) → (first : Bool) → (done : List YamlNode) →
    YamlReader (List YamlNode)
  | 0, begun, _, _ => do throw (.layout begun (← peek).mark .noItemEnd)
  | fuel + 1, begun, first, done => do
    let mut token ← peek
    if token.kind ≠ .flowSequenceEnd && !first then
      if token.kind ≠ .flowEntry then throw (.layout begun token.mark .noItemEnd)
      token ← next
    match token.kind with
    | .flowSequenceEnd =>
      skip
      return done.reverse
    | .key =>
      skip
      let entry ← readPair fuel
      readFlowItems fuel begun false
        (.mapping (token.mark.line + 1) YamlTag.mapping [entry] :: done)
    | _ =>
      let item ← readNode fuel false false
      readFlowItems fuel begun false (item :: done)

/-- The entry of a mapping that is an item. With an absent key the token after it is passed
over. -/
def readPair : (fuel : Nat) → YamlReader (YamlNode × YamlNode)
  | 0 => return (absent {}, absent {})
  | fuel + 1 => do
    let token ← peek
    let key ←
      if token.kind = .value || endsFlowItem token.kind then do
        skip
        pure (absent token.mark)
      else readNode fuel false false
    return (key, ← readFlowValue fuel endsFlowItem)

/-- The entries of a mapping in braces. One without a mark for a key has no value. -/
def readFlowFields : (fuel : Nat) → (begun : YamlMark) → (first : Bool) →
    (done : List (YamlNode × YamlNode)) → YamlReader (List (YamlNode × YamlNode))
  | 0, begun, _, _ => do throw (.layout begun (← peek).mark .noFieldEnd)
  | fuel + 1, begun, first, done => do
    let mut token ← peek
    if token.kind ≠ .flowMappingEnd && !first then
      if token.kind ≠ .flowEntry then throw (.layout begun token.mark .noFieldEnd)
      token ← next
    match token.kind with
    | .flowMappingEnd =>
      skip
      return done.reverse
    | .key =>
      let after ← next
      let key ←
        if after.kind = .value || endsFlowField after.kind then pure (absent after.mark)
        else readNode fuel false false
      let value ← readFlowValue fuel endsFlowField
      readFlowFields fuel begun false ((key, value) :: done)
    | _ =>
      let key ← readNode fuel false false
      let after ← peek
      readFlowFields fuel begun false ((key, absent after.mark) :: done)

/-- A value inside brackets, which is absent if there is no colon or if the item ends at once. -/
def readFlowValue : (fuel : Nat) → (ends : YamlTokenKind → Bool) → YamlReader YamlNode
  | 0, _ => return absent {}
  | fuel + 1, ends => do
    let token ← peek
    if token.kind ≠ .value then return absent token.mark
    let after ← next
    if ends after.kind then return absent after.mark
    readNode fuel false false

end

def usualHandles : List (Bytes × Bytes) := [("!", "!"), ("!!", YamlTag.standard)]

def readDirectives : (fuel : Nat) → (version : Bool) → YamlReader Unit
  | 0, _ => return ()
  | fuel + 1, version => do
    let token ← peek
    match token.kind with
    | .version major minor =>
      if version then throw (.layout {} token.mark .repeatedVersion)
      if major ≠ 1 || minor ≠ 1 then throw (.layout {} token.mark .otherVersion)
      skip
      readDirectives fuel true
    | .tagHandle handle start =>
      if ((← get).handles.lookup handle).isSome then throw (.layout {} token.mark .repeatedTag)
      modify fun s => { s with handles := s.handles ++ [(handle, start)] }
      skip
      readDirectives fuel version
    | _ => modify fun s => { s with handles := s.handles ++ usualHandles }

def endsDocument : YamlTokenKind → Bool
  | .version .. | .tagHandle .. | .documentStart | .documentEnd | .streamEnd => true
  | _ => false

def readDocument (fuel : Nat) : YamlReader (Option YamlNode) := do
  skip
  let token ← peek
  if token.kind = .streamEnd then return none
  readDirectives fuel false
  let start ← peek
  let node ←
    if endsDocument token.kind && token.kind ≠ .documentEnd then do
      if start.kind ≠ .documentStart then throw (.layout {} start.mark .noDocumentStart)
      let content ← next
      if endsDocument content.kind then pure (absent content.mark) else readNode fuel true false
    else readNode fuel true false
  let _ ← peek
  return some node

end YamlReader

def YamlNode.parse (input : Bytes) : Except YamlProblem (Option YamlNode) :=
  match YamlSource.read input with
  | .error flaw => .error (.unreadable flaw)
  | .ok chars =>
    (YamlReader.readDocument (4 * chars.length + 16)).run' { lexer := YamlLexer.ofChars chars }

end ClassTrace
