import ClassTrace.Yaml.Tag

/-!
The tokens of a YAML text. A key is known as one only at the colon after it, which must follow on
the same line and not far off: tokens wait in a queue as long as the first of them may still start
a key, and the token that announces the key is put in before it. In blocks the column of a token
tells where collections begin and end.
-/
namespace ClassTrace

/-- A place where a key may start. It is required if only a key can start there. -/
structure YamlKey where
  possible : Bool := false
  required : Bool := false
  number : Nat := 0
  mark : YamlMark := {}

/-- `keys` has a place for each level of brackets around the cursor and one for the blocks, the
innermost first. Tokens are numbered from the first of the text; `waiting` has the numbers of
tokens that may start keys, with the levels of those. `outer` has the columns of the blocks around
the current one. -/
structure YamlLexer where
  cursor : YamlCursor
  queue : List YamlToken := [⟨.streamStart, {}⟩]
  taken : Nat := 0
  indent : Int := -1
  outer : List Int := []
  keys : List YamlKey := [{}]
  waiting : List (Nat × Nat) := []
  mayStartKey : Bool := true

namespace YamlLexer

def ofChars (chars : List Char) : YamlLexer := { cursor := { rest := chars } }

def depth (l : YamlLexer) : Nat := l.keys.length - 1

def inFlow (l : YamlLexer) : Bool := 0 < l.depth

def mark (l : YamlLexer) : YamlMark := l.cursor.mark

def problem (l : YamlLexer) (begun : YamlMark) (flaw : YamlFlaw) : YamlProblem :=
  l.cursor.problem begun flaw

def nextNumber (l : YamlLexer) : Nat := l.taken + l.queue.length

def push (l : YamlLexer) (kind : YamlTokenKind) (mark : YamlMark) : YamlLexer :=
  { l with queue := l.queue ++ [⟨kind, mark⟩] }

def insert (l : YamlLexer) (number : Nat) (token : YamlToken) : YamlLexer :=
  let at' := number - l.taken
  { l with queue := l.queue.take at' ++ token :: l.queue.drop at' }

def forget (l : YamlLexer) (number : Nat) : YamlLexer :=
  { l with waiting := l.waiting.filter fun w => w.1 ≠ number }

def keyReach : Nat := 1024

/-- The key has ended on an earlier line, or is too long. -/
def isStale (l : YamlLexer) (key : YamlKey) : Bool :=
  key.mark.line < l.mark.line || key.mark.index + keyReach < l.mark.index

def dropKey (l : YamlLexer) : Except YamlProblem YamlLexer :=
  match l.keys with
  | [] => .ok l
  | key :: others =>
    if !key.possible then .ok l
    else if key.required then .error (l.problem key.mark .noColon)
    else .ok ({ l with keys := { key with possible := false } :: others }.forget key.number)

def saveKey (l : YamlLexer) : Except YamlProblem YamlLexer :=
  if !l.mayStartKey then .ok l
  else do
    let required := !l.inFlow && l.indent = l.mark.column
    let key : YamlKey := ⟨true, required, l.nextNumber, l.mark⟩
    let l ← l.dropKey
    return { l with keys := key :: l.keys.drop 1, waiting := (key.number, l.depth) :: l.waiting }

def maxDepth : Nat := 10000

def openLevel (l : YamlLexer) : Except YamlProblem YamlLexer :=
  let l := { l with keys := { number := l.nextNumber, mark := l.mark } :: l.keys }
  if maxDepth < l.depth then .error (l.problem l.mark .deepFlow) else .ok l

def closeLevel (l : YamlLexer) : YamlLexer :=
  match l.keys with
  | key :: key' :: others => { l with keys := key' :: others }.forget key.number
  | _ => l

/-- Starts a block at a column unless one has started there; its token goes before the one with
the given number, or to the end. -/
def indentTo (l : YamlLexer) (column : Nat) (number : Option Nat) (token : YamlToken) :
    Except YamlProblem YamlLexer :=
  if l.inFlow || column ≤ l.indent then .ok l
  else
    let l := { l with outer := l.indent :: l.outer, indent := column }
    if maxDepth < l.outer.length then
      .error (l.problem ((l.keys.head?.map YamlKey.mark).getD l.mark) .deepIndent)
    else match number with
      | some n => .ok (l.insert n token)
      | none => .ok { l with queue := l.queue ++ [token] }

def endBlocks (column : Int) (mark : YamlMark) : (outer : List Int) → YamlLexer → YamlLexer
  | [], l => l
  | level :: outer, l =>
    if l.indent ≤ column then l
    else endBlocks column mark outer ({ l with indent := level, outer }.push .blockEnd mark)

def dedentTo (l : YamlLexer) (column : Int) (mark : YamlMark) : YamlLexer :=
  if l.inFlow then l else endBlocks column mark l.outer l

/-- Passes over blanks, comments and ends of lines. A tab is no blank where a key may start. -/
def skipToToken : (fuel : Nat) → YamlLexer → YamlLexer
  | 0, l => l
  | fuel + 1, l =>
    let tabs := l.inFlow || !l.mayStartKey
    let c := l.cursor.skipWhile fun a => a = ' ' || (tabs && a = '\t')
    let c := if c.startsWithChar '#' then c.skipComments (c.rest.length + 1) else c
    if c.startsWith YamlCursor.isBreak then
      skipToToken fuel { l with cursor := c.skipLine, mayStartKey := l.mayStartKey || !l.inFlow }
    else { l with cursor := c }

/-- The text ends, as if with the end of a line. -/
def endStream (l : YamlLexer) : Except YamlProblem YamlLexer := do
  let mark := if l.mark.column = 0 then l.mark else ⟨l.mark.index, l.mark.line + 1, 0⟩
  let l := { l with cursor := { l.cursor with mark } }
  let l ← (l.dedentTo (-1) mark).dropKey
  return { l with mayStartKey := false }.push .streamEnd mark

def pushMark (l : YamlLexer) (kind : YamlTokenKind) : YamlLexer :=
  { l with cursor := l.cursor.skip }.push kind l.mark

def endAll (l : YamlLexer) : Except YamlProblem YamlLexer := do
  let l ← (l.dedentTo (-1) l.mark).dropKey
  return { l with mayStartKey := false }

def pushDirective (l : YamlLexer) : Except YamlProblem YamlLexer := do
  let l ← l.endAll
  let (kind, cursor) ← l.cursor.readDirective
  return { l with cursor }.push kind l.mark

def pushDocumentMark (l : YamlLexer) (kind : YamlTokenKind) : Except YamlProblem YamlLexer := do
  let l ← l.endAll
  return { l with cursor := l.cursor.skipMany 3 }.push kind l.mark

def openFlow (l : YamlLexer) (kind : YamlTokenKind) : Except YamlProblem YamlLexer := do
  let l ← (← l.saveKey).openLevel
  return { l with mayStartKey := true }.pushMark kind

def closeFlow (l : YamlLexer) (kind : YamlTokenKind) : Except YamlProblem YamlLexer := do
  let l := (← l.dropKey).closeLevel
  return { l with mayStartKey := false }.pushMark kind

def pushFlowEntry (l : YamlLexer) : Except YamlProblem YamlLexer := do
  return { ← l.dropKey with mayStartKey := true }.pushMark .flowEntry

/-- In a block, checks that an item or a key may start at the cursor, and starts a block there. -/
def startItem (l : YamlLexer) (flaw : YamlFlaw) (kind : YamlTokenKind) :
    Except YamlProblem YamlLexer :=
  if l.inFlow then .ok l
  else if !l.mayStartKey then .error (l.problem l.mark flaw)
  else l.indentTo l.mark.column none ⟨kind, l.mark⟩

def pushBlockEntry (l : YamlLexer) : Except YamlProblem YamlLexer := do
  let l ← (← l.startItem .strayEntry .blockSequence).dropKey
  return { l with mayStartKey := true }.pushMark .blockEntry

def pushKey (l : YamlLexer) : Except YamlProblem YamlLexer := do
  let l ← (← l.startItem .strayKey .blockMapping).dropKey
  return { l with mayStartKey := !l.inFlow }.pushMark .key

/-- A colon: what stands at the last place where a key may start is a key. -/
def pushValue (l : YamlLexer) : Except YamlProblem YamlLexer := do
  let key := l.keys.head?.getD {}
  if key.possible && l.isStale key && key.required then throw (l.problem key.mark .noColon)
  if key.possible && !l.isStale key then
    let l := l.insert key.number ⟨.key, key.mark⟩
    let l ← l.indentTo key.mark.column (some key.number) ⟨.blockMapping, key.mark⟩
    let l := { l with keys := { key with possible := false } :: l.keys.drop 1 }.forget key.number
    return { l with mayStartKey := false }.pushMark .value
  let l := { l with keys := { key with possible := false } :: l.keys.drop 1 }
  let l ← l.startItem .strayValue .blockMapping
  return { l with mayStartKey := !l.inFlow }.pushMark .value

/-- A token that may start a key, and itself is not followed by one. -/
def pushRead (l : YamlLexer)
    (read : YamlCursor → Except YamlProblem (YamlTokenKind × YamlCursor)) :
    Except YamlProblem YamlLexer := do
  let l ← l.saveKey
  let (kind, cursor) ← read l.cursor
  return { l with cursor, mayStartKey := false }.push kind l.mark

def pushReference (l : YamlLexer) : Except YamlProblem YamlLexer :=
  l.pushRead fun c => c.readAnchor.map fun (name, c) => (.reference name, c)

def pushAnchor (l : YamlLexer) : Except YamlProblem YamlLexer :=
  l.pushRead fun c => c.readAnchor.map fun (name, c) => (.anchor name, c)

def pushTag (l : YamlLexer) : Except YamlProblem YamlLexer :=
  l.pushRead fun c => c.readTag.map fun (handle, rest, c) => (.tag handle rest, c)

def pushQuoted (l : YamlLexer) : Except YamlProblem YamlLexer :=
  l.pushRead fun c => c.readQuoted.map fun (text, c) =>
    (.scalar false (YamlCursor.bytesOf text), c)

def least (l : YamlLexer) : Nat := (l.indent + 1).toNat

def pushPlain (l : YamlLexer) : Except YamlProblem YamlLexer := do
  let l ← l.saveKey
  let (text, lines, cursor) ← l.cursor.readPlain l.inFlow l.least
  return { l with cursor, mayStartKey := lines }.push
    (.scalar true (YamlCursor.bytesOf text)) l.mark

def pushBlock (l : YamlLexer) (literal : Bool) : Except YamlProblem YamlLexer := do
  let l ← l.dropKey
  let (text, cursor) ← l.cursor.readBlock literal l.least
  return { l with cursor, mayStartKey := true }.push
    (.scalar false (YamlCursor.bytesOf text)) l.mark

def isIndicator (c : Char) : Bool :=
  YamlCursor.isFlowMark c ||
    ['-', '?', ':', '#', '&', '*', '!', '|', '>', '\'', '"', '%', '@', '\x60'].contains c

def pushToken (l : YamlLexer) (a : Char) : Except YamlProblem YamlLexer :=
  let alone := l.cursor.spaceAt 1
  if a = '[' then l.openFlow .flowSequence
  else if a = '\x7b' then l.openFlow .flowMapping
  else if a = ']' then l.closeFlow .flowSequenceEnd
  else if a = '\x7d' then l.closeFlow .flowMappingEnd
  else if a = ',' then l.pushFlowEntry
  else if a = '-' && alone then l.pushBlockEntry
  else if a = '?' && (l.inFlow || alone) then l.pushKey
  else if a = ':' && (l.inFlow || alone) then l.pushValue
  else if a = '*' then l.pushReference
  else if a = '&' then l.pushAnchor
  else if a = '!' then l.pushTag
  else if a = '|' && !l.inFlow then l.pushBlock true
  else if a = '>' && !l.inFlow then l.pushBlock false
  else if a = '\'' || a = '"' then l.pushQuoted
  else if !(YamlCursor.isSpace a || isIndicator a) || a = '-' || a = '?' || a = ':' then
    l.pushPlain
  else .error (l.problem l.mark .strayCharacter)

/-- A comment on the line of the last token goes with it, unless that is the mark of an item. -/
def skipLineComment (l : YamlLexer) : YamlLexer :=
  match l.queue.getLast? with
  | some ⟨.blockEntry, _⟩ => l
  | _ => { l with cursor := l.cursor.skipLineComment }

def step (l : YamlLexer) : Except YamlProblem YamlLexer :=
  let start := l.mark
  let l := skipToToken (l.cursor.rest.length + 1) l
  let l := l.dedentTo l.mark.column start
  match l.cursor.rest with
  | [] => l.endStream
  | a :: _ =>
    if l.mark.column = 0 && a = '%' then l.pushDirective
    else if l.cursor.atDocumentMark then
      l.pushDocumentMark (if a = '-' then .documentStart else .documentEnd)
    else (l.pushToken a).map skipLineComment

def lookahead : Nat := 2

/-- Whether the token in front can be given out. It cannot if it may yet turn out to start a
key. -/
def settle (l : YamlLexer) : Except YamlProblem (Bool × YamlLexer) :=
  if l.queue.length ≤ lookahead then .ok (false, l)
  else match l.waiting.lookup l.taken with
    | none => .ok (true, l)
    | some level => match l.keys.reverse[level]? with
      | none => .ok (true, l)
      | some key =>
        if !key.possible then .ok (true, l)
        else if !l.isStale key then .ok (false, l)
        else if key.required then .error (l.problem key.mark .noColon)
        else .ok
          (true, { l with keys := l.keys.set (l.depth - level) { key with possible := false } })

def fill : (fuel : Nat) → YamlLexer → Except YamlProblem YamlLexer
  | 0, l => .ok l
  | fuel + 1, l => do
    let (settled, l) ← l.settle
    if settled then return l
    fill fuel (← l.step)

/-- The token in front. After the end of the text there are always further ends. -/
def peek (l : YamlLexer) : Except YamlProblem (YamlToken × YamlLexer) := do
  let l ← fill (l.cursor.rest.length + lookahead + 2) l
  return (l.queue.head?.getD ⟨.streamEnd, l.mark⟩, l)

def drop (l : YamlLexer) : YamlLexer :=
  { l with queue := l.queue.drop 1, taken := l.taken + 1 }

end YamlLexer

end ClassTrace
