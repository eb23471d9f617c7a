import ClassTrace.Yaml.Cursor

/-!
The texts of YAML: in quotes, plain, or in a block of lines. Inside a text the end of a line is
folded: one end alone counts as a blank, and of several the first is dropped.
-/
namespace ClassTrace

/-- Blanks and ends of lines between two parts of a text. `blanks` has the last one first. -/
structure YamlGap where
  broken : Bool := false
  blanks : List Char := []
  first : List Char := []
  more : List Char := []

def YamlGap.joined (gap : YamlGap) : List Char :=
  if !gap.broken then gap.blanks.reverse
  else if gap.first.head? = some '\n' then if gap.more.isEmpty then [' '] else gap.more
  else gap.first ++ gap.more

namespace YamlCursor

/-- Reads a gap. No tab may stand left of the given column of a new line. -/
def readGap (begun : YamlMark) (indent : Nat) :
    (fuel : Nat) → YamlGap → YamlCursor → Except YamlProblem (YamlGap × YamlCursor)
  | 0, gap, c => .ok (gap, c)
  | fuel + 1, gap, c =>
    match c.rest with
    | [] => .ok (gap, c)
    | a :: _ =>
      if isBlank a then
        if !gap.broken then readGap begun indent fuel
          { gap with blanks := a :: gap.blanks } c.skip
        else if a = '\t' && c.mark.column < indent then .error (c.problem begun .tabInText)
        else readGap begun indent fuel gap c.skip
      else if isBreak a then
        let (line, after) := c.readLine
        if gap.broken then readGap begun indent fuel { gap with more := gap.more ++ line } after
        else readGap begun indent fuel { broken := true, first := line } after
      else .ok (gap, c)

def escaped? (c : Char) : Option Char :=
  match c with
  | '0' => some (Char.ofNat 0)
  | 'a' => some (Char.ofNat 7)
  | 'b' => some (Char.ofNat 8)
  | 't' | '\t' => some '\t'
  | 'n' => some '\n'
  | 'v' => some (Char.ofNat 11)
  | 'f' => some (Char.ofNat 12)
  | 'r' => some '\r'
  | 'e' => some (Char.ofNat 27)
  | ' ' | '"' | '\'' | '\\' => some c
  | 'N' => some (Char.ofNat 0x85)
  | '_' => some (Char.ofNat 0xA0)
  | 'L' => some (Char.ofNat 0x2028)
  | 'P' => some (Char.ofNat 0x2029)
  | _ => none

def escapeWidth? : Char → Option Nat
  | 'x' => some 2
  | 'u' => some 4
  | 'U' => some 8
  | _ => none

def hexDigit? (c : Char) : Option Nat :=
  if c.isDigit then some (c.toNat - '0'.toNat)
  else if 'a' ≤ c && c ≤ 'f' then some (c.toNat - 'a'.toNat + 10)
  else if 'A' ≤ c && c ≤ 'F' then some (c.toNat - 'A'.toNat + 10)
  else none

def hexNumber? : (n : Nat) → List Char → Option Nat
  | n, [] => some n
  | n, c :: rest => match hexDigit? c with
    | some d => hexNumber? (n * 16 + d) rest
    | none => none

def readEscape (begun : YamlMark) (c : YamlCursor) : Except YamlProblem (Char × YamlCursor) :=
  match c.peek 1 with
  | none => .error (c.problem begun .unknownEscape)
  | some letter =>
    let after := c.skip.skip
    match escaped? letter, escapeWidth? letter with
    | some e, _ => .ok (e, after)
    | none, none => .error (c.problem begun .unknownEscape)
    | none, some width =>
      let digits := after.rest.take width
      match hexNumber? 0 digits with
      | none => .error (after.problem begun .noHexadecimal)
      | some n =>
        if digits.length < width then .error (after.problem begun .noHexadecimal)
        else if n.isValidChar then .ok (Char.ofNat n, skipMany width after)
        else .error (after.problem begun .badEscapeCode)

/-- Reads characters of a quoted text up to a blank, the end of a line or the closing quote. Of
`done` the last one is first. Tells whether an escaped end of a line stopped it. -/
def readQuotedRun (quote : Char) (begun : YamlMark) :
    (fuel : Nat) → (done : List Char) → YamlCursor →
    Except YamlProblem (List Char × Bool × YamlCursor)
  | 0, done, c => .ok (done, false, c)
  | fuel + 1, done, c =>
    match c.rest with
    | [] => .ok (done, false, c)
    | a :: more =>
      if isSpace a then .ok (done, false, c)
      else if a = quote then
        if quote = '\'' && more.head? = some '\'' then
          readQuotedRun quote begun fuel (a :: done) c.skip.skip
        else .ok (done, false, c)
      else if quote = '"' && a = '\\' then
        if more.head?.any isBreak then .ok (done, true, c.skip.skipLine)
        else match readEscape begun c with
          | .ok (e, after) => readQuotedRun quote begun fuel (e :: done) after
          | .error e => .error e
      else readQuotedRun quote begun fuel (a :: done) c.skip

def readQuotedFrom (quote : Char) (begun : YamlMark) :
    (fuel : Nat) → (done : List Char) → YamlCursor → Except YamlProblem (List Char × YamlCursor)
  | 0, _, c => .error (c.problem begun .endOfStream)
  | fuel + 1, done, c =>
    if c.atDocumentMark then .error (c.problem begun .documentMark)
    else if c.atEnd then .error (c.problem begun .endOfStream)
    else do
      let (done, broken, c) ← readQuotedRun quote begun c.rest.length done c
      if c.startsWithChar quote then return (done.reverse, c.skip)
      let (gap, c) ← readGap begun 0 c.rest.length { broken } c
      readQuotedFrom quote begun fuel (gap.joined.reverse ++ done) c

def readQuoted (c : YamlCursor) : Except YamlProblem (List Char × YamlCursor) :=
  match c.rest with
  | [] => .error (c.problem c.mark .endOfStream)
  | quote :: rest => readQuotedFrom quote c.mark (rest.length + 1) [] c.skip

def isFlowMark (c : Char) : Bool :=
  c = ',' || c = '[' || c = ']' || c = '\x7b' || c = '\x7d'

def endsPlain (flow : Bool) (c : YamlCursor) : Bool :=
  (c.startsWithChar ':' && c.spaceAt 1) || (flow && c.startsWith fun a => isFlowMark a || a = '?')

def readPlainRun (flow : Bool) :
    (fuel : Nat) → (done : List Char) → YamlCursor → List Char × YamlCursor
  | 0, done, c => (done, c)
  | fuel + 1, done, c =>
    match c.rest with
    | [] => (done, c)
    | a :: _ =>
      if isSpace a || endsPlain flow c then (done, c)
      else readPlainRun flow fuel (a :: done) c.skip

def readPlainFrom (flow : Bool) (indent : Nat) (begun : YamlMark) :
    (fuel : Nat) → (done : List Char) → YamlGap → YamlCursor →
      Except YamlProblem (List Char × Bool × YamlCursor)
  | 0, done, gap, c => .ok (done.reverse, gap.broken, c)
  | fuel + 1, done, gap, c => do
    if c.atDocumentMark || c.startsWithChar '#' then return (done.reverse, gap.broken, c)
    let (run, after) := readPlainRun flow c.rest.length [] c
    let gap' : YamlGap := if run.isEmpty then gap else {}
    let done := if run.isEmpty then done else run ++ gap.joined.reverse ++ done
    if !after.startsWith isSpace then return (done.reverse, gap'.broken, after)
    let (gap', after) ← readGap begun indent after.rest.length gap' after
    if !flow && after.mark.column < indent then return (done.reverse, gap'.broken, after)
    readPlainFrom flow indent begun fuel done gap' after

/-- Reads a plain text. In a block its further lines start at the given column or right of it.
Tells whether lines ended after the text. -/
def readPlain (flow : Bool) (indent : Nat) (c : YamlCursor) :
    Except YamlProblem (List Char × Bool × YamlCursor) :=
  readPlainFrom flow indent c.mark (c.rest.length + 1) [] {} c

/-- What is done with the ends of lines after a block of lines: all are dropped, one is kept or
all. -/
inductive Chomp where
  | strip
  | clip
  | keep

def readChomp? (c : YamlCursor) : Option (Chomp × YamlCursor) :=
  if c.startsWithChar '+' then some (.keep, c.skip)
  else if c.startsWithChar '-' then some (.strip, c.skip)
  else none

/-- An indentation given by a digit; zero stands for none. -/
def readIncrement (begun : YamlMark) (c : YamlCursor) : Except YamlProblem (Nat × YamlCursor) :=
  match c.rest with
  | [] => .ok (0, c)
  | a :: _ =>
    if a = '0' then .error (c.problem begun .zeroIndent)
    else if a.isDigit then .ok (a.toNat - '0'.toNat, c.skip)
    else .ok (0, c)

def readBlockHeader (begun : YamlMark) (c : YamlCursor) :
    Except YamlProblem (Chomp × Nat × YamlCursor) :=
  match c.readChomp? with
  | some (chomp, c) => (readIncrement begun c).map (chomp, ·)
  | none => (readIncrement begun c).map fun (increment, after) =>
    match if increment = 0 then none else after.readChomp? with
    | some (chomp, after) => (chomp, increment, after)
    | none => (.clip, increment, after)

def skipIndent (indent : Nat) (c : YamlCursor) : YamlCursor :=
  let spaces := (c.rest.takeWhile (· = ' ')).length
  skipMany (if indent = 0 then spaces else min spaces (indent - c.mark.column)) c

/-- Reads empty lines and the indentation after them, and gives how wide that was at the most. -/
def readBreaks (begun : YamlMark) (indent : Nat) :
    (fuel widest : Nat) → (done : List Char) → YamlCursor →
    Except YamlProblem (List Char × Nat × YamlCursor)
  | 0, widest, done, c => .ok (done, widest, c)
  | fuel + 1, widest, done, c =>
    let c := skipIndent indent c
    let widest := max widest c.mark.column
    if c.startsWithChar '\t' && (indent = 0 || c.mark.column < indent) then
      .error (c.problem begun .tabIndent)
    else if c.startsWith isBreak then
      let (line, after) := c.readLine
      readBreaks begun indent fuel widest (done ++ line) after
    else .ok (done, widest, c)

/-- Lines of a block. `ended` is the end of the line before, `breaks` are the empty lines after
it, and `blank` tells whether it starts with a blank: ends of lines are folded only between lines
that do not. -/
def readBlockLines (literal : Bool) (begun : YamlMark) (indent : Nat) :
    (fuel : Nat) → (done ended breaks : List Char) → (blank : Bool) → YamlCursor →
      Except YamlProblem (List Char × List Char × List Char × YamlCursor)
  | 0, done, ended, breaks, _, c => .ok (done, ended, breaks, c)
  | fuel + 1, done, ended, breaks, blank, c =>
    if c.mark.column ≠ indent || c.atEnd then .ok (done, ended, breaks, c)
    else do
      let blank' := c.startsWith isBlank
      let folded := !literal && !blank && !blank' && ended.head? = some '\n'
      let joint := if !folded then ended else if breaks.isEmpty then [' '] else []
      let (line, c) := c.readWhile fun a => !isBreak a
      let (ended, c) := c.readLine
      let (breaks', _, c) ← readBreaks begun indent (c.rest.length + 1) 0 [] c
      readBlockLines literal begun indent fuel
        (done ++ joint ++ breaks ++ line) ended breaks' blank' c

/-- Reads a block of lines whose mark starts here, inside a block that is indented less than
`least`. -/
def readBlock (literal : Bool) (least : Nat) (c : YamlCursor) :
    Except YamlProblem (List Char × YamlCursor) := do
  let begun := c.mark
  let (chomp, increment, c) ← readBlockHeader begun c.skip
  let c := c.skipBlanks
  let c := if c.startsWithChar '#' then c.skipWhile fun a => !isBreak a else c
  if !c.lineEnds then throw (c.problem begun .noLineEnd)
  let c := c.skipLine
  let given := if increment = 0 then 0 else least - 1 + increment
  let (breaks, widest, c) ← readBreaks begun given (c.rest.length + 1) 0 [] c
  let indent := if given = 0 then max (max widest least) 1 else given
  let (text, ended, breaks, c) ← readBlockLines literal begun indent (c.rest.length + 1) []
    [] breaks false c
  return (match chomp with
    | .strip => text
    | .clip => text ++ ended
    | .keep => text ++ ended ++ breaks, c)

end YamlCursor

end ClassTrace
