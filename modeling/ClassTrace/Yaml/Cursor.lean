import ClassTrace.Yaml

/-!
A cursor in a YAML text: the characters still to be read, and the place they start at. The end of
a text counts as a blank and as the end of a line wherever those are looked for with it.
-/
namespace ClassTrace

/-- `newlines` counts the ends of lines since the last character that is no blank. -/
structure YamlCursor where
  rest : List Char
  mark : YamlMark := {}
  newlines : Nat := 0

namespace YamlCursor

def isBlank (c : Char) : Bool := c = ' ' || c = '\t'

def isBreak (c : Char) : Bool :=
  c = '\n' || c = '\r' || c.toNat = 0x85 || c.toNat = 0x2028 || c.toNat = 0x2029

def isSpace (c : Char) : Bool := isBlank c || isBreak c

def isWord (c : Char) : Bool := c.isAlphanum || c = '_' || c = '-'

def peek (c : YamlCursor) (i : Nat) : Option Char := c.rest[i]?

def atEnd (c : YamlCursor) : Bool := c.rest.isEmpty

def startsWith (c : YamlCursor) (test : Char → Bool) : Bool := c.rest.head?.any test

def startsWithChar (c : YamlCursor) (expected : Char) : Bool := c.rest.head? = some expected

def spaceAt (c : YamlCursor) (i : Nat) : Bool := (c.peek i).all isSpace

def lineEnds (c : YamlCursor) : Bool := c.rest.head?.all isBreak

def skip (c : YamlCursor) : YamlCursor :=
  match c.rest with
  | [] => c
  | a :: rest =>
    { rest, mark := { c.mark with index := c.mark.index + 1, column := c.mark.column + 1 },
      newlines := if isBlank a then c.newlines else 0 }

def skipMany : Nat → YamlCursor → YamlCursor
  | 0, c => c
  | n + 1, c => skipMany n c.skip

def nextLine (c : YamlCursor) (width : Nat) : YamlCursor :=
  { rest := c.rest.drop width, mark := ⟨c.mark.index + width, c.mark.line + 1, 0⟩,
    newlines := c.newlines + 1 }

/-- Passes over the end of a line, and gives what it counts as in a text. -/
def readLine (c : YamlCursor) : List Char × YamlCursor :=
  match c.rest with
  | '\r' :: '\n' :: _ => (['\n'], c.nextLine 2)
  | a :: _ =>
    if a.toNat = 0x2028 ∨ a.toNat = 0x2029 then ([a], c.nextLine 1)
    else if isBreak a then (['\n'], c.nextLine 1)
    else ([], c)
  | [] => ([], c)

def skipLine (c : YamlCursor) : YamlCursor := c.readLine.2

def readWhile (test : Char → Bool) (c : YamlCursor) : List Char × YamlCursor :=
  let taken := c.rest.takeWhile test
  (taken, skipMany taken.length c)

def skipWhile (test : Char → Bool) (c : YamlCursor) : YamlCursor := (c.readWhile test).2

def skipBlanks (c : YamlCursor) : YamlCursor := c.skipWhile isBlank

def atDocumentMark (c : YamlCursor) : Bool :=
  c.mark.column = 0 && c.spaceAt 3 &&
    (['-', '-', '-'].isPrefixOf c.rest || ['.', '.', '.'].isPrefixOf c.rest)

def problem (c : YamlCursor) (begun : YamlMark) (flaw : YamlFlaw) : YamlProblem :=
  .token begun c.mark flaw

def commentReach : Nat := 512

def skipLineComment (c : YamlCursor) : YamlCursor :=
  if 0 < c.newlines then c
  else
    let ahead := c.skipBlanks
    if ahead.startsWithChar '#' && ahead.mark.index < c.mark.index + commentReach then
      ahead.skipWhile fun a => !isBreak a
    else c

def skipSpace : (fuel : Nat) → YamlCursor → YamlCursor
  | 0, c => c
  | fuel + 1, c =>
    match c.rest with
    | [] => c
    | a :: _ =>
      if isBlank a then skipSpace fuel c.skip else if isBreak a then
        skipSpace fuel c.skipLine else c

def skipComments : (fuel : Nat) → YamlCursor → YamlCursor
  | 0, c => c
  | fuel + 1, c =>
    let c := c.skipWhile fun a => !isBreak a
    let ahead := skipSpace commentReach c
    if ahead.startsWithChar '#' then skipComments fuel ahead else c

end YamlCursor

end ClassTrace
