import ClassTrace.Yaml.Text

/-!
Anchors, tags and directives. A tag is a handle, which a directive may declare, and an address
after it. Bytes of an address may be written as a percent sign with two hexadecimal digits.
-/
namespace ClassTrace.YamlCursor

def bytesOf (cs : List Char) : Bytes := cs.flatMap Bytes.ofChar

def endsAnchor (c : Char) : Bool := ['?', ':', ',', ']', '\x7d', '%', '@', '\x60'].contains c

def readAnchor (c : YamlCursor) : Except YamlProblem (Bytes × YamlCursor) :=
  let (name, after) := c.skip.readWhile isWord
  if name.isEmpty || !(after.spaceAt 0 || after.startsWith endsAnchor) then
    .error (after.problem c.mark .noAnchorName)
  else .ok (bytesOf name, after)

def isAddress (c : Char) : Bool :=
  isWord c || [';', '/', '?', ':', '@', '&', '=', '+', '$', ',', '.', '!', '~', '*',
    '\'', '(', ')', '[', ']'].contains c

def moreBytes? (b : Nat) : Option Nat :=
  if b < 0x80 then some 0
  else if b < 0xC0 then none
  else if b < 0xE0 then some 1
  else if b < 0xF0 then some 2
  else if b < 0xF8 then some 3
  else none

def readEscapedByte (begun : YamlMark) (c : YamlCursor) : Except YamlProblem (Nat × YamlCursor) :=
  match c.rest with
  | '%' :: a :: b :: _ => match hexNumber? 0 [a, b] with
    | some n => .ok (n, skipMany 3 c)
    | none => .error (c.problem begun .noAddressEscape)
  | _ => .error (c.problem begun .noAddressEscape)

def readEscapedTail (begun : YamlMark) :
    (count : Nat) → YamlCursor → Except YamlProblem (Bytes × YamlCursor)
  | 0, c => .ok ([], c)
  | count + 1, c => do
    let (b, after) ← readEscapedByte begun c
    if b < 0x80 || 0xC0 ≤ b then throw (c.problem begun .badAddressTrail)
    let (tail, after) ← readEscapedTail begun count after
    return (b.toUInt8 :: tail, after)

def readEscapedChar (begun : YamlMark) (c : YamlCursor) :
    Except YamlProblem (Bytes × YamlCursor) := do
  let (b, after) ← readEscapedByte begun c
  match moreBytes? b with
  | none => throw (c.problem begun .badAddressLead)
  | some count =>
    let (tail, after) ← readEscapedTail begun count after
    return (b.toUInt8 :: tail, after)

def readAddressFrom (begun : YamlMark) :
    (fuel : Nat) → (done : Bytes) → YamlCursor → Except YamlProblem (Bytes × YamlCursor)
  | 0, done, c => .ok (done, c)
  | fuel + 1, done, c =>
    match c.rest with
    | [] => .ok (done, c)
    | a :: _ =>
      if a = '%' then do
        let (bytes, after) ← readEscapedChar begun c
        readAddressFrom begun fuel (done ++ bytes) after
      else if isAddress a then readAddressFrom begun fuel (done ++ Bytes.ofChar a) c.skip
      else .ok (done, c)

/-- Reads an address. `start` is what was read of it before; it may be empty only if so
`mayBeEmpty`. -/
def readAddress (begun : YamlMark) (mayBeEmpty : Bool) (start : Bytes) (c : YamlCursor) :
    Except YamlProblem (Bytes × YamlCursor) := do
  let (address, after) ← readAddressFrom begun (c.rest.length + 1) start c
  if !mayBeEmpty && after.mark.index = c.mark.index then throw (after.problem begun .noTagAddress)
  return (address, after)

/-- Reads a handle, or what is taken for one: an exclamation mark, a name and perhaps another
mark. Tells whether the other mark is there. -/
def readHandle (begun : YamlMark) (c : YamlCursor) :
    Except YamlProblem (List Char × Bool × YamlCursor) :=
  if !c.startsWithChar '!' then .error (c.problem begun .noTagMark)
  else
    let (name, after) := c.skip.readWhile isWord
    if after.startsWithChar '!' then .ok ('!' :: name ++ ['!'], true, after.skip)
    else .ok ('!' :: name, false, after)

/-- The handle and the rest of a tag without angle brackets. The tag that is a mark alone has no
handle. -/
def readShortTag (c : YamlCursor) : Except YamlProblem (Bytes × Bytes × YamlCursor) := do
  let (handle, closed, after) ← readHandle c.mark c
  if closed then
    let (rest, after) ← readAddress c.mark false [] after
    return (bytesOf handle, rest, after)
  else
    let (rest, after) ← readAddress c.mark true (bytesOf (handle.drop 1)) after
    return if rest.isEmpty then ([], bytesOf handle, after) else ("!", rest, after)

def readTag (c : YamlCursor) : Except YamlProblem (Bytes × Bytes × YamlCursor) := do
  let (handle, rest, after) ←
    if c.peek 1 = some '<' then do
      let (address, after) ← readAddress c.mark false [] c.skip.skip
      if !after.startsWithChar '>' then throw (after.problem c.mark .noTagClosing)
      pure ([], address, after.skip)
    else readShortTag c
  if !after.spaceAt 0 then throw (after.problem c.mark .noTagEnd)
  return (handle, rest, after)

def readVersionPart (begun : YamlMark) (c : YamlCursor) : Except YamlProblem (Nat × YamlCursor) :=
  let digits := c.rest.takeWhile Char.isDigit
  if 2 < digits.length then .error (c.problem begun .longVersion)
  else if digits.isEmpty then .error (c.problem begun .noVersion)
  else .ok (digits.foldl (fun n d => n * 10 + (d.toNat - '0'.toNat)) 0, skipMany digits.length c)

def readVersion (begun : YamlMark) (c : YamlCursor) :
    Except YamlProblem (YamlTokenKind × YamlCursor) := do
  let (major, c) ← readVersionPart begun c.skipBlanks
  if !c.startsWithChar '.' then throw (c.problem begun .noVersionPoint)
  let (minor, c) ← readVersionPart begun c.skip
  return (.version major minor, c)

def readTagHandle (begun : YamlMark) (c : YamlCursor) :
    Except YamlProblem (YamlTokenKind × YamlCursor) := do
  let (handle, closed, c) ← readHandle begun c.skipBlanks
  if !closed && handle ≠ ['!'] then throw (c.problem begun .noTagMark)
  if !c.startsWith isBlank then throw (c.problem begun .noBlank)
  let (address, c) ← readAddress begun false [] c.skipBlanks
  if !c.spaceAt 0 then throw (c.problem begun .noTagEnd)
  return (.tagHandle (bytesOf handle) address, c)

/-- Reads the directive that starts here, with the end of its line. -/
def readDirective (c : YamlCursor) : Except YamlProblem (YamlTokenKind × YamlCursor) := do
  let begun := c.mark
  let (name, c) := c.skip.readWhile isWord
  if name.isEmpty then throw (c.problem begun .noDirectiveName)
  if !c.spaceAt 0 then throw (c.problem begun .badDirectiveName)
  let (kind, c) ←
    if name = ['Y', 'A', 'M', 'L'] then readVersion begun c
    else if name = ['T', 'A', 'G'] then readTagHandle begun c
    else throw (c.problem begun .unknownDirective)
  let c := c.skipBlanks
  let c := if c.startsWithChar '#' then c.skipWhile fun a => !isBreak a else c
  if !c.lineEnds then throw (c.problem begun .noLineEnd)
  return (kind, c.skipLine)

end ClassTrace.YamlCursor
