import ClassTrace.Text.Quoted

/-!
YAML: places in a text, what can be wrong with one, its tokens, and the nodes it is made of. A
message names the line of the thing that was begun, or else of the thing that was found, but never
the first line of a text.
-/
namespace ClassTrace

/-- A place in a text. Characters, lines and columns are counted from zero. -/
structure YamlMark where
  index : Nat := 0
  line : Nat := 0
  column : Nat := 0
deriving DecidableEq, Repr

/-- What is wrong at a place. -/
inductive YamlFlaw where
  | leadingByte
  | trailingByte
  | cutCharacter
  | overlongCharacter
  | noCharacter
  | controlCharacter
  | cutUnit
  | cutPair
  | strayLow
  | noLow
  | noColon
  | strayEntry
  | strayKey
  | strayValue
  | strayCharacter
  | deepFlow
  | deepIndent
  | noDirectiveName
  | badDirectiveName
  | unknownDirective
  | noVersion
  | longVersion
  | noVersionPoint
  | noLineEnd
  | noBlank
  | noTagMark
  | noTagAddress
  | noTagClosing
  | noTagEnd
  | noAddressEscape
  | badAddressLead
  | badAddressTrail
  | noAnchorName
  | zeroIndent
  | tabIndent
  | tabInText
  | documentMark
  | endOfStream
  | unknownEscape
  | noHexadecimal
  | badEscapeCode
  | repeatedVersion
  | otherVersion
  | repeatedTag
  | noDocumentStart
  | undefinedHandle
  | noContent
  | noEntry
  | noKey
  | noItemEnd
  | noFieldEnd
deriving DecidableEq, Repr

def YamlFlaw.text : YamlFlaw → Bytes
  | .leadingByte => "invalid leading UTF-8 octet"
  | .trailingByte => "invalid trailing UTF-8 octet"
  | .cutCharacter => "incomplete UTF-8 octet sequence"
  | .overlongCharacter => "invalid length of a UTF-8 sequence"
  | .noCharacter => "invalid Unicode character"
  | .controlCharacter => "control characters are not allowed"
  | .cutUnit => "incomplete UTF-16 character"
  | .cutPair => "incomplete UTF-16 surrogate pair"
  | .strayLow => "unexpected low surrogate area"
  | .noLow => "expected low surrogate area"
  | .noColon => "could not find expected ':'"
  | .strayEntry => "block sequence entries are not allowed in this context"
  | .strayKey => "mapping keys are not allowed in this context"
  | .strayValue => "mapping values are not allowed in this context"
  | .strayCharacter => "found character that cannot start any token"
  | .deepFlow | .deepIndent => "exceeded max depth of 10000"
  | .noDirectiveName => "could not find expected directive name"
  | .badDirectiveName => "found unexpected non-alphabetical character"
  | .unknownDirective => "found unknown directive name"
  | .noVersion => "did not find expected version number"
  | .longVersion => "found extremely long version number"
  | .noVersionPoint => "did not find expected digit or '.' character"
  | .noLineEnd => "did not find expected comment or line break"
  | .noBlank => "did not find expected whitespace"
  | .noTagMark => "did not find expected '!'"
  | .noTagAddress => "did not find expected tag URI"
  | .noTagClosing => "did not find the expected '>'"
  | .noTagEnd => "did not find expected whitespace or line break"
  | .noAddressEscape => "did not find URI escaped octet"
  | .badAddressLead => "found an incorrect leading UTF-8 octet"
  | .badAddressTrail => "found an incorrect trailing UTF-8 octet"
  | .noAnchorName => "did not find expected alphabetic or numeric character"
  | .zeroIndent => "found an indentation indicator equal to 0"
  | .tabIndent => "found a tab character where an indentation space is expected"
  | .tabInText => "found a tab character that violates indentation"
  | .documentMark => "found unexpected document indicator"
  | .endOfStream => "found unexpected end of stream"
  | .unknownEscape => "found unknown escape character"
  | .noHexadecimal => "did not find expected hexdecimal number"
  | .badEscapeCode => "found invalid Unicode character escape code"
  | .repeatedVersion => "found duplicate %YAML directive"
  | .otherVersion => "found incompatible YAML document"
  | .repeatedTag => "found duplicate %TAG directive"
  | .noDocumentStart => "did not find expected <document start>"
  | .undefinedHandle => "found undefined tag handle"
  | .noContent => "did not find expected node content"
  | .noEntry => "did not find expected '-' indicator"
  | .noKey => "did not find expected key"
  | .noItemEnd => "did not find expected ',' or ']'"
  | .noFieldEnd => "did not find expected ',' or '\x7d'"

/-- `begun` is where the thing with the flaw starts, `found` where the flaw shows. -/
inductive YamlProblem where
  | unreadable (flaw : YamlFlaw)
  | token (begun found : YamlMark) (flaw : YamlFlaw)
  | layout (begun found : YamlMark) (flaw : YamlFlaw)
  | unknownAnchor (name : Bytes)
  | endlessAnchor (name : Bytes)
  | badMerge
  | badBinary
  | badKey (shown : Bytes)
  | wrongTag (found text wanted : Bytes)
  | mismatches (lines : List Bytes)
deriving DecidableEq, Repr

namespace YamlProblem

/-- The line that a message names, if any. Lines of tokens are counted from one. -/
def place (extra : Nat) (begun found : YamlMark) : Bytes :=
  let named (line : Nat) : Bytes := "line " ++ Bytes.decimal (line + extra : Nat) ++ ": "
  if begun.line ≠ 0 then named begun.line else if found.line ≠ 0 then named found.line else []

def text : YamlProblem → Bytes
  | .unreadable flaw => flaw.text
  | .token begun found flaw => place 1 begun found ++ flaw.text
  | .layout begun found flaw => place 0 begun found ++ flaw.text
  | .unknownAnchor name => "unknown anchor '" ++ name ++ "' referenced"
  | .endlessAnchor name => "anchor '" ++ name ++ "' value contains itself"
  | .badMerge => "map merge requires map or sequence of maps as the value"
  | .badBinary => "!!binary value contains invalid base64 data"
  | .badKey shown => "invalid map key: " ++ shown
  | .wrongTag found text wanted =>
    "cannot decode " ++ found ++ " \x60" ++ text ++ "\x60 as a " ++ wanted
  | .mismatches lines => "unmarshal errors:\n  " ++ Bytes.join "\n  " lines

def message (p : YamlProblem) : Bytes := "yaml: " ++ p.text

end YamlProblem

inductive YamlTokenKind where
  | streamStart
  | streamEnd
  | version (major minor : Nat)
  | tagHandle (handle start : Bytes)
  | documentStart
  | documentEnd
  | blockSequence
  | blockMapping
  | blockEnd
  | flowSequence
  | flowSequenceEnd
  | flowMapping
  | flowMappingEnd
  | blockEntry
  | flowEntry
  | key
  | value
  | reference (name : Bytes)
  | anchor (name : Bytes)
  | tag (handle rest : Bytes)
  | scalar (plain : Bool) (text : Bytes)
deriving DecidableEq, Repr

structure YamlToken where
  kind : YamlTokenKind
  mark : YamlMark
deriving DecidableEq, Repr

/-- Nodes with the lines they start in, counted from one. A scalar always has a tag: its own, or
the one that its text stands for. A reference inside the node that it names has no target. -/
inductive YamlNode where
  | scalar (line : Nat) (tag text : Bytes)
  | sequence (line : Nat) (tag : Bytes) (items : List YamlNode)
  | mapping (line : Nat) (tag : Bytes) (entries : List (YamlNode × YamlNode))
  | reference (line : Nat) (name : Bytes) (target : Option YamlNode)

end ClassTrace
