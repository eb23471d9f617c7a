import ClassTrace.Descriptor
import ClassTrace.Text.Quoted

/-!
Reading descriptors. Each reader takes what is left of the text and gives a type with what follows
it, or a problem with what was left where it arose, so a problem's offset is the number of bytes
before it.
-/
namespace ClassTrace

inductive Descriptor.Problem where
  | unexpectedEnd
  | openParameters
  | misplacedVoid
  | openName
  | emptyName
  | unknownType (letter : UInt8)
  | trailing (rest : Bytes)
deriving DecidableEq, Repr

inductive DescriptorError where
  | malformed (input : Bytes) (offset : Nat) (problem : Descriptor.Problem)
  | notMethod (input : Bytes)
  | isMethod (input : Bytes)
  | voidField
deriving DecidableEq, Repr

namespace Descriptor

def Problem.message : Problem → Bytes
  | .unexpectedEnd => "unexpected end of input"
  | .openParameters => "unterminated parameter list"
  | .misplacedVoid => "void is only valid as a return type"
  | .openName => "unterminated class name"
  | .emptyName => "empty class name"
  | .unknownType b => "unrecognized type character " ++ Quoted.code b
  | .trailing rest => "unexpected trailing input " ++ Quoted.text rest

abbrev Reader (α : Type) := Bytes → Except (Problem × Bytes) (α × Bytes)

/-- A class name ends at the first semicolon after the letter that starts it. -/
def readName (start rest : Bytes) : Except (Problem × Bytes) (FieldType × Bytes) :=
  let name := rest.takeWhile (· ≠ ';'.toUInt8)
  match rest.dropWhile (· ≠ ';'.toUInt8) with
  | [] => .error (.openName, start)
  | _ :: after => if name.isEmpty then .error (.emptyName, start) else .ok (.object name, after)

def readType : Reader FieldType
  | [] => .error (.unexpectedEnd, [])
  | c :: rest =>
    match Primitive.ofLetter? c with
    | some p => .ok (.primitive p, rest)
    | none =>
      if c = 'L'.toUInt8 then readName (c :: rest) rest
      else if c = '['.toUInt8 then
        match readType rest with
        | .ok (t, after) => .ok (.array t, after)
        | .error e => .error e
      else if c = 'V'.toUInt8 then .error (.misplacedVoid, c :: rest)
      else .error (.unknownType c, c :: rest)

def readResult : Reader ResultType
  | [] => .error (.unexpectedEnd, [])
  | c :: rest =>
    if c = 'V'.toUInt8 then .ok (.void, rest)
    else match readType (c :: rest) with
      | .ok (t, after) => .ok (.value t, after)
      | .error e => .error e

/-- Parameters up to the closing parenthesis. Each takes a byte at least, so as many rounds as
there are bytes are enough. -/
def readParams : Nat → Reader (List FieldType)
  | _, [] => .error (.openParameters, [])
  | 0, rest => .error (.openParameters, rest)
  | n + 1, c :: rest =>
    if c = ')'.toUInt8 then .ok ([], rest)
    else match readType (c :: rest) with
      | .error e => .error e
      | .ok (t, after) => match readParams n after with
        | .error e => .error e
        | .ok (ts, final) => .ok (t :: ts, final)

def readSignature (text : Bytes) : Except (Problem × Bytes) (Signature × Bytes) :=
  match readParams text.length text with
  | .error e => .error e
  | .ok (params, rest) => match readResult rest with
    | .error e => .error e
    | .ok (result, after) => .ok (⟨params, result⟩, after)

/-- An opening parenthesis selects the method form. -/
def read : Reader Descriptor
  | [] => .error (.unexpectedEnd, [])
  | c :: rest =>
    if c = '('.toUInt8 then
      match readSignature rest with
      | .error e => .error e
      | .ok (s, after) => .ok (.method s, after)
    else match readResult (c :: rest) with
      | .error e => .error e
      | .ok (t, after) => .ok (.plain t, after)

def parse (input : Bytes) : Except DescriptorError Descriptor :=
  let problem (p : Problem) (rest : Bytes) :=
    DescriptorError.malformed input (input.length - rest.length) p
  match read input with
  | .error (p, rest) => .error (problem p rest)
  | .ok (d, []) => .ok d
  | .ok (_, rest) => .error (problem (.trailing rest) rest)

end Descriptor

def Signature.parse (input : Bytes) : Except DescriptorError Signature :=
  match Descriptor.parse input with
  | .error e => .error e
  | .ok (.method s) => .ok s
  | .ok (.plain _) => .error (.notMethod input)

def FieldType.parse (input : Bytes) : Except DescriptorError FieldType :=
  match Descriptor.parse input with
  | .error e => .error e
  | .ok (.method _) => .error (.isMethod input)
  | .ok (.plain .void) => .error .voidField
  | .ok (.plain (.value t)) => .ok t

def DescriptorError.message : DescriptorError → Bytes
  | .malformed input offset problem =>
    "malformed descriptor " ++ Quoted.text input ++ " at offset " ++
      Bytes.decimal offset ++ ": " ++ problem.message
  | .notMethod input =>
    "malformed descriptor: " ++ Quoted.text input ++ " is not a method descriptor"
  | .isMethod input => "malformed descriptor: " ++ Quoted.text input ++ " is a method descriptor"
  | .voidField => "malformed descriptor: void is not a field type"

end ClassTrace
