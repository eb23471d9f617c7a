import ClassTrace.Number.Literal
import ClassTrace.Text.Quoted

/-!
The flags of the command line. A flag may stand anywhere before a bare double dash; what is no
flag is an argument. The value of a long flag follows an equals sign or is the next word, that of
a short flag may also follow its letter. A flag that is true or false needs no value.
-/
namespace ClassTrace

inductive Flag where
  | config
  | classPath
  | entry
  | format
  | output
  | logLevel
  | maxDepth
  | legacyBranches
  | noColor
  | help
deriving DecidableEq, Repr

inductive FlagType where
  | text
  | int
  | bool
deriving DecidableEq, Repr

namespace Flag

def all : List Flag :=
  [.config, .classPath, .entry, .format, .output, .logLevel, .maxDepth, .legacyBranches,
    .noColor, .help]

def name : Flag → String
  | .config => "config"
  | .classPath => "classpath"
  | .entry => "entry"
  | .format => "format"
  | .output => "output"
  | .logLevel => "log-level"
  | .maxDepth => "max-depth"
  | .legacyBranches => "legacy-branches"
  | .noColor => "no-color"
  | .help => "help"

def letter? : Flag → Option Char
  | .classPath => some 'c'
  | .entry => some 'e'
  | .format => some 'f'
  | .output => some 'o'
  | .help => some 'h'
  | _ => none

def type : Flag → FlagType
  | .maxDepth => .int
  | .legacyBranches | .noColor | .help => .bool
  | _ => .text

def ofName? (text : Bytes) : Option Flag := all.find? fun f => Bytes.ofString f.name = text

def ofLetter? (b : UInt8) : Option Flag := all.find? fun f => f.letter?.map Char.toUInt8 = some b

def shown (f : Flag) : Bytes :=
  match f.letter? with
  | some c => "-" ++ Bytes.ofChar c ++ ", --" ++ Bytes.ofString f.name
  | none => "--" ++ Bytes.ofString f.name

end Flag

inductive FlagError where
  | badForm (word : Bytes)
  | unknown (name : Bytes)
  | unknownLetter (letter : UInt8) (letters : Bytes)
  | needsValue (word : Bytes)
  | letterNeedsValue (letter : UInt8) (letters : Bytes)
  | badInt (flag : Flag) (value : Bytes) (problem : Literal.Problem)
  | badBool (flag : Flag) (value : Bytes)
deriving DecidableEq, Repr

namespace FlagError

def invalid (flag : Flag) (value reader : Bytes) (problem : Literal.Problem) : Bytes :=
  "invalid argument " ++ Quoted.text value ++ " for " ++ Quoted.text flag.shown ++
    " flag: " ++ reader ++ ": parsing " ++ Quoted.text value ++ ": " ++ problem.text

def message : FlagError → Bytes
  | .badForm word => "bad flag syntax: " ++ word
  | .unknown name => "unknown flag: --" ++ name
  | .unknownLetter letter letters =>
    "unknown shorthand flag: " ++ Quoted.code letter ++ " in -" ++ letters
  | .needsValue word => "flag needs an argument: " ++ word
  | .letterNeedsValue letter letters =>
    "flag needs an argument: " ++ Quoted.code letter ++ " in -" ++ letters
  | .badInt flag value problem => invalid flag value "strconv.ParseInt" problem
  | .badBool flag value => invalid flag value "strconv.ParseBool" .invalid

end FlagError

def readBool? (text : Bytes) : Option Bool :=
  if [("1" : Bytes), "t", "T", "TRUE", "true", "True"].contains text then some true
  else if [("0" : Bytes), "f", "F", "FALSE", "false", "False"].contains text then some false
  else none

inductive FlagValue where
  | text (t : Bytes)
  | int (n : Int)
  | bool (b : Bool)
deriving DecidableEq, Repr

/-- The flags given, the last one first, and the arguments. -/
structure CommandLine where
  given : List (Flag × FlagValue) := []
  args : List Bytes := []
deriving DecidableEq, Repr

namespace CommandLine

def set (c : CommandLine) (flag : Flag) (value : Bytes) : Except FlagError CommandLine := do
  let value ← match flag.type with
    | .text => pure (.text value)
    | .int => match Literal.anyBase value with
      | .ok n => pure (.int n)
      | .error problem => throw (.badInt flag value problem)
    | .bool => match readBool? value with
      | some b => pure (.bool b)
      | none => throw (.badBool flag value)
  return { c with given := (flag, value) :: c.given }

/-- What a word does to the command line: it is complete in itself, or takes the next word as a
value. -/
inductive Step where
  | complete (c : CommandLine)
  | takesNext (flag : Flag) (missing : FlagError)

def long (c : CommandLine) (word body : Bytes) : Except FlagError Step := do
  let first := body.head?
  if first = some '-'.toUInt8 ∨ first = some '='.toUInt8 then throw (.badForm word)
  let name := body.takeWhile (· ≠ '='.toUInt8)
  match Flag.ofName? name with
  | none => throw (.unknown name)
  | some flag => match body.dropWhile (· ≠ '='.toUInt8) with
    | _ :: value => return .complete (← c.set flag value)
    | [] =>
      if flag.type = .bool then return .complete (← c.set flag "true")
      else return .takesNext flag (.needsValue word)

/-- Letters after a single dash. Those that start the name of a flag for tests are passed over. -/
def short (c : CommandLine) : Bytes → Except FlagError Step
  | [] => .ok (.complete c)
  | b :: rest => do
    if ("test." : Bytes).isPrefixOf (b :: rest) then return .complete c
    match Flag.ofLetter? b with
    | none => throw (.unknownLetter b (b :: rest))
    | some flag =>
      match rest with
      | e :: v :: value =>
        if e = '='.toUInt8 then return .complete (← c.set flag (v :: value))
        else if flag.type = .bool then short (← c.set flag "true") rest
        else return .complete (← c.set flag rest)
      | _ =>
        if flag.type = .bool then short (← c.set flag "true") rest
        else if rest.isEmpty then return .takesNext flag (.letterNeedsValue b (b :: rest))
        else return .complete (← c.set flag rest)

def read (c : CommandLine) : List Bytes → Except FlagError CommandLine
  | [] => .ok c
  | word :: words =>
    let next (step : Except FlagError Step) : Except FlagError CommandLine :=
      match step with
      | .error e => .error e
      | .ok (.complete c) => read c words
      | .ok (.takesNext flag missing) => match words with
        | [] => .error missing
        | value :: words => match c.set flag value with
          | .error e => .error e
          | .ok c => read c words
    match word with
    | d :: b :: rest =>
      if d ≠ '-'.toUInt8 then read { c with args := c.args ++ [word] } words
      else if b ≠ '-'.toUInt8 then next (c.short (b :: rest))
      else if rest.isEmpty then .ok { c with args := c.args ++ words }
      else next (c.long word rest)
    | _ => read { c with args := c.args ++ [word] } words

def parse (words : List Bytes) : Except FlagError CommandLine := read {} words

end CommandLine

end ClassTrace
