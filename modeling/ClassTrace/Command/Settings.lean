import ClassTrace.ClassPath
import ClassTrace.Command.Config
import ClassTrace.Machine
import ClassTrace.Trace.Format

/-!
The settings of a run. Each is taken from the first place that has it: the command line, the
environment, a configuration file, and last its default.
-/
namespace ClassTrace

/-- Where settings come from. -/
structure Sources where
  line : CommandLine
  environment : List (Bytes × Bytes)
  config : Config := []

def Flag.default : Flag → Scalar
  | .classPath => .text "."
  | .entry => .text "main"
  | .logLevel => .text "warn"
  | .maxDepth => .int 1024
  | .legacyBranches | .noColor | .help => .bool false
  | .config | .format | .output => .text ""

def Flag.variableName (f : Flag) : Bytes :=
  "JVMTRACE_" ++ (Bytes.ofString f.name).map fun b =>
    if b = '-'.toUInt8 then '_'.toUInt8
    else if 'a'.toUInt8 ≤ b && b ≤ 'z'.toUInt8 then b - 32
    else b

namespace Sources

/-- A variable that is empty counts as not set. -/
def environmentValue? (s : Sources) (name : Bytes) : Option Bytes :=
  (s.environment.lookup name).bind fun value => if value.isEmpty then none else some value

/-- Whether the environment asks for output without color, whatever the flags say. -/
def refusesColor (s : Sources) : Bool := (s.environmentValue? "NO_COLOR").isSome

def get (s : Sources) (f : Flag) : Scalar :=
  match s.line.given.lookup f with
  | some value => .ofFlag value
  | none => match s.environmentValue? f.variableName with
    | some value => .text value
    | none => (s.config.lookup (Bytes.ofString f.name)).getD f.default

def text (s : Sources) (f : Flag) : Bytes := (s.get f).toText

def int (s : Sources) (f : Flag) : Int := (s.get f).toInt

def flag (s : Sources) (f : Flag) : Bool := (s.get f).toBool

end Sources

inductive ConfigError where
  | file (error : FileError)
  | content (problem : ConfigProblem)
deriving DecidableEq, Repr

def ConfigError.message (e : ConfigError) : Bytes :=
  "reading config: " ++ match e with
    | .file error => error.message
    | .content problem => problem.message

namespace Config

def readFile (path : Bytes) : Session (Except ConfigError Config) := do
  let extension := Path.extension path
  if !(extensions.any fun e => Bytes.ofString e = extension) then
    return .error (.content (.unsupported extension))
  match ← Session.readFile path with
  | .error e => return .error (.file e)
  | .ok data => return match parse extension data with
    | .ok config => .ok config
    | .error problem => .error (.content problem)

def firstFile : List Bytes → Session (Option Bytes)
  | [] => return none
  | path :: rest => do
    if (← Session.kindOf path) = some .file then return some path else firstFile rest

def homePaths (home : Bytes) : List Bytes :=
  extensions.map fun e => Path.join home (".jvmtrace." ++ Bytes.ofString e)

end Config

def Sources.withConfig (s : Sources) : Session (Except ConfigError Sources) := do
  let asked := s.text .config
  let path ← if !asked.isEmpty then pure (some asked)
    else match s.environmentValue? "HOME" with
      | none => pure none
      | some home => Config.firstFile (Config.homePaths home)
  match path with
  | none => return .ok s
  | some path => return match ← Config.readFile path with
    | .ok config => .ok { s with config }
    | .error e => .error e

end ClassTrace
