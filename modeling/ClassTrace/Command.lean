import ClassTrace.Command.Settings
import ClassTrace.Machine.Host

/-!
The command: it loads one class, runs its entry method and writes the trace of the run. The trace
goes to the standard output, or to a file; what the program prints shares the standard output only
in the second case. All that is logged goes to the standard error.
-/
namespace ClassTrace

inductive CommandError where
  | flag (error : FlagError)
  | noTarget
  | config (error : ConfigError)
  | level (text : Bytes) (error : Threshold.ParseError)
  | format (name : Bytes)
  | program (error : ClassPathError)
  | run (error : RunError)
  | outOfSteps
  | output (error : FileError)
  | stdout (error : OutsideError)
deriving DecidableEq, Repr

def CommandError.message : CommandError → Bytes
  | .flag error => error.message
  | .noTarget => "requires at least 1 arg(s), only received 0"
  | .config error => error.message
  | .level text error => "invalid log level " ++ Quoted.text text ++ ": " ++ error.message
  | .format name => Format.choiceMessage name
  | .program error => error.message
  | .run error => error.message
  | .outOfSteps => "the program did not come to an end"
  | .output error => error.message
  | .stdout error => error.message

/-- What a command is run in. `terminal` is whether the standard output is shown to a person. The
writers answer what the program prints on its channels, what is logged, and the trace if it goes
to the standard output; some of them may stand for the same stream. -/
structure Surroundings where
  environment : List (Bytes × Bytes) := []
  terminal : Bool := false
  colorEnabled : Bool := false
  runId : Bytes
  clock : Bytes
  fuel : Nat
  out : Writer := {}
  err : Writer := {}
  logs : Writer := {}
  document : Writer := {}

/-- What a command leaves on its two streams, and its error. -/
structure CommandResult where
  stdout : Bytes := []
  stderr : Bytes := []
  error : Option CommandError := none

namespace Command

def usage : Bytes := "Run a single JVM class and record an execution trace

Usage:
  jvmtrace [flags] <Class.class | ClassName> [-- program args]

Flags:
  -c, --classpath string   directory searched for classes named on the command line (default \".\")
      --config string      config file (default $HOME/.jvmtrace.yaml)
  -e, --entry string       static method to run (default \"main\")
  -f, --format string      trace format: json, pretty or cbor (default pretty on a terminal, json otherwise)
  -h, --help               help for jvmtrace
      --legacy-branches    evaluate ifge and ifle with inverted conditions
      --log-level string   log level: trace, debug, info, warn, error (default \"warn\")
      --max-depth int      maximum call depth (default 1024)
      --no-color           disable colored output
  -o, --output string      write the trace to a file instead of stdout
"

/-- A class is named by its file, if there is one, or by its name on the class path. -/
def loadTarget (target directory : Bytes) : Session (Except ClassPathError Class) := do
  let isFile := (".class" : Bytes).isSuffixOf target && (← Session.kindOf target).isSome
  if isFile then Class.loadFile target
  else return (← ({ directory } : ClassPath).load target).1

def settings (s : Sources) (threshold : Threshold) (colorEnabled : Bool) : Settings where
  entryPoint := s.text .entry
  maxDepth := s.int .maxDepth
  legacyBranches := s.flag .legacyBranches
  consoleColor := if colorEnabled then some [33] else none
  colorEnabled
  logThreshold := threshold
  loggingReports := threshold.admits .debug

def loadedRecord (c : Class) : LogRecord :=
  ⟨.info, [("class", .text c.name), ("methods", .number c.methods.length)], "loaded"⟩

def abortedRecord (e : CommandError) : LogRecord :=
  ⟨.error, [("error", .text e.message)], "execution aborted"⟩

def recordedRecord (d : Document) : LogRecord :=
  ⟨.info, [("run_id", .text d.runId), ("events", .number d.trace.size)], "trace recorded"⟩

def started (around : Surroundings) (settings : Settings) (c : Class) : Machine :=
  let silent : Console := { out := around.out, err := around.err }
  let console :=
    if settings.logThreshold.admits .info then silent.add (.log (loadedRecord c)) else silent
  Machine.start c Library.default settings around.runId console

def execute (around : Surroundings) (settings : Settings) (c : Class) (args : List Bytes) :
    Machine × Option CommandError :=
  let (m, error) : Machine × Option CommandError :=
    match (started around settings c).run around.fuel args with
    | .finished m => (m, none)
    | .failed e m => (m.log (abortedRecord (.run e)), some (.run e))
    | .unfinished m => (m.log (abortedRecord .outOfSteps), some .outOfSteps)
  (m.log (recordedRecord m.document), error)

/-- What goes to the standard error: logs that are not lost, what the program prints as errors,
and, unless it has the standard output to itself, what it prints. -/
def errorText (clock : Bytes) (ownsOutput : Bool) : Writer → List Output → Bytes
  | _, [] => []
  | logs, .text .out bytes :: rest =>
    (if ownsOutput then [] else bytes) ++ errorText clock ownsOutput logs rest
  | logs, .text .err bytes :: rest => bytes ++ errorText clock ownsOutput logs rest
  | logs, .log r :: rest => match logs.next with
    | (none, logs) => r.render (some clock) ++ errorText clock ownsOutput logs rest
    | (some _, logs) => errorText clock ownsOutput logs rest

/-- Puts the document out. An error in doing so takes the place of one of the run. -/
def finish (around : Surroundings) (output : Bytes) (colored : Bool) (format : Format)
    (m : Machine) (error : Option CommandError) : Session CommandResult := do
  let writes := m.document.writes colored format
  let toFile := !output.isEmpty
  let stderr := errorText around.clock toFile around.logs m.console.shown.toList
  if toFile then
    let stdout := Console.textOf .out m.console.shown
    match ← Session.writeFile output writes.flatten with
    | .ok _ => return { stdout, stderr, error }
    | .error e => return { stdout, stderr, error := some (.output e) }
  else
    let (stdout, refusal) := around.document.send writes
    return { stdout, stderr, error := (refusal.map .stdout).or error }

def failed (error : CommandError) : CommandResult := { error := some error }

/-- The format asked for. If none is, it is the one for people where a person reads the trace. -/
def format (terminal : Bool) (s : Sources) : Except CommandError Format :=
  let name := s.text .format
  if name.isEmpty then .ok (if terminal && (s.text .output).isEmpty then .pretty else .json)
  else match Format.ofName? name with
    | some f => .ok f
    | none => .error (.format name)

def threshold (s : Sources) : Except CommandError Threshold :=
  match Threshold.parse (s.text .logLevel) with
  | .ok t => .ok t
  | .error e => .error (.level (s.text .logLevel) e)

def colored (around : Surroundings) (s : Sources) : Bool :=
  around.colorEnabled && !s.flag .noColor && !s.refusesColor

def runTarget (around : Surroundings) (s : Sources) (target : Bytes) (args : List Bytes) :
    Session CommandResult := do
  match threshold s with
  | .error e => return failed e
  | .ok level => match format around.terminal s with
    | .error e => return failed e
    | .ok format => match ← loadTarget target (s.text .classPath) with
      | .error e => return failed (.program e)
      | .ok c =>
        let (m, error) := execute around (settings s level (colored around s)) c args
        finish around (s.text .output) (colored around s) format m error

def run (around : Surroundings) (words : List Bytes) : Session CommandResult := do
  match CommandLine.parse words with
  | .error e => return failed (.flag e)
  | .ok line =>
    if line.given.lookup .help = some (.bool true) then return { stdout := usage }
    else match line.args with
      | [] => return failed .noTarget
      | target :: args =>
        match ← ({ line, environment := around.environment } : Sources).withConfig with
        | .error e => return failed (.config e)
        | .ok s => runTarget around s target args

end Command

end ClassTrace
