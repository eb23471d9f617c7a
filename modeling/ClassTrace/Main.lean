import ClassTrace.Clock
import ClassTrace.Command
import Std.Time.DateTime.Timestamp

/-!
The command line program: it answers the requests of the command from the files of the computer,
and prints what the command leaves.
-/
namespace ClassTrace

def textOfBytes (b : Bytes) : String :=
  (String.fromUTF8? ⟨b.toArray⟩).getD (String.ofList (Utf8.scalars b))

/-- What an error of the computer says about a file. The codes are those of a path that leads to a
directory and of one that leads through a file. -/
def fileProblem : IO.Error → FileProblem
  | .noFileOrDirectory _ _ _ => .missing
  | .inappropriateType _ code details =>
    if code = 21 then .isDirectory else if code = 20 then .notDirectory else .other details
  | e => .other (toString e)

def readPath (path : Bytes) : IO (Except FileError Bytes) := do
  match ← (IO.FS.readBinFile (textOfBytes path)).toBaseIO with
  | .ok data => return .ok data.data.toList
  | .error e =>
    let problem := fileProblem e
    return .error ⟨if problem = .isDirectory then .read else .open, path, problem⟩

def kindOfPath (path : Bytes) : IO (Option FileKind) := do
  match ← readPath path with
  | .ok _ => return some .file
  | .error e => return if e.problem = .isDirectory then some .directory else none

def writePath (path data : Bytes) : IO (Except FileError Unit) := do
  match ← (IO.FS.writeBinFile (textOfBytes path) ⟨data.toArray⟩).toBaseIO with
  | .ok _ => return .ok ()
  | .error e => return .error ⟨.open, path, fileProblem e⟩

def Session.perform {α : Type} : Session α → IO α
  | .done value => pure value
  | .kind path next => do (next (← kindOfPath path)).perform
  | .read path next => do (next (← readPath path)).perform
  | .write path data next => do (next (← writePath path data)).perform

def readEnvironment : IO (List (Bytes × Bytes)) :=
  (("HOME" : Bytes) :: "NO_COLOR" :: Flag.all.map Flag.variableName).filterMapM fun name => do
    return (← IO.getEnv (textOfBytes name)).map fun value => (name, Bytes.ofString value)

def newRunId : IO Bytes := do
  let high ← IO.rand 0 0xffffffffffff
  let middle ← IO.rand 0 0xfff
  let low ← IO.rand 0 0x3fffffffffffffff
  let front := Bytes.hex 12 high
  let back := Bytes.hex 16 (0x8000000000000000 + low)
  return Bytes.join "-" [front.take 8, front.drop 8, ("4" : Bytes) ++ Bytes.hex 3 middle,
    back.take 4, back.drop 4]

end ClassTrace

open ClassTrace in
def main (args : List String) : IO UInt32 := do
  let stdout ← IO.getStdout
  let stderr ← IO.getStderr
  let now ← Std.Time.Timestamp.now
  let terminal ← stdout.isTty
  let colorless := (← IO.getEnv "TERM") = some "dumb"
  let around : Surroundings := {
    environment := ← readEnvironment
    terminal
    colorEnabled := terminal && !colorless
    runId := ← newRunId
    clock := Clock.text now.toSecondsSinceUnixEpoch.toInt.toNat
    fuel := 0x4000000000000000 }
  let result ← (Command.run around (args.map Bytes.ofString)).perform
  stderr.write ⟨result.stderr.toArray⟩
  stdout.write ⟨result.stdout.toArray⟩
  match result.error with
  | none => return 0
  | some e =>
    let message := e.message
    stderr.write
      ⟨((if terminal then "\x1b[31m" ++ message ++ "\x1b[0m" else message) ++ "\n").toArray⟩
    return 1
