import ClassTrace.Files
import ClassTrace.Files.Path
import ClassTrace.Program.Load

/-!
Classes from files. A class path finds a class by its name below a directory, and loads it once.
-/
namespace ClassTrace

inductive ClassFileError where
  | file (error : FileError)
  | format (error : FormatError)
deriving DecidableEq, Repr

inductive ClassPathError where
  | file (path : Bytes) (error : ClassFileError)
  | load (error : LoadError)
  | wrongName (name declared : Bytes)
deriving DecidableEq, Repr

def ClassFileError.message : ClassFileError → Bytes
  | .file error => error.message
  | .format error => error.message

def ClassPathError.message : ClassPathError → Bytes
  | .file path error => FaultKind.load.text ++ ": " ++ path ++ ": " ++ error.message
  | .load error => error.message
  | .wrongName name declared =>
    FaultKind.load.text ++ ": " ++ name ++ ".class declares class " ++ declared

/-- Parses the class file at a path. A directory can be opened, but fails at the first item. -/
def ClassFile.parseFile (path : Bytes) : Session (Except ClassFileError ClassFile) := do
  match ← Session.readFile path with
  | .ok data => return match ClassFile.parse data with
    | .ok file => .ok file
    | .error e => .error (.format e)
  | .error e =>
    if e.action = .read ∧ e.problem = .isDirectory then
      return .error (.format (.within .magic (.directory path)))
    else return .error (.file e)

def Class.loadFile (path : Bytes) : Session (Except ClassPathError Class) := do
  match ← ClassFile.parseFile path with
  | .error e => return .error (.file path e)
  | .ok file => return match Class.load file with
    | .ok c => .ok c
    | .error e => .error (.load e)

structure ClassPath where
  directory : Bytes
  loaded : List (Bytes × Class) := []

namespace ClassPath

/-- Names may have dots between their parts, and the ending of class files. -/
def normalize (name : Bytes) : Bytes :=
  Bytes.replaceByte '.'.toUInt8 '/'.toUInt8 (Bytes.dropSuffix ".class" name)

/-- A class that is not yet loaded must be in a file of its name, and have that name itself. -/
def load (c : ClassPath) (name : Bytes) : Session (Except ClassPathError Class × ClassPath) := do
  let name := normalize name
  match c.loaded.lookup name with
  | some loaded => return (.ok loaded, c)
  | none =>
    match ← Class.loadFile (Path.join c.directory (name ++ ".class")) with
    | .error e => return (.error e, c)
    | .ok loaded =>
      if loaded.name ≠ name then return (.error (.wrongName name loaded.name), c)
      else return (.ok loaded, { c with loaded := (name, loaded) :: c.loaded })

end ClassPath

end ClassTrace
