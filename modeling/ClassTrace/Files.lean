import ClassTrace.Text.Bytes

/-!
Programs that ask for files. A session is a computation with its requests for files as data; what
answers them is a tree of files in memory, or the files of a computer.
-/
namespace ClassTrace

/-- What a request was about to do when it failed. -/
inductive FileAction where
  | open
  | read
deriving DecidableEq, Repr

inductive FileProblem where
  | missing
  | isDirectory
  | notDirectory
  | invalidPath
  | nameTooLong
  | other (text : Bytes)
deriving DecidableEq, Repr

structure FileError where
  action : FileAction
  path : Bytes
  problem : FileProblem
deriving DecidableEq, Repr

def FileAction.name : FileAction → Bytes
  | .open => "open"
  | .read => "read"

def FileProblem.text : FileProblem → Bytes
  | .missing => "no such file or directory"
  | .isDirectory => "is a directory"
  | .notDirectory => "not a directory"
  | .invalidPath => "invalid argument"
  | .nameTooLong => "file name too long"
  | .other text => text

def FileError.message (e : FileError) : Bytes :=
  e.action.name ++ " " ++ e.path ++ ": " ++ e.problem.text

inductive FileKind where
  | file
  | directory
deriving DecidableEq, Repr

inductive Session (α : Type) where
  | done (value : α)
  | kind (path : Bytes) (next : Option FileKind → Session α)
  | read (path : Bytes) (next : Except FileError Bytes → Session α)
  | write (path data : Bytes) (next : Except FileError Unit → Session α)

namespace Session

variable {α β : Type}

def bind (next : α → Session β) : Session α → Session β
  | .done value => next value
  | .kind path k => .kind path fun answer => bind next (k answer)
  | .read path k => .read path fun answer => bind next (k answer)
  | .write path data k => .write path data fun answer => bind next (k answer)

instance : Monad Session where
  pure := .done
  bind x f := bind f x

def kindOf (path : Bytes) : Session (Option FileKind) := .kind path .done

def readFile (path : Bytes) : Session (Except FileError Bytes) := .read path .done

def writeFile (path data : Bytes) : Session (Except FileError Unit) := .write path data .done

end Session

end ClassTrace
