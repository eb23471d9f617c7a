import ClassTrace.Files
import ClassTrace.Files.Path

/-!
Trees of files in memory. A file or directory is known by the names that lead to it from the top,
where relative paths start. Around a tree there are the directories above it and a few that every
computer has; files that are made there are kept apart. Devices look like files, but do not keep
what is written to them.
-/
namespace ClassTrace

/-- A device: the one that forgets everything, and the two streams of the process. -/
inductive Device where
  | null
  | stdout
  | stderr
deriving DecidableEq, Repr

namespace Device

def all : List Device := [.null, .stdout, .stderr]

def names : Device → List Bytes
  | .null => ["dev", "null"]
  | .stdout => ["dev", "stdout"]
  | .stderr => ["dev", "stderr"]

end Device

/-- Where a path leads to: into a tree, to what lies `levels` and one more above it, or to a place
known by the names from the root. -/
inductive Place where
  | inside (names : List Bytes)
  | above (levels : Nat) (names : List Bytes)
  | rooted (names : List Bytes)
deriving DecidableEq, Repr

namespace Place

def child (name : Bytes) : Place → Place
  | .inside names => .inside (names ++ [name])
  | .above levels names => .above levels (names ++ [name])
  | .rooted names => .rooted (names ++ [name])

/-- The directory that a place is in. The root is in itself. -/
def parent : Place → Place
  | .inside [] => .above 0 []
  | .inside names => .inside names.dropLast
  | .above levels [] => .above (levels + 1) []
  | .above levels names => .above levels names.dropLast
  | .rooted names => .rooted names.dropLast

def device? (place : Place) : Option Device := Device.all.find? fun d => place = .rooted d.names

def rootDirectories : List (List Bytes) := [[], ["dev"], ["tmp"]]

end Place

/-- `outside` has the files that are not in the tree, and `sent` what was written to devices. -/
structure FileTree where
  files : List (List Bytes × Bytes) := []
  directories : List (List Bytes) := []
  outside : List (Place × Bytes) := []
  sent : List (Device × Bytes) := []

namespace FileTree

def isDirectory (t : FileTree) : Place → Bool
  | .inside names => names.isEmpty || t.directories.contains names
  | .above _ names => names.isEmpty
  | .rooted names => Place.rootDirectories.contains names

/-- What is in the file at a place, if there is one. Nothing can be read from a device. -/
def data? (t : FileTree) : Place → Option Bytes
  | .inside names => t.files.lookup names
  | place => match place.device? with
    | some _ => some []
    | none => t.outside.lookup place

def kindAt (t : FileTree) (place : Place) : Option FileKind :=
  if t.isDirectory place then some .directory
  else if (t.data? place).isSome then some .file else none

def step (t : FileTree) (place : Place) (part : Bytes) : Except FileProblem Place :=
  match t.kindAt place with
  | none => .error .missing
  | some .file => .error .notDirectory
  | some .directory =>
    if part.isEmpty ∨ part = "." then .ok place
    else if part = ".." then .ok place.parent
    else if Path.maxName < part.length then .error .nameTooLong
    else .ok (place.child part)

def walk (t : FileTree) (path : Bytes) (parts : List Bytes) : Except FileProblem Place :=
  if path.contains 0 then .error .invalidPath
  else if Path.maxLength < path.length then .error .nameTooLong
  else if path.isEmpty then .error .missing
  else parts.foldlM t.step (if Path.isRooted path then .rooted [] else .inside [])

def place (t : FileTree) (path : Bytes) : Except FileProblem Place :=
  t.walk path (Path.parts path)

/-- The place where a file is to be made. A path that ends in a slash names a directory, if what
comes before leads anywhere. -/
def placeToWrite (t : FileTree) (path : Bytes) : Except FileProblem Place :=
  if Path.endsInSlash path then
    match t.walk path ((Path.parts path).reverse.dropWhile (·.isEmpty)).reverse with
    | .ok _ => .error .isDirectory
    | .error problem => .error problem
  else t.place path

def kind (t : FileTree) (path : Bytes) : Option FileKind :=
  match t.place path with
  | .ok place => t.kindAt place
  | .error _ => none

def read (t : FileTree) (path : Bytes) : Except FileError Bytes :=
  match t.place path with
  | .error problem => .error ⟨.open, path, problem⟩
  | .ok place =>
    if t.isDirectory place then .error ⟨.read, path, .isDirectory⟩
    else match t.data? place with
      | some data => .ok data
      | none => .error ⟨.open, path, .missing⟩

def replace {κ : Type} [BEq κ] (files : List (κ × Bytes)) (name : κ) (data : Bytes) :
    List (κ × Bytes) :=
  if (files.lookup name).isSome then files.map fun f => if f.1 == name then (name, data) else f
  else files ++ [(name, data)]

def put (t : FileTree) (data : Bytes) : Place → FileTree
  | .inside names => { t with files := replace t.files names data }
  | place => match place.device? with
    | some device => { t with sent := t.sent ++ [(device, data)] }
    | none => { t with outside := replace t.outside place data }

/-- A file is written into a directory that is there. -/
def write (t : FileTree) (path data : Bytes) : Except FileError FileTree :=
  match t.placeToWrite path with
  | .error problem => .error ⟨.open, path, problem⟩
  | .ok place =>
    if t.isDirectory place then .error ⟨.open, path, .isDirectory⟩
    else .ok (t.put data place)

def add (t : FileTree) (path data : Bytes) : FileTree :=
  let names := (Path.parts path).filter fun part : Bytes => !part.isEmpty && part ≠ "."
  let above := (List.range names.length).tail.map names.take
  { t with directories := t.directories ++ above.filter fun d => !t.directories.contains d }.put
    data (.inside names)

def remove (t : FileTree) (path : Bytes) : FileTree :=
  match t.place path with
  | .ok (.inside names) => { t with files := t.files.filter fun f => f.1 ≠ names }
  | .ok place => { t with outside := t.outside.filter fun f => f.1 ≠ place }
  | .error _ => t

end FileTree

def Session.run {α : Type} : Session α → FileTree → α × FileTree
  | .done value, t => (value, t)
  | .kind path next, t => (next (t.kind path)).run t
  | .read path next, t => (next (t.read path)).run t
  | .write path data next, t => match t.write path data with
    | .ok t => (next (.ok ())).run t
    | .error e => (next (.error e)).run t

end ClassTrace
