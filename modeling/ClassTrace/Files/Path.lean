import ClassTrace.Text.Bytes

/-!
File paths as texts with slashes. The clean form of a path has no empty parts, no parts that stay
in place, and no part that goes back over the one before it.
-/
namespace ClassTrace.Path

def slash : UInt8 := '/'.toUInt8

def parts (path : Bytes) : List Bytes := Bytes.split slash path

def maxName : Nat := 255

def maxLength : Nat := 4095

def endsInSlash (path : Bytes) : Bool := path.getLast? = some slash

def isRooted (path : Bytes) : Bool := path.head? = some slash

/-- Adds a part to those before it, of which the last is first. A step back from the root stays
there. -/
def push (rooted : Bool) (done : List Bytes) (part : Bytes) : List Bytes :=
  if part.isEmpty ∨ part = "." then done
  else if part = ".." then
    match done with
    | [] => if rooted then [] else [part]
    | last :: rest => if last = ".." then part :: done else rest
  else part :: done

def clean (path : Bytes) : Bytes :=
  let rooted := isRooted path
  let kept := ((parts path).foldl (push rooted) []).reverse
  if rooted then "/" ++ Bytes.join "/" kept
  else if kept.isEmpty then "." else Bytes.join "/" kept

/-- A path below a directory, in clean form. Without either, the other is the path. -/
def join (directory path : Bytes) : Bytes :=
  if directory.isEmpty then if path.isEmpty then [] else clean path
  else clean (directory ++ "/" ++ path)

def extension (path : Bytes) : Bytes :=
  let name := (parts path).getLast?.getD []
  if name.contains '.'.toUInt8 then (Bytes.split '.'.toUInt8 name).getLast?.getD [] else []

end ClassTrace.Path
