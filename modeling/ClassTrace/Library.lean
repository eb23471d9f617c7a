import ClassTrace.Heap

/-!
The library: what stands behind methods, constructors and static fields of classes that are not
loaded. A registry maps names to what they do; a later registration replaces an earlier one.
-/
namespace ClassTrace

/-- What a library method does. -/
inductive Routine where
  | print
  | println
  | minInt
  | maxInt
  | minLong
  | maxLong
  | minFloat
  | maxFloat
  | minDouble
  | maxDouble
  | power
  | absInt
  | absLong
  | absFloat
  | absDouble
  | squareRoot
  | nothing
  | box
  | unbox
  | stringLength
  | stringCharAt
  | mapGet
  | mapPut
  | mapContainsKey
  | mapSize
  | constant (v : Value)
  | failing (error : OutsideError)
deriving DecidableEq

/-- An entry to be made anew each time it is asked for. -/
inductive Blueprint where
  | array (element : FieldType) (elements : List Value)
  | integer (v : Int32)
  | map
  | object
deriving DecidableEq

def Blueprint.build (b : Blueprint) (c : Class) : Entry :=
  match b with
  | .array element elements => .array element elements.toArray
  | .integer v => .integer v
  | .map => .map {}
  | .object => c.newObject

/-- How a library class makes its objects. -/
inductive Maker where
  | build (blueprint : Blueprint)
  | failing (error : OutsideError)
deriving DecidableEq

/-- Where the value of a library static field comes from. -/
inductive StaticSource where
  | stream (channel : Channel)
  | constant (v : Value)
  | failing (error : OutsideError)
deriving DecidableEq

structure RoutineKey where
  owner : Bytes
  name : Bytes
  descriptor : Bytes
deriving DecidableEq, Repr

def staticKey (owner name : Bytes) : Bytes := owner ++ "." ++ name

structure Library where
  routines : List (RoutineKey × Routine) := []
  makers : List (Bytes × Maker) := []
  statics : List (Bytes × StaticSource) := []

namespace Library

def register (l : Library) (owner name descriptor : Bytes) (r : Routine) : Library :=
  { l with routines := (⟨owner, name, descriptor⟩, r) :: l.routines }

def registerMaker (l : Library) (owner : Bytes) (m : Maker) : Library :=
  { l with makers := (owner, m) :: l.makers }

def registerStatic (l : Library) (owner name : Bytes) (s : StaticSource) : Library :=
  { l with statics := (staticKey owner name, s) :: l.statics }

/-- A routine registered with an empty descriptor serves all descriptors without one of their
own. -/
def routine? (l : Library) (owner name descriptor : Bytes) : Option Routine :=
  l.routines.lookup ⟨owner, name, descriptor⟩ <|> l.routines.lookup ⟨owner, name, []⟩

def maker? (l : Library) (owner : Bytes) : Option Maker := l.makers.lookup owner

def static? (l : Library) (owner name : Bytes) : Option StaticSource :=
  l.statics.lookup (staticKey owner name)

def owns (owner : Bytes) : Bool :=
  [("java/" : Bytes), "javax/", "jdk/"].any fun start => start.isPrefixOf owner

def objectKey (name descriptor : Bytes) : RoutineKey := ⟨"java/lang/Object", name, descriptor⟩

def mathKey (name descriptor : Bytes) : RoutineKey := ⟨"java/lang/Math", name, descriptor⟩

def boxKey (name descriptor : Bytes) : RoutineKey := ⟨boxClass, name, descriptor⟩

def stringKey (name descriptor : Bytes) : RoutineKey := ⟨"java/lang/String", name, descriptor⟩

def mapKey (name descriptor : Bytes) : RoutineKey := ⟨KeyedMap.className, name, descriptor⟩

def streamKey (name : Bytes) : RoutineKey := ⟨PrintStream.className, name, []⟩

def default : Library where
  routines := [
    (streamKey "println", .println),
    (streamKey "print", .print),
    (mathKey "min" "(II)I", .minInt),
    (mathKey "max" "(II)I", .maxInt),
    (mathKey "min" "(JJ)J", .minLong),
    (mathKey "max" "(JJ)J", .maxLong),
    (mathKey "min" "(FF)F", .minFloat),
    (mathKey "max" "(FF)F", .maxFloat),
    (mathKey "min" "(DD)D", .minDouble),
    (mathKey "max" "(DD)D", .maxDouble),
    (mathKey "pow" "(DD)D", .power),
    (mathKey "abs" "(I)I", .absInt),
    (mathKey "abs" "(J)J", .absLong),
    (mathKey "abs" "(F)F", .absFloat),
    (mathKey "abs" "(D)D", .absDouble),
    (mathKey "sqrt" "(D)D", .squareRoot),
    (objectKey "<init>" "()V", .nothing),
    (boxKey "valueOf" "(I)Ljava/lang/Integer;", .box),
    (boxKey "intValue" "()I", .unbox),
    (stringKey "length" "()I", .stringLength),
    (stringKey "charAt" "(I)C", .stringCharAt),
    (mapKey "<init>" "()V", .nothing),
    (mapKey "get" "(Ljava/lang/Object;)Ljava/lang/Object;", .mapGet),
    (mapKey "put" "(Ljava/lang/Object;Ljava/lang/Object;)Ljava/lang/Object;", .mapPut),
    (mapKey "containsKey" "(Ljava/lang/Object;)Z", .mapContainsKey),
    (mapKey "size" "()I", .mapSize)]
  makers := [(KeyedMap.className, .build .map)]
  statics := [
    (staticKey "java/lang/System" "out", .stream .out),
    (staticKey "java/lang/System" "err", .stream .err)]

end Library

end ClassTrace
