import ClassTrace.ClassFile.Parser
import ClassTrace.ConstantPool.Resolve
import ClassTrace.Program

/-!
Loading a parsed class file. The constants are resolved first and the class is named; then every
field and every method is typed, and what is wrong with the members is reported together.
-/
namespace ClassTrace

inductive MemberProblem where
  | field (name : Bytes) (error : DescriptorError)
  | method (name descriptor : Bytes) (error : DescriptorError)
deriving DecidableEq, Repr

inductive LoadError where
  | pool (problems : List ConstantPool.Problem)
  | thisClass (fault : Fault)
  | members (name : Bytes) (problems : List MemberProblem)
deriving DecidableEq, Repr

def summary (messages : List Bytes) : Bytes :=
  let head : Bytes :=
    if messages.length = 1 then "1 error" else Bytes.decimal messages.length ++ " errors"
  head ++ " occurred:" ++ messages.flatMap (fun m => ("\n\t* " : Bytes) ++ m) ++ "\n\n"

def MemberProblem.message : MemberProblem → Bytes
  | .field name error => "field " ++ name ++ ": " ++ error.message
  | .method name type error => "method " ++ name ++ type ++ ": " ++ error.message

namespace LoadError

def message (e : LoadError) : Bytes :=
  FaultKind.load.text ++ ": " ++ match e with
    | .pool problems => "constant pool: " ++ summary (problems.map (·.message))
    | .thisClass fault => "this_class: " ++ fault.message
    | .members name problems => "class " ++ name ++ ": " ++ summary (problems.map (·.message))

/-- Whether a malformed descriptor is among the reasons. -/
def blamesDescriptor : LoadError → Bool
  | .pool problems => problems.any fun p => match p.cause with
    | .descriptor _ => true
    | _ => false
  | .thisClass _ => false
  | .members _ problems => !problems.isEmpty

end LoadError

def fillLines (line : Int) : (count pc : Nat) → Array Int → Array Int
  | 0, _, lines => lines
  | count + 1, pc, lines => fillLines line count (pc + 1) (lines.setIfInBounds pc line)

/-- Each row holds up to the start of the next row, or to the end of the code. -/
def applyRows : List LineRow → Array Int → Array Int
  | [], lines => lines
  | [r], lines => fillLines r.line.toNat (lines.size - r.start.toNat) r.start.toNat lines
  | r :: next :: rest, lines =>
    applyRows (next :: rest)
      (fillLines r.line.toNat (min next.start.toNat lines.size - r.start.toNat)
        r.start.toNat lines)

def expandLines (rows : List LineRow) (size : Nat) : Array Int :=
  applyRows rows (Array.replicate size (-1))

namespace Method

def ofRow (r : VariableRow) : Variable :=
  ⟨r.name, r.descriptor, r.start.toNat, r.length.toNat, r.index.toNat⟩

def bare (owner : Bytes) (info : MethodMember) (signature : Signature) : Method :=
  { owner, name := info.name, descriptor := info.descriptor, signature,
    isStatic := info.isStatic }

def withCode (m : Method) (code : Code) : Method :=
  { m with
    maxStack := code.maxStack.toNat
    maxLocals := code.maxLocals.toNat
    code := code.code.toArray
    lines := expandLines code.lines code.code.length
    localVariables := code.variableRows.map ofRow }

def load (owner : Bytes) (info : MethodMember) : Except MemberProblem Method :=
  match Signature.parse info.descriptor with
  | .error e => .error (.method info.name info.descriptor e)
  | .ok signature =>
    let m := bare owner info signature
    let m := match info.code with
      | some code => m.withCode code
      | none => m
    .ok { m with paramNames := m.nameParams }

end Method

def Field.load (info : Member) : Except MemberProblem Field :=
  match FieldType.parse info.descriptor with
  | .error e => .error (.field info.name e)
  | .ok type => .ok ⟨info.name, type, info.isStatic⟩

def failures {ε α : Type} (attempts : List (Except ε α)) : List ε :=
  attempts.filterMap fun r => match r with
    | .error e => some e
    | .ok _ => none

def successes {ε α : Type} (attempts : List (Except ε α)) : List α :=
  attempts.filterMap fun r => match r with
    | .error _ => none
    | .ok a => some a

namespace Class

def load (file : ClassFile) : Except LoadError Class :=
  match ConstantPool.resolve (file.pool.extract 1 file.pool.size) with
  | .error problems => .error (.pool problems)
  | .ok pool => match pool.classRef file.thisClass with
    | .error fault => .error (.thisClass fault)
    | .ok ⟨name, _⟩ =>
      let fields := file.fields.map Field.load
      let methods := file.methods.map (Method.load name)
      match failures fields ++ failures methods with
      | [] => .ok ⟨name, file.superName, pool, successes fields, successes methods⟩
      | problems => .error (.members name problems)

end Class

end ClassTrace
