import ClassTrace.ConstantPool
import ClassTrace.Descriptor.Parser

/-!
Resolving a pool, in three passes: constants that stand for themselves, those that refer to texts,
and members. The order of the entries does not matter, and every problem of every entry is
reported. Slots are counted in 16 bits, so in a pool with more entries than that the later ones
come to the slots of earlier ones.
-/
namespace ClassTrace

namespace ConstantPool

inductive Cause where
  | outOfRange (index : UInt16)
  | notUtf8 (index : UInt16)
  | descriptor (error : DescriptorError)
  | notClass (index : UInt16)
  | notNameType (index : UInt16)
  | notFieldType (name descriptor : Bytes)
  | notMethodType (name descriptor : Bytes)
deriving DecidableEq, Repr

/-- What is wrong with the entry in the given slot. -/
structure Problem where
  slot : Nat
  cause : Cause
deriving DecidableEq, Repr

def Cause.message : Cause → Bytes
  | .outOfRange index => "index " ++ Bytes.decimal index.toNat ++ " out of range"
  | .notUtf8 index => "index " ++ Bytes.decimal index.toNat ++ " is not Utf8"
  | .descriptor error => error.message
  | .notClass index => "index " ++ Bytes.decimal index.toNat ++ " is not a resolvable Class"
  | .notNameType index =>
    "index " ++ Bytes.decimal index.toNat ++ " is not a resolvable NameAndType"
  | .notFieldType name type => name ++ ": " ++ Quoted.text type ++ " is not a field type"
  | .notMethodType name type => name ++ ": " ++ Quoted.text type ++ " is not a method descriptor"

def Problem.message (p : Problem) : Bytes :=
  "entry " ++ Bytes.decimal p.slot ++ ": " ++ p.cause.message

/-- What resolving one entry gives: a constant, or the causes why there is none. An entry that a
later pass is concerned with gives neither. -/
structure Outcome where
  constant : Option Constant
  causes : List Cause

namespace Outcome

def done (c : Constant) : Outcome := ⟨some c, []⟩

def failed (causes : List Cause) : Outcome := ⟨none, causes⟩

def later : Outcome := ⟨none, []⟩

end Outcome

/-- The text at an index of a pool whose first entry has index 1. -/
def textAt (raw : Array (Option PoolEntry)) (index : UInt16) : Except Cause Bytes :=
  if index = 0 ∨ raw.size < index.toNat then .error (.outOfRange index)
  else match raw[index.toNat - 1]? with
    | some (some (.utf8 text)) => .ok text
    | _ => .error (.notUtf8 index)

def resolveNameType (name descriptor : Bytes) : Outcome :=
  match Descriptor.parse descriptor with
  | .ok type => .done (.nameType ⟨name, descriptor, type⟩)
  | .error e => .failed [.descriptor e]

def resolveLeaf : PoolEntry → Outcome
  | .utf8 text => .done (.utf8 text)
  | .integer v => .done (.int v)
  | .float v => .done (.float v)
  | .long v => .done (.long v)
  | .double v => .done (.double v)
  | .skipped tag => .done (.unsupported tag)
  | _ => .later

def resolveNamed (raw : Array (Option PoolEntry)) : PoolEntry → Outcome
  | .classRef index => match textAt raw index with
    | .ok name => .done (.classRef ⟨name, index⟩)
    | .error c => .failed [c]
  | .string index => match textAt raw index with
    | .ok text => .done (.string text index)
    | .error c => .failed [c]
  | .nameAndType nameIndex descriptorIndex =>
    match textAt raw nameIndex, textAt raw descriptorIndex with
    | .ok name, .ok descriptor => resolveNameType name descriptor
    | .error c, .ok _ => .failed [c]
    | .ok _, .error c => .failed [c]
    | .error c, .error d => .failed [c, d]
  | _ => .later

def resolveOwner (pool : ConstantPool) (classIndex nameTypeIndex : UInt16) :
    Except (List Cause) (ClassName × NameType) :=
  match pool.get classIndex, pool.get nameTypeIndex with
  | .ok (.classRef owner), .ok (.nameType nameType) => .ok (owner, nameType)
  | .ok (.classRef _), _ => .error [.notNameType nameTypeIndex]
  | _, .ok (.nameType _) => .error [.notClass classIndex]
  | _, _ => .error [.notClass classIndex, .notNameType nameTypeIndex]

def resolveField (pool : ConstantPool) (classIndex nameTypeIndex : UInt16) : Outcome :=
  match resolveOwner pool classIndex nameTypeIndex with
  | .error causes => .failed causes
  | .ok (owner, nameType) => match nameType.type with
    | .plain type => .done (.fieldRef ⟨owner, nameType, type⟩)
    | .method _ => .failed [.notFieldType nameType.name nameType.descriptor]

def resolveMethod (pool : ConstantPool) (classIndex nameTypeIndex : UInt16) (isInterface : Bool) :
    Outcome :=
  match resolveOwner pool classIndex nameTypeIndex with
  | .error causes => .failed causes
  | .ok (owner, nameType) => match nameType.type with
    | .method signature => .done (.methodRef ⟨owner, nameType, signature, isInterface⟩)
    | .plain _ => .failed [.notMethodType nameType.name nameType.descriptor]

def resolveMember (pool : ConstantPool) : PoolEntry → Outcome
  | .fieldRef owner nameType => resolveField pool owner nameType
  | .methodRef owner nameType => resolveMethod pool owner nameType false
  | .interfaceMethodRef owner nameType => resolveMethod pool owner nameType true
  | _ => .later

/-- A pool in the course of being resolved, with the problems that were found so far. -/
structure Progress where
  pool : ConstantPool
  problems : Array Problem := #[]

def slotOf (position : Nat) : Nat := (position + 1) % 65536

def Progress.put (position : Nat) (o : Outcome) (r : Progress) : Progress where
  pool := match o.constant with
    | some c => r.pool.setIfInBounds (slotOf position) (some c)
    | none => r.pool
  problems :=
    r.problems ++ (o.causes.map fun cause => (⟨slotOf position, cause⟩ : Problem)).toArray

/-- One pass over the entries from a position on. Each of them is resolved with the pool that the
ones before it have left. -/
def pass (resolve : ConstantPool → PoolEntry → Outcome) :
    (position : Nat) → List (Option PoolEntry) → Progress → Progress
  | _, [], r => r
  | position, none :: rest, r => pass resolve (position + 1) rest r
  | position, some e :: rest, r =>
    pass resolve (position + 1) rest (r.put position (resolve r.pool e))

/-- The passes that leave the slots of members empty. -/
def simplePasses (raw : Array (Option PoolEntry)) : Progress :=
  let empty : Progress := { pool := Array.replicate (raw.size + 1) none }
  pass (fun _ => resolveNamed raw) 0 raw.toList (pass (fun _ => resolveLeaf) 0 raw.toList empty)

def passes (raw : Array (Option PoolEntry)) : Progress :=
  pass resolveMember 0 raw.toList (simplePasses raw)

def resolve (raw : Array (Option PoolEntry)) : Except (List Problem) ConstantPool :=
  let r := passes raw
  match r.problems.toList with
  | [] => .ok r.pool
  | problems => .error problems

end ConstantPool

end ClassTrace
