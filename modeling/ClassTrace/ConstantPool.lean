import ClassTrace.ClassFile
import ClassTrace.Fault

/-!
Resolved constants. A member constant carries the names and the parsed type of what it refers to,
so that running an instruction neither walks the pool nor parses a descriptor.
-/
namespace ClassTrace

structure ClassName where
  name : Bytes
  index : UInt16
deriving DecidableEq, Repr

structure NameType where
  name : Bytes
  descriptor : Bytes
  type : Descriptor
deriving DecidableEq, Repr

structure FieldRef where
  owner : ClassName
  nameType : NameType
  type : ResultType
deriving DecidableEq, Repr

structure MethodRef where
  owner : ClassName
  nameType : NameType
  signature : Signature
  isInterface : Bool
deriving DecidableEq, Repr

inductive Constant where
  | utf8 (text : Bytes)
  | int (v : Int32)
  | float (v : Float32)
  | long (v : Int64)
  | double (v : Float)
  | classRef (name : ClassName)
  | string (text : Bytes) (index : UInt16)
  | nameType (nameType : NameType)
  | fieldRef (field : FieldRef)
  | methodRef (method : MethodRef)
  | unsupported (tag : UInt8)
deriving DecidableEq

def Constant.tag : Constant → UInt8
  | .utf8 _ => 1
  | .int _ => 3
  | .float _ => 4
  | .long _ => 5
  | .double _ => 6
  | .classRef _ => 7
  | .string _ _ => 8
  | .fieldRef _ => 9
  | .methodRef m => if m.isInterface then 11 else 10
  | .nameType _ => 12
  | .unsupported tag => tag

/-- Numbered as in the class file: slot 0 is empty. -/
abbrev ConstantPool := Array (Option Constant)

namespace ConstantPool

def get (pool : ConstantPool) (index : UInt16) : Except Fault Constant :=
  if index = 0 then .error (.badConstant index)
  else match pool[index.toNat]? with
    | some (some c) => .ok c
    | _ => .error (.badConstant index)

def utf8 (pool : ConstantPool) (index : UInt16) : Except Fault Bytes := do
  match ← pool.get index with
  | .utf8 text => .ok text
  | c => .error (.wrongConstant index c.tag .utf8)

def classRef (pool : ConstantPool) (index : UInt16) : Except Fault ClassName := do
  match ← pool.get index with
  | .classRef name => .ok name
  | c => .error (.wrongConstant index c.tag .classRef)

def fieldRef (pool : ConstantPool) (index : UInt16) : Except Fault FieldRef := do
  match ← pool.get index with
  | .fieldRef f => .ok f
  | c => .error (.wrongConstant index c.tag .fieldRef)

def methodRef (pool : ConstantPool) (index : UInt16) : Except Fault MethodRef := do
  match ← pool.get index with
  | .methodRef m => .ok m
  | c => .error (.wrongConstant index c.tag .methodRef)

def loadable (pool : ConstantPool) (index : UInt16) : Except Fault Value := do
  match ← pool.get index with
  | .int v => .ok (.int v)
  | .float v => .ok (.float v)
  | .long v => .ok (.long v)
  | .double v => .ok (.double v)
  | .string text _ => .ok (.string text)
  | .classRef _ => .error (.notLoadable index 7)
  | .unsupported tag => .error (.notLoadable index tag)
  | c => .error (.wrongConstant index c.tag .loadable)

end ConstantPool

end ClassTrace
