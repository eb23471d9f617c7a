import ClassTrace.ClassFile.Pool

/-!
Reading a class file. Bytes after the class are left unread, and the attributes of the class
itself are read and dropped.
-/
namespace ClassTrace

namespace Code

open PayloadReader FormatError

def readHandler : PayloadReader Handler := do
  let start ← u2 .code
  let stop ← u2 .code
  let handler ← u2 .code
  let catchType ← u2 .code
  return ⟨start, stop, handler, catchType⟩

def readLineRow : PayloadReader LineRow := do
  let start ← u2 .lineTable
  let line ← u2 .lineTable
  return ⟨start, line⟩

def readLines (data : Bytes) : Except FormatError (List LineRow) :=
  PayloadReader.run (do
    let count ← u2 .lineTable
    (List.range count.toNat).mapM fun _ => readLineRow) data

def readVariableRow (pool : Pool) (i : Nat) : PayloadReader VariableRow := do
  let start ← u2 .variableTable
  let length ← u2 .variableTable
  let nameIndex ← u2 .variableTable
  let descriptorIndex ← u2 .variableTable
  let index ← u2 .variableTable
  let name ← pool.utf8At (.variableName i) nameIndex
  let descriptor ← pool.utf8At (.variableDescriptor i) descriptorIndex
  return ⟨start, length, index, name, descriptor⟩

def readVariables (pool : Pool) (data : Bytes) : Except FormatError (List VariableRow) :=
  PayloadReader.run (do
    let count ← u2 .variableTable
    (List.range count.toNat).mapM (readVariableRow pool)) data

/-- What one nested attribute adds to the code. -/
structure Nested where
  kept : Attribute
  lines : List LineRow
  variableRows : List VariableRow

def readNested (pool : Pool) (i : Nat) : PayloadReader Nested := do
  let nameIndex ← u2 .code
  let length ← u4 .code
  let data ← bytes .code length.toNat
  let name ← pool.utf8At (.codeAttributeName i) nameIndex
  let lines ← if name = "LineNumberTable" then liftM (readLines data) else pure []
  let variableRows ← if name = "LocalVariableTable" then liftM (readVariables pool data)
    else pure []
  return ⟨⟨name, data⟩, lines, variableRows⟩

def readPayload (pool : Pool) : PayloadReader Code := do
  let maxStack ← u2 .code
  let maxLocals ← u2 .code
  let length ← u4 .code
  let code ← bytes .code length.toNat
  let handlerCount ← u2 .code
  let handlers ← (List.range handlerCount.toNat).mapM fun _ => readHandler
  let nestedCount ← u2 .code
  let nested ← (List.range nestedCount.toNat).mapM (readNested pool)
  return ⟨maxStack, maxLocals, code, handlers, nested.map (·.kept), nested.flatMap (·.lines),
    nested.flatMap (·.variableRows)⟩

def parse (pool : Pool) (data : Bytes) : Except FormatError Code :=
  PayloadReader.run (readPayload pool) data

end Code

open StreamReader

/-- The body of an attribute is read before its name is looked up. -/
def Attribute.read (pool : Pool) (i : Nat) : StreamReader Attribute := do
  let nameIndex ← within (.attributeIndex i) u2
  let length ← within (.attributeLength i) u4
  let data ← within (.attributeData i) (bytes length.toNat)
  let name ← pool.utf8At (.attributeName i) nameIndex
  return ⟨name, data⟩

def Attribute.readAll (pool : Pool) : StreamReader (List Attribute) := do
  let count ← within .attributeCount u2
  (List.range count.toNat).mapM (Attribute.read pool)

def Member.read (pool : Pool) : StreamReader Member := do
  let flags ← within .accessFlags u2
  let (nameIndex, descriptorIndex) ← within .memberIndices pair
  let name ← pool.utf8At .memberName nameIndex
  let descriptor ← pool.utf8At .memberDescriptor descriptorIndex
  let attributes ← within (.attributesOf name) (Attribute.readAll pool)
  return ⟨flags, nameIndex, descriptorIndex, name, descriptor, attributes⟩

def Member.code (pool : Pool) (m : Member) : Except FormatError (Option Code) :=
  match m.attributes.find? fun a => a.name == ("Code" : Bytes) with
  | none => .ok none
  | some found => match Code.parse pool found.data with
    | .ok code => .ok (some code)
    | .error e => .error (.within (.codeOf m.name) e)

def MethodMember.read (pool : Pool) (i : Nat) : StreamReader MethodMember := do
  let member ← within (.method i) (Member.read pool)
  let code ← liftM (member.code pool)
  return ⟨member, code⟩

namespace ClassFile

def magic : UInt32 := 0xCAFEBABE

def read : StreamReader ClassFile := do
  let mark ← within .magic u4
  if mark ≠ magic then throw (.badMagic mark)
  let (minor, major) ← within .version pair
  let poolCount ← within .poolCount u2
  let pool ← within .pool (Pool.read poolCount)
  let flags ← within .accessFlags u2
  let (thisClass, superClass) ← within .classIndices pair
  let interfaceCount ← within .interfaceCount u2
  let interfaces ← (List.range interfaceCount.toNat).mapM fun i => within (.interface i) u2
  let fieldCount ← within .fieldCount u2
  let fields ← (List.range fieldCount.toNat).mapM fun i => within (.field i) (Member.read pool)
  let methodCount ← within .methodCount u2
  let methods ← (List.range methodCount.toNat).mapM (MethodMember.read pool)
  let _ ← within .classAttributes (Attribute.readAll pool)
  return ⟨minor, major, pool, flags, thisClass, superClass, interfaces, fields, methods⟩

def parse (input : Bytes) : Except FormatError ClassFile :=
  match read input with
  | .ok (file, _) => .ok file
  | .error e => .error e

def className (file : ClassFile) : Except FormatError Bytes := file.pool.className file.thisClass

/-- Empty when there is no superclass or its name cannot be read. -/
def superName (file : ClassFile) : Bytes :=
  if file.superClass = 0 then []
  else match file.pool.className file.superClass with
    | .ok name => name
    | .error _ => []

def findMethod? (file : ClassFile) (name descriptor : Bytes) : Option Nat :=
  file.methods.findIdx? fun m => m.name = name && m.descriptor = descriptor

end ClassFile

end ClassTrace
