import ClassTrace.Opcode
import ClassTrace.Value

/-!
Faults: the causes for which loading or running a class fails. Each cause is of exactly one kind,
and its message is the kind's text followed by the particulars. Errors that come from outside may
be of any kinds.
-/
namespace ClassTrace

inductive FaultKind where
  | load
  | unsupportedOpcode
  | notImplemented
  | arithmetic
  | heapAccess
  | type
  | badCode
  | stackOverflow
  | entryNotFound
deriving DecidableEq, Repr

def FaultKind.text : FaultKind → Bytes
  | .load => "class load error"
  | .unsupportedOpcode => "unsupported opcode"
  | .notImplemented => "not implemented"
  | .arithmetic => "arithmetic error"
  | .heapAccess => "heap access error"
  | .type => "type error"
  | .badCode => "malformed bytecode"
  | .stackOverflow => "stack overflow"
  | .entryNotFound => "entry method not found"

/-- The sorts of heap entries. -/
inductive EntrySort where
  | object
  | array
  | map
  | integer
  | stream
deriving DecidableEq, Repr

def EntrySort.name : EntrySort → Bytes
  | .object => "*vm.Object"
  | .array => "*vm.Array"
  | .map => "*native.HashMap"
  | .integer => "*native.Integer"
  | .stream => "*native.PrintStream"

/-- The sorts of constants that an instruction or a reference may ask for. -/
inductive ConstantSort where
  | utf8
  | classRef
  | fieldRef
  | methodRef
  | loadable
deriving DecidableEq, Repr

def ConstantSort.name : ConstantSort → Bytes
  | .utf8 => "Utf8"
  | .classRef => "Class"
  | .fieldRef => "Fieldref"
  | .methodRef => "Methodref"
  | .loadable => "loadable constant"

inductive Fault where
  -- operand stack, locals and operands
  | stackFull (max : Nat)
  | stackEmpty
  | wrongKind (want got : Kind)
  | notReference (got : Kind)
  | badLocal (index : Int) (size : Nat)
  | cutOperand (pc : Nat)
  | notReferenceLocal (got : Kind) (slot : Nat)
  | wrongLocal (want got : Kind) (slot : Nat)
  | notIntLocal (got : Kind) (slot : Nat)
  | splitWide (shuffle : Shuffle)
  -- control
  | pastEnd
  | branchOutside (target : Int) (length : Nat)
  | switchOrder (low high : Int32)
  | switchTooLong (low high : Int32)
  | negativePairs (count : Int32)
  | unknownOpcode (opcode : UInt8) (pc : Nat)
  | opcodeGap (opcode : UInt8)
  | badElementType (code : UInt8)
  | divisionByZero
  -- constants
  | badConstant (index : UInt16)
  | wrongConstant (index : UInt16) (tag : UInt8) (want : ConstantSort)
  | notLoadable (index : UInt16) (tag : UInt8)
  | wrongLoad (index : UInt16) (got : Kind) (opcode : UInt8)
  -- heap
  | noEntry (id : Int)
  | notObject (id : Int) (sort : EntrySort)
  | notArray (id : Int) (sort : EntrySort)
  | nullArray
  | notArrayValue (got : Kind)
  | nullObject
  | notObjectValue (got : Kind)
  | badIndex (index : Int32) (length : Nat)
  | negativeSize (size : Int32)
  | wrongElement (got : Kind) (element : FieldType)
  | noField (owner name : Bytes)
  | noStaticField (owner name : Bytes)
  -- library and calls
  | unknownStatic (owner name : Bytes)
  | foreignStatic (owner name : Bytes)
  | unknownClass (name : Bytes)
  | unknownMethod (owner name descriptor : Bytes)
  | unloadedClass (owner : Bytes)
  | calledAs (method : Bytes) (opcode : UInt8)
  | noCode (method : Bytes)
  | tooDeep (max : Int)
  | nullReceiver (method : Bytes)
  | nullDereference
  | notReceiver (want : EntrySort) (got : Kind)
  | wrongReceiver (id : Int) (got want : EntrySort)
  | notString (got : Kind)
  | badStringIndex (index : Int32) (length : Nat)
  | noStaticMethod (owner name descriptor : Bytes)
  | noEntryPoint (owner name : Bytes)
deriving DecidableEq, Repr

namespace Fault

def kind : Fault → FaultKind
  | .stackFull _ | .stackEmpty | .badLocal _ _ | .cutOperand _ | .pastEnd | .branchOutside _ _
  | .switchOrder _ _ | .switchTooLong _ _ | .negativePairs _ | .badElementType
      _ | .wrongLoad _ _ _ =>
    .badCode
  | .wrongKind _ _ | .notReference _ | .notReferenceLocal _ _ | .wrongLocal _ _
      _ | .notIntLocal _ _
  | .splitWide _ | .notArrayValue _ | .notObjectValue _ | .wrongElement _ _ | .calledAs _ _
  | .notReceiver _ _ | .wrongReceiver _ _ _ | .notString _ => .type
  | .unknownOpcode _ _ => .unsupportedOpcode
  | .opcodeGap _ | .notLoadable _ _ | .unknownStatic _ _ | .foreignStatic _ _ | .unknownClass _
  | .unknownMethod _ _ _ | .unloadedClass _ | .noCode _ => .notImplemented
  | .divisionByZero => .arithmetic
  | .badConstant _ | .wrongConstant _ _ _ => .load
  | .noEntry _ | .notObject _ _ | .notArray _ _ | .nullArray | .nullObject | .badIndex _ _
  | .negativeSize _ | .noField _ _ | .noStaticField _ _ | .nullReceiver _ | .nullDereference
  | .badStringIndex _ _ => .heapAccess
  | .tooDeep _ => .stackOverflow
  | .noStaticMethod _ _ _ | .noEntryPoint _ _ => .entryNotFound

private def int (n : Int) : Bytes := Bytes.decimal n

def detail : Fault → Bytes
  | .stackFull max => "operand stack overflow: max=" ++ int max
  | .stackEmpty => "operand stack underflow"
  | .wrongKind want got => "expected " ++ want.name ++ " on operand stack, got " ++ got.name
  | .notReference got => "expected reference on operand stack, got " ++ got.name
  | .badLocal index size =>
    "local variable index " ++ int index ++ " out of range (max " ++ int size ++ ")"
  | .cutOperand pc => "truncated operand at pc " ++ int pc
  | .notReferenceLocal got slot => "aload of " ++ got.name ++ " local " ++ int slot
  | .wrongLocal want got slot =>
    "load of " ++ got.name ++ " local " ++ int slot ++ " as " ++ want.name
  | .notIntLocal got slot => "iinc on " ++ got.name ++ " local " ++ int slot
  | .splitWide .pop2 => "pop2 splits a category 2 value"
  | .splitWide shuffle => shuffle.name ++ " of a category 2 value"
  | .pastEnd => "execution ran past the end of code"
  | .branchOutside target length =>
    "branch target " ++ int target ++ " outside code of length " ++ int length
  | .switchOrder low high => "tableswitch low " ++ int low.toInt ++ " > high " ++ int high.toInt
  | .switchTooLong low high =>
    "tableswitch range " ++ int low.toInt ++ ".." ++ int high.toInt ++ " exceeds code"
  | .negativePairs count => "lookupswitch with " ++ int count.toInt ++ " pairs"
  | .unknownOpcode opcode pc => "0x" ++ Bytes.upperHex 2 opcode.toNat ++ " at pc " ++ int pc
  | .opcodeGap opcode => "opcode " ++ Opcode.name opcode
  | .badElementType code => "newarray: bad element type " ++ int code.toNat
  | .divisionByZero => "/ by zero"
  | .badConstant index => "invalid constant pool index " ++ int index.toNat
  | .wrongConstant index tag want =>
    "constant pool index " ++ int index.toNat ++ " has tag " ++ int tag.toNat ++
      ", want " ++ want.name
  | .notLoadable index tag =>
    "loading constant " ++ int index.toNat ++ " (tag " ++ int tag.toNat ++ ")"
  | .wrongLoad index got opcode =>
    "constant " ++ int index.toNat ++ " of kind " ++ got.name ++ " loaded by " ++
      Opcode.name opcode
  | .noEntry id => "no heap entry " ++ int id
  | .notObject id sort => "heap entry " ++ int id ++ " is " ++ sort.name ++ ", not an object"
  | .notArray id sort => "heap entry " ++ int id ++ " is " ++ sort.name ++ ", not an array"
  | .nullArray => "null array reference"
  | .notArrayValue got => "expected array, got " ++ got.name
  | .nullObject => "null object reference"
  | .notObjectValue got => "expected object, got " ++ got.name
  | .badIndex index length =>
    "index " ++ int index.toInt ++ " out of bounds for length " ++ int length
  | .negativeSize size => "negative array size " ++ int size.toInt
  | .wrongElement got element => "cannot store " ++ got.name ++ " in " ++ element.spelling ++ "[]"
  | .noField owner name => owner ++ " has no field " ++ name
  | .noStaticField owner name => owner ++ " has no static field " ++ name
  | .unknownStatic owner name => "static field " ++ owner ++ "." ++ name
  | .foreignStatic owner name => "putstatic " ++ owner ++ "." ++ name
  | .unknownClass name => "new " ++ name
  | .unknownMethod owner name descriptor => "method " ++ owner ++ "." ++ name ++ descriptor
  | .unloadedClass owner => "call into unloaded class " ++ owner
  | .calledAs method opcode => method ++ " called as " ++ Opcode.name opcode
  | .noCode method => method ++ " has no code"
  | .tooDeep max => "call depth exceeded " ++ int max
  | .nullReceiver method => "null receiver for " ++ method
  | .nullDereference => "null dereference"
  | .notReceiver want got => "expected " ++ want.name ++ " receiver, got " ++ got.name
  | .wrongReceiver id got want =>
    "heap entry " ++ int id ++ " is " ++ got.name ++ ", want " ++ want.name
  | .notString got => "expected string receiver, got " ++ got.name
  | .badStringIndex index length =>
    "string index " ++ int index.toInt ++ " out of range for length " ++ int length
  | .noStaticMethod owner name descriptor =>
    "static method " ++ owner ++ "." ++ name ++ descriptor
  | .noEntryPoint owner name => owner ++ "." ++ name

def message (f : Fault) : Bytes := f.kind.text ++ ": " ++ f.detail

end Fault

/-- Where an error arose; there is no opcode if none was fetched. -/
structure Location where
  method : Bytes
  pc : Nat
  opcode : Option UInt8
deriving DecidableEq, Repr

def Location.text (l : Location) : Bytes :=
  l.method ++ " pc=" ++ Bytes.decimal l.pc ++ match l.opcode with
    | some opcode => " (" ++ Opcode.name opcode ++ ")"
    | none => []

/-- An error that comes from outside. It is of the kinds that are found in it, and if the error of
a run is found in it, then it has the location of that error. -/
structure OutsideError where
  message : Bytes
  kinds : List FaultKind := []
  location : Option Location := none
deriving DecidableEq, Repr

end ClassTrace
