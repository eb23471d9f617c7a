import ClassTrace.Text.Bytes

/-!
Why a class file cannot be read, and where. The cause stands inside the places that enclose it,
the outermost place first in the message.
-/
namespace ClassTrace

namespace FormatError

inductive Place where
  | magic
  | version
  | poolCount
  | pool
  | poolTag (index : UInt16)
  | poolEntry (index : UInt16) (tag : UInt8)
  | accessFlags
  | classIndices
  | interfaceCount
  | interface (i : Nat)
  | fieldCount
  | field (i : Nat)
  | methodCount
  | method (i : Nat)
  | codeOf (method : Bytes)
  | classAttributes
  | memberIndices
  | memberName
  | memberDescriptor
  | attributesOf (member : Bytes)
  | attributeCount
  | attributeIndex (i : Nat)
  | attributeLength (i : Nat)
  | attributeData (i : Nat)
  | attributeName (i : Nat)
  | codeAttributeName (i : Nat)
  | variableName (i : Nat)
  | variableDescriptor (i : Nat)
deriving DecidableEq, Repr

/-- The payloads that are decoded from memory. -/
inductive Part where
  | code
  | lineTable
  | variableTable
deriving DecidableEq, Repr

end FormatError

inductive FormatError where
  | endOfInput
  | cutShort
  | badMagic (magic : UInt32)
  | unknownTag (tag : UInt8)
  | badIndex (index : UInt16)
  | notUtf8 (index : UInt16) (tag : UInt8)
  | notClass (index : UInt16)
  | truncated (part : FormatError.Part) (offset need rest : Nat)
  | directory (path : Bytes)
  | within (place : FormatError.Place) (inner : FormatError)
deriving DecidableEq, Repr

namespace FormatError

def Place.message : Place → Bytes
  | .magic => "reading magic number"
  | .version => "reading version"
  | .poolCount => "reading constant pool count"
  | .pool => "parsing constant pool"
  | .poolTag index => "reading constant pool tag at index " ++ Bytes.decimal index.toNat
  | .poolEntry index tag =>
    "reading constant pool entry " ++ Bytes.decimal index.toNat ++ " (tag=" ++
      Bytes.decimal tag.toNat ++ ")"
  | .accessFlags => "reading access flags"
  | .classIndices => "reading this_class/super_class"
  | .interfaceCount => "reading interfaces count"
  | .interface i => "reading interface " ++ Bytes.decimal i
  | .fieldCount => "reading fields count"
  | .field i => "parsing field " ++ Bytes.decimal i
  | .methodCount => "reading methods count"
  | .method i => "parsing method " ++ Bytes.decimal i
  | .codeOf name => "parsing Code attribute for method " ++ name
  | .classAttributes => "parsing class attributes"
  | .memberIndices => "reading name/descriptor index"
  | .memberName => "resolving name"
  | .memberDescriptor => "resolving descriptor"
  | .attributesOf member => "parsing attributes of " ++ member
  | .attributeCount => "reading attributes count"
  | .attributeIndex i => "reading attribute " ++ Bytes.decimal i ++ " name index"
  | .attributeLength i => "reading attribute " ++ Bytes.decimal i ++ " length"
  | .attributeData i => "reading attribute " ++ Bytes.decimal i ++ " data"
  | .attributeName i => "resolving attribute " ++ Bytes.decimal i ++ " name"
  | .codeAttributeName i => "resolving code attribute " ++ Bytes.decimal i ++ " name"
  | .variableName i => "LocalVariableTable entry " ++ Bytes.decimal i ++ " name"
  | .variableDescriptor i => "LocalVariableTable entry " ++ Bytes.decimal i ++ " descriptor"

def Part.name : Part → Bytes
  | .code => "Code attribute"
  | .lineTable => "LineNumberTable"
  | .variableTable => "LocalVariableTable"

def message : FormatError → Bytes
  | .endOfInput => "EOF"
  | .cutShort => "unexpected EOF"
  | .badMagic magic =>
    "invalid magic number: 0x" ++ Bytes.upperHex 1 magic.toNat ++ " (expected 0xCAFEBABE)"
  | .unknownTag tag => "unknown constant pool tag " ++ Bytes.decimal tag.toNat
  | .badIndex index => "invalid constant pool index " ++ Bytes.decimal index.toNat
  | .notUtf8 index tag =>
    "constant pool index " ++ Bytes.decimal index.toNat ++ " is not Utf8 (tag=" ++
      Bytes.decimal tag.toNat ++ ")"
  | .notClass index => "constant pool index " ++ Bytes.decimal index.toNat ++ " is not Class"
  | .truncated part offset need rest =>
    part.name ++ " truncated at offset " ++ Bytes.decimal offset ++ " (need " ++
      Bytes.decimal need ++ " bytes, have " ++ Bytes.decimal rest ++ ")"
  | .directory path => "read " ++ path ++ ": is a directory"
  | .within place inner => place.message ++ ": " ++ inner.message

def cause : FormatError → FormatError
  | .within _ inner => inner.cause
  | e => e

end FormatError

end ClassTrace
