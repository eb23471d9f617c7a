import ClassTrace.ClassFile
import ClassTrace.ClassFile.Reader

/-!
Reading the constant pool and looking texts up in it. Slots are numbered with 16 bits, and the
slot after the last one of the largest pool is slot 0.
-/
namespace ClassTrace

open StreamReader

/-- The constant with the given tag. Handles, types and dynamic constants are skipped over. -/
def PoolEntry.read (tag : UInt8) : StreamReader PoolEntry :=
  match tag.toNat with
  | 1 => do
    let length ← u2
    return .utf8 (← bytes length.toNat)
  | 3 => do return .integer (← u4).toInt32
  | 4 => do return .float (Float32.ofBits (← u4))
  | 5 => do return .long (← u8).toInt64
  | 6 => do return .double (Float.ofBits (← u8))
  | 7 => do return .classRef (← u2)
  | 8 => do return .string (← u2)
  | 9 => do
    let (owner, nameType) ← pair
    return .fieldRef owner nameType
  | 10 => do
    let (owner, nameType) ← pair
    return .methodRef owner nameType
  | 11 => do
    let (owner, nameType) ← pair
    return .interfaceMethodRef owner nameType
  | 12 => do
    let (name, descriptor) ← pair
    return .nameAndType name descriptor
  | 15 => do
    let _ ← bytes 3
    return .skipped tag
  | 16 => do
    let _ ← bytes 2
    return .skipped tag
  | 17 | 18 => do
    let _ ← bytes 4
    return .skipped tag
  | _ => throw (.unknownTag tag)

namespace Pool

/-- Reads entries from slot `index` on until the count is reached. Each takes a byte at least, so
as many rounds as there are bytes are enough. -/
def readFrom (count : UInt16) : Nat → UInt16 → Pool → StreamReader Pool
  | rounds, index, pool =>
    if count ≤ index then pure pool
    else match rounds with
      | 0 => throw (.within (.poolTag index) .endOfInput)
      | rounds + 1 => do
        let tag ← within (.poolTag index) u1
        let entry ← within (.poolEntry index tag) (PoolEntry.read tag)
        readFrom count rounds (index + (if entry.isWide then 2 else 1))
          (pool.setIfInBounds index.toNat (some entry))

/-- A pool of `count` slots, of which slot 0 is not in the file. -/
def read (count : UInt16) : StreamReader Pool := do
  let input ← get
  readFrom count input.length 1 (Array.replicate count.toNat none)

def utf8 (pool : Pool) (index : UInt16) : Except FormatError Bytes :=
  match pool[index.toNat]? with
  | some (some (.utf8 text)) => .ok text
  | some (some entry) => .error (.notUtf8 index entry.tag)
  | _ => .error (.badIndex index)

def className (pool : Pool) (index : UInt16) : Except FormatError Bytes :=
  match pool[index.toNat]? with
  | some (some (.classRef nameIndex)) => pool.utf8 nameIndex
  | some (some _) => .error (.notClass index)
  | _ => .error (.badIndex index)

/-- The texts at an index, for a reader that reports a bad one at the given place. -/
def utf8At {m : Type → Type} [Monad m] [MonadExcept FormatError m] (pool : Pool)
    (place : FormatError.Place) (index : UInt16) : m Bytes :=
  match pool.utf8 index with
  | .ok text => pure text
  | .error e => throw (.within place e)

end Pool

end ClassTrace
