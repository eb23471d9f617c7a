import ClassTrace.ClassFile.Error

/-!
Readers of big-endian items. A stream reader takes what is left of the input; an item of which not
a byte is there ends the input, and one of which some bytes are missing cuts it short. Reading no
bytes always succeeds. A payload reader walks bytes already in memory and names the offset where
they end.
-/
namespace ClassTrace

abbrev StreamReader := StateT Bytes (Except FormatError)

namespace StreamReader

def bytes (n : Nat) : StreamReader Bytes := fun input =>
  let taken := input.take n
  if taken.length = n then .ok (taken, input.drop n)
  else if input.isEmpty then .error .endOfInput
  else .error .cutShort

def u1 : StreamReader UInt8 := do return (Bytes.toNat (← bytes 1)).toUInt8

def u2 : StreamReader UInt16 := do return (Bytes.toNat (← bytes 2)).toUInt16

def u4 : StreamReader UInt32 := do return (Bytes.toNat (← bytes 4)).toUInt32

def u8 : StreamReader UInt64 := do return (Bytes.toNat (← bytes 8)).toUInt64

/-- Two items, which count as one place. -/
def pair : StreamReader (UInt16 × UInt16) := do
  let a ← u2
  let b ← u2
  return (a, b)

def within {α : Type} (place : FormatError.Place) (reader : StreamReader α) : StreamReader α :=
  fun input =>
  match reader input with
  | .ok result => .ok result
  | .error e => .error (.within place e)

end StreamReader

/-- What is left of a payload, and how many bytes came before. -/
structure Cursor where
  offset : Nat
  rest : Bytes

abbrev PayloadReader := StateT Cursor (Except FormatError)

namespace PayloadReader

def bytes (part : FormatError.Part) (n : Nat) : PayloadReader Bytes := fun cursor =>
  let taken := cursor.rest.take n
  if taken.length = n then .ok (taken, ⟨cursor.offset + n, cursor.rest.drop n⟩)
  else .error (.truncated part cursor.offset n cursor.rest.length)

def u2 (part : FormatError.Part) : PayloadReader UInt16 := do
  return (Bytes.toNat (← bytes part 2)).toUInt16

def u4 (part : FormatError.Part) : PayloadReader UInt32 := do
  return (Bytes.toNat (← bytes part 4)).toUInt32

def run {α : Type} (reader : PayloadReader α) (data : Bytes) : Except FormatError α :=
  match reader ⟨0, data⟩ with
  | .ok (a, _) => .ok a
  | .error e => .error e

end PayloadReader

end ClassTrace
