import ClassTrace.Instruction

/-!
Decoding instructions. Operands are big-endian and are read from the code at an address that moves
on; an operand that reaches past the end of the code is a fault, and nothing is read of it.
-/
namespace ClassTrace

/-- A reader of operands: it knows the code, and its state is the address of the next byte. -/
abbrev Fetch := ReaderT (Array UInt8) (EStateM Fault Nat)

namespace Fetch

def bytes (n : Nat) : Fetch Nat := fun code pc =>
  if pc + n ≤ code.size then .ok (Bytes.toNat (code.extract pc (pc + n)).toList) (pc + n)
  else .error (.cutOperand pc) pc

def u1 : Fetch UInt8 := return (← bytes 1).toUInt8

def i1 : Fetch Int8 := return (← bytes 1).toUInt8.toInt8

def u2 : Fetch UInt16 := return (← bytes 2).toUInt16

def i2 : Fetch Int16 := return (← bytes 2).toUInt16.toInt16

def i4 : Fetch Int32 := return (← bytes 4).toUInt32.toInt32

def slot : Fetch Nat := return (← u1).toNat

def offset : Fetch Int := return (← i2).toInt

def padding : Fetch Unit := fun code pc =>
  let aligned := (pc + 3) / 4 * 4
  if aligned ≤ code.size then .ok () aligned else .error (.cutOperand code.size) code.size

/-- At most `count` pairs, and the address where they break off if the code does not hold them
all. -/
def pairs : Nat → Fetch (List (Int32 × Int32) × Option Nat)
  | 0 => return ([], none)
  | count + 1 => do
    let pc ← get
    let size := (← read).size
    if pc + 8 ≤ size then
      let key ← i4
      let target ← i4
      let (rest, cut) ← pairs count
      return ((key, target) :: rest, cut)
    else return ([], some (if pc + 4 ≤ size then pc + 4 else pc))

end Fetch

namespace Instruction

open Fetch

def families : Array Family := #[.int, .long, .float, .double, .reference]

def family (i : Nat) : Family := families.getD i .reference

def conditions : Array Condition := #[.eq, .ne, .lt, .ge, .gt, .le]

def condition (i : Nat) : Condition := conditions.getD i .le

def conversions : Array Conversion :=
  #[.intToLong, .intToFloat, .intToDouble, .longToInt, .longToFloat,
  .longToDouble, .floatToInt, .floatToLong, .floatToDouble, .doubleToInt, .doubleToLong,
  .doubleToFloat, .intToByte, .intToChar, .intToShort]

def shuffles : Array Shuffle :=
  #[.pop, .pop2, .dup, .dupX1, .dupX2, .dup2, .dup2X1, .dup2X2, .swap]

def elementStores : Array ElementStore :=
  #[.plain .int, .plain .long, .plain .float, .plain .double,
  .plain .reference, .byte, .char, .short]

/-- The element types that are named by the numbers from 4 on. -/
def elementTypes : Array Primitive :=
  #[.boolean, .char, .float, .double, .byte, .short, .int, .long]

/-- Opcodes 0x00 to 0x14. -/
def decodeConstant (n : Nat) : Fetch Instruction :=
  if n = 0x00 then return .operate .nop
  else if n = 0x01 then return .operate (.push .null)
  else if n ≤ 0x08 then return .operate (.push (.int (Int32.ofInt (n - 0x03 : Int))))
  else if n ≤ 0x0A then return .operate (.push (.long (Int64.ofNat (n - 0x09))))
  else if n ≤ 0x0D then return .operate (.push (.float (Float32.ofNat (n - 0x0B))))
  else if n ≤ 0x0F then return .operate (.push (.double (Float.ofNat (n - 0x0E))))
  else if n = 0x10 then return .operate (.push (.int (← i1).toInt32))
  else if n = 0x11 then return .operate (.push (.int (← i2).toInt32))
  else if n = 0x12 then return .loadConstant .short (← u1).toUInt16
  else if n = 0x13 then return .loadConstant .long (← u2)
  else return .loadConstant .wide (← u2)

/-- Loads and stores, counted from the first of theirs: five with a slot operand, then for each
family four with the slot in the opcode. -/
def decodeSlot (make : Family → Nat → Instruction) (i : Nat) : Fetch Instruction :=
  if i < 5 then return make (family i) (← slot)
  else return make (family ((i - 5) / 4)) ((i - 5) % 4)

/-- Opcodes 0x60 to 0x77, counted from the first: for each operator one of each kind of number. -/
def arithmetic (i : Nat) : Operation :=
  let intOp : IntOp := match i / 4 with
    | 0 => .add
    | 1 => .sub
    | 2 => .mul
    | 3 => .div
    | _ => .rem
  let floatOp : FloatOp := match i / 4 with
    | 0 => .add
    | 1 => .sub
    | 2 => .mul
    | 3 => .div
    | _ => .rem
  if i / 4 = 5 then
    match i % 4 with
    | 0 => .negInt
    | 1 => .negLong
    | 2 => .negFloat
    | _ => .negDouble
  else
    match i % 4 with
    | 0 => .intBinary intOp
    | 1 => .longBinary intOp
    | 2 => .floatBinary floatOp
    | _ => .doubleBinary floatOp

/-- Opcodes 0x78 to 0x83, counted from the first: for each operator one for ints and one for
longs. -/
def bitwise (i : Nat) : Operation :=
  let op : IntOp := match i / 2 with
    | 0 => .shl
    | 1 => .shr
    | 2 => .ushr
    | 3 => .and
    | 4 => .or
    | _ => .xor
  if i % 2 = 0 then .intBinary op else .longBinary op

def comparison (i : Nat) : Operation :=
  match i with
  | 0 => .compareLong
  | 1 => .compareFloat false
  | 2 => .compareFloat true
  | 3 => .compareDouble false
  | _ => .compareDouble true

/-- The offsets of a table must fit into the code that is left. -/
def decodeTableSwitch : Fetch Instruction := do
  padding
  let fallback ← i4
  let low ← i4
  let high ← i4
  if high < low then throw (.switchOrder low high)
  let count := (high.toInt - low.toInt + 1).toNat
  if ((← read).size - (← get)) / 4 < count then throw (.switchTooLong low high)
  let offsets ← (List.range count).mapM fun _ => i4
  return .operate (.tableSwitch fallback low high offsets.toArray)

def decodeLookupSwitch : Fetch Instruction := do
  padding
  let fallback ← i4
  let count ← i4
  if count < 0 then throw (.negativePairs count)
  let (table, cut) ← pairs count.toInt.toNat
  return .operate (.lookupSwitch fallback table cut)

/-- Opcodes 0x99 to 0xB1: branches, switches and returns. -/
def decodeControl (n : Nat) : Fetch Instruction :=
  if n ≤ 0x9E then return .operate (.ifZero (condition (n - 0x99)) (← offset))
  else if n ≤ 0xA4 then return .operate (.ifInts (condition (n - 0x9F)) (← offset))
  else if n ≤ 0xA6 then return .operate (.ifSame (n = 0xA5) (← offset))
  else if n = 0xA7 then return .operate (.goto (← offset))
  else if n ≤ 0xA9 then throw (.opcodeGap n.toUInt8)
  else if n = 0xAA then decodeTableSwitch
  else if n = 0xAB then decodeLookupSwitch
  else if n = 0xB1 then return .ret none
  else return .ret (some (family (n - 0xAC)))

/-- Opcodes from 0xB2 on: members, objects and the rest. -/
def decodeMember (n : Nat) : Fetch Instruction :=
  match n with
  | 0xB2 => return .getStatic (← u2)
  | 0xB3 => return .putStatic (← u2)
  | 0xB4 => return .getField (← u2)
  | 0xB5 => return .putField (← u2)
  | 0xB6 => return .invoke .virtual (← u2)
  | 0xB7 => return .invoke .special (← u2)
  | 0xB8 => return .invoke .static (← u2)
  | 0xBB => return .new (← u2)
  | 0xBC => do
    let code ← u1
    if code < 4 then throw (.badElementType code)
    match elementTypes[code.toNat - 4]? with
    | some p => return .newArray (.primitive p)
    | none => throw (.badElementType code)
  | 0xBD => return .newObjectArray (← u2)
  | 0xBE => return .arrayLength
  | 0xC6 => return .operate (.ifNull true (← offset))
  | 0xC7 => return .operate (.ifNull false (← offset))
  | 0xC8 => return .operate (.goto (← i4).toInt)
  | _ =>
    if n ≤ 0xC9 then throw (.opcodeGap n.toUInt8)
    else do throw (.unknownOpcode n.toUInt8 ((← get) - 1))

def decode (opcode : UInt8) : Fetch Instruction :=
  let n := opcode.toNat
  if n ≤ 0x14 then decodeConstant n
  else if n ≤ 0x2D then decodeSlot (fun k slot => .operate (.load k slot)) (n - 0x15)
  else if n ≤ 0x35 then return .arrayLoad
  else if n ≤ 0x4E then decodeSlot .store (n - 0x36)
  else if n ≤ 0x56 then return .arrayStore (elementStores.getD (n - 0x4F) .short)
  else if n ≤ 0x5F then return .operate (.shuffle (shuffles.getD (n - 0x57) .swap))
  else if n ≤ 0x77 then return .operate (arithmetic (n - 0x60))
  else if n ≤ 0x83 then return .operate (bitwise (n - 0x78))
  else if n = 0x84 then do
    let target ← slot
    return .increment target (← i1).toInt32
  else if n ≤ 0x93 then return .operate (.convert (conversions.getD (n - 0x85) .intToShort))
  else if n ≤ 0x98 then return .operate (comparison (n - 0x94))
  else if n ≤ 0xB1 then decodeControl n
  else decodeMember n

end Instruction

end ClassTrace
