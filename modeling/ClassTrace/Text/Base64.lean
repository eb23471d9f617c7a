import ClassTrace.Text.Bytes

/-!
Bytes written in base 64: four characters for three bytes, the last of them padded with equal
signs. Ends of lines between the characters do not count.
-/
namespace ClassTrace.Base64

def digit? (b : UInt8) : Option Nat :=
  if 'A'.toUInt8 ≤ b && b ≤ 'Z'.toUInt8 then some (b.toNat - 'A'.toNat)
  else if 'a'.toUInt8 ≤ b && b ≤ 'z'.toUInt8 then some (b.toNat - 'a'.toNat + 26)
  else if '0'.toUInt8 ≤ b && b ≤ '9'.toUInt8 then some (b.toNat - '0'.toNat + 52)
  else if b = '+'.toUInt8 then some 62
  else if b = '/'.toUInt8 then some 63
  else none

def padding : UInt8 := '='.toUInt8

def decodeGroups? : Bytes → Option Bytes
  | [] => some []
  | a :: b :: c :: d :: rest => do
    let high := (← digit? a) * 64 + (← digit? b)
    if c = padding then
      if d = padding && rest.isEmpty then return [(high / 16).toUInt8] else none
    else
      let middle := high * 64 + (← digit? c)
      if d = padding then
        if rest.isEmpty then return Bytes.ofNat 2 (middle / 4) else none
      else return Bytes.ofNat 3 (middle * 64 + (← digit? d)) ++ (← decodeGroups? rest)
  | _ => none

def decode? (text : Bytes) : Option Bytes := decodeGroups? (text.filter fun b => b ≠ 10 && b ≠ 13)

end ClassTrace.Base64
