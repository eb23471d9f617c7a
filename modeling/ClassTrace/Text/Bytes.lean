/-!
Byte strings. Names, texts and messages come from class files and need not be valid UTF-8, so a
text is a list of bytes throughout. A string literal stands for its UTF-8 bytes.
-/
namespace ClassTrace

abbrev Bytes := List UInt8

namespace Bytes

def ofString (s : String) : Bytes := s.toUTF8.data.toList

instance : Coe String Bytes := ⟨ofString⟩

def ofChar (c : Char) : Bytes := String.utf8EncodeChar c

def toNat (bytes : Bytes) : Nat := bytes.foldl (fun n b => n * 256 + b.toNat) 0

/-- The last `width` bytes of a number, most significant first. -/
def ofNat : (width : Nat) → Nat → Bytes
  | 0, _ => []
  | width + 1, n => (n / Nat.pow 256 width).toUInt8 :: ofNat width n

def decimal (n : Int) : Bytes := ofString (toString n)

def hex (width n : Nat) : Bytes :=
  let digits := (Nat.toDigits 16 n).map Char.toUInt8
  List.replicate (width - digits.length) '0'.toUInt8 ++ digits

def upperHex (width n : Nat) : Bytes :=
  (hex width n).map fun b => if 'a'.toUInt8 ≤ b then b - 32 else b

def join (separator : Bytes) (parts : List Bytes) : Bytes := List.intercalate separator parts

def split (separator : UInt8) : Bytes → List Bytes
  | [] => [[]]
  | b :: rest =>
    if b = separator then [] :: split separator rest
    else match split separator rest with
      | [] => [[b]]
      | part :: parts => (b :: part) :: parts

def dropSuffix (ending text : Bytes) : Bytes :=
  if ending.isSuffixOf text then text.take (text.length - ending.length) else text

def replaceByte (old new : UInt8) (text : Bytes) : Bytes :=
  text.map fun b => if b = old then new else b

def dotted (name : Bytes) : Bytes := replaceByte '/'.toUInt8 '.'.toUInt8 name

/-- Bytewise order: at the first difference the smaller byte is first, and a shorter text is
before every longer one that starts with it. -/
def le : Bytes → Bytes → Bool
  | [], _ => true
  | _ :: _, [] => false
  | a :: as, b :: bs => a < b || (a == b && le as bs)

end Bytes

end ClassTrace
