import ClassTrace.Text.Utf8

/-!
Texts as sequences of UTF-16 code units, in which string lengths and positions are counted.
-/
namespace ClassTrace.Utf16

/-- A character beyond the first plane is a pair of surrogates. -/
def ofChar (c : Char) : List UInt16 :=
  let n := c.toNat
  if n < 0x10000 then [n.toUInt16]
  else
    let m := n - 0x10000
    [(0xD800 + m / 1024).toUInt16, (0xDC00 + m % 1024).toUInt16]

def units (text : Bytes) : List UInt16 := (Utf8.scalars text).flatMap ofChar

/-- The character of a single code unit; a surrogate alone is none, and is replaced. -/
def charOfUnit (u : UInt16) : Char :=
  if u.toNat.isValidChar then Char.ofNat u.toNat else Utf8.replacement

end ClassTrace.Utf16
