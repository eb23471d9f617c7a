import ClassTrace.Yaml

/-!
The characters of a YAML text. A mark in front tells the encoding, which is UTF-8 if there is
none. Most control characters cannot stand in a text.
-/
namespace ClassTrace.YamlSource

def isAllowed (n : Nat) : Bool :=
  n = 9 || n = 10 || n = 13 || (0x20 ≤ n && n ≤ 0x7E) || n = 0x85 || (0xA0 ≤ n && n ≤ 0xD7FF) ||
    (0xE000 ≤ n && n ≤ 0xFFFD && n ≠ 0xFEFF) || (0x10000 ≤ n && n ≤ 0x10FFFF)

def allowed (n : Nat) : Except YamlFlaw Char :=
  if isAllowed n then .ok (Char.ofNat n) else .error .controlCharacter

/-- How many bytes a character takes whose first byte is given, and what that byte adds to it. -/
def width? (b : UInt8) : Option (Nat × Nat) :=
  if b < 0x80 then some (1, b.toNat)
  else if b < 0xC0 then none
  else if b < 0xE0 then some (2, b.toNat - 0xC0)
  else if b < 0xF0 then some (3, b.toNat - 0xE0)
  else if b < 0xF8 then some (4, b.toNat - 0xF0)
  else none

/-- The least number that needs as many bytes. -/
def least : (width : Nat) → Nat
  | 2 => 0x80
  | 3 => 0x800
  | 4 => 0x10000
  | _ => 0

/-- The character at the front of bytes, with the number of bytes that it takes beyond the
first. -/
def first (b : UInt8) (rest : Bytes) : Except YamlFlaw (Char × Nat) :=
  match width? b with
  | none => .error .leadingByte
  | some (width, start) =>
    let more := rest.take (width - 1)
    if more.length < width - 1 then .error .cutCharacter
    else if more.any fun c => !Utf8.isContinuation c then .error .trailingByte
    else
      let n := more.foldl (fun n c => n * 64 + Utf8.payload c) start
      if n < least width then .error .overlongCharacter
      else if (0xD800 ≤ n ∧ n < 0xE000) ∨ 0x10FFFF < n then .error .noCharacter
      else (allowed n).map (·, width - 1)

/-- Characters of bytes of which the first `skip` belong to a character already read. -/
def ofUtf8 : (skip : Nat) → Bytes → Except YamlFlaw (List Char)
  | _, [] => .ok []
  | skip + 1, _ :: rest => ofUtf8 skip rest
  | 0, b :: rest => do
    let (c, extra) ← first b rest
    return c :: (← ofUtf8 extra rest)

/-- Characters of units of two bytes, whose order `unit` knows. -/
def ofUtf16 (unit : UInt8 → UInt8 → Nat) : Bytes → Except YamlFlaw (List Char)
  | [] => .ok []
  | [_] => .error .cutUnit
  | a :: b :: rest =>
    let high := unit a b
    if 0xDC00 ≤ high ∧ high < 0xE000 then .error .strayLow
    else if high < 0xD800 ∨ 0xE000 ≤ high then do return (← allowed high) :: (← ofUtf16 unit rest)
    else match rest with
      | c :: d :: rest =>
        let low := unit c d
        if low < 0xDC00 ∨ 0xE000 ≤ low then .error .noLow
        else do
          let c ← allowed (0x10000 + (high - 0xD800) * 1024 + (low - 0xDC00))
          return c :: (← ofUtf16 unit rest)
      | _ => .error .cutPair

def read (input : Bytes) : Except YamlFlaw (List Char) :=
  match input with
  | 0xFF :: 0xFE :: rest => ofUtf16 (fun a b => b.toNat * 256 + a.toNat) rest
  | 0xFE :: 0xFF :: rest => ofUtf16 (fun a b => a.toNat * 256 + b.toNat) rest
  | 0xEF :: 0xBB :: 0xBF :: rest => ofUtf8 0 rest
  | _ => ofUtf8 0 input

end ClassTrace.YamlSource
