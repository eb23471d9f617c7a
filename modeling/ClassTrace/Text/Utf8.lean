import ClassTrace.Text.Bytes

/-!
Reading bytes as UTF-8. A byte that starts no well-formed sequence stands alone, and reading
resumes at the byte after it. Overlong forms and surrogates are not well formed.
-/
namespace ClassTrace.Utf8

inductive Piece where
  | char (c : Char)
  | stray (b : UInt8)
deriving DecidableEq, Repr

def isContinuation (b : UInt8) : Bool := 0x80 ≤ b && b < 0xC0

def payload (b : UInt8) : Nat := b.toNat % 64

def scalar? (least n : Nat) : Option Char :=
  if least ≤ n ∧ n.isValidChar then some (Char.ofNat n) else none

def two? (a b : UInt8) : Option Char :=
  if 0xC0 ≤ a && a < 0xE0 && isContinuation b then
    scalar? 0x80 ((a.toNat - 0xC0) * 64 + payload b)
  else none

def three? (a b c : UInt8) : Option Char :=
  if 0xE0 ≤ a && a < 0xF0 && isContinuation b && isContinuation c then
    scalar? 0x800 ((a.toNat - 0xE0) * 4096 + payload b * 64 + payload c)
  else none

def four? (a b c d : UInt8) : Option Char :=
  if 0xF0 ≤ a && a < 0xF8 && isContinuation b && isContinuation c && isContinuation d then
    scalar? 0x10000 ((a.toNat - 0xF0) * 262144 + payload b * 4096 + payload c * 64 + payload d)
  else none

def sequence? (a : UInt8) (rest : Bytes) : Option (Char × Nat) :=
  if a < 0x80 then some (Char.ofNat a.toNat, 0)
  else match rest with
    | b :: c :: d :: _ =>
      (two? a b).map (·, 1) <|> (three? a b c).map (·, 2) <|> (four? a b c d).map (·, 3)
    | [b, c] => (two? a b).map (·, 1) <|> (three? a b c).map (·, 2)
    | [b] => (two? a b).map (·, 1)
    | [] => none

/-- Pieces of a text of which the first `skip` bytes belong to a character already read. -/
def piecesFrom : Nat → Bytes → List Piece
  | _, [] => []
  | skip + 1, _ :: rest => piecesFrom skip rest
  | 0, a :: rest =>
    match sequence? a rest with
    | some (c, extra) => .char c :: piecesFrom extra rest
    | none => .stray a :: piecesFrom 0 rest

def pieces (text : Bytes) : List Piece := piecesFrom 0 text

def isValid (text : Bytes) : Bool :=
  (pieces text).all fun p => match p with
    | .char _ => true
    | .stray _ => false

def replacement : Char := Char.ofNat 0xFFFD

/-- The characters of a text, each stray byte read as the replacement character. -/
def scalars (text : Bytes) : List Char :=
  (pieces text).map fun p => match p with
    | .char c => c
    | .stray _ => replacement

def repaired (text : Bytes) : Bytes := (scalars text).flatMap Bytes.ofChar

end ClassTrace.Utf8
