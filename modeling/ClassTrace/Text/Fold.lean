import ClassTrace.Text.Utf8

/-!
Comparing texts with names of plain letters without regard to case. Two characters beyond the
plain ones have a plain letter as another case of theirs: the long s and the sign of the kelvin.
-/
namespace ClassTrace.Fold

def char (c : Char) : Char :=
  if c.toNat = 0x17F then 's' else if c.toNat = 0x212A then 'k' else c.toLower

def piece : Utf8.Piece → Utf8.Piece
  | .char c => .char (char c)
  | p => p

def matchesName (name : String) (text : Bytes) : Bool :=
  (Utf8.pieces text).map piece = name.toList.map fun c => .char c.toLower

end ClassTrace.Fold
