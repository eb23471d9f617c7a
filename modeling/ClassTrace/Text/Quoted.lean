import ClassTrace.Text.Printable
import ClassTrace.Text.Utf8

/-!
Quoted texts as messages show them. Printable characters stand for themselves, the mark of
quotation and the backslash take a backslash, and everything else is escaped, stray bytes byte by
byte.
-/
namespace ClassTrace.Quoted

def shortEscape? (c : Char) : Option Char :=
  match c.toNat with
  | 7 => some 'a'
  | 8 => some 'b'
  | 9 => some 't'
  | 10 => some 'n'
  | 11 => some 'v'
  | 12 => some 'f'
  | 13 => some 'r'
  | _ => none

def escapeChar (mark c : Char) : Bytes :=
  if c = mark ∨ c = '\\' then "\\" ++ Bytes.ofChar c
  else if Printable.isPrintable c then Bytes.ofChar c
  else match shortEscape? c with
    | some e => "\\" ++ Bytes.ofChar e
    | none =>
      let n := c.toNat
      if n < 0x80 then "\\x" ++ Bytes.hex 2 n
      else if n < 0x10000 then "\\u" ++ Bytes.hex 4 n
      else "\\U" ++ Bytes.hex 8 n

def escapePiece (mark : Char) : Utf8.Piece → Bytes
  | .char c => escapeChar mark c
  | .stray b => "\\x" ++ Bytes.hex 2 b.toNat

def text (t : Bytes) : Bytes :=
  "\"" ++ (Utf8.pieces t).flatMap (escapePiece '"') ++ "\""

def first (t : Bytes) : Bytes :=
  "'" ++ ((Utf8.pieces (t.take 4)).take 1).flatMap (escapePiece '\'') ++ "'"

def code (b : UInt8) : Bytes :=
  "'" ++ escapeChar '\'' (Char.ofNat b.toNat) ++ "'"

end ClassTrace.Quoted
