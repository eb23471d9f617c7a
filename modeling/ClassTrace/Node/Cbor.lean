import ClassTrace.Node

/-!
Writing trees as canonical CBOR: every length and number takes the fewest bytes, and the fields of
a record are ordered by the length of their names, then bytewise.
-/
namespace ClassTrace.Node

def cborHead (major n : Nat) : Bytes :=
  let first (info : Nat) : UInt8 := (major * 32 + info).toUInt8
  if n < 24 then [first n]
  else if n < 0x100 then first 24 :: Bytes.ofNat 1 n
  else if n < 0x10000 then first 25 :: Bytes.ofNat 2 n
  else if n < 0x100000000 then first 26 :: Bytes.ofNat 4 n
  else first 27 :: Bytes.ofNat 8 n

def cborText (t : Bytes) : Bytes := cborHead 3 t.length ++ t

/-- A negative number `n` is written as `-1 - n`. -/
def cborNumber (n : Int) : Bytes :=
  if 0 ≤ n then cborHead 0 n.toNat else cborHead 1 (-1 - n).toNat

def nameLe (a b : Bytes) : Bool := a.length < b.length || (a.length == b.length && Bytes.le a b)

mutual

def encodeCbor : Node → Bytes
  | .number n => cborNumber n
  | .text t => cborText t
  | .list items => cborHead 4 items.length ++ (encodeItems items).flatten
  | .object fields =>
    cborHead 5 fields.length ++
      ((encodeFields fields).mergeSort fun a b => nameLe a.1 b.1).flatMap fun (name, value) =>
        cborText name ++ value

def encodeItems : List Node → List Bytes
  | [] => []
  | item :: rest => encodeCbor item :: encodeItems rest

def encodeFields : List (Bytes × Node) → List (Bytes × Bytes)
  | [] => []
  | (name, value) :: rest => (name, encodeCbor value) :: encodeFields rest

end

end ClassTrace.Node
