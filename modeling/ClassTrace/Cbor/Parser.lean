import ClassTrace.Cbor
import ClassTrace.Number.Binary

/-!
Reading CBOR. The input is one well-formed item and nothing else. Lengths may be given in front or
left open, and there are limits to nesting and to the size of lists and maps.
-/
namespace ClassTrace.CborItem

/-- The head of an item: its major type, the low five bits of the first byte, and the number that
they give or announce. -/
structure Head where
  major : Nat
  info : Nat
  number : Nat
deriving DecidableEq, Repr

def openLength : Nat := 31

def breakByte : UInt8 := 0xFF

def readHead : Bytes → Option (Head × Bytes)
  | [] => none
  | b :: rest =>
    let major := b.toNat / 32
    let info := b.toNat % 32
    let wide (width : Nat) : Option (Head × Bytes) :=
      let taken := rest.take width
      if taken.length = width then
        some (⟨major, info, Bytes.toNat taken⟩, rest.drop width) else none
    if info < 24 then some (⟨major, info, info⟩, rest)
    else match info with
      | 24 => match wide 1 with
        | some (h, rest) => if major = 7 ∧ h.number < 32 then none else some (h, rest)
        | none => none
      | 25 => wide 2
      | 26 => wide 4
      | 27 => wide 8
      | 31 => if 2 ≤ major ∧ major ≤ 5 then some (⟨major, info, info⟩, rest) else none
      | _ => none

def readBytes (n : Nat) (input : Bytes) : Option (Bytes × Bytes) :=
  let taken := input.take n
  if taken.length = n then some (taken, input.drop n) else none

/-- The chunks of a string of open length: each is a string of the same type with a length in
front. -/
def readChunks (major : Nat) :
    (fuel : Nat) → (done : List Bytes) → Bytes → Option (List Bytes × Bytes)
  | 0, _, _ => none
  | fuel + 1, done, input =>
    match input with
    | [] => none
    | b :: rest =>
      if b = breakByte then some (done.reverse, rest)
      else match readHead input with
        | none => none
        | some (h, rest) =>
          if h.major ≠ major ∨ h.info = openLength then none
          else match readBytes h.number rest with
            | none => none
            | some (chunk, rest) => readChunks major fuel (chunk :: done) rest

def readString (h : Head) (input : Bytes) : Option (List Bytes × Bytes) :=
  if h.info = openLength then readChunks h.major (input.length + 1) [] input
  else (readBytes h.number input).map fun (b, rest) => ([b], rest)

def ofSimple (h : Head) : CborItem :=
  match h.info with
  | 20 => .bool false
  | 21 => .bool true
  | 22 | 23 => .null
  | 25 => .float (Binary.widen Binary.half h.number)
  | 26 => .float (Binary.widen Binary.single h.number)
  | 27 => .float (Binary.widen Binary.double h.number)
  | _ => .simple h.number

def pairs? : List CborItem → Option (List (CborItem × CborItem))
  | [] => some []
  | [_] => none
  | key :: value :: rest => (pairs? rest).map ((key, value) :: ·)

def maxDepth : Nat := 32

def maxSize : Nat := 131072

mutual

/-- Reads an item, in which `depth` levels of nesting are left. A tag right after another takes a
level. -/
def readItem : (fuel depth : Nat) → (tagged : Bool) → Bytes → Option (CborItem × Bytes)
  | 0, _, _, _ => none
  | fuel + 1, depth, tagged, input =>
    match readHead input with
    | none => none
    | some (h, rest) =>
      match h.major with
      | 0 => some (.unsigned h.number, rest)
      | 1 => some (.negative h.number, rest)
      | 2 => (readString h rest).map fun (chunks, rest) => (.bytes chunks.flatten, rest)
      | 3 => (readString h rest).map fun (chunks, rest) => (.text chunks, rest)
      | 4 => match depth with
        | 0 => none
        | depth + 1 =>
          if h.info = openLength then
            (readOpen fuel depth maxSize [] rest).map fun (items, rest) => (.list items, rest)
          else if maxSize < h.number then none
          else (readItems fuel depth h.number [] rest).map fun (items, rest) =>
            (.list items, rest)
      | 5 => match depth with
        | 0 => none
        | depth + 1 =>
          let items :=
            if h.info = openLength then readOpen fuel depth (2 * maxSize + 1) [] rest
            else if maxSize < h.number then none
            else readItems fuel depth (2 * h.number) [] rest
          match items with
          | none => none
          | some (items, rest) => (pairs? items).map fun entries => (.map entries, rest)
      | 6 => match depth, tagged with
        | 0, true => none
        | depth, false =>
          (readItem fuel depth true rest).map fun (item, rest) => (.tag h.number item, rest)
        | depth + 1, true =>
          (readItem fuel depth true rest).map fun (item, rest) => (.tag h.number item, rest)
      | _ => some (ofSimple h, rest)

/-- Reads a number of items; `done` has those before, the last one first. -/
def readItems :
    (fuel depth count : Nat) → (done : List CborItem) → Bytes → Option (List CborItem × Bytes)
  | 0, _, _, _, _ => none
  | _ + 1, _, 0, done, input => some (done.reverse, input)
  | fuel + 1, depth, count + 1, done, input =>
    match readItem fuel depth false input with
    | none => none
    | some (item, rest) => readItems fuel depth count (item :: done) rest

/-- Reads items up to a break, at most `room` of them. -/
def readOpen :
    (fuel depth room : Nat) → (done : List CborItem) → Bytes → Option (List CborItem × Bytes)
  | 0, _, _, _, _ => none
  | fuel + 1, depth, room, done, input =>
    match input with
    | [] => none
    | b :: after =>
      if b = breakByte then some (done.reverse, after)
      else match room with
        | 0 => none
        | room + 1 => match readItem fuel depth false input with
          | none => none
          | some (item, rest) => readOpen fuel depth room (item :: done) rest

end

def parse (input : Bytes) : Option CborItem :=
  match readItem (2 * input.length + 2) maxDepth false input with
  | some (item, []) => some item
  | _ => none

end ClassTrace.CborItem
