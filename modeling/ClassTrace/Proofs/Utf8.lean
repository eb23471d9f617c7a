import ClassTrace.Proofs.ModifiedUtf8

/-!
Characters and their bytes. The bytes of a character are read as that character, whatever follows
them, and a sequence that is read as a character consists of its bytes. So the pieces of a text
make up the text, a valid text is the bytes of its characters, and repairing a text twice is
repairing it once.
-/
namespace ClassTrace

/-- A string literal stands for the bytes of its characters. -/
theorem Bytes.ofString_eq (s : String) : ofString s = s.toList.flatMap ofChar := by
  have hbytes := String.toByteArray_ofList (l := s.toList)
  rw [String.ofList_toList] at hbytes
  unfold ofString String.toUTF8
  rw [hbytes]
  simp only [List.utf8Encode, List.data_toByteArray]
  rfl

theorem Bytes.length_ofString (s : String) : (ofString s).length = s.utf8ByteSize := rfl

theorem Bytes.ofString_inj {s t : String} : ofString s = ofString t ↔ s = t := by
  refine ⟨fun h => ?_, congrArg _⟩
  have hdata := Array.toList_inj.mp h
  exact String.toByteArray_inj.mp (ByteArray.ext hdata)

theorem Char.toNat_ofNat {n : Nat} (h : n.isValidChar) : (Char.ofNat n).toNat = n := by
  unfold Char.ofNat
  rw [dif_pos h]
  rfl

namespace Utf8

section Encoding

open Utf16

theorem four?_encode {n : Nat} (h : n < 0x200000) :
    four? (0xF0 + n / 262144).toUInt8 (continuation (n / 4096)) (continuation (n / 64))
      (continuation n) = scalar? 0x10000 n := by
  have hlead := toNat_byte (n := 0xF0 + n / 262144) (by omega)
  have hvalue : ((0xF0 + n / 262144).toUInt8.toNat - 0xF0) * 262144 +
      payload (continuation (n / 4096)) * 4096 + payload (continuation (n / 64)) * 64 +
        payload (continuation n) = n := by
    rw [hlead, payload_continuation, payload_continuation, payload_continuation]
    omega
  unfold four?
  rw [hvalue, if_pos]
  simp only [isContinuation_continuation, UInt8.le_iff_toNat_le, UInt8.lt_iff_toNat_lt, hlead,
    UInt8.reduceToNat, Bool.and_eq_true, decide_eq_true_eq, and_true]
  omega

theorem sequence?_four {a b c d : UInt8} {rest : Bytes} (hlow : 0xF0 ≤ a) :
    sequence? a (b :: c :: d :: rest) = (four? a b c d).map (·, 3) := by
  have htwo : two? a b = none := two?_eq_none (.inr (UInt8.le_trans (by decide) hlow))
  have hthree : three? a b c = none := by
    unfold three?
    rw [if_neg]
    simp only [UInt8.le_iff_toNat_le, UInt8.lt_iff_toNat_lt, Bool.and_eq_true,
      decide_eq_true_eq] at hlow ⊢
    omega
  unfold sequence?
  rw [if_neg (UInt8.not_lt.mpr (UInt8.le_trans (by decide) hlow))]
  simp only [htwo, hthree, Option.map_none]
  rfl

theorem sequence?_encodeFour {n : Nat} (h : n < 0x200000) (rest : Bytes) :
    sequence? (0xF0 + n / 262144).toUInt8
      (continuation (n / 4096) :: continuation (n / 64) :: continuation n :: rest) =
      (scalar? 0x10000 n).map (·, 3) := by
  have hlow : 0xF0 ≤ (0xF0 + n / 262144).toUInt8 := by
    rw [UInt8.le_iff_toNat_le, toNat_byte (by omega)]
    simp only [UInt8.reduceToNat]
    omega
  rw [sequence?_four hlow, four?_encode h]

/-- The bytes of a character, with the continuation bytes by name. -/
theorem ofChar_eq (c : Char) : Bytes.ofChar c =
    if c.toNat < 0x80 then [c.toNat.toUInt8]
    else if c.toNat < 0x800 then [(0xC0 + c.toNat / 64).toUInt8, continuation c.toNat]
    else if c.toNat < 0x10000 then
      [(0xE0 + c.toNat / 4096).toUInt8, continuation (c.toNat / 64), continuation c.toNat]
    else [(0xF0 + c.toNat / 262144).toUInt8, continuation (c.toNat / 4096),
      continuation (c.toNat / 64), continuation c.toNat] := by
  have hmax : c.toNat < 0x110000 := by
    have hvalid := c.valid
    unfold UInt32.isValidChar Nat.isValidChar at hvalid
    unfold Char.toNat
    omega
  have hcont : ∀ n, UInt8.ofNat (n % 64 + 128) = continuation n := by
    intro n
    rw [Nat.add_comm, continuation]
  have hlead : ∀ k base m : Nat, k < m → UInt8.ofNat (k % m + base) = (base + k).toUInt8 := by
    intro k base m hk
    rw [Nat.mod_eq_of_lt hk, Nat.add_comm]
  change String.utf8EncodeChar c = _
  unfold String.utf8EncodeChar
  change (if c.toNat ≤ 127 then _ else _) = _
  by_cases h1 : c.toNat < 0x80
  · rw [if_pos (by omega), if_pos h1]
    rfl
  · rw [if_neg (by omega), if_neg h1]
    change (if c.toNat ≤ 2047 then _ else _) = _
    by_cases h2 : c.toNat < 0x800
    · rw [if_pos (by omega), if_pos h2]
      rw [hcont]
      exact congrArg (fun a => a :: _) (hlead _ _ _ (by change c.toNat / 64 < 32; omega))
    · rw [if_neg (by omega), if_neg h2]
      change (if c.toNat ≤ 65535 then _ else _) = _
      by_cases h3 : c.toNat < 0x10000
      · rw [if_pos (by omega), if_pos h3]
        rw [hcont, hcont]
        exact congrArg (fun a => a :: _) (hlead _ _ _ (by change c.toNat / 4096 < 16; omega))
      · rw [if_neg (by omega), if_neg h3]
        rw [hcont, hcont, hcont]
        exact congrArg (fun a => a :: _) (hlead _ _ _ (by change c.toNat / 262144 < 8; omega))

/-- The bytes of a character are read as it. -/
theorem sequence?_ofChar (c : Char) : ∃ a tail, Bytes.ofChar c = a :: tail ∧
    ∀ rest, sequence? a (tail ++ rest) = some (c, tail.length) := by
  have hvalid : c.toNat.isValidChar := c.valid
  have hscalar : ∀ least, least ≤ c.toNat → scalar? least c.toNat = some c := by
    intro least hleast
    unfold scalar?
    rw [if_pos ⟨hleast, hvalid⟩, Char.ofNat_toNat]
  have hmax : c.toNat < 0x110000 := by
    unfold Nat.isValidChar at hvalid
    omega
  rw [ofChar_eq]
  by_cases h1 : c.toNat < 0x80
  · rw [if_pos h1]
    refine ⟨_, _, rfl, fun rest => ?_⟩
    rw [List.nil_append, sequence?_ascii h1, Char.ofNat_toNat]
    rfl
  · rw [if_neg h1]
    by_cases h2 : c.toNat < 0x800
    · rw [if_pos h2]
      refine ⟨_, _, rfl, fun rest => ?_⟩
      rw [List.cons_append, sequence?_encodeTwo h2, hscalar _ (by omega)]
      rfl
    · rw [if_neg h2]
      by_cases h3 : c.toNat < 0x10000
      · rw [if_pos h3]
        refine ⟨_, _, rfl, fun rest => ?_⟩
        rw [List.cons_append, List.cons_append, sequence?_encodeThree h3, hscalar _ (by omega)]
        rfl
      · rw [if_neg h3]
        refine ⟨_, _, rfl, fun rest => ?_⟩
        rw [List.cons_append, List.cons_append, List.cons_append, sequence?_encodeFour (by omega),
          hscalar _ (by omega)]
        rfl

end Encoding

theorem piecesFrom_length (head rest : Bytes) :
    piecesFrom head.length (head ++ rest) = pieces rest := by
  induction head with
  | nil => rfl
  | cons b head ih => exact ih

/-- The bytes of a character are read as the character. -/
theorem pieces_ofChar_append (c : Char) (rest : Bytes) :
    pieces (Bytes.ofChar c ++ rest) = .char c :: pieces rest := by
  obtain ⟨a, tail, hbytes, hread⟩ := sequence?_ofChar c
  rw [hbytes, List.cons_append]
  simp only [pieces, piecesFrom, hread]
  rw [piecesFrom_length]
  rfl

theorem pieces_flatMap_ofChar (cs : List Char) :
    pieces (cs.flatMap Bytes.ofChar) = cs.map .char := by
  induction cs with
  | nil => rfl
  | cons c cs ih => rw [List.flatMap_cons, pieces_ofChar_append, ih, List.map_cons]

def Piece.scalar : Piece → Char
  | .char c => c
  | .stray _ => replacement

theorem scalars_eq (text : Bytes) : scalars text = (pieces text).map Piece.scalar := by
  unfold scalars
  refine List.map_congr_left fun p _ => ?_
  cases p <;> rfl

theorem repaired_flatMap_ofChar (cs : List Char) :
    repaired (cs.flatMap Bytes.ofChar) = cs.flatMap Bytes.ofChar := by
  unfold repaired
  rw [scalars_eq, pieces_flatMap_ofChar, List.map_map]
  exact congrArg (·.flatMap Bytes.ofChar) (List.map_id cs)

theorem repaired_repaired (text : Bytes) : repaired (repaired text) = repaired text :=
  repaired_flatMap_ofChar (scalars text)

theorem repaired_ofString (s : String) : repaired s = s := by
  rw [Bytes.ofString_eq]
  exact repaired_flatMap_ofChar s.toList

theorem isValid_ofString (s : String) : isValid s = true := by
  unfold isValid
  rw [Bytes.ofString_eq, pieces_flatMap_ofChar]
  exact List.all_eq_true.mpr fun p hp => by
    obtain ⟨c, -, rfl⟩ := List.mem_map.mp hp
    rfl

section Decoding

open Utf16

theorem scalar?_eq_some {least n : Nat} {c : Char} (h : scalar? least n = some c) :
    least ≤ n ∧ c.toNat = n := by
  unfold scalar? at h
  split at h
  · rename_i hn
    cases h
    exact ⟨hn.1, Char.toNat_ofNat hn.2⟩
  · cases h

theorem continuation_of_isContinuation {b : UInt8} {n : Nat} (h : isContinuation b = true)
    (hn : n % 64 = payload b) : continuation n = b := by
  simp only [isContinuation, Bool.and_eq_true, decide_eq_true_eq, UInt8.le_iff_toNat_le,
    UInt8.lt_iff_toNat_lt, UInt8.reduceToNat] at h
  unfold payload at hn
  refine UInt8.toNat_inj.mp ?_
  rw [toNat_continuation]
  omega

theorem toUInt8_eq {n : Nat} {b : UInt8} (h : n = b.toNat) : n.toUInt8 = b := by
  subst h
  exact UInt8.ofNat_toNat

theorem two?_eq_some {a b : UInt8} {c : Char} (h : two? a b = some c) :
    Bytes.ofChar c = [a, b] := by
  unfold two? at h
  split at h
  · rename_i hbytes
    simp only [Bool.and_eq_true, decide_eq_true_eq, UInt8.le_iff_toNat_le, UInt8.lt_iff_toNat_lt,
      UInt8.reduceToNat] at hbytes
    obtain ⟨⟨hlow, hhigh⟩, hb⟩ := hbytes
    obtain ⟨hleast, hc⟩ := scalar?_eq_some h
    have hpayload : payload b < 64 := Nat.mod_lt _ (by decide)
    rw [ofChar_eq, if_neg (by omega), if_pos (by omega), hc,
      toUInt8_eq (b := a) (by omega), continuation_of_isContinuation hb (by omega)]
  · cases h

theorem three?_eq_some {a b c : UInt8} {ch : Char} (h : three? a b c = some ch) :
    Bytes.ofChar ch = [a, b, c] := by
  unfold three? at h
  split at h
  · rename_i hbytes
    simp only [Bool.and_eq_true, decide_eq_true_eq, UInt8.le_iff_toNat_le, UInt8.lt_iff_toNat_lt,
      UInt8.reduceToNat] at hbytes
    obtain ⟨⟨⟨hlow, hhigh⟩, hb⟩, hc⟩ := hbytes
    obtain ⟨hleast, hch⟩ := scalar?_eq_some h
    have hpb : payload b < 64 := Nat.mod_lt _ (by decide)
    have hpc : payload c < 64 := Nat.mod_lt _ (by decide)
    rw [ofChar_eq, if_neg (by omega), if_neg (by omega), if_pos (by omega), hch,
      toUInt8_eq (b := a) (by omega), continuation_of_isContinuation hb (by omega),
      continuation_of_isContinuation hc (by omega)]
  · cases h

theorem four?_eq_some {a b c d : UInt8} {ch : Char} (h : four? a b c d = some ch) :
    Bytes.ofChar ch = [a, b, c, d] := by
  unfold four? at h
  split at h
  · rename_i hbytes
    simp only [Bool.and_eq_true, decide_eq_true_eq, UInt8.le_iff_toNat_le, UInt8.lt_iff_toNat_lt,
      UInt8.reduceToNat] at hbytes
    obtain ⟨⟨⟨⟨hlow, hhigh⟩, hb⟩, hc⟩, hd⟩ := hbytes
    obtain ⟨hleast, hch⟩ := scalar?_eq_some h
    have hpb : payload b < 64 := Nat.mod_lt _ (by decide)
    have hpc : payload c < 64 := Nat.mod_lt _ (by decide)
    have hpd : payload d < 64 := Nat.mod_lt _ (by decide)
    rw [ofChar_eq, if_neg (by omega), if_neg (by omega), if_neg (by omega), hch,
      toUInt8_eq (b := a) (by omega), continuation_of_isContinuation hb (by omega),
      continuation_of_isContinuation hc (by omega), continuation_of_isContinuation hd (by omega)]
  · cases h

/-- A sequence that is read as a character has the bytes of that character. -/
theorem ofChar_of_sequence? {a : UInt8} {rest : Bytes} {c : Char} {extra : Nat}
    (h : sequence? a rest = some (c, extra)) : Bytes.ofChar c = a :: rest.take extra := by
  unfold sequence? at h
  split at h
  · rename_i hascii
    cases h
    have hlt : a.toNat < 0x80 := UInt8.lt_iff_toNat_lt.mp hascii
    have hvalid : a.toNat.isValidChar := .inl (by omega)
    rw [ofChar_eq, Char.toNat_ofNat hvalid, if_pos hlt, toUInt8_eq rfl]
    rfl
  · split at h
    · simp only [Option.orElse_eq_orElse, Option.orElse_eq_or, Option.or_eq_some_iff,
        Option.map_eq_some_iff, Prod.mk.injEq] at h
      rcases h with ⟨x, hx, rfl, rfl⟩ | ⟨-, ⟨x, hx, rfl, rfl⟩ | ⟨-, x, hx, rfl, rfl⟩⟩
      · exact two?_eq_some hx
      · exact three?_eq_some hx
      · exact four?_eq_some hx
    · simp only [Option.orElse_eq_orElse, Option.orElse_eq_or, Option.or_eq_some_iff,
        Option.map_eq_some_iff, Prod.mk.injEq] at h
      rcases h with ⟨x, hx, rfl, rfl⟩ | ⟨-, x, hx, rfl, rfl⟩
      · exact two?_eq_some hx
      · exact three?_eq_some hx
    · simp only [Option.map_eq_some_iff, Prod.mk.injEq] at h
      obtain ⟨x, hx, rfl, rfl⟩ := h
      exact two?_eq_some hx
    · cases h

end Decoding

def Piece.bytes : Piece → Bytes
  | .char c => Bytes.ofChar c
  | .stray b => [b]

/-- The pieces of a text make up the text. -/
theorem flatMap_bytes_piecesFrom (skip : Nat) (text : Bytes) :
    (piecesFrom skip text).flatMap Piece.bytes = text.drop skip := by
  fun_induction piecesFrom skip text with
  | case1 skip => simp
  | case2 skip b rest ih => exact ih
  | case3 a rest c extra hread ih =>
    rw [List.flatMap_cons, ih, Piece.bytes, ofChar_of_sequence? hread, List.cons_append,
      List.take_append_drop]
    rfl
  | case4 a rest hread ih => rw [List.flatMap_cons, ih]; rfl

/-- The second text is the first with the replacement character for each byte that no character
starts with, where the bytes of characters are passed over whole. -/
inductive Repairs : Bytes → Bytes → Prop
  | nil : Repairs [] []
  | char (c : Char) {text after : Bytes} (h : Repairs text after) :
      Repairs (Bytes.ofChar c ++ text) (Bytes.ofChar c ++ after)
  | stray {b : UInt8} {text after : Bytes} (hb : ∀ c, ¬ Bytes.ofChar c <+: b :: text)
      (h : Repairs text after) : Repairs (b :: text) (Bytes.ofChar replacement ++ after)

/-- Where no character is read, no bytes of one stand. -/
theorem not_prefix_of_sequence? {a : UInt8} {rest : Bytes} (h : sequence? a rest = none)
    (c : Char) :
    ¬ Bytes.ofChar c <+: a :: rest := by
  rintro ⟨after, hafter⟩
  obtain ⟨a', tail, hbytes, hread⟩ := sequence?_ofChar c
  rw [hbytes, List.cons_append, List.cons.injEq] at hafter
  obtain ⟨rfl, rfl⟩ := hafter
  rw [hread] at h
  cases h

theorem repairs_piecesFrom (skip : Nat) (text : Bytes) :
    Repairs (text.drop skip) ((piecesFrom skip text).flatMap fun p => Bytes.ofChar p.scalar) := by
  fun_induction piecesFrom skip text with
  | case1 skip =>
    rw [List.drop_nil]
    exact .nil
  | case2 skip b rest ih => exact ih
  | case3 a rest c extra hread ih =>
    have hbytes : a :: rest = Bytes.ofChar c ++ rest.drop extra := by
      rw [ofChar_of_sequence? hread, List.cons_append, List.take_append_drop]
    rw [List.drop_zero, hbytes]
    exact .char c ih
  | case4 a rest hread ih => exact .stray (not_prefix_of_sequence? hread) ih

/-- The repaired text has a replacement for each stray byte and nothing else. -/
theorem repairs_repaired (text : Bytes) : Repairs text (repaired text) := by
  have h := repairs_piecesFrom 0 text
  rw [List.drop_zero] at h
  unfold repaired
  rw [scalars_eq, List.flatMap_map]
  exact h

/-- A text without stray bytes is left as it is. -/
theorem repaired_of_isValid {text : Bytes} (h : isValid text = true) : repaired text = text := by
  have hpieces := flatMap_bytes_piecesFrom 0 text
  rw [List.drop_zero] at hpieces
  have hchars : ∀ p ∈ pieces text, Bytes.ofChar p.scalar = p.bytes := by
    intro p hp
    have hvalid := List.all_eq_true.mp h p hp
    cases p with
    | char c => rfl
    | stray b => cases hvalid
  calc repaired text = ((pieces text).map fun p => Bytes.ofChar p.scalar).flatten := by
        rw [repaired, scalars_eq, List.flatMap_map, List.flatMap_def]
    _ = (pieces text).flatMap Piece.bytes := by rw [List.flatMap_def, List.map_congr_left hchars]
    _ = text := hpieces

end Utf8

end ClassTrace
