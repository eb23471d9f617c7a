import ClassTrace.Json.Parser
import ClassTrace.Proofs.DocumentTree
import ClassTrace.Proofs.Utf8

/-!
Trees that are written as JSON are read back: numbers as they are written, texts with every stray
byte replaced, lists and records with the same items and fields in the same order.
-/
namespace ClassTrace

theorem Node.renderItems_eq (style : JsonStyle) (depth : Nat) (items : List Node) :
    renderItems style depth items = items.map (renderJson style depth) := by
  induction items with
  | nil => rfl
  | cons item rest ih => rw [renderItems, ih, List.map_cons]

theorem Node.renderFields_eq (style : JsonStyle) (depth : Nat) (fields : List (Bytes × Node)) :
    renderFields style depth fields = fields.map fun f => (f.1, renderJson style depth f.2) := by
  induction fields with
  | nil => rfl
  | cons f rest ih => rw [renderFields, ih, List.map_cons]

def JsonNumber.integer (n : Int) : JsonNumber := ⟨Bytes.decimal n, n < 0, n.natAbs, none, none⟩

namespace Node

mutual

def json : Node → JsonValue
  | .number n => .number (.integer n)
  | .text t => .text (Utf8.repaired t)
  | .list items => .list (jsonItems items)
  | .object fields => .object (jsonFields fields)

def jsonItems : List Node → List JsonValue
  | [] => []
  | item :: rest => json item :: jsonItems rest

def jsonFields : List (Bytes × Node) → List (Bytes × JsonValue)
  | [] => []
  | (name, value) :: rest => (Utf8.repaired name, json value) :: jsonFields rest

end

theorem jsonItems_eq (items : List Node) : jsonItems items = items.map json := by
  induction items with
  | nil => rfl
  | cons item rest ih => rw [jsonItems, ih, List.map_cons]

theorem jsonFields_eq (fields : List (Bytes × Node)) :
    jsonFields fields = fields.map fun f => (Utf8.repaired f.1, json f.2) := by
  induction fields with
  | nil => rfl
  | cons f rest ih => rw [jsonFields, ih, List.map_cons]

/-- Lines at a level deeper than the brackets around them, without the brackets. -/
def lines (depth : Nat) (rendered : List Bytes) : Bytes :=
  Bytes.join ",\n" (rendered.map fun line => indent (depth + 1) ++ line)

theorem lines_single (depth : Nat) (line : Bytes) :
    lines depth [line] = indent (depth + 1) ++ line := by
  simp [lines, Bytes.join, List.intercalate]

theorem lines_cons (depth : Nat) (line next : Bytes) (more : List Bytes) :
    lines depth (line :: next :: more) =
      indent (depth + 1) ++ (line ++ 44 :: 10 :: lines depth (next :: more)) := by
  simp only [lines, Bytes.join, List.map_cons, List.intercalate, List.intersperse,
    List.flatten_cons, List.append_assoc]
  rfl

theorem lines_head (depth : Nat) (line : Bytes) (more : List Bytes) :
    ∃ tail, lines depth (line :: more) = indent (depth + 1) ++ (line ++ tail) := by
  cases more with
  | nil => exact ⟨[], by rw [lines_single, List.append_nil]⟩
  | cons next more => exact ⟨_, lines_cons ..⟩

theorem block_cons (opening closing : UInt8) (depth : Nat) (line : Bytes) (more : List Bytes) :
    block [opening] [closing] depth (line :: more) =
      opening :: 10 :: (lines depth (line :: more) ++ 10 :: (indent depth ++ [closing])) := by
  unfold block
  rw [if_neg (by simp)]
  simp only [List.append_assoc]
  rfl

theorem block_head (opening closing : UInt8) (depth : Nat) (rendered : List Bytes) :
    ∃ tail, block [opening] [closing] depth rendered = opening :: tail := by
  cases rendered with
  | nil => exact ⟨_, rfl⟩
  | cons line more => exact ⟨_, block_cons ..⟩

end Node

namespace JsonValue

section Blanks

def Blank (ws : Bytes) : Prop := ∀ b ∈ ws, isBlank b = true

theorem skipBlanks_append {ws : Bytes} (h : Blank ws) (input : Bytes) :
    skipBlanks (ws ++ input) = skipBlanks input := by
  unfold skipBlanks
  exact List.dropWhile_append_of_pos h

theorem skipBlanks_cons {b : UInt8} (h : isBlank b = false) (rest : Bytes) :
    skipBlanks (b :: rest) = b :: rest := by
  unfold skipBlanks
  rw [List.dropWhile_cons_of_neg (by simp [h])]

theorem skipBlanks_blank_cons {ws : Bytes} (hws : Blank ws) {b : UInt8} (h : isBlank b = false)
    (rest : Bytes) : skipBlanks (ws ++ b :: rest) = b :: rest := by
  rw [skipBlanks_append hws, skipBlanks_cons h]

theorem blank_nil : Blank [] := nofun

theorem blank_indent (depth : Nat) : Blank (Node.indent depth) := by
  intro b hb
  rw [List.eq_of_mem_replicate hb]
  rfl

theorem blank_newline_append {ws : Bytes} (h : Blank ws) : Blank (10 :: ws) := by
  intro b hb
  rcases List.mem_cons.mp hb with rfl | hb
  · rfl
  · exact h b hb

end Blanks

section Texts

def IsPlain (b : UInt8) : Prop := 0x20 ≤ b ∧ b ≠ '"'.toUInt8 ∧ b ≠ '\\'.toUInt8

theorem readText_plain {bytes : Bytes} (h : ∀ b ∈ bytes, IsPlain b) (done rest : Bytes) :
    readText 0 done (bytes ++ rest) = readText 0 (bytes.reverse ++ done) rest := by
  induction bytes generalizing done with
  | nil => rfl
  | cons b bytes ih =>
    obtain ⟨hlow, hquote, hslash⟩ := h b (List.mem_cons_self ..)
    have hrest := ih (fun b hb => h b (List.mem_cons_of_mem _ hb)) (b :: done)
    rw [List.cons_append, readText.eq_def]
    dsimp only
    rw [if_neg hquote, if_neg (UInt8.not_lt.mpr hlow), if_pos hslash, hrest, List.reverse_cons,
      List.append_assoc]
    rfl

theorem readText_letter {letter e : UInt8} (hu : letter ≠ 'u'.toUInt8)
    (h : escaped? letter = some e) (done rest : Bytes) :
    readText 0 done (92 :: letter :: rest) = readText 0 (e :: done) rest := by
  rw [readText.eq_def]
  dsimp only
  rw [if_neg (by decide), if_neg (by decide), if_neg (by decide), if_neg hu]
  simp only [h, readText]

/-- Units below the surrogates have no partner. -/
theorem partner?_eq_none {unit : Nat} (h : unit < 0xD800) (input : Bytes) :
    partner? unit input = none := by
  have hpair : ∀ low, pair? unit low = none := by
    intro low
    unfold pair?
    rw [if_neg (by omega)]
  unfold partner?
  split
  · split
    · cases unit? _ _ _ _ with
      | none => rfl
      | some low => exact hpair low
    · rfl
  · rfl

/-- A number of four digits is read as the character that it escapes. -/
theorem readText_unit {a b c d : UInt8} {unit : Nat} (h : unit? a b c d = some unit)
    (hunit : unit < 0xD800) (done rest : Bytes) :
    readText 0 done (92 :: 117 :: a :: b :: c :: d :: rest) =
      readText 0 ((Bytes.ofChar (loneChar unit)).reverse ++ done) rest := by
  rw [readText.eq_def]
  dsimp only
  rw [if_neg (by decide), if_neg (by decide), if_neg (by decide), if_pos (by decide)]
  simp only [h, partner?_eq_none hunit, readText]

def escapedNumbers : List Nat := List.range 0x20 ++ [0x26, 0x3C, 0x3E, 0x2028, 0x2029]

theorem unit?_hex {n : Nat} (h : n ∈ escapedNumbers) :
    ∃ a b c d, Bytes.hex 4 n = [a, b, c, d] ∧ unit? a b c d = some n := by
  have hall : ∀ n ∈ escapedNumbers,
      let digit (i : Nat) := (Bytes.hex 4 n).getD i 0
      Bytes.hex 4 n = [digit 0, digit 1, digit 2, digit 3] ∧
        unit? (digit 0) (digit 1) (digit 2) (digit 3) = some n := by
    decide +kernel
  exact ⟨_, _, _, _, hall n h⟩

/-- The bytes of a character that needs no escape are plain. -/
theorem isPlain_ofChar {c : Char} (hlow : 0x20 ≤ c.toNat) (hquote : c.toNat ≠ 34)
    (hslash : c.toNat ≠ 92) :
    ∀ b ∈ Bytes.ofChar c, IsPlain b := by
  have hhigh : ∀ b : UInt8, 0x80 ≤ b.toNat → IsPlain b := by
    intro b hb
    refine ⟨UInt8.le_iff_toNat_le.mpr (Nat.le_trans (by decide) hb), ?_, ?_⟩ <;>
    · rintro rfl
      exact absurd hb (by decide)
  have hbyte : ∀ n : Nat, 0x80 ≤ n → n < 256 → IsPlain n.toUInt8 := by
    intro n hn hmax
    exact hhigh _ (by rw [Utf16.toNat_byte hmax]; exact hn)
  have hcont : ∀ n, IsPlain (Utf16.continuation n) := fun n => hbyte _ (by omega) (by omega)
  have hmax : c.toNat < 0x110000 := by
    have hvalid : c.toNat.isValidChar := c.valid
    unfold Nat.isValidChar at hvalid
    omega
  intro b hb
  rw [Utf8.ofChar_eq] at hb
  split at hb
  · rename_i hascii
    have htoNat := Utf16.toNat_byte (n := c.toNat) (by omega)
    rw [List.mem_singleton.mp hb]
    refine ⟨UInt8.le_iff_toNat_le.mpr (by rw [htoNat]; exact hlow),
      fun heq => hquote ?_, fun heq => hslash ?_⟩
    · rw [← htoNat, heq]
      rfl
    · rw [← htoNat, heq]
      rfl
  · split at hb
    · simp only [List.mem_cons, List.not_mem_nil, or_false] at hb
      rcases hb with rfl | rfl
      · exact hbyte _ (by omega) (by omega)
      · exact hcont _
    · split at hb
      · simp only [List.mem_cons, List.not_mem_nil, or_false] at hb
        rcases hb with rfl | rfl | rfl
        · exact hbyte _ (by omega) (by omega)
        · exact hcont _
        · exact hcont _
      · simp only [List.mem_cons, List.not_mem_nil, or_false] at hb
        rcases hb with rfl | rfl | rfl | rfl
        · exact hbyte _ (by omega) (by omega)
        · exact hcont _
        · exact hcont _
        · exact hcont _

/-- What is written for a character is read as its bytes. -/
theorem readText_escape (style : Node.JsonStyle) (p : Utf8.Piece) (done rest : Bytes) :
    readText 0 done (style.escape p ++ rest) =
      readText 0 ((Bytes.ofChar p.scalar).reverse ++ done) rest := by
  cases p with
  | stray b =>
    exact readText_plain (isPlain_ofChar (c := Utf8.replacement) (by decide) (by decide)
      (by decide)) done rest
  | char c =>
    -- A character with an escape of its own is one byte, and its letter stands for that byte.
    have hletter : ∀ (n : Nat) (letter : UInt8), c.toNat = n → n < 0x80 → letter ≠ 'u'.toUInt8 →
        escaped? letter = some n.toUInt8 →
        readText 0 done (92 :: letter :: rest) =
          readText 0 ((Bytes.ofChar c).reverse ++ done) rest := by
      intro n letter hc hn hu he
      rw [Utf8.ofChar_eq, hc, if_pos hn]
      exact readText_letter hu he done rest
    unfold Node.JsonStyle.escape
    dsimp only
    split
    · exact hletter 8 98 ‹_› (by decide) (by decide) rfl
    · exact hletter 9 116 ‹_› (by decide) (by decide) rfl
    · exact hletter 10 110 ‹_› (by decide) (by decide) rfl
    · exact hletter 12 102 ‹_› (by decide) (by decide) rfl
    · exact hletter 13 114 ‹_› (by decide) (by decide) rfl
    · exact hletter 34 34 ‹_› (by decide) (by decide) rfl
    · exact hletter 92 92 ‹_› (by decide) (by decide) rfl
    · rename_i _ _ _ _ _ hquote hslash
      split
      · rename_i hescaped
        have hmem : c.toNat ∈ escapedNumbers := by
          unfold escapedNumbers
          simp only [List.mem_append, List.mem_range, List.mem_cons, List.not_mem_nil, or_false]
          rcases hescaped with hlow | hline | hline | ⟨-, rfl | rfl | rfl⟩
          · exact .inl hlow
          · simp [hline]
          · simp [hline]
          · simp
          · simp
          · simp
        have hunit : c.toNat < 0xD800 := by
          have hall : ∀ n ∈ escapedNumbers, n < 0xD800 := by decide
          exact hall _ hmem
        obtain ⟨a, b, c', d, hhex, hread⟩ := unit?_hex hmem
        have hlone : loneChar c.toNat = c := by
          have hvalid : c.toNat.isValidChar := c.valid
          unfold loneChar
          rw [if_pos hvalid, Char.ofNat_toNat]
        have hstep := readText_unit hread hunit done rest
        rw [hlone] at hstep
        rw [hhex]
        exact hstep
      · rename_i hplain
        exact readText_plain (isPlain_ofChar (by omega) hquote hslash) done rest

/-- A text is read back from its escaped pieces, up to the closing quote. -/
theorem readText_escapes (style : Node.JsonStyle) (pieces : List Utf8.Piece) (done rest : Bytes) :
    readText 0 done (pieces.flatMap style.escape ++ 34 :: rest) =
      .ok (Utf8.repaired (done.reverse ++ (pieces.map Utf8.Piece.scalar).flatMap Bytes.ofChar),
        rest) := by
  induction pieces generalizing done with
  | nil =>
    rw [List.flatMap_nil, List.nil_append, readText.eq_def]
    dsimp only
    rw [if_pos (by decide), List.map_nil, List.flatMap_nil, List.append_nil]
  | cons p pieces ih =>
    rw [List.flatMap_cons, List.append_assoc, readText_escape, ih, List.reverse_append,
      List.reverse_reverse, List.map_cons, List.flatMap_cons, List.append_assoc]

/-- A text that is written is read with its stray bytes replaced. -/
theorem readText_quote (style : Node.JsonStyle) (t rest : Bytes) :
    ∃ body, style.quote t = 34 :: body ∧ readText 0 [] (body ++ rest) =
      .ok (Utf8.repaired t, rest) := by
  refine ⟨(Utf8.pieces t).flatMap style.escape ++ [34], rfl, ?_⟩
  rw [List.append_assoc, List.singleton_append, readText_escapes, List.reverse_nil,
    List.nil_append, ← Utf8.scalars_eq]
  change Except.ok (Utf8.repaired (Utf8.repaired t), rest) = _
  rw [Utf8.repaired_repaired]

end Texts

section Numbers

def digits (m : Nat) : Bytes := (Nat.toDigits 10 m).map fun c => c.toNat.toUInt8

theorem mem_toDigits {m : Nat} {c : Char} (h : c ∈ Nat.toDigits 10 m) :
    48 ≤ c.toNat ∧ c.toNat ≤ 57 := by
  have hdigit := Nat.isDigit_of_mem_toDigits (by decide) (by decide) h
  simp only [Char.isDigit, Bool.and_eq_true, decide_eq_true_eq] at hdigit
  exact hdigit

theorem mem_digits {m : Nat} {b : UInt8} (h : b ∈ digits m) : 48 ≤ b.toNat ∧ b.toNat ≤ 57 := by
  obtain ⟨c, hc, rfl⟩ := List.mem_map.mp h
  obtain ⟨hlow, hhigh⟩ := mem_toDigits hc
  rw [Utf16.toNat_byte (by omega)]
  exact ⟨hlow, hhigh⟩

theorem isDigit_iff {b : UInt8} : isDigit b = true ↔ 48 ≤ b.toNat ∧ b.toNat ≤ 57 := by
  unfold isDigit
  rw [Bool.and_eq_true, decide_eq_true_eq, decide_eq_true_eq, UInt8.le_iff_toNat_le,
    UInt8.le_iff_toNat_le]
  rfl

theorem ofString_repr (m : Nat) : Bytes.ofString m.repr = digits m := by
  rw [Bytes.ofString_eq, Nat.repr_eq_ofList_toDigits, String.toList_ofList, digits,
    List.flatMap_def]
  have hsingle : ∀ c ∈ Nat.toDigits 10 m, Bytes.ofChar c = [c.toNat.toUInt8] := by
    intro c hc
    have hc := mem_toDigits hc
    rw [Utf8.ofChar_eq, if_pos (by omega)]
  rw [List.map_congr_left hsingle, ← List.flatMap_def, ← List.map_eq_flatMap]

/-- An integer is written as its sign and its digits. -/
theorem decimal_eq (n : Int) :
    Bytes.decimal n = (if n < 0 then ['-'.toUInt8] else []) ++ digits n.natAbs := by
  cases n with
  | ofNat m =>
    rw [if_neg (by simp)]
    exact ofString_repr m
  | negSucc m =>
    rw [if_pos (Int.negSucc_lt_zero m)]
    change Bytes.ofString ("-" ++ (m + 1).repr) = _
    rw [Bytes.ofString_eq, String.toList_append, List.flatMap_append, ← Bytes.ofString_eq,
      ← Bytes.ofString_eq, ofString_repr]
    rfl

/-- A number is over at the end of the input, or where what follows cannot belong to it. -/
def EndsNumber (rest : Bytes) : Prop :=
  ∀ b tail, rest = b :: tail → isDigit b = false ∧ b ≠ '.'.toUInt8 ∧ b ≠ 'e'.toUInt8 ∧
    b ≠ 'E'.toUInt8

theorem readDigits_append {bytes rest : Bytes} (hne : bytes ≠ [])
    (h : ∀ b ∈ bytes, isDigit b = true) (hrest : EndsNumber rest) :
    readDigits (bytes ++ rest) = .ok (digitsOf bytes, rest) := by
  have hnone : rest.takeWhile isDigit = [] ∧ rest.dropWhile isDigit = rest := by
    cases rest with
    | nil => exact ⟨rfl, rfl⟩
    | cons b tail => simp [(hrest b tail rfl).1]
  unfold readDigits
  rw [List.takeWhile_append_of_pos h, List.dropWhile_append_of_pos h, hnone.1, hnone.2,
    List.append_nil]
  cases bytes with
  | nil => exact absurd rfl hne
  | cons b bytes => rfl

theorem ofDigits_digitsOf (m : Nat) : ofDigits (digitsOf (digits m)) = m := by
  have hdigits : digitsOf (digits m) = (Nat.toDigits 10 m).map fun c => c.toNat - '0'.toNat := by
    rw [digitsOf, digits, List.map_map]
    refine List.map_congr_left fun c hc => ?_
    have hrange := mem_toDigits hc
    change c.toNat.toUInt8.toNat - _ = _
    rw [Utf16.toNat_byte (by omega)]
  have hvalue := Nat.ofDigitChars_toDigits (b := 10) (n := m) (by decide) (by decide)
  rw [Nat.ofDigitChars_eq_foldl] at hvalue
  rw [hdigits, ofDigits, List.foldl_map]
  simp only [Nat.mul_comm _ 10]
  exact hvalue

theorem toDigits_head {m : Nat} (hm : 0 < m) : ∃ c cs, Nat.toDigits 10 m = c :: cs ∧ c ≠ '0' := by
  induction m using Nat.strongRecOn with
  | ind m ih =>
    rw [Nat.toDigits_eq_if (by decide)]
    by_cases hsmall : m < 10
    · rw [if_pos hsmall]
      refine ⟨_, _, rfl, ?_⟩
      have hall : ∀ d, d < 10 → 0 < d → d.digitChar ≠ '0' := by decide
      exact hall m hsmall hm
    · rw [if_neg hsmall]
      obtain ⟨c, cs, hdigits, hc⟩ := ih (m / 10) (by omega) (by omega)
      exact ⟨c, cs ++ _, by rw [hdigits]; rfl, hc⟩

/-- A number is read back from its digits. -/
theorem readWhole_digits (m : Nat) {rest : Bytes} (hrest : EndsNumber rest) :
    readWhole (digits m ++ rest) = .ok (m, rest) := by
  by_cases hm : m = 0
  · subst hm
    rfl
  · obtain ⟨c, cs, hdigits, hc⟩ := toDigits_head (Nat.pos_of_ne_zero hm)
    have hbytes : digits m = c.toNat.toUInt8 :: cs.map fun c => c.toNat.toUInt8 := by
      rw [digits, hdigits, List.map_cons]
    have hread : readDigits (digits m ++ rest) = .ok (digitsOf (digits m), rest) :=
      readDigits_append (by rw [hbytes]; exact List.cons_ne_nil _ _)
        (fun b hb => isDigit_iff.mpr (mem_digits hb)) hrest
    have hfirst : c.toNat.toUInt8 ≠ '0'.toUInt8 := by
      intro heq
      have hrange := mem_toDigits (hdigits ▸ List.mem_cons_self .. : c ∈ Nat.toDigits 10 m)
      have htoNat : c.toNat = '0'.toNat := by
        have h := congrArg UInt8.toNat heq
        rw [Utf16.toNat_byte (by omega)] at h
        exact h
      exact hc (Char.toNat_inj.mp htoNat)
    have hcons :
        digits m ++ rest = c.toNat.toUInt8 :: (cs.map (fun c => c.toNat.toUInt8) ++ rest) := by
      rw [hbytes, List.cons_append]
    unfold readWhole
    rw [hcons]
    dsimp only
    rw [if_neg hfirst, ← hcons, hread]
    exact congrArg (fun v => Except.ok (v, rest)) (ofDigits_digitsOf m)

theorem readFraction_none {rest : Bytes} (hrest : EndsNumber rest) :
    readFraction rest = .ok (none, rest) := by
  cases rest with
  | nil => rfl
  | cons b tail =>
    unfold readFraction
    exact if_neg (hrest b tail rfl).2.1

theorem readExponent_none {rest : Bytes} (hrest : EndsNumber rest) :
    readExponent rest = .ok (none, rest) := by
  cases rest with
  | nil => rfl
  | cons b tail =>
    obtain ⟨-, -, he, hE⟩ := hrest b tail rfl
    unfold readExponent
    exact if_neg (by simp [he, hE])

/-- An integer is read back from its decimal form. -/
theorem readNumber_decimal (n : Int) {rest : Bytes} (hrest : EndsNumber rest) :
    readNumber (Bytes.decimal n ++ rest) = .ok (.integer n, rest) := by
  have hwritten :
      (Bytes.decimal n ++ rest).take ((Bytes.decimal n ++ rest).length - rest.length) =
      Bytes.decimal n := by
    rw [List.length_append, Nat.add_sub_cancel, List.take_left]
  have hwhole := readWhole_digits n.natAbs hrest
  unfold readNumber
  by_cases hn : n < 0
  · have hinput : Bytes.decimal n ++ rest = '-'.toUInt8 :: (digits n.natAbs ++ rest) := by
      rw [decimal_eq, if_pos hn]
      rfl
    rw [hinput] at hwritten ⊢
    simp only [↓reduceIte, hwhole, readFraction_none hrest, readExponent_none hrest, bind,
      Except.bind, pure, Except.pure, hwritten]
    simp [JsonNumber.integer, hn]
  · have hinput : Bytes.decimal n ++ rest = digits n.natAbs ++ rest := by
      rw [decimal_eq, if_neg hn]
      rfl
    obtain ⟨b, tail, hdigits⟩ : ∃ b tail, digits n.natAbs = b :: tail := by
      refine List.exists_cons_of_ne_nil ?_
      simp [digits]
    have hsign : b ≠ '-'.toUInt8 := by
      rintro rfl
      exact absurd (mem_digits (hdigits ▸ List.mem_cons_self ..)).1 (by decide)
    rw [hinput] at hwritten ⊢
    rw [hdigits, List.cons_append] at hwritten hwhole ⊢
    simp only [if_neg hsign, hwhole, readFraction_none hrest, readExponent_none hrest, bind,
      Except.bind, pure, Except.pure, hwritten]
    simp [JsonNumber.integer, hn]

theorem decimal_head (n : Int) :
    ∃ b tail, Bytes.decimal n = b :: tail ∧ (b = '-'.toUInt8 ∨ isDigit b = true) := by
  rw [decimal_eq]
  split
  · exact ⟨_, _, rfl, .inl rfl⟩
  · obtain ⟨b, tail, hdigits⟩ : ∃ b tail, digits n.natAbs = b :: tail := by
      refine List.exists_cons_of_ne_nil ?_
      simp [digits]
    have hb : b ∈ digits n.natAbs := hdigits ▸ List.mem_cons_self ..
    exact ⟨b, tail, hdigits, .inr (isDigit_iff.mpr (mem_digits hb))⟩

theorem isBlank_of_number {b : UInt8} (h : b = '-'.toUInt8 ∨ isDigit b = true) :
    isBlank b = false := by
  unfold isBlank
  simp only [Bool.or_eq_false_iff, decide_eq_false_iff_not]
  refine ⟨⟨⟨?_, ?_⟩, ?_⟩, ?_⟩ <;>
  · rintro rfl
    exact absurd h (by decide)

end Numbers

section Values

open Node

theorem endsNumber_newline (rest : Bytes) : EndsNumber (10 :: rest) := by
  rintro _ _ ⟨⟩
  exact ⟨by decide, by decide, by decide, by decide⟩

theorem endsNumber_comma (rest : Bytes) : EndsNumber (44 :: rest) := by
  rintro _ _ ⟨⟩
  exact ⟨by decide, by decide, by decide, by decide⟩

/-- The tree is read back from its text, with blanks before it and whatever ends a number after
it. -/
def ReadsBack (depth k : Nat) (node : Node) : Prop :=
  ∀ fuel ws rest, Blank ws → 2 * (node.renderJson .plain k).length ≤ fuel → EndsNumber rest →
    readValue fuel depth (ws ++ (node.renderJson .plain k ++ rest)) = .ok (node.json, rest)

theorem renderJson_head (k : Nat) (node : Node) :
    ∃ b tail, node.renderJson .plain k = b :: tail ∧ isBlank b = false ∧ b ≠ ']'.toUInt8 := by
  cases node with
  | number n =>
    obtain ⟨b, tail, heq, hb⟩ := decimal_head n
    refine ⟨b, tail, heq, isBlank_of_number hb, ?_⟩
    rintro rfl
    exact absurd hb (by decide)
  | text t => exact ⟨34, _, rfl, rfl, by decide⟩
  | list items =>
    obtain ⟨tail, heq⟩ := block_head 91 93 k (renderItems .plain (k + 1) items)
    exact ⟨91, tail, heq, rfl, by decide⟩
  | object fields =>
    obtain ⟨tail, heq⟩ :=
      block_head 123 125 k (fieldLines .plain (renderFields .plain (k + 1) fields))
    exact ⟨123, tail, heq, rfl, by decide⟩

theorem readSeparator_comma (closing : UInt8) (place : JsonPlace) (rest : Bytes) :
    readSeparator closing place (44 :: rest) = .ok (true, rest) := by
  unfold readSeparator
  rw [skipBlanks_cons (by decide)]
  exact if_pos rfl

theorem readSeparator_closing (closing : UInt8) (hcomma : closing ≠ ','.toUInt8)
    (hblank : isBlank closing = false) (place : JsonPlace) {ws : Bytes} (hws : Blank ws)
    (rest : Bytes) :
    readSeparator closing place (ws ++ closing :: rest) = .ok (false, rest) := by
  unfold readSeparator
  rw [skipBlanks_blank_cons hws hblank]
  dsimp only
  rw [if_neg hcomma, if_pos rfl]

theorem blank_append {ws ws' : Bytes} (h : Blank ws) (h' : Blank ws') : Blank (ws ++ ws') :=
  fun b hb => (List.mem_append.mp hb).elim (h b) (h' b)

theorem blank_newline : Blank [10] := blank_newline_append blank_nil

/-- Items are read back from their lines if each of them is read back. -/
theorem readItems_lines {depth k : Nat} {items : List Node} (hne : items ≠ [])
    (hread : ∀ item ∈ items, ReadsBack depth (k + 1) item) (fuel : Nat) (done : List JsonValue)
    (ws rest : Bytes) (hws : Blank ws)
    (hfuel : 2 * (lines k (items.map (renderJson .plain (k + 1)))).length ≤ fuel) :
    readItems fuel depth done
        (ws ++ (lines k (items.map (renderJson .plain (k + 1))) ++
          10 :: (indent k ++ 93 :: rest))) =
      .ok (.list (done.reverse ++ items.map json), rest) := by
  induction items generalizing fuel done ws with
  | nil => exact absurd rfl hne
  | cons item more ih =>
    have hitem := hread item (List.mem_cons_self ..)
    have hblank : Blank (ws ++ indent (k + 1)) := blank_append hws (blank_indent _)
    have hindent : (indent (k + 1)).length = 2 * (k + 1) := List.length_replicate
    cases more with
    | nil =>
      simp only [List.map_cons, List.map_nil, lines_single, List.length_append, List.append_assoc]
        at hfuel ⊢
      cases fuel with
      | zero => omega
      | succ fuel =>
        have hvalue :=
          hitem fuel _ (10 :: (indent k ++ 93 :: rest)) hblank (by omega) (endsNumber_newline _)
        rw [List.append_assoc] at hvalue
        have hclose := readSeparator_closing 93 (by decide) (by decide) .afterItem
          (blank_newline_append (blank_indent k)) rest
        rw [readItems, hvalue]
        dsimp only
        rw [show readSeparator ']'.toUInt8 .afterItem (10 :: (indent k ++ 93 :: rest)) =
          _ from hclose]
        simp
    | cons next more =>
      simp only [List.map_cons, lines_cons, List.length_append, List.length_cons,
        List.append_assoc, List.cons_append] at hfuel ⊢
      cases fuel with
      | zero => omega
      | succ fuel =>
        have hvalue := hitem fuel _ (44 :: 10 ::
            (lines k (renderJson .plain (k + 1) next :: more.map (renderJson .plain (k + 1))) ++
              10 :: (indent k ++ 93 :: rest))) hblank (by omega) (endsNumber_comma _)
        rw [List.append_assoc] at hvalue
        have hmore :=
          ih (List.cons_ne_nil _ _) (fun i hi => hread i (List.mem_cons_of_mem _ hi)) fuel
          (item.json :: done) [10] blank_newline (by simp only [List.map_cons]; omega)
        simp only [List.map_cons, List.singleton_append] at hmore
        rw [readItems, hvalue]
        dsimp only
        rw [readSeparator_comma]
        dsimp only
        rw [hmore]
        simp

theorem readMark_blank (mark : UInt8) (hblank : isBlank mark = false) (place : JsonPlace)
    {ws : Bytes} (hws : Blank ws) (rest : Bytes) :
    readMark mark place (ws ++ mark :: rest) = .ok ((), rest) := by
  unfold readMark
  rw [skipBlanks_blank_cons hws hblank]
  exact if_pos rfl

theorem readName_quote {ws : Bytes} (hws : Blank ws) (key rest : Bytes) :
    readName (ws ++ (JsonStyle.plain.quote key ++ 58 :: rest)) =
      .ok (Utf8.repaired key, rest) := by
  obtain ⟨body, hquote, htext⟩ := readText_quote .plain key (58 :: rest)
  have hopen := readMark_blank '"'.toUInt8 (by decide) .name hws (body ++ 58 :: rest)
  have hcolon := readMark_blank ':'.toUInt8 (by decide) .afterName blank_nil rest
  unfold readName
  rw [hquote, List.cons_append]
  simp only [show readMark '"'.toUInt8 .name (ws ++ 34 :: (body ++ 58 :: rest)) =
    _ from hopen, htext,
    show readMark ':'.toUInt8 .afterName (58 :: rest) = _ from hcolon, bind, Except.bind, pure,
      Except.pure]

def fieldLine (k : Nat) (f : Bytes × Node) : Bytes :=
  JsonStyle.plain.quote f.1 ++ 58 :: 32 :: f.2.renderJson .plain k

theorem fieldLines_eq (k : Nat) (fields : List (Bytes × Node)) :
    fieldLines .plain (renderFields .plain k fields) = fields.map (fieldLine k) := by
  rw [renderFields_eq]
  unfold fieldLines
  rw [if_neg (by decide), List.map_map]
  refine List.map_congr_left fun f _ => ?_
  simp only [Function.comp_apply, JsonStyle.paint, fieldLine, List.append_assoc]
  rfl

theorem readField_line {depth k : Nat} (fuel : Nat) {f : Bytes × Node} {ws tail : Bytes}
    (hread : ReadsBack depth k f.2) (hws : Blank ws) (hfuel : 2 * (fieldLine k f).length ≤ fuel)
    (htail : EndsNumber tail) : ∃ after,
      readName (ws ++ (fieldLine k f ++ tail)) = .ok (Utf8.repaired f.1, after) ∧
        readValue fuel depth after = .ok (f.2.json, tail) := by
  have hspace : Blank [32] := fun b hb => List.mem_singleton.mp hb ▸ rfl
  simp only [fieldLine, List.length_append, List.length_cons] at hfuel
  refine ⟨[32] ++ (f.2.renderJson .plain k ++ tail), ?_,
    hread fuel [32] tail hspace (by omega) htail⟩
  rw [fieldLine, List.append_assoc]
  exact readName_quote hws f.1 _

/-- Fields are read back from their lines if their values are. -/
theorem readFields_lines {depth k : Nat} {fields : List (Bytes × Node)} (hne : fields ≠ [])
    (hread : ∀ f ∈ fields, ReadsBack depth (k + 1) f.2) (fuel : Nat)
    (done : List (Bytes × JsonValue)) (ws rest : Bytes) (hws : Blank ws)
    (hfuel : 2 * (lines k (fields.map (fieldLine (k + 1)))).length ≤ fuel) :
    readFields fuel depth done
        (ws ++ (lines k (fields.map (fieldLine (k + 1))) ++ 10 :: (indent k ++ 125 :: rest))) =
      .ok (.object (done.reverse ++ fields.map fun f => (Utf8.repaired f.1, f.2.json)),
        rest) := by
  induction fields generalizing fuel done ws with
  | nil => exact absurd rfl hne
  | cons f more ih =>
    have hf := hread f (List.mem_cons_self ..)
    have hblank : Blank (ws ++ indent (k + 1)) := blank_append hws (blank_indent _)
    have hindent : (indent (k + 1)).length = 2 * (k + 1) := List.length_replicate
    cases more with
    | nil =>
      simp only [List.map_cons, List.map_nil, lines_single, List.length_append, List.append_assoc]
        at hfuel ⊢
      cases fuel with
      | zero => omega
      | succ fuel =>
        obtain ⟨after, hname, hvalue⟩ := readField_line fuel hf hblank (by omega)
          (endsNumber_newline (indent k ++ 125 :: rest))
        have hclose := readSeparator_closing 0x7D (by decide) (by decide) .afterField
          (blank_newline_append (blank_indent k)) rest
        rw [List.append_assoc] at hname
        rw [readFields, hname]
        dsimp only
        rw [hvalue]
        dsimp only
        rw [show readSeparator 0x7D .afterField (10 :: (indent k ++ 125 :: rest)) = _ from hclose]
        simp
    | cons next more =>
      simp only [List.map_cons, lines_cons, List.length_append, List.length_cons,
        List.append_assoc, List.cons_append] at hfuel ⊢
      cases fuel with
      | zero => omega
      | succ fuel =>
        obtain ⟨after, hname, hvalue⟩ := readField_line fuel hf hblank (by omega)
          (endsNumber_comma
            (10 :: (lines k (fieldLine (k + 1) next :: more.map (fieldLine (k + 1))) ++
            10 :: (indent k ++ 125 :: rest))))
        have hmore :=
          ih (List.cons_ne_nil _ _) (fun g hg => hread g (List.mem_cons_of_mem _ hg)) fuel
          ((Utf8.repaired f.1, f.2.json) :: done) [10] blank_newline
          (by simp only [List.map_cons]; omega)
        simp only [List.map_cons, List.singleton_append] at hmore
        rw [List.append_assoc] at hname
        rw [readFields, hname]
        dsimp only
        rw [hvalue]
        dsimp only
        rw [readSeparator_comma]
        dsimp only
        rw [hmore]
        simp

/-- Lines do not close at once, unless the first one starts with the bracket. -/
theorem closesAtOnce_lines (closing : UInt8) {b : UInt8} {line tail : Bytes}
    (hline : line = b :: tail) (hblank : isBlank b = false) (hb : b ≠ closing) (k : Nat)
    (more : List Bytes) (rest : Bytes) :
    closesAtOnce closing (10 :: (lines k (line :: more) ++ rest)) = none := by
  obtain ⟨after, hlines⟩ := lines_head k line more
  have hinput : 10 :: (lines k (line :: more) ++ rest) =
      (10 :: indent (k + 1)) ++ b :: (tail ++ (after ++ rest)) := by
    rw [hlines, hline]
    simp
  unfold closesAtOnce
  rw [hinput, skipBlanks_blank_cons (blank_newline_append (blank_indent _)) hblank]
  exact if_neg hb

/-- A list is read back one level deeper than its items. -/
theorem ReadsBack.list {depth k : Nat} {items : List Node}
    (hread : ∀ item ∈ items, ReadsBack depth (k + 1) item) :
    ReadsBack (depth + 1) k (.list items) := by
  intro fuel ws rest hws hfuel hrest
  cases fuel with
  | zero =>
    obtain ⟨b, tail, heq, -⟩ := renderJson_head k (.list items)
    simp [heq] at hfuel
  | succ fuel =>
    cases items with
    | nil =>
      have hrender : (Node.list []).renderJson .plain k = [91, 93] := rfl
      rw [hrender, readValue, List.cons_append, skipBlanks_blank_cons hws (by decide)]
      rfl
    | cons item more =>
      have hrender : (Node.list (item :: more)).renderJson .plain k =
          91 :: 10 :: (lines k ((item :: more).map (renderJson .plain (k + 1))) ++
            10 :: (indent k ++ [93])) := by
        rw [List.map_cons, ← block_cons, ← List.map_cons, ← renderItems_eq]
        rfl
      obtain ⟨b, tail, hhead, hblank, hb⟩ := renderJson_head (k + 1) item
      rw [hrender] at hfuel ⊢
      simp only [List.length_cons, List.length_append] at hfuel
      have hitems := readItems_lines (List.cons_ne_nil item more) hread fuel []
        [10] rest blank_newline (by omega)
      have hopen := closesAtOnce_lines ']'.toUInt8 hhead hblank hb k
        (more.map (renderJson .plain (k + 1))) (10 :: (indent k ++ 93 :: rest))
      simp only [List.cons_append, List.append_assoc, List.nil_append] at hitems ⊢
      rw [readValue, skipBlanks_blank_cons hws (by decide)]
      dsimp only
      rw [if_neg (by decide), if_neg (by decide), if_neg (by decide), if_neg (by decide),
        if_pos (by decide), List.map_cons, hopen]
      dsimp only
      rw [← List.map_cons, hitems, json, jsonItems_eq]
      rfl

/-- A record is read back one level deeper than its values. -/
theorem ReadsBack.object {depth k : Nat} {fields : List (Bytes × Node)}
    (hread : ∀ f ∈ fields, ReadsBack depth (k + 1) f.2) :
    ReadsBack (depth + 1) k (.object fields) := by
  intro fuel ws rest hws hfuel hrest
  cases fuel with
  | zero =>
    obtain ⟨b, tail, heq, -⟩ := renderJson_head k (.object fields)
    simp [heq] at hfuel
  | succ fuel =>
    cases fields with
    | nil =>
      have hrender : (Node.object []).renderJson .plain k = [123, 125] := rfl
      rw [hrender, readValue, List.cons_append, skipBlanks_blank_cons hws (by decide)]
      rfl
    | cons f more =>
      have hrender : (Node.object (f :: more)).renderJson .plain k =
          123 :: 10 :: (lines k ((f :: more).map (fieldLine (k + 1))) ++
            10 :: (indent k ++ [125])) := by
        rw [List.map_cons, ← block_cons, ← List.map_cons, ← fieldLines_eq]
        rfl
      have hhead : ∃ tail, fieldLine (k + 1) f = 34 :: tail := ⟨_, rfl⟩
      obtain ⟨tail, hhead⟩ := hhead
      rw [hrender] at hfuel ⊢
      simp only [List.length_cons, List.length_append] at hfuel
      have hfields := readFields_lines (List.cons_ne_nil f more) hread fuel []
        [10] rest blank_newline (by omega)
      have hopen := closesAtOnce_lines 0x7D hhead (by decide) (by decide) k
        (more.map (fieldLine (k + 1))) (10 :: (indent k ++ 125 :: rest))
      simp only [List.cons_append, List.append_assoc, List.nil_append] at hfields ⊢
      rw [readValue, skipBlanks_blank_cons hws (by decide)]
      dsimp only
      rw [if_neg (by decide), if_neg (by decide), if_neg (by decide), if_neg (by decide),
        if_neg (by decide), if_pos (by decide), List.map_cons, hopen]
      dsimp only
      rw [← List.map_cons, hfields, json, jsonFields_eq]
      rfl

/-- Every tree that is not nested too deep is read back. -/
theorem readsBack_of_bounded {B : Bounds} {depth : Nat} {node : Node} (h : node.Bounded B depth)
    (k : Nat) :
    ReadsBack depth k node := by
  induction h generalizing k with
  | @number _ n _ =>
    intro fuel ws rest hws hfuel hrest
    obtain ⟨b, tail, hdecimal, hb⟩ := decimal_head n
    have hother : ∀ c : UInt8, ¬ (c = '-'.toUInt8 ∨ isDigit c = true) → b ≠ c := by
      rintro c hc rfl
      exact hc hb
    have hnumber := readNumber_decimal n hrest
    have hrender : (Node.number n).renderJson .plain k = b :: tail := hdecimal
    rw [hrender] at hfuel ⊢
    rw [hdecimal, List.cons_append] at hnumber
    cases fuel with
    | zero => simp at hfuel
    | succ fuel =>
      rw [readValue, List.cons_append, skipBlanks_blank_cons hws (isBlank_of_number hb)]
      dsimp only
      rw [if_neg (hother _ (by decide)), if_neg (hother _ (by decide)),
        if_neg (hother _ (by decide)), if_neg (hother _ (by decide)),
        if_neg (hother _ (by decide)), if_neg (hother _ (by decide)),
        if_pos (by simpa using hb), hnumber]
      rfl
  | @text _ t _ =>
    intro fuel ws rest hws hfuel hrest
    obtain ⟨body, hquote, htext⟩ := readText_quote .plain t rest
    have hrender : (Node.text t).renderJson .plain k = 34 :: body := hquote
    rw [hrender] at hfuel ⊢
    cases fuel with
    | zero => simp at hfuel
    | succ fuel =>
      rw [readValue, List.cons_append, skipBlanks_blank_cons hws (by decide)]
      dsimp only
      rw [if_pos (by decide), htext]
      rfl
  | list _ _ ih => exact ReadsBack.list fun item hitem => ih item hitem (k + 1)
  | object _ _ _ ih => exact ReadsBack.object fun f hf => ih f hf (k + 1)

/-- The text of a tree, with the end of line after it, is read as the tree. -/
theorem parse_renderJson {B : Bounds} {node : Node} (h : node.Bounded B maxDepth) :
    parse (node.renderJson .plain 0 ++ [10]) = .ok node.json := by
  have hread :=
    readsBack_of_bounded h 0 (2 * (node.renderJson .plain 0 ++ [10]).length + 1) [] [10] nofun
    (by simp only [List.length_append]; omega) (endsNumber_newline [])
  unfold parse
  rw [List.nil_append] at hread
  rw [hread]
  rfl

end Values

end JsonValue

end ClassTrace
