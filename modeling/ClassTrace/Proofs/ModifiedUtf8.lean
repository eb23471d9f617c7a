import ClassTrace.Text.Utf16

/-!
The text encoding of class files, read as UTF-8. Class files write every code unit by itself: zero
takes two bytes, and each half of a surrogate pair takes three. Neither is a well-formed sequence
of UTF-8, so a reader of UTF-8 sees a replacement character for each of these bytes; all other
code units it gets back.
-/
namespace ClassTrace.Utf16

def continuation (n : Nat) : UInt8 := (0x80 + n % 64).toUInt8

def encodeUnit (u : UInt16) : Bytes :=
  let n := u.toNat
  if n ≠ 0 ∧ n < 0x80 then [n.toUInt8]
  else if n < 0x800 then [(0xC0 + n / 64).toUInt8, continuation n]
  else [(0xE0 + n / 4096).toUInt8, continuation (n / 64), continuation n]

def encode (us : List UInt16) : Bytes := us.flatMap encodeUnit

def isSurrogate (u : UInt16) : Bool := 0xD800 ≤ u && u < 0xE000

/-- The code units that a reader of UTF-8 gets for one. -/
def received (u : UInt16) : List UInt16 :=
  if u = 0 then [0xFFFD, 0xFFFD]
  else if isSurrogate u then [0xFFFD, 0xFFFD, 0xFFFD]
  else [u]

def readBack (us : List UInt16) : List UInt16 := us.flatMap received

/-- The text has neither zeros nor surrogates. -/
def Plain (us : List UInt16) : Prop := ∀ u ∈ us, u ≠ 0 ∧ isSurrogate u = false

section Reading

open Utf8

/-- The code units of a text of which the first `skip` bytes have been read. -/
def unitsFrom (skip : Nat) (text : Bytes) : List UInt16 :=
  ((piecesFrom skip text).map fun p => match p with
    | .char c => c
    | .stray _ => replacement).flatMap ofChar

/-- A character is read as its code units. -/
theorem units_char {a : UInt8} {rest : Bytes} {c : Char} {extra : Nat}
    (h : sequence? a rest = some (c, extra)) :
    units (a :: rest) = ofChar c ++ unitsFrom extra rest := by
  simp only [units, scalars, pieces, piecesFrom, h, List.map_cons, List.flatMap_cons]
  rfl

/-- A byte that starts no character is read as a replacement. -/
theorem units_stray {a : UInt8} {rest : Bytes} (h : sequence? a rest = none) :
    units (a :: rest) = 0xFFFD :: units rest := by
  simp only [units, scalars, pieces, piecesFrom, h, List.map_cons, List.flatMap_cons]
  rfl

theorem two?_eq_none {a b : UInt8} (h : a < 0xC0 ∨ 0xE0 ≤ a) : two? a b = none := by
  unfold two?
  rw [if_neg]
  simp only [UInt8.le_iff_toNat_le, UInt8.lt_iff_toNat_lt, Bool.and_eq_true,
    decide_eq_true_eq] at h ⊢
  omega

theorem three?_eq_none {a b c : UInt8} (h : a < 0xE0) : three? a b c = none := by
  unfold three?
  rw [if_neg]
  simp only [UInt8.le_iff_toNat_le, UInt8.lt_iff_toNat_lt, Bool.and_eq_true,
    decide_eq_true_eq] at h ⊢
  omega

theorem four?_eq_none {a b c d : UInt8} (h : a < 0xF0) : four? a b c d = none := by
  unfold four?
  rw [if_neg]
  simp only [UInt8.le_iff_toNat_le, UInt8.lt_iff_toNat_lt, Bool.and_eq_true,
    decide_eq_true_eq] at h ⊢
  omega

theorem sequence?_two {a b : UInt8} {rest : Bytes} (hlow : 0x80 ≤ a) (hhigh : a < 0xE0) :
    sequence? a (b :: rest) = (two? a b).map (·, 1) := by
  have hfour : a < 0xF0 := UInt8.lt_trans hhigh (by decide)
  unfold sequence?
  rw [if_neg (UInt8.not_lt.mpr hlow)]
  rcases rest with - | ⟨c, - | ⟨d, rest⟩⟩ <;> simp [three?_eq_none hhigh, four?_eq_none hfour]

theorem sequence?_three {a b c : UInt8} {rest : Bytes} (hlow : 0xE0 ≤ a) (hhigh : a < 0xF0) :
    sequence? a (b :: c :: rest) = (three? a b c).map (·, 2) := by
  have hascii : 0x80 ≤ a := UInt8.le_trans (by decide) hlow
  unfold sequence?
  rw [if_neg (UInt8.not_lt.mpr hascii)]
  rcases rest with - | ⟨d, rest⟩ <;> simp [two?_eq_none (.inr hlow), four?_eq_none hhigh]

/-- No sequence starts with a continuation byte. -/
theorem sequence?_continuation {b : UInt8} {rest : Bytes} (hlow : 0x80 ≤ b) (hhigh : b < 0xC0) :
    sequence? b rest = none := by
  cases rest with
  | nil =>
    unfold sequence?
    rw [if_neg (UInt8.not_lt.mpr hlow)]
  | cons c rest =>
    have hthree : b < 0xE0 := UInt8.lt_trans hhigh (by decide)
    rw [sequence?_two hlow hthree, two?_eq_none (.inl hhigh)]
    rfl

theorem toNat_byte {n : Nat} (h : n < 256) : n.toUInt8.toNat = n := UInt8.toNat_ofNat_of_lt h

theorem toNat_continuation (n : Nat) : (continuation n).toNat = 0x80 + n % 64 :=
  toNat_byte (by omega)

theorem continuation_bounds (n : Nat) : 0x80 ≤ continuation n ∧ continuation n < 0xC0 := by
  rw [UInt8.le_iff_toNat_le, UInt8.lt_iff_toNat_lt, toNat_continuation]
  simp only [UInt8.reduceToNat]
  omega

theorem isContinuation_continuation (n : Nat) : isContinuation (continuation n) = true := by
  obtain ⟨hlow, hhigh⟩ := continuation_bounds n
  simp [isContinuation, hlow, hhigh]

theorem payload_continuation (n : Nat) : payload (continuation n) = n % 64 := by
  unfold payload
  rw [toNat_continuation]
  omega

/-- Two bytes are read back as the number that they encode, if that takes two. -/
theorem two?_encode {n : Nat} (h : n < 0x800) :
    two? (0xC0 + n / 64).toUInt8 (continuation n) = scalar? 0x80 n := by
  have hlead := toNat_byte (n := 0xC0 + n / 64) (by omega)
  have hvalue : ((0xC0 + n / 64).toUInt8.toNat - 0xC0) * 64 + payload (continuation n) = n := by
    rw [hlead, payload_continuation]
    omega
  unfold two?
  rw [if_pos, hvalue]
  simp only [UInt8.le_iff_toNat_le, UInt8.lt_iff_toNat_lt, hlead, isContinuation_continuation,
    UInt8.reduceToNat, Bool.and_eq_true, decide_eq_true_eq, and_true]
  omega

theorem three?_encode {n : Nat} (h : n < 0x10000) :
    three? (0xE0 + n / 4096).toUInt8 (continuation (n / 64)) (continuation n) =
      scalar? 0x800 n := by
  have hlead := toNat_byte (n := 0xE0 + n / 4096) (by omega)
  have hvalue :
      ((0xE0 + n / 4096).toUInt8.toNat - 0xE0) * 4096 + payload (continuation (n / 64)) * 64 +
      payload (continuation n) = n := by
    rw [hlead, payload_continuation, payload_continuation]
    omega
  unfold three?
  rw [if_pos, hvalue]
  simp only [UInt8.le_iff_toNat_le, UInt8.lt_iff_toNat_lt, hlead, isContinuation_continuation,
    UInt8.reduceToNat, Bool.and_eq_true, decide_eq_true_eq, and_true]
  omega

theorem sequence?_ascii {n : Nat} (h : n < 0x80) (rest : Bytes) :
    sequence? n.toUInt8 rest = some (Char.ofNat n, 0) := by
  have hbyte := toNat_byte (n := n) (by omega)
  have hlt : n.toUInt8 < 0x80 := by
    rw [UInt8.lt_iff_toNat_lt, hbyte]
    exact h
  unfold sequence?
  rw [if_pos hlt, hbyte]

theorem sequence?_encodeTwo {n : Nat} (h : n < 0x800) (rest : Bytes) :
    sequence? (0xC0 + n / 64).toUInt8 (continuation n :: rest) = (scalar? 0x80 n).map (·, 1) := by
  have hlead := toNat_byte (n := 0xC0 + n / 64) (by omega)
  have hlow : 0x80 ≤ (0xC0 + n / 64).toUInt8 := by
    simp only [UInt8.le_iff_toNat_le, hlead, UInt8.reduceToNat]
    omega
  have hhigh : (0xC0 + n / 64).toUInt8 < 0xE0 := by
    simp only [UInt8.lt_iff_toNat_lt, hlead, UInt8.reduceToNat]
    omega
  rw [sequence?_two hlow hhigh, two?_encode h]

theorem sequence?_encodeThree {n : Nat} (h : n < 0x10000) (rest : Bytes) :
    sequence? (0xE0 + n / 4096).toUInt8 (continuation (n / 64) :: continuation n :: rest) =
      (scalar? 0x800 n).map (·, 2) := by
  have hlead := toNat_byte (n := 0xE0 + n / 4096) (by omega)
  have hlow : 0xE0 ≤ (0xE0 + n / 4096).toUInt8 := by
    simp only [UInt8.le_iff_toNat_le, hlead, UInt8.reduceToNat]
    omega
  have hhigh : (0xE0 + n / 4096).toUInt8 < 0xF0 := by
    simp only [UInt8.lt_iff_toNat_lt, hlead, UInt8.reduceToNat]
    omega
  rw [sequence?_three hlow hhigh, three?_encode h]

theorem units_continuation (n : Nat) (rest : Bytes) :
    units (continuation n :: rest) = 0xFFFD :: units rest := by
  obtain ⟨hlow, hhigh⟩ := continuation_bounds n
  exact units_stray (sequence?_continuation hlow hhigh)

/-- A code unit that is no surrogate is a character. -/
theorem isValidChar_of_not_surrogate {u : UInt16} (h : isSurrogate u = false) :
    u.toNat.isValidChar := by
  have hmax := u.toNat_lt
  simp only [isSurrogate, Bool.and_eq_false_iff, decide_eq_false_iff_not, UInt16.le_iff_toNat_le,
    UInt16.lt_iff_toNat_lt, UInt16.reduceToNat] at h
  unfold Nat.isValidChar
  omega

theorem not_isValidChar_of_surrogate {u : UInt16} (h : isSurrogate u = true) :
    ¬ u.toNat.isValidChar := by
  simp only [isSurrogate, Bool.and_eq_true, decide_eq_true_eq, UInt16.le_iff_toNat_le,
    UInt16.lt_iff_toNat_lt, UInt16.reduceToNat] at h
  unfold Nat.isValidChar
  omega

theorem ofChar_unit {u : UInt16} (h : u.toNat.isValidChar) :
    ofChar (Char.ofNat u.toNat) = [u] := by
  have hn : (Char.ofNat u.toNat).toNat = u.toNat := by
    unfold Char.ofNat
    rw [dif_pos h]
    rfl
  unfold ofChar
  dsimp only
  rw [hn, if_pos u.toNat_lt]
  exact congrArg (fun v => [v]) (UInt16.ofNat_toNat)

/-- A character is read back from its bytes. -/
theorem units_encodeUnit_plain {u : UInt16} (hzero : u ≠ 0) (hplain : isSurrogate u = false)
    (rest : Bytes) : units (encodeUnit u ++ rest) = u :: units rest := by
  have hvalid := isValidChar_of_not_surrogate hplain
  have hne : u.toNat ≠ 0 := fun h => hzero (UInt16.toNat_inj.mp h)
  unfold encodeUnit
  dsimp only
  split
  · rename_i hascii
    have hsequence := sequence?_ascii hascii.2 rest
    rw [List.singleton_append, units_char hsequence, ofChar_unit hvalid]
    rfl
  · rename_i hascii
    split
    · rename_i htwo
      have hsequence := sequence?_encodeTwo htwo rest
      rw [scalar?, if_pos ⟨by omega, hvalid⟩] at hsequence
      rw [List.cons_append, List.singleton_append, units_char hsequence, ofChar_unit hvalid]
      rfl
    · rename_i htwo
      have hsequence := sequence?_encodeThree u.toNat_lt rest
      rw [scalar?, if_pos ⟨by omega, hvalid⟩] at hsequence
      rw [List.cons_append, List.cons_append, List.singleton_append, units_char hsequence,
        ofChar_unit hvalid]
      rfl

/-- No byte of a surrogate belongs to a character. -/
theorem units_encodeUnit_surrogate {u : UInt16} (h : isSurrogate u = true) (rest : Bytes) :
    units (encodeUnit u ++ rest) = 0xFFFD :: 0xFFFD :: 0xFFFD :: units rest := by
  have hsequence := sequence?_encodeThree u.toNat_lt rest
  rw [scalar?, if_neg fun hvalid => not_isValidChar_of_surrogate h hvalid.2] at hsequence
  simp only [isSurrogate, Bool.and_eq_true, decide_eq_true_eq, UInt16.le_iff_toNat_le,
    UInt16.reduceToNat] at h
  unfold encodeUnit
  dsimp only
  rw [if_neg (by omega), if_neg (by omega)]
  rw [List.cons_append, List.cons_append, List.singleton_append, units_stray hsequence,
    units_continuation, units_continuation]

/-- What is read of an encoded unit is what a reader of UTF-8 gets for it. -/
theorem units_encodeUnit (u : UInt16) (rest : Bytes) :
    units (encodeUnit u ++ rest) = received u ++ units rest := by
  unfold received
  split
  · rename_i hzero
    subst hzero
    have hsequence : sequence? 0xC0 (continuation 0 :: rest) = none :=
      sequence?_encodeTwo (n := 0) (by omega) rest
    show units (0xC0 :: continuation 0 :: rest) = _
    rw [units_stray hsequence, units_continuation]
    rfl
  · rename_i hzero
    split
    · rename_i hsurrogate
      exact units_encodeUnit_surrogate hsurrogate rest
    · rename_i hplain
      exact units_encodeUnit_plain hzero (by simpa using hplain) rest

/-- So it is for texts. -/
theorem units_encode (us : List UInt16) : units (encode us) = readBack us := by
  induction us with
  | nil => rfl
  | cons u us ih =>
    unfold encode readBack at ih ⊢
    rw [List.flatMap_cons, List.flatMap_cons, units_encodeUnit, ih]

end Reading

/-- Each zero is read as one code unit too many, and each surrogate as two. -/
theorem length_readBack (us : List UInt16) :
    (readBack us).length = us.length + us.count 0 + 2 * us.countP isSurrogate := by
  induction us with
  | nil => rfl
  | cons u us ih =>
    unfold readBack at ih ⊢
    rw [List.flatMap_cons, List.length_append, ih, List.length_cons, List.count_cons,
      List.countP_cons]
    unfold received
    by_cases hzero : u = 0
    · subst hzero
      simp [isSurrogate]
      omega
    · cases hsurrogate : isSurrogate u with
      | true =>
        simp [hzero]
        omega
      | false =>
        simp [hzero]
        omega

/-- A text keeps its length exactly if it is plain. -/
theorem length_readBack_eq_iff (us : List UInt16) :
    (readBack us).length = us.length ↔ Plain us := by
  have hcounts :
      (readBack us).length = us.length ↔ us.count 0 = 0 ∧ us.countP isSurrogate = 0 := by
    rw [length_readBack]
    omega
  rw [hcounts, List.count_eq_zero, List.countP_eq_zero]
  constructor
  · rintro ⟨hzero, hplain⟩ u hu
    exact ⟨fun h => hzero (h ▸ hu), by simpa using hplain u hu⟩
  · intro h
    exact ⟨fun hmem => (h 0 hmem).1 rfl, fun u hu => by simp [(h u hu).2]⟩

/-- A plain text comes back as it was. -/
theorem readBack_of_plain {us : List UInt16} (h : Plain us) : readBack us = us := by
  induction us with
  | nil => rfl
  | cons u us ih =>
    obtain ⟨⟨hzero, hplain⟩, hrest⟩ := List.forall_mem_cons.mp h
    have hu : received u = [u] := by simp [received, hzero, hplain]
    unfold readBack at ih ⊢
    rw [List.flatMap_cons, ih hrest, hu, List.singleton_append]

/-- There are no more code units than bytes. -/
theorem length_readBack_le (us : List UInt16) : (readBack us).length ≤ (encode us).length := by
  have hunit : ∀ u, (received u).length ≤ (encodeUnit u).length := by
    intro u
    unfold received encodeUnit isSurrogate
    simp only [Bool.and_eq_true, decide_eq_true_eq, UInt16.le_iff_toNat_le, UInt16.reduceToNat]
    split
    · rename_i hzero
      subst hzero
      decide
    · split
      · rename_i hsurrogate
        rw [if_neg (by omega), if_neg (by omega)]
        exact Nat.le_refl 3
      · split
        · exact Nat.le_refl 1
        · split <;> simp
  unfold readBack encode
  induction us with
  | nil => exact Nat.le_refl 0
  | cons u us ih =>
    have hu := hunit u
    simp only [List.flatMap_cons, List.length_append]
    omega

end ClassTrace.Utf16
