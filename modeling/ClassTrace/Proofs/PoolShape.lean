import ClassTrace.Proofs.Truncation
import Mathlib.Data.List.Chain

/-!
The shape of a pool that was read. As long as the numbers of slots do not wrap around, slot 0 and
the second slots of long and double constants are empty and all others are filled. A long or
double constant in slot 65534 makes them wrap: reading then goes on with slot 0.
-/
namespace ClassTrace

open Layout StreamReader

section Slots

variable {count index : UInt16} {constants : List Layout.Constant} {pool : Pool}

theorem size_place (index : UInt16) (pool : Pool) (constants : List Layout.Constant) :
    (place index pool constants).size = pool.size := by
  induction constants generalizing index pool with
  | nil => rfl
  | cons c constants ih => rw [place, ih, Array.size_setIfInBounds]

/-- Slots are filled and never emptied. -/
theorem place_filled {i : Nat} (h : ∃ e, pool[i]? = some (some e)) (index : UInt16)
    (constants : List Layout.Constant) :
    ∃ e, (place index pool constants)[i]? = some (some e) := by
  induction constants generalizing index pool with
  | nil => exact h
  | cons c constants ih =>
    apply ih
    obtain ⟨e, he⟩ := h
    rw [Array.getElem?_setIfInBounds]
    by_cases hi : index.toNat = i
    · have hlt : index.toNat < pool.size := hi ▸ (Array.getElem?_eq_some_iff.mp he).1
      rw [if_pos hi, if_pos hlt]
      exact ⟨c.entry, rfl⟩
    · rw [if_neg hi]
      exact ⟨e, he⟩

/-- The number of the next slot, unless it wraps around. -/
theorem toNat_add_width {c : Layout.Constant} (h : index.toNat + c.slots.length < 65536) :
    (index + c.width).toNat = index.toNat + c.slots.length := by
  rw [UInt16.toNat_add, c.toNat_width]
  exact Nat.mod_eq_of_lt h

/-- Numbers that wrap around lead to slot 0. -/
theorem Fills.wraps (h : Fills count index constants) (hsize : pool.size = count.toNat)
    (hwrap : 65536 ≤ index.toNat + (constants.flatMap Constant.slots).length) :
    ∃ e, (place index pool constants)[0]? = some (some e) := by
  induction h generalizing pool with
  | done hend =>
    rename_i index
    have hlt := index.toNat_lt
    simp only [List.flatMap_nil, List.length_nil] at hwrap
    omega
  | more hmore htext hrest ih =>
    rename_i index c constants
    rw [List.flatMap_cons, List.length_append] at hwrap
    have hlength := c.length_slots
    rw [place]
    by_cases hnext : index.toNat + c.slots.length < 65536
    · refine ih ?_ ?_
      · rw [Array.size_setIfInBounds, hsize]
      · rw [toNat_add_width hnext]
        omega
    · -- The constant takes the last two slots that can be numbered: the next one goes to slot 0.
      have hlast : index.toNat < count.toNat := by
        rw [UInt16.le_iff_toNat_le] at hmore
        omega
      have hcount := count.toNat_lt
      have hzero : index + c.width = 0 := by
        apply UInt16.toNat_inj.mp
        rw [UInt16.toNat_add, c.toNat_width]
        change _ % 65536 = 0
        split at hlength <;> omega
      rw [hzero] at hrest ⊢
      cases hrest with
      | done hend =>
        rw [UInt16.le_iff_toNat_le] at hend
        change count.toNat ≤ 0 at hend
        omega
      | more _ _ _ =>
        rw [place]
        apply place_filled
        have hslot :
            (0 : UInt16).toNat < (pool.setIfInBounds index.toNat (some c.entry)).size := by
          rw [Array.size_setIfInBounds, hsize]
          exact Nat.lt_of_le_of_lt (Nat.zero_le _) hlast
        rw [Array.getElem?_setIfInBounds, if_pos (by rfl), if_pos hslot]
        exact ⟨_, rfl⟩

/-- As long as the slots can be counted, the constants reach the end of the pool. -/
theorem Fills.covers (h : Fills count index constants)
    (hfit : index.toNat + (constants.flatMap Constant.slots).length < 65536) :
    count.toNat ≤ index.toNat + (constants.flatMap Constant.slots).length := by
  induction h with
  | done hend => exact Nat.le_add_right_of_le (UInt16.le_iff_toNat_le.mp hend)
  | more hmore htext hrest ih =>
    rename_i index c constants
    rw [List.flatMap_cons, List.length_append] at hfit ⊢
    have hnext : (index + c.width).toNat = index.toNat + c.slots.length :=
      toNat_add_width (by omega)
    have hrest := ih (by omega)
    omega

/-- Of the slots that the constants take, one may be behind the last slot of the pool, and that
one is empty. -/
theorem Fills.beyond (h : Fills count index constants)
    (hfit : index.toNat + (constants.flatMap Constant.slots).length < 65536)
    (hle : index.toNat ≤ count.toNat) :
    ∀ slot ∈ (constants.flatMap Constant.slots).drop (count.toNat - index.toNat),
      slot = none := by
  induction h with
  | done hend => simp
  | more hmore htext hrest ih =>
    rename_i index c constants
    rw [List.flatMap_cons, List.length_append] at hfit
    have hnext : (index + c.width).toNat = index.toNat + c.slots.length :=
      toNat_add_width (by omega)
    rw [List.flatMap_cons]
    by_cases hinside : (index + c.width).toNat ≤ count.toNat
    · have hdrop : count.toNat - index.toNat =
          c.slots.length + (count.toNat - (index + c.width).toNat) := by omega
      rw [hdrop, List.drop_length_add_append]
      exact ih (by omega) hinside
    · -- The second slot of the last constant does not exist.
      have hslot : index.toNat < count.toNat := by
        rw [UInt16.le_iff_toNat_le] at hmore
        omega
      cases hrest with
      | more hmore' _ _ =>
        rw [UInt16.le_iff_toNat_le] at hmore'
        omega
      | done hend =>
        intro slot hmem
        obtain ⟨n, hn⟩ : ∃ n, count.toNat - index.toNat = n + 1 :=
          ⟨count.toNat - index.toNat - 1, by omega⟩
        rw [List.flatMap_nil, List.append_nil, c.slots_eq, hn, List.drop_succ_cons] at hmem
        exact List.eq_of_mem_replicate (List.mem_of_mem_drop hmem)

/-- What stands at a position of the list, if that is a constant at all. -/
theorem join_append_slots (done : List (Option PoolEntry)) (c : Layout.Constant) (i : Nat) :
    (done ++ c.slots)[i]?.join = if done.length = i then some c.entry else done[i]?.join := by
  rcases Nat.lt_trichotomy i done.length with hlt | rfl | hgt
  · rw [if_neg (by omega), List.getElem?_append_left hlt]
  · rw [if_pos rfl, c.slots_eq]
    simp
  · obtain ⟨n, rfl⟩ : ∃ n, i = done.length + (n + 1) := ⟨i - done.length - 1, by omega⟩
    have hold : done[done.length + (n + 1)]? = none := List.getElem?_eq_none (by omega)
    rw [if_neg (by omega), hold, List.getElem?_append_right (by omega), Nat.add_sub_cancel_left,
      c.slots_eq, List.getElem?_cons_succ, List.getElem?_replicate]
    by_cases hn : n < if c.entry.isWide then 1 else 0
    · rw [if_pos hn]
      rfl
    · rw [if_neg hn]

/-- Without a wrap the pool has its constants where the file has them. -/
theorem Fills.place_eq (h : Fills count index constants) (done : List (Option PoolEntry))
    (hindex : index.toNat = done.length)
    (hfit : index.toNat + (constants.flatMap Constant.slots).length < 65536)
    (hsize : pool.size = count.toNat)
    (hpool : ∀ i < count.toNat, pool[i]? = some done[i]?.join) {i : Nat} (hi : i < count.toNat) :
    (place index pool constants)[i]? =
      some (done ++ constants.flatMap Constant.slots)[i]?.join := by
  induction h generalizing pool done with
  | done hend => rw [place, hpool i hi, List.flatMap_nil, List.append_nil]
  | more hmore htext hrest ih =>
    rename_i index c constants
    rw [List.flatMap_cons, List.length_append] at hfit
    have hnext : (index + c.width).toNat = index.toNat + c.slots.length :=
      toNat_add_width (by omega)
    rw [place, List.flatMap_cons, ← List.append_assoc]
    refine ih _ ?_ (by omega) (by rw [Array.size_setIfInBounds, hsize]) fun j hj => ?_
    · rw [hnext, hindex, List.length_append]
    · rw [Array.getElem?_setIfInBounds, hpool j hj, join_append_slots, hindex]
      by_cases heq : done.length = j
      · rw [if_pos heq, if_pos heq, if_pos (by omega)]
      · rw [if_neg heq, if_neg heq]

def HoldsWide (slot : Option PoolEntry) : Prop := ∃ e, slot = some e ∧ e.isWide

/-- A slot is empty if and only if the one before it holds a constant that takes two. -/
theorem isChain_slots (constants : List Layout.Constant) (slot : Option PoolEntry)
    (h : ¬ HoldsWide slot) :
    List.IsChain (fun a b => b = none ↔ HoldsWide a)
      (slot :: constants.flatMap Constant.slots) := by
  induction constants generalizing slot with
  | nil => exact .singleton _
  | cons c constants ih =>
    have hfirst : some c.entry = none ↔ HoldsWide slot := iff_of_false nofun h
    rw [List.flatMap_cons, c.slots_eq]
    by_cases hwide : c.entry.isWide
    · rw [if_pos hwide]
      have hsecond : (none : Option PoolEntry) = none ↔ HoldsWide (some c.entry) :=
        iff_of_true rfl ⟨c.entry, rfl, hwide⟩
      exact .cons_cons hfirst (.cons_cons hsecond (ih none nofun))
    · rw [if_neg hwide]
      refine .cons_cons hfirst (ih _ ?_)
      rintro ⟨e, he, hwide'⟩
      cases he
      exact hwide hwide'

theorem filterMap_slots (constants : List Layout.Constant) :
    (constants.flatMap Constant.slots).filterMap id = constants.map Constant.entry := by
  induction constants with
  | nil => rfl
  | cons c constants ih =>
    rw [List.flatMap_cons, List.filterMap_append, ih, c.slots_eq]
    simp

/-- Empty texts take the slots from `index` up to `next`. -/
theorem Fills.texts (n : Nat) (next : UInt16)
    (hnext : next.toNat = index.toNat + n) (hle : next.toNat ≤ count.toNat)
    (h : Fills count next constants) :
    Fills count index (List.replicate n (.utf8 []) ++ constants) := by
  induction n generalizing index with
  | zero =>
    have heq : index = next := UInt16.toNat_inj.mp hnext.symm
    rwa [heq]
  | succ n ih =>
    have hstep : (index + (Layout.Constant.utf8 []).width).toNat = index.toNat + 1 := by
      have hlt := count.toNat_lt
      exact toNat_add_width (by change _ + 1 < 65536; omega)
    rw [List.replicate_succ, List.cons_append]
    refine .more ?_ (by decide) (ih (by omega))
    rw [UInt16.le_iff_toNat_le]
    omega

theorem length_slots_texts (n : Nat) :
    ((List.replicate n (Layout.Constant.utf8 [])).flatMap Constant.slots).length = n := by
  induction n with
  | zero => rfl
  | succ n ih =>
    rw [List.replicate_succ, List.flatMap_cons, List.length_append, ih]
    exact Nat.add_comm 1 n

theorem length_slots_long (n : Nat) (rest : List Layout.Constant) :
    n + 2 ≤ ((List.replicate n (Layout.Constant.utf8 []) ++ .long 0 :: rest).flatMap
      Constant.slots).length := by
  have hlong : (Layout.Constant.long 0).slots.length = 2 := rfl
  rw [List.flatMap_append, List.length_append, List.flatMap_cons, List.length_append,
    length_slots_texts, hlong]
  omega

end Slots

/-- The pool has the numbering of the format: slot 0 and the slots behind long and double
constants are empty, and the other slots hold the constants, one each. -/
structure Numbered (pool : Pool) (constants : List Layout.Constant) : Prop where
  first : 0 < pool.size → pool[0]? = some none
  next : ∀ i, i + 1 < pool.size →
    (pool[i + 1]? = some none ↔ ∃ e, pool[i]? = some (some e) ∧ e.isWide)
  filled : pool.toList.filterMap id = constants.map Constant.entry

/-- Without a wrap the pool is the beginning of the slots that its constants take. -/
theorem Fills.place_toArray {count : UInt16} {constants : List Layout.Constant}
    (h : Fills count 1 constants) (hfit : (constants.flatMap Constant.slots).length < 65535) :
    place 1 (Array.replicate count.toNat none) constants =
      ((none :: constants.flatMap Constant.slots).take count.toNat).toArray := by
  have hone : (1 : UInt16).toNat = 1 := rfl
  have hcovers := h.covers (by omega)
  apply Array.ext_getElem?
  intro i
  have hright : ((none :: constants.flatMap Constant.slots).take count.toNat).toArray[i]? =
      ((none :: constants.flatMap Constant.slots).take count.toNat)[i]? := List.getElem?_toArray
  rw [hright]
  by_cases hi : i < count.toNat
  · have hempty : ∀ j < count.toNat,
        (Array.replicate count.toNat (none : Option PoolEntry))[j]? = some [none][j]?.join := by
      intro j hj
      rw [Array.getElem?_replicate, if_pos hj]
      cases j <;> rfl
    have hlength : i < (none :: constants.flatMap Constant.slots).length := by
      rw [List.length_cons]
      omega
    rw [h.place_eq [none] rfl (by omega) Array.size_replicate hempty hi,
      List.getElem?_take_of_lt hi, List.singleton_append, List.getElem?_eq_getElem hlength]
    rfl
  · have hsize := size_place 1 (Array.replicate count.toNat none) constants
    rw [Array.size_replicate] at hsize
    rw [Array.getElem?_eq_none (by omega), List.getElem?_take_eq_none (by omega)]

theorem Fills.beyond_first {count : UInt16} {constants : List Layout.Constant}
    (h : Fills count 1 constants) (hfit : (constants.flatMap Constant.slots).length < 65535) :
    ∀ slot ∈ (none :: constants.flatMap Constant.slots).drop count.toNat, slot = none := by
  have hone : (1 : UInt16).toNat = 1 := rfl
  rcases hcount : count.toNat with _ | n
  · cases h with
    | done hend => simp
    | more hmore _ _ =>
      rw [UInt16.le_iff_toNat_le] at hmore
      omega
  · have hbeyond := h.beyond (by omega) (by omega)
    rwa [hcount, hone, Nat.add_sub_cancel] at hbeyond

/-- Then the pool has the numbering of the format. -/
theorem Fills.numbered {count : UInt16} {constants : List Layout.Constant}
    (h : Fills count 1 constants) (hfit : (constants.flatMap Constant.slots).length < 65535) :
    Numbered (place 1 (Array.replicate count.toNat none) constants) constants := by
  rw [h.place_toArray hfit]
  refine ⟨fun hsize => ?_, fun i hi => ?_, ?_⟩
  · rw [List.getElem?_toArray, List.getElem?_take]
    simp only [List.size_toArray, List.length_take] at hsize
    rw [if_pos (by omega)]
    rfl
  · have hchain := (isChain_slots constants none nofun).take count.toNat
    rw [List.size_toArray] at hi
    have hlink := List.isChain_iff_getElem.mp hchain i hi
    rw [List.getElem?_toArray, List.getElem?_toArray, List.getElem?_eq_getElem hi,
      List.getElem?_eq_getElem (by omega), Option.some_inj, hlink]
    simp only [HoldsWide, Option.some_inj]
  · have hsplit := congrArg (List.filterMap id) (List.take_append_drop count.toNat
      (none :: constants.flatMap Constant.slots))
    rw [List.filterMap_append] at hsplit
    have hnone :
        ((none :: constants.flatMap Constant.slots).drop count.toNat).filterMap id = [] :=
      List.filterMap_eq_nil_iff.mpr (h.beyond_first hfit)
    rw [hnone, List.append_nil] at hsplit
    rw [hsplit, List.filterMap_cons_none rfl, filterMap_slots]

namespace ClassFile

/-- The number of slots that bytes 8 and 9 of a class file declare for its pool. -/
def declaredCount (input : Bytes) : UInt16 := (Bytes.toNat ((input.drop 8).take 2)).toUInt16

/-- Eight bytes stand before the count, and the constants behind it. -/
theorem flatten_items (o : Outline) : ∃ (start tail : Bytes), start.length = 8 ∧
    o.items.flatten = start ++
      (word o.count ++ (o.constants.flatMap Constant.encode ++ tail)) := by
  refine ⟨Bytes.ofNat 4 0xCAFEBABE ++ (word o.minor ++ word o.major), o.closing.flatten, rfl, ?_⟩
  rw [Outline.items, List.flatten_append, List.flatten_append, Constant.flatten_flatMap_items]
  simp only [List.flatten_cons, List.flatten_nil, List.append_nil, List.append_assoc]

theorem declaredCount_append {start : Bytes} (hstart : start.length = 8) (count : UInt16)
    (rest : Bytes) :
    declaredCount (start ++ (word count ++ rest)) = count := by
  have hword : (word count).length = 2 := Bytes.length_ofNat 2 count.toNat
  rw [declaredCount, List.drop_left' hstart, List.take_left' hword, word,
    Bytes.toNat_ofNat count.toNat_lt]
  exact UInt16.ofNat_toNat

/-- The number of slots is one of 16 bits. -/
theorem size_pool_of_parse {input : Bytes} {file : ClassFile} (h : parse input = .ok file) :
    file.pool.size ≤ 65535 := by
  obtain ⟨rest, hread⟩ := read_of_parse h
  obtain ⟨o, -, hpool, -⟩ := read_took hread
  rw [← hpool, Outline.pool, size_place, Array.size_replicate]
  exact Nat.le_of_lt_succ o.count.toNat_lt

/-- The pool of a parsed class has as many slots as were declared, its constants stand one after
the other in the file, and it is numbered as the format has it unless the constants take 65535
slots or more. Then slot 0 is filled. -/
theorem pool_numbered (input : Bytes) (file : ClassFile) (h : parse input = .ok file) :
    ∃ (constants : List Layout.Constant) (tail : Bytes),
      input.drop 10 = constants.flatMap Constant.encode ++ tail ∧
      Pool.read (declaredCount input) (input.drop 10) = .ok (file.pool, tail) ∧
      file.pool.size = (declaredCount input).toNat ∧
      ((constants.flatMap Constant.slots).length < 65535 → Numbered file.pool constants) ∧
      (65535 ≤ (constants.flatMap Constant.slots).length →
        ∃ e, file.pool[0]? = some (some e)) := by
  obtain ⟨rest, hread⟩ := read_of_parse h
  obtain ⟨o, hdelimited, hpool, hsplit, -⟩ := read_took hread
  obtain ⟨start, tail, hstart, hitems⟩ := flatten_items o
  rw [hitems, List.append_assoc, List.append_assoc, List.append_assoc] at hsplit
  have hcount : declaredCount input = o.count := by
    rw [hsplit]
    exact declaredCount_append hstart _ _
  have htail : input.drop 10 = o.constants.flatMap Constant.encode ++ (tail ++ rest) := by
    have hten : (start ++ word o.count).length = 10 := by
      rw [List.length_append, hstart]
      rfl
    rw [hsplit, ← List.append_assoc, List.drop_left' hten]
  have hsize : file.pool.size = o.count.toNat := by
    rw [← hpool, Outline.pool, size_place, Array.size_replicate]
  refine ⟨o.constants, tail ++ rest, htail,
    ?_, by rw [hcount, hsize], fun hfit => ?_, fun hwrap => ?_⟩
  · rw [hcount, htail, ← hpool]
    exact Pool.readRest_parses hdelimited.constants 0 _
  · rw [← hpool]
    exact hdelimited.constants.numbered hfit
  · rw [← hpool]
    exact hdelimited.constants.wraps Array.size_replicate (by change 65536 ≤ 1 + _; omega)

def bare (count : UInt16) (constants : List Layout.Constant) : Bytes :=
  Bytes.ofNat 4 0xCAFEBABE ++ (word 0 ++ word 52) ++ word count ++
    constants.flatMap Constant.encode ++ List.replicate 14 0

def bareFile (count : UInt16) (constants : List Layout.Constant) : ClassFile :=
  ⟨0, 52, place 1 (Array.replicate count.toNat none) constants, 0, 0, 0, [], [], []⟩

/-- A class file of nothing but a pool is parsed. -/
theorem parse_bare {count : UInt16} {constants : List Layout.Constant}
    (h : Fills count 1 constants) :
    parse (bare count constants) = .ok (bareFile count constants) := by
  have hzeros : List.replicate 14 0 = word 0 ++ (word 0 ++ word 0 ++ List.replicate 8 0) := rfl
  have hreads : Parses view read (bare count constants) (bareFile count constants) := by
    simp only [bare, hzeros, List.append_assoc]
    refine (within_parses (u4_parses magic) _).bind ?_
    dsimp only
    rw [if_neg (not_not_intro rfl), ← List.append_assoc (word 0)]
    refine (within_parses (pair_parses 0 52) _).bind ?_
    refine ((u2_within _).word count).bind ?_
    refine (within_parses (Pool.readRest_parses h) _).bind ?_
    refine ((u2_within _).word 0).bind ?_
    rw [← List.append_assoc (word 0)]
    refine (within_parses (pair_parses 0 0) _).bind ?_
    -- What follows are four empty lists.
    exact fun _ _ => rfl
  have hread := hreads 0 []
  rw [List.append_nil] at hread
  exact parse_of_read hread

def overhanging : List Layout.Constant := [.long 1, .utf8 "T", .double 0]

/-- The second slot of the last constant is not in the pool, and the numbering is kept. -/
theorem pool_numbered_overhanging :
    parse (bare 5 overhanging) = .ok (bareFile 5 overhanging) ∧
      ∃ (constants : List Layout.Constant) (tail : Bytes),
        (bare 5 overhanging).drop 10 = constants.flatMap Constant.encode ++ tail ∧
        Numbered (bareFile 5 overhanging).pool constants := by
  have hfills : Fills 5 1 overhanging :=
    .more (by decide) (by decide) (.more (by decide) (by decide) (.more (by decide) (by decide)
      (.done (by decide))))
  have hparse := parse_bare hfills
  obtain ⟨constants, tail, htail, -, -, hnumbered, hwraps⟩ := pool_numbered _ _ hparse
  refine ⟨hparse, constants, tail, htail, hnumbered ?_⟩
  -- Slot 0 is empty, so the numbers cannot have wrapped around.
  have hzero : (bareFile 5 overhanging).pool[0]? = some none := rfl
  by_contra hlarge
  obtain ⟨e, he⟩ := hwraps (Nat.le_of_not_lt hlarge)
  rw [hzero] at he
  cases he

def wrapping : List Layout.Constant :=
  List.replicate 65533 (.utf8 []) ++ .long 0 :: .utf8 (List.replicate 32 0) ::
    List.replicate 65534 (.utf8 [])

theorem fills_wrapping : Fills 65535 1 wrapping := by
  have hrest : Fills 65535 1 (List.replicate 65534 (.utf8 []) ++ []) :=
    Fills.texts 65534 65535 rfl (Nat.le_refl _) (.done (UInt16.le_refl 65535))
  rw [List.append_nil] at hrest
  refine Fills.texts 65533 65534 rfl (by decide) ?_
  exact .more (by decide) (by decide) (.more (by decide) (by decide) hrest)

/-- A pool whose numbers wrap around has a constant in slot 0. -/
theorem bareFile_wraps {count : UInt16} {constants : List Layout.Constant}
    (h : Fills count 1 constants) (hlength : 65535 ≤ (constants.flatMap Constant.slots).length) :
    (∃ e, (bareFile count constants).pool[0]? = some (some e)) ∧
      ¬ Numbered (bareFile count constants).pool constants := by
  have hzero : ∃ e, (bareFile count constants).pool[0]? = some (some e) :=
    h.wraps Array.size_replicate (by change 65536 ≤ 1 + _; omega)
  refine ⟨hzero, fun hnumbered => ?_⟩
  obtain ⟨e, he⟩ := hzero
  have hfirst := hnumbered.first (Array.getElem?_eq_some_iff.mp he).1
  rw [hfirst] at he
  cases he

/-- In the largest pool a long constant may stand in the last slot. Then reading goes on at slot
0. -/
theorem wrapping_fills_slot_zero :
    parse (bare 65535 wrapping) = .ok (bareFile 65535 wrapping) ∧
      (∃ e, (bareFile 65535 wrapping).pool[0]? = some (some e)) ∧
      ¬ Numbered (bareFile 65535 wrapping).pool wrapping :=
  ⟨parse_bare fills_wrapping, bareFile_wraps fills_wrapping (length_slots_long 65533 _)⟩

end ClassFile

end ClassTrace
