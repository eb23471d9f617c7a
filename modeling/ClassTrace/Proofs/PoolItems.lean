import ClassTrace.Proofs.ParseInverse
import ClassTrace.Proofs.ReadItems

/-!
The constant pool as it is read. A constant is read in several pieces: its tag, and then its
payload at once or in two parts. Constants follow each other until the slots of the pool are used
up; slots are numbered with 16 bits. Whatever was read as a pool is a list of constants, each
placed into the slot behind those of the constant before it.
-/
namespace ClassTrace

open Layout StreamReader

namespace Layout.Constant

def parts (c : Constant) : List Bytes :=
  match c with
  | .utf8 text => [Bytes.ofNat 2 text.length, text]
  | .fieldRef a b | .methodRef a b | .interfaceMethodRef a b | .nameAndType a b =>
    [word a, word b]
  | c => [c.payload]

def items (c : Constant) : List Bytes := [c.tag] :: c.parts

theorem flatten_parts (c : Constant) : c.parts.flatten = c.payload := by
  cases c <;> simp [parts, payload]

theorem flatten_items (c : Constant) : c.items.flatten = c.encode := by
  rw [items, List.flatten_cons, c.flatten_parts]
  rfl

theorem flatten_flatMap_items (constants : List Constant) :
    (constants.flatMap items).flatten = constants.flatMap encode := by
  induction constants with
  | nil => rfl
  | cons c constants ih =>
    rw [List.flatMap_cons, List.flatMap_cons, List.flatten_append, ih, c.flatten_items]

def width (c : Constant) : UInt16 := if c.entry.isWide then 2 else 1

theorem toNat_width (c : Constant) : c.width.toNat = c.slots.length := by
  rw [width, c.length_slots]
  split <;> rfl

end Layout.Constant

/-- Two bytes are those of a word. -/
theorem exists_word {data : Bytes} (h : data.length = 2) : ∃ v, data = word v := by
  have hlt := Bytes.toNat_lt data
  rw [h] at hlt
  refine ⟨data.toNat.toUInt16, ?_⟩
  have hvalue : data.toNat.toUInt16.toNat = data.toNat := UInt16.toNat_ofNat_of_lt' hlt
  have hbytes := Bytes.ofNat_toNat data
  rw [h] at hbytes
  rw [word, hvalue, hbytes]

theorem exists_words {data : Bytes} (h : data.length = 4) : ∃ v w, data = word v ++ word w := by
  have hfirst : (data.take 2).length = 2 := by simp [h]
  have hsecond : (data.drop 2).length = 2 := by simp [h]
  obtain ⟨v, hv⟩ := exists_word hfirst
  obtain ⟨w, hw⟩ := exists_word hsecond
  exact ⟨v, w, by rw [← hv, ← hw, List.take_append_drop]⟩

/-- What is skipped over has the number of bytes that its constant has. -/
theorem skipped_took {n : Nat} {tag : UInt8} {entry : PoolEntry} {input rest : Bytes}
    (h : (bytes n >>= fun _ => pure (PoolEntry.skipped tag)) input = .ok (entry, rest)) :
    ∃ data : Bytes, data.length = n ∧ PoolEntry.skipped tag = entry ∧
      Took (bytes n >>= fun _ => pure (PoolEntry.skipped tag)) [data] entry input rest := by
  obtain ⟨data, middle, hdata, hpure⟩ := bind_eq_ok h
  cases hpure
  obtain ⟨hlength, htook⟩ := bytes_took hdata
  exact ⟨data, hlength, rfl, htook.map fun _ => PoolEntry.skipped tag⟩

theorem pair_map_took {make : UInt16 → UInt16 → PoolEntry} {entry : PoolEntry}
    {input rest : Bytes} (h : (pair >>= fun p => pure (make p.1 p.2)) input = .ok (entry, rest)) :
    ∃ a b, make a b = entry ∧
      Took (pair >>= fun p => pure (make p.1 p.2)) [word a, word b] entry input rest := by
  obtain ⟨p, middle, hp, hpure⟩ := bind_eq_ok h
  cases hpure
  exact ⟨p.1, p.2, rfl, (pair_took hp).map fun p => make p.1 p.2⟩

def knownTags : List UInt8 := [1, 3, 4, 5, 6, 7, 8, 9, 10, 11, 12, 15, 16, 17, 18]

theorem mem_knownTags {tag : UInt8} {n : Nat} (htag : tag.toNat = n)
    (hn : UInt8.ofNat n ∈ knownTags) :
    tag ∈ knownTags := by
  rwa [← htag, UInt8.ofNat_toNat] at hn

/-- A tag is one of a constant, or it is refused. -/
theorem PoolEntry.read_known (tag : UInt8) :
    tag ∈ knownTags ∨ PoolEntry.read tag = throw (.unknownTag tag) := by
  unfold PoolEntry.read
  split
  iterate 15 exact Or.inl (mem_knownTags ‹_› (by decide))
  exact Or.inr rfl

/-- What was read as an entry of the pool is the payload of a constant. -/
theorem PoolEntry.read_took {tag : UInt8} {entry : PoolEntry} {input rest : Bytes}
    (h : PoolEntry.read tag input = .ok (entry, rest)) :
    ∃ c : Layout.Constant, c.tag = tag ∧ c.textLength < 65536 ∧ c.entry = entry ∧
      Took (PoolEntry.read tag) c.parts entry input rest := by
  have hnone : 0 < 65536 := by decide
  rcases PoolEntry.read_known tag with hknown | hthrow
  · simp only [knownTags, List.mem_cons, List.not_mem_nil, or_false] at hknown
    rcases hknown
      with rfl | rfl | rfl | rfl | rfl | rfl | rfl | rfl | rfl | rfl | rfl | rfl | rfl | rfl | rfl
    · obtain ⟨length, middle, hlength, h⟩ := bind_eq_ok h
      obtain ⟨text, middle', htext, h⟩ := bind_eq_ok h
      cases h
      obtain ⟨hsize, htook⟩ := bytes_took htext
      refine ⟨.utf8 text, rfl, Nat.lt_of_le_of_lt (Nat.le_of_eq hsize) length.toNat_lt, rfl, ?_⟩
      rw [Layout.Constant.parts, hsize]
      exact (u2_took hlength).bind (htook.map PoolEntry.utf8)
    · obtain ⟨v, middle, hv, h⟩ := bind_eq_ok h
      cases h
      exact ⟨.integer v.toInt32, rfl, hnone, rfl,
        (u4_took hv).map fun v => PoolEntry.integer v.toInt32⟩
    · obtain ⟨v, middle, hv, h⟩ := bind_eq_ok h
      cases h
      exact ⟨.float v, rfl, hnone, rfl,
        (u4_took hv).map fun v => PoolEntry.float (Float32.ofBits v)⟩
    · obtain ⟨v, middle, hv, h⟩ := bind_eq_ok h
      cases h
      exact ⟨.long v.toInt64, rfl, hnone, rfl, (u8_took hv).map fun v => PoolEntry.long v.toInt64⟩
    · obtain ⟨v, middle, hv, h⟩ := bind_eq_ok h
      cases h
      exact ⟨.double v, rfl, hnone, rfl,
        (u8_took hv).map fun v => PoolEntry.double (Float.ofBits v)⟩
    · obtain ⟨v, middle, hv, h⟩ := bind_eq_ok h
      cases h
      exact ⟨.classRef v, rfl, hnone, rfl, (u2_took hv).map PoolEntry.classRef⟩
    · obtain ⟨v, middle, hv, h⟩ := bind_eq_ok h
      cases h
      exact ⟨.string v, rfl, hnone, rfl, (u2_took hv).map PoolEntry.string⟩
    · obtain ⟨a, b, hentry, htook⟩ := pair_map_took h
      exact ⟨.fieldRef a b, rfl, hnone, hentry, htook⟩
    · obtain ⟨a, b, hentry, htook⟩ := pair_map_took h
      exact ⟨.methodRef a b, rfl, hnone, hentry, htook⟩
    · obtain ⟨a, b, hentry, htook⟩ := pair_map_took h
      exact ⟨.interfaceMethodRef a b, rfl, hnone, hentry, htook⟩
    · obtain ⟨a, b, hentry, htook⟩ := pair_map_took h
      exact ⟨.nameAndType a b, rfl, hnone, hentry, htook⟩
    · obtain ⟨data, hsize, hentry, htook⟩ := skipped_took h
      obtain ⟨kind, data, rfl⟩ := List.exists_cons_of_length_eq_add_one hsize
      obtain ⟨v, rfl⟩ := exists_word (Nat.succ.inj hsize)
      exact ⟨.methodHandle kind v, rfl, hnone, hentry, htook⟩
    · obtain ⟨data, hsize, hentry, htook⟩ := skipped_took h
      obtain ⟨v, rfl⟩ := exists_word hsize
      exact ⟨.methodType v, rfl, hnone, hentry, htook⟩
    · obtain ⟨data, hsize, hentry, htook⟩ := skipped_took h
      obtain ⟨v, w, rfl⟩ := exists_words hsize
      exact ⟨.dynamic v w, rfl, hnone, hentry, htook⟩
    · obtain ⟨data, hsize, hentry, htook⟩ := skipped_took h
      obtain ⟨v, w, rfl⟩ := exists_words hsize
      exact ⟨.invokeDynamic v w, rfl, hnone, hentry, htook⟩
  · rw [hthrow] at h
    cases h

/-- The constants take the slots from `index` on, up to the count and not further. The number of
the next slot is computed with 16 bits. -/
inductive Fills (count : UInt16) : UInt16 → List Layout.Constant → Prop
  | done {index : UInt16} (h : count ≤ index) : Fills count index []
  | more {index : UInt16} {c : Layout.Constant} {constants : List Layout.Constant}
      (h : ¬ count ≤ index) (hc : c.textLength < 65536)
      (hrest : Fills count (index + c.width) constants) :
      Fills count index (c :: constants)

def place : UInt16 → Pool → List Layout.Constant → Pool
  | _, pool, [] => pool
  | index, pool, c :: constants =>
    place (index + c.width) (pool.setIfInBounds index.toNat (some c.entry)) constants

namespace Pool

def readRest (count index : UInt16) (pool : Pool) : StreamReader Pool := fun input =>
  readFrom count input.length index pool input

variable {count index : UInt16} {pool : Pool}

theorem readFrom_done (hend : count ≤ index) (rounds : Nat) :
    readFrom count rounds index pool = pure pool := by
  unfold readFrom
  rw [if_pos hend]

theorem readFrom_succ (hmore : ¬ count ≤ index) (rounds : Nat) :
    readFrom count (rounds + 1) index pool =
      (within (.poolTag index) u1 >>= fun tag =>
        within (.poolEntry index tag) (PoolEntry.read tag) >>= fun entry =>
          readFrom count rounds (index + (if entry.isWide then 2 else 1))
            (pool.setIfInBounds index.toNat (some entry))) := by
  rw [readFrom, if_neg hmore]

/-- A tag and an entry take a byte at least. -/
theorem length_lt_of_entry {input middle rest : Bytes} {tag : UInt8} {entry : PoolEntry}
    (htag : within (.poolTag index) u1 input = .ok (tag, middle))
    (hentry : within (.poolEntry index tag) (PoolEntry.read tag) middle = .ok (entry, rest)) :
    rest.length < input.length := by
  have hfirst := (u1_took (of_within htag)).split
  obtain ⟨c, -, -, -, htook⟩ := PoolEntry.read_took (of_within hentry)
  have hsecond := htook.length_le
  rw [hfirst]
  simp only [List.flatten_cons, List.flatten_nil, List.append_nil, List.length_append,
    List.length_singleton]
  omega

/-- At the end of the input the tag of the next constant is missing. -/
theorem readFrom_nil (hmore : ¬ count ≤ index) (rounds : Nat) :
    readFrom count rounds index pool [] = .error (.within (.poolTag index) .endOfInput) := by
  cases rounds with
  | zero =>
    rw [readFrom, if_neg hmore]
    rfl
  | succ rounds =>
    rw [readFrom_succ hmore]
    rfl

/-- What is done after a constant was read depends on shorter inputs only. -/
theorem entry_bind_congr {input : Bytes} {g g' : PoolEntry → StreamReader Pool}
    (h : ∀ entry rest, rest.length < input.length → g entry rest = g' entry rest) :
    (within (.poolTag index) u1 >>= fun tag =>
        within (.poolEntry index tag) (PoolEntry.read tag) >>= g) input =
      (within (.poolTag index) u1 >>= fun tag =>
        within (.poolEntry index tag) (PoolEntry.read tag) >>= g') input := by
  change Except.bind (within _ u1 input) _ = Except.bind (within _ u1 input) _
  cases htag : within (.poolTag index) u1 input with
  | error e => rfl
  | ok tagged =>
    obtain ⟨tag, middle⟩ := tagged
    change Except.bind (within _ (PoolEntry.read tag) middle) _ =
      Except.bind (within _ (PoolEntry.read tag) middle) _
    cases hentry : within (.poolEntry index tag) (PoolEntry.read tag) middle with
    | error e => rfl
    | ok result => exact h result.1 result.2 (length_lt_of_entry htag hentry)

/-- More rounds than there are bytes change nothing. -/
theorem readFrom_rounds {rounds rounds' : Nat} {input : Bytes} (h : input.length ≤ rounds)
    (h' : input.length ≤ rounds') :
    readFrom count rounds index pool input = readFrom count rounds' index pool input := by
  induction rounds generalizing rounds' index pool input with
  | zero =>
    by_cases hend : count ≤ index
    · rw [readFrom_done hend, readFrom_done hend]
    · rw [List.length_eq_zero_iff.mp (Nat.le_zero.mp h), readFrom_nil hend, readFrom_nil hend]
  | succ rounds ih =>
    by_cases hend : count ≤ index
    · rw [readFrom_done hend, readFrom_done hend]
    cases rounds' with
    | zero =>
      rw [List.length_eq_zero_iff.mp (Nat.le_zero.mp h'), readFrom_nil hend, readFrom_nil hend]
    | succ rounds' =>
      rw [readFrom_succ hend, readFrom_succ hend]
      exact entry_bind_congr fun entry rest hshorter => ih (by omega) (by omega)

theorem readRest_done (hend : count ≤ index) : readRest count index pool = pure pool := by
  funext input
  rw [readRest, readFrom_done hend]

/-- As long as there are slots left, a constant is read and reading goes on. -/
theorem readRest_more (hmore : ¬ count ≤ index) :
    readRest count index pool =
      (within (.poolTag index) u1 >>= fun tag =>
        within (.poolEntry index tag) (PoolEntry.read tag) >>= fun entry =>
          readRest count (index + (if entry.isWide then 2 else 1))
            (pool.setIfInBounds index.toNat (some entry))) := by
  funext input
  unfold readRest
  rw [readFrom_rounds (Nat.le_refl _) (Nat.le_succ input.length), readFrom_succ hmore]
  exact entry_bind_congr fun entry rest hshorter => readFrom_rounds (by omega) (Nat.le_refl _)

/-- What was read as a pool are constants that fill it. -/
theorem readRest_took {input rest : Bytes} {result : Pool}
    (h : readRest count index pool input = .ok (result, rest)) :
    ∃ constants, Fills count index constants ∧ place index pool constants = result ∧
      Took (readRest count index pool) (constants.flatMap Constant.items) result input rest := by
  -- The input gets shorter with each constant.
  induction hn : input.length using Nat.strongRecOn generalizing index pool input with
  | ind n ih =>
    by_cases hend : count ≤ index
    · rw [readRest_done hend] at h ⊢
      cases h
      exact ⟨[], .done hend, rfl, rfl, .pure _⟩
    · rw [readRest_more hend] at h ⊢
      obtain ⟨tag, middle, htag, h⟩ := bind_eq_ok h
      obtain ⟨entry, middle', hentry, h⟩ := bind_eq_ok h
      have hshorter := length_lt_of_entry htag hentry
      obtain ⟨constants, hfills, hplace, htooks⟩ := ih _ (hn ▸ hshorter) h rfl
      obtain ⟨c, rfl, htext, rfl, htook⟩ := PoolEntry.read_took (of_within hentry)
      refine ⟨c :: constants, .more hend htext hfills, hplace, ?_⟩
      rw [List.flatMap_cons]
      exact ((u1_took (of_within htag)).within _).bind ((htook.within _).bind htooks)

/-- Constants that fill the pool are read from their bytes. -/
theorem readRest_parses {constants : List Layout.Constant} (h : Fills count index constants) :
    Parses view (readRest count index pool) (constants.flatMap Constant.encode)
      (place index pool constants) := by
  induction h generalizing pool with
  | done hend =>
    rw [readRest_done hend]
    exact .pure _
  | more hmore htext hfills ih =>
    rename_i c constants
    rw [readRest_more hmore, List.flatMap_cons]
    change Parses view _ ([c.tag] ++ c.payload ++ _) _
    rw [List.append_assoc]
    refine (within_parses (u1_parses c.tag) _).bind ?_
    exact (within_parses (c.read_parses htext) _).bind ih

end Pool

end ClassTrace
