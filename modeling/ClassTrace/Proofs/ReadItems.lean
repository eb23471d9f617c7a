import ClassTrace.Proofs.Parses

/-!
Readers that take their input item by item. An item is a stretch of bytes that is read in one
piece. Where a reader takes certain items, it takes them whatever follows, and when the input ends
before the last of them does, it fails: with the end of the input if the cut falls between two
items, and with a short input if it falls inside of one. Such readers can be put one after the
other.
-/
namespace ClassTrace

open Layout

namespace Bytes

theorem toNat_cons_eq_foldl (b : UInt8) (data : Bytes) :
    toNat (b :: data) = data.foldl (fun n b => n * 256 + b.toNat) b.toNat := by
  simp only [toNat, List.foldl_cons, Nat.zero_mul, Nat.zero_add]

theorem foldl_toNat (data : Bytes) (acc : Nat) :
    data.foldl (fun n b => n * 256 + b.toNat) acc =
      acc * Nat.pow 256 data.length + toNat data := by
  induction data generalizing acc with
  | nil => simp [toNat]
  | cons b data ih =>
    rw [List.foldl_cons, ih, toNat_cons_eq_foldl, ih b.toNat, List.length_cons]
    change _ = acc * (Nat.pow 256 data.length * 256) + _
    rw [Nat.add_mul, Nat.mul_assoc, Nat.mul_comm 256]
    omega

theorem toNat_cons (b : UInt8) (data : Bytes) :
    toNat (b :: data) = b.toNat * Nat.pow 256 data.length + toNat data := by
  rw [toNat_cons_eq_foldl]
  exact foldl_toNat data b.toNat

/-- The number that bytes stand for is bounded by how many they are. -/
theorem toNat_lt (data : Bytes) : toNat data < Nat.pow 256 data.length := by
  induction data with
  | nil => simp [toNat]
  | cons b data ih =>
    have hb := b.toNat_lt
    have hmul : b.toNat * Nat.pow 256 data.length ≤ 255 * Nat.pow 256 data.length :=
      Nat.mul_le_mul_right _ (by omega)
    rw [toNat_cons, List.length_cons]
    change _ < Nat.pow 256 data.length * 256
    omega

/-- Only the last `width` bytes of the number count. -/
theorem ofNat_add_mul (width n k : Nat) :
    ofNat width (k * Nat.pow 256 width + n) = ofNat width n := by
  induction width generalizing k with
  | zero => rfl
  | succ width ih =>
    have hpos : 0 < Nat.pow 256 width := Nat.pow_pos (by decide)
    have hsplit : k * Nat.pow 256 (width + 1) + n = k * 256 * Nat.pow 256 width + n := by
      change k * (Nat.pow 256 width * 256) + n = _
      rw [Nat.mul_comm (Nat.pow 256 width), ← Nat.mul_assoc]
    have hdigit : (k * 256 * Nat.pow 256 width + n) / Nat.pow 256 width =
        k * 256 + n / Nat.pow 256 width := by
      rw [Nat.add_comm, Nat.add_mul_div_right _ _ hpos, Nat.add_comm]
    rw [hsplit]
    simp only [ofNat]
    rw [ih, hdigit]
    congr 1
    apply UInt8.toNat_inj.mp
    simp

/-- Bytes are those of the number that they stand for. -/
theorem ofNat_toNat (data : Bytes) : ofNat data.length (toNat data) = data := by
  induction data with
  | nil => rfl
  | cons b data ih =>
    have hpos : 0 < Nat.pow 256 data.length := Nat.pow_pos (by decide)
    have hdigit :
        (b.toNat * Nat.pow 256 data.length + toNat data) / Nat.pow 256 data.length = b.toNat := by
      rw [Nat.add_comm, Nat.add_mul_div_right _ _ hpos, Nat.div_eq_of_lt (toNat_lt data),
        Nat.zero_add]
    rw [toNat_cons, List.length_cons]
    simp only [ofNat]
    rw [hdigit, ofNat_add_mul, ih]
    simp

end Bytes

namespace StreamReader

/-- The cut falls in front of the first item or between two. -/
def Boundary (items : List Bytes) (m : Nat) : Prop := ∃ k, (items.take k).flatten.length = m

/-- Why items cannot be read of which the first `m` bytes are there only. An item without bytes is
read even at the end of the input. -/
def cutCause : List Bytes → Nat → FormatError
  | [], _ => .endOfInput
  | item :: items, m =>
    if item.length ≤ m then cutCause items (m - item.length)
    else if m = 0 then .endOfInput
    else .cutShort

theorem cutCause_append_left {items : List Bytes} {m : Nat} (hm : m < items.flatten.length)
    (more : List Bytes) : cutCause (items ++ more) m = cutCause items m := by
  induction items generalizing m with
  | nil => simp at hm
  | cons item items ih =>
    simp only [List.cons_append, cutCause]
    by_cases hitem : item.length ≤ m
    · rw [if_pos hitem, if_pos hitem]
      apply ih
      simp only [List.flatten_cons, List.length_append] at hm
      omega
    · rw [if_neg hitem, if_neg hitem]

theorem cutCause_append_right {items : List Bytes} {m : Nat} (hm : items.flatten.length ≤ m)
    (more : List Bytes) :
    cutCause (items ++ more) m = cutCause more (m - items.flatten.length) := by
  induction items generalizing m with
  | nil => rfl
  | cons item items ih =>
    simp only [List.flatten_cons, List.length_append] at hm
    simp only [List.cons_append, cutCause, List.flatten_cons, List.length_append]
    rw [if_pos (by omega), ih (by omega), Nat.sub_sub]

/-- A cut is at a boundary if it is in front of an item, or at one of the items after it. -/
theorem boundary_cons {item : Bytes} {items : List Bytes} {m : Nat} :
    Boundary (item :: items) m ↔ m = 0 ∨ item.length ≤ m ∧ Boundary items (m - item.length) := by
  constructor
  · rintro ⟨k, hk⟩
    cases k with
    | zero => exact Or.inl hk.symm
    | succ k =>
      simp only [List.take_succ_cons, List.flatten_cons, List.length_append] at hk
      exact Or.inr ⟨by omega, k, by omega⟩
  · rintro (rfl | ⟨hle, k, hk⟩)
    · exact ⟨0, rfl⟩
    · refine ⟨k + 1, ?_⟩
      simp only [List.take_succ_cons, List.flatten_cons, List.length_append]
      omega

theorem cutCause_zero (items : List Bytes) : cutCause items 0 = .endOfInput := by
  induction items with
  | nil => rfl
  | cons item items ih =>
    simp only [cutCause, Nat.zero_sub, ih]
    split <;> rfl

/-- The input ends between two items. -/
theorem cutCause_of_boundary {items : List Bytes} {m : Nat} (h : Boundary items m) :
    cutCause items m = .endOfInput := by
  induction items generalizing m with
  | nil => rfl
  | cons item items ih =>
    rcases boundary_cons.mp h with rfl | ⟨hle, hrest⟩
    · exact cutCause_zero _
    · rw [cutCause, if_pos hle]
      exact ih hrest

/-- The input ends inside of an item. -/
theorem cutCause_of_not_boundary {items : List Bytes} {m : Nat} (hm : m < items.flatten.length)
    (h : ¬ Boundary items m) : cutCause items m = .cutShort := by
  induction items generalizing m with
  | nil => simp at hm
  | cons item items ih =>
    rw [boundary_cons, not_or, not_and] at h
    rw [cutCause]
    by_cases hitem : item.length ≤ m
    · rw [if_pos hitem]
      refine ih ?_ (h.2 hitem)
      simp only [List.flatten_cons, List.length_append] at hm
      omega
    · rw [if_neg hitem, if_neg h.1]

structure Reads {α : Type} (reader : StreamReader α) (items : List Bytes) (a : α) : Prop where
  parses : Parses view reader items.flatten a
  cut : ∀ m < items.flatten.length,
    ∃ e, reader (items.flatten.take m) = .error e ∧ e.cause = cutCause items m

namespace Reads

variable {α β : Type} {reader : StreamReader α} {items more : List Bytes} {a : α} {b : β}

theorem pure (a : α) : Reads (Pure.pure a) [] a := ⟨.pure a, fun m hm => by simp at hm⟩

theorem lift {x : Except FormatError α} (h : x = .ok a) : Reads (liftM x) [] a :=
  ⟨.lift h, fun m hm => by simp at hm⟩

theorem within (h : Reads reader items a) (place : FormatError.Place) :
    Reads (within place reader) items a := by
  refine ⟨within_parses h.parses place, fun m hm => ?_⟩
  obtain ⟨e, he, hcause⟩ := h.cut m hm
  refine ⟨.within place e, ?_, hcause⟩
  simp only [StreamReader.within, he]

theorem bind {next : α → StreamReader β} (h : Reads reader items a)
    (hnext : Reads (next a) more b) :
    Reads (reader >>= next) (items ++ more) b := by
  refine ⟨?_, fun m hm => ?_⟩
  · rw [List.flatten_append]
    exact h.parses.bind hnext.parses
  rw [List.flatten_append]
  rw [List.flatten_append, List.length_append] at hm
  change ∃ e, Except.bind (reader _) _ = _ ∧ _
  by_cases hfirst : m < items.flatten.length
  · -- The first reader already fails.
    obtain ⟨e, he, hcause⟩ := h.cut m hfirst
    refine ⟨e, ?_, by rw [hcause, cutCause_append_left hfirst]⟩
    rw [List.take_append_of_le_length (Nat.le_of_lt hfirst), he]
    rfl
  · have hle : items.flatten.length ≤ m := Nat.le_of_not_lt hfirst
    obtain ⟨e, he, hcause⟩ := hnext.cut (m - items.flatten.length) (by omega)
    refine ⟨e, ?_, by rw [hcause, cutCause_append_right hle]⟩
    have hall : reader (items.flatten ++ more.flatten.take (m - items.flatten.length)) =
        .ok (a, more.flatten.take (m - items.flatten.length)) := h.parses 0 _
    rw [List.take_append, List.take_of_length_le hle, hall]
    exact he

/-- Nothing is taken any more after the reader. -/
theorem before {next : α → StreamReader β} (h : Reads reader items a)
    (hnext : Reads (next a) [] b) :
    Reads (reader >>= next) items b := by
  have hboth := h.bind hnext
  rwa [List.append_nil] at hboth

theorem bytes (data : Bytes) : Reads (bytes data.length) [data] data := by
  refine ⟨?_, fun m hm => ?_⟩
  · simpa using bytes_parses data rfl
  simp only [List.flatten_cons, List.flatten_nil, List.append_nil] at hm ⊢
  have hshort : ((data.take m).take data.length).length ≠ data.length := by
    simp only [List.length_take]
    omega
  simp only [StreamReader.bytes, if_neg hshort, cutCause, if_neg (Nat.not_le_of_lt hm)]
  by_cases hzero : m = 0
  · subst hzero
    exact ⟨_, rfl, rfl⟩
  · have hsome : (data.take m).isEmpty = false := by
      cases data with
      | nil => simp at hm
      | cons b data =>
        cases m with
        | zero => exact absurd rfl hzero
        | succ m => rfl
    rw [hsome, if_neg hzero]
    exact ⟨_, rfl, rfl⟩

end Reads

/-- The reader got through the input: it took the items, gave the value and left the rest. -/
structure Took {α : Type} (reader : StreamReader α) (items : List Bytes) (a : α)
    (input rest : Bytes) :
    Prop where
  split : input = items.flatten ++ rest
  reads : Reads reader items a

section

variable {α β γ : Type} {reader : StreamReader α} {next : α → StreamReader β}
  {items more : List Bytes} {input middle rest : Bytes} {a : α} {b : β}

/-- Two readers got through the input if the first got to where the second began. -/
theorem Took.bind (h : Took reader items a input middle)
    (hnext : Took (next a) more b middle rest) :
    Took (reader >>= next) (items ++ more) b input rest := by
  refine ⟨?_, h.reads.bind hnext.reads⟩
  rw [h.split, hnext.split, List.flatten_append, List.append_assoc]

theorem Took.within (h : Took reader items a input rest) (place : FormatError.Place) :
    Took (within place reader) items a input rest := ⟨h.split, h.reads.within place⟩

/-- Nothing is taken any more after the reader. -/
theorem Took.before (h : Took reader items a input rest) (hnext : Reads (next a) [] b) :
    Took (reader >>= next) items b input rest := ⟨h.split, h.reads.before hnext⟩

theorem Took.map (h : Took reader items a input rest) (f : α → β) :
    Took (reader >>= fun a => Pure.pure (f a)) items (f a) input rest := h.before (.pure (f a))

theorem Took.length_le (h : Took reader items a input rest) : rest.length ≤ input.length := by
  rw [h.split, List.length_append]
  omega

theorem bind_eq_ok (h : (reader >>= next) input = .ok (b, rest)) :
    ∃ a middle, reader input = .ok (a, middle) ∧ next a middle = .ok (b, rest) := by
  change Except.bind (reader input) _ = _ at h
  cases hreader : reader input with
  | error e =>
    rw [hreader] at h
    cases h
  | ok result =>
    rw [hreader] at h
    exact ⟨result.1, result.2, rfl, h⟩

theorem lift_eq_ok {x : Except FormatError α}
    (h : (liftM x : StreamReader α) input = .ok (a, rest)) :
    x = .ok a ∧ input = rest := by
  cases x with
  | error e => cases h
  | ok a' =>
    cases h
    exact ⟨rfl, rfl⟩

theorem of_within {place : FormatError.Place} (h : within place reader input = .ok (a, rest)) :
    reader input = .ok (a, rest) := by
  unfold StreamReader.within at h
  split at h
  · rename_i hreader
    cases h
    exact hreader
  · cases h

theorem bytes_took {n : Nat} {data : Bytes} (h : bytes n input = .ok (data, rest)) :
    data.length = n ∧ Took (bytes n) [data] data input rest := by
  unfold bytes at h
  dsimp only at h
  split at h
  · rename_i hlength
    cases h
    refine ⟨hlength, by simp, ?_⟩
    have hreads := Reads.bytes (input.take n)
    rwa [hlength] at hreads
  · split at h <;> cases h

/-- A number is read from the bytes that it is written with. -/
theorem number_took (width : Nat) (toNat : α → Nat) {value : Nat → α}
    (hvalue : ∀ n < Nat.pow 256 width, toNat (value n) = n)
    (h : (bytes width >>= fun data => Pure.pure (value data.toNat)) input = .ok (a, rest)) :
    Took (bytes width >>= fun data => Pure.pure (value data.toNat))
      [Bytes.ofNat width (toNat a)] a
      input rest := by
  obtain ⟨data, middle, hdata, hpure⟩ := bind_eq_ok h
  obtain ⟨rfl, htook⟩ := bytes_took hdata
  cases hpure
  rw [hvalue _ (Bytes.toNat_lt data), Bytes.ofNat_toNat]
  exact htook.map fun data => value data.toNat

theorem u1_took {v : UInt8} (h : u1 input = .ok (v, rest)) : Took u1 [[v]] v input rest := by
  have htook := number_took 1 UInt8.toNat (fun _ hn => UInt8.toNat_ofNat_of_lt' hn) h
  have hbyte : Bytes.ofNat 1 v.toNat = [v] := by simp [Bytes.ofNat, Nat.pow]
  rwa [hbyte] at htook

theorem u2_took {v : UInt16} (h : u2 input = .ok (v, rest)) : Took u2 [word v] v input rest :=
  number_took 2 UInt16.toNat (fun _ hn => UInt16.toNat_ofNat_of_lt' hn) h

theorem u4_took {v : UInt32} (h : u4 input = .ok (v, rest)) :
    Took u4 [Bytes.ofNat 4 v.toNat] v input rest :=
  number_took 4 UInt32.toNat (fun _ hn => UInt32.toNat_ofNat_of_lt' hn) h

theorem u8_took {v : UInt64} (h : u8 input = .ok (v, rest)) :
    Took u8 [Bytes.ofNat 8 v.toNat] v input rest :=
  number_took 8 UInt64.toNat (fun _ hn => UInt64.toNat_ofNat_of_lt' hn) h

theorem pair_took {p : UInt16 × UInt16} (h : pair input = .ok (p, rest)) :
    Took pair [word p.1, word p.2] p input rest := by
  obtain ⟨v, middle, hv, h⟩ := bind_eq_ok h
  obtain ⟨w, middle', hw, h⟩ := bind_eq_ok h
  cases h
  exact (u2_took hv).bind ((u2_took hw).map fun w => (v, w))

/-- Each member has taken the items that some description lists. -/
theorem mapM_took {read : Nat → StreamReader β} {describe : γ → List Bytes} {P : γ → Prop}
    (hitem : ∀ i input rest b, read i input = .ok (b, rest) →
      ∃ c, P c ∧ Took (read i) (describe c) b input rest)
    (n start : Nat) {bs : List β} (h : (List.range' start n).mapM read input = .ok (bs, rest)) :
    ∃ cs : List γ, cs.length = n ∧ (∀ c ∈ cs, P c) ∧
      Took ((List.range' start n).mapM read) (cs.flatMap describe) bs input rest := by
  induction n generalizing start input bs with
  | zero =>
    cases h
    exact ⟨[], rfl, nofun, rfl, .pure _⟩
  | succ n ih =>
    rw [List.range'_succ, List.mapM_cons] at h ⊢
    obtain ⟨b, middle, hb, h⟩ := bind_eq_ok h
    obtain ⟨bs', middle', hbs, h⟩ := bind_eq_ok h
    cases h
    obtain ⟨c, hc, htook⟩ := hitem start _ _ _ hb
    obtain ⟨cs, rfl, hcs, htooks⟩ := ih (start + 1) hbs
    refine ⟨c :: cs, rfl, List.forall_mem_cons.mpr ⟨hc, hcs⟩, ?_⟩
    rw [List.flatMap_cons]
    exact htook.bind (htooks.map (b :: ·))

def tableItems (describe : γ → List Bytes) (cs : List γ) : List Bytes :=
  Bytes.ofNat 2 cs.length :: cs.flatMap describe

/-- A reader of a list took its number and then its members. -/
theorem table_took {place : FormatError.Place} {read : Nat → StreamReader β}
    {describe : γ → List Bytes} {P : γ → Prop}
    (hitem : ∀ i input rest b, read i input = .ok (b, rest) →
      ∃ c, P c ∧ Took (read i) (describe c) b input rest)
    {next : List β → StreamReader α}
    (h : (StreamReader.within place u2 >>= fun count =>
      (List.range count.toNat).mapM read >>= next) input = .ok (a, rest)) :
    ∃ (cs : List γ) (bs : List β) (middle : Bytes), cs.length < 65536 ∧ (∀ c ∈ cs, P c) ∧
      next bs middle = .ok (a, rest) ∧ ∀ more, Took (next bs) more a middle rest →
        Took (StreamReader.within place u2 >>= fun count =>
          (List.range count.toNat).mapM read >>= next)
              (tableItems describe cs ++ more) a input rest := by
  obtain ⟨count, middle, hcount, h⟩ := bind_eq_ok h
  obtain ⟨bs, middle', hbs, h⟩ := bind_eq_ok h
  rw [List.range_eq_range'] at hbs
  obtain ⟨cs, hlength, hcs, htooks⟩ := mapM_took hitem count.toNat 0 hbs
  refine ⟨cs, bs, middle', hlength ▸ count.toNat_lt, hcs, h, fun more hmore => ?_⟩
  rw [tableItems, hlength, List.cons_append]
  refine ((u2_took (of_within hcount)).within place).bind ?_
  rw [List.range_eq_range']
  exact htooks.bind hmore

end

end StreamReader

end ClassTrace
