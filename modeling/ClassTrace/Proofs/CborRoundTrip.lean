import ClassTrace.Cbor.Parser
import ClassTrace.Proofs.DocumentTree
import ClassTrace.Proofs.Parses

/-!
Trees that are written as CBOR are read back, as long as lengths and numbers fit into heads and
lists are no longer than the reader takes. Records come back in the canonical order of their
names.
-/
namespace ClassTrace

namespace Node

theorem encodeItems_eq (items : List Node) : encodeItems items = items.map encodeCbor := by
  induction items with
  | nil => rfl
  | cons item rest ih => rw [encodeItems, ih, List.map_cons]

theorem encodeFields_eq (fields : List (Bytes × Node)) :
    encodeFields fields = fields.map fun f => (f.1, encodeCbor f.2) := by
  induction fields with
  | nil => rfl
  | cons f rest ih => rw [encodeFields, ih, List.map_cons]

def ordered {α : Type} (fields : List (Bytes × α)) : List (Bytes × α) :=
  fields.mergeSort fun a b => nameLe a.1 b.1

theorem ordered_perm {α : Type} (fields : List (Bytes × α)) : (ordered fields).Perm fields :=
  List.mergeSort_perm ..

theorem ordered_map {α β : Type} (g : α → β) (fields : List (Bytes × α)) :
    ordered (fields.map fun f => (f.1, g f.2)) = (ordered fields).map fun f => (f.1, g f.2) :=
  (List.map_mergeSort (f := fun f : Bytes × α => (f.1, g f.2)) fun _ _ _ _ => rfl).symm

mutual

def cbor : Node → CborItem
  | .number n => if 0 ≤ n then .unsigned n.toNat else .negative (-1 - n).toNat
  | .text t => .text [t]
  | .list items => .list (cborItems items)
  | .object fields => .map ((ordered (cborFields fields)).map fun f => (.text [f.1], f.2))

def cborItems : List Node → List CborItem
  | [] => []
  | item :: rest => cbor item :: cborItems rest

def cborFields : List (Bytes × Node) → List (Bytes × CborItem)
  | [] => []
  | (name, value) :: rest => (name, cbor value) :: cborFields rest

end

theorem cborItems_eq (items : List Node) : cborItems items = items.map cbor := by
  induction items with
  | nil => rfl
  | cons item rest ih => rw [cborItems, ih, List.map_cons]

theorem cborFields_eq (fields : List (Bytes × Node)) :
    cborFields fields = fields.map fun f => (f.1, cbor f.2) := by
  induction fields with
  | nil => rfl
  | cons f rest ih => rw [cborFields, ih, List.map_cons]

/-- Numbers and lengths fit into a head, and lists and records are not too long. -/
def Bounds.cbor : Bounds where
  number n := n.natAbs < 0x10000000000000000
  text t := t.length < 0x10000000000000000
  size k := k ≤ CborItem.maxSize

end Node

namespace CborItem

open Node

theorem readHead_wide {major info width n : Nat} (hmajor : major < 7) (hn : n < Nat.pow 256 width)
    (hinfo : (info, width) ∈ [(24, 1), (25, 2), (26, 4), (27, 8)]) (rest : Bytes) :
    readHead ((major * 32 + info).toUInt8 :: (Bytes.ofNat width n ++ rest)) =
      some (⟨major, info, n⟩, rest) := by
  have hsmall : info < 32 := by
    simp only [List.mem_cons, Prod.mk.injEq, List.not_mem_nil, or_false] at hinfo
    omega
  have hbyte : (major * 32 + info).toUInt8.toNat = major * 32 + info :=
    UInt8.toNat_ofNat_of_lt (by simp only [UInt8.size]; omega)
  have hdiv : (major * 32 + info) / 32 = major := by omega
  have hmod : (major * 32 + info) % 32 = info := by omega
  have hlength : (Bytes.ofNat width n).length = width := Bytes.length_ofNat ..
  have htake : (Bytes.ofNat width n ++ rest).take width = Bytes.ofNat width n := by
    rw [List.take_append_of_le_length (by omega), List.take_of_length_le (by omega)]
  have hdrop : (Bytes.ofNat width n ++ rest).drop width = rest := by
    rw [List.drop_append_of_le_length (by omega), List.drop_of_length_le (by omega),
      List.nil_append]
  unfold readHead
  simp only [hbyte, hdiv, hmod]
  simp only [List.mem_cons, Prod.mk.injEq, List.not_mem_nil, or_false] at hinfo
  rcases hinfo with ⟨rfl, rfl⟩ | ⟨rfl, rfl⟩ | ⟨rfl, rfl⟩ | ⟨rfl, rfl⟩
  · simp [htake, hdrop, hlength, Bytes.toNat_ofNat hn]
    omega
  · simp [htake, hdrop, hlength, Bytes.toNat_ofNat hn]
  · simp [htake, hdrop, hlength, Bytes.toNat_ofNat hn]
  · simp [htake, hdrop, hlength, Bytes.toNat_ofNat hn]

/-- A head that is written is read back, and it does not leave the length open. -/
theorem readHead_cborHead (major : Nat) {n : Nat} (hmajor : major < 7)
    (hn : n < 0x10000000000000000) (rest : Bytes) :
    ∃ info, info ≠ openLength ∧ readHead (cborHead major n ++ rest) =
      some (⟨major, info, n⟩, rest) := by
  unfold cborHead
  dsimp only
  split
  · rename_i hsmall
    have hbyte : (major * 32 + n).toUInt8.toNat = major * 32 + n :=
      UInt8.toNat_ofNat_of_lt (by simp only [UInt8.size]; omega)
    have hdiv : (major * 32 + n) / 32 = major := by omega
    have hmod : (major * 32 + n) % 32 = n := by omega
    refine ⟨n, by unfold openLength; omega, ?_⟩
    unfold readHead
    simp only [List.cons_append, hbyte, hdiv, hmod, if_pos hsmall, List.nil_append]
  · split
    · rename_i h
      exact ⟨24, by decide, readHead_wide hmajor h (by decide) rest⟩
    · split
      · rename_i h
        exact ⟨25, by decide, readHead_wide hmajor h (by decide) rest⟩
      · split
        · rename_i h
          exact ⟨26, by decide, readHead_wide hmajor h (by decide) rest⟩
        · exact ⟨27, by decide, readHead_wide hmajor hn (by decide) rest⟩

/-- The bytes are read as the item, with twice as much fuel as there are bytes. -/
def ReadsAs (depth : Nat) (bytes : Bytes) (item : CborItem) : Prop :=
  ∀ fuel rest, 2 * bytes.length ≤ fuel → readItem fuel depth false (bytes ++ rest) =
    some (item, rest)

theorem cborHead_ne_nil (major n : Nat) : cborHead major n ≠ [] := by
  unfold cborHead
  dsimp only
  repeat' split
  all_goals exact List.cons_ne_nil _ _

theorem length_cborHead_pos (major n : Nat) : 0 < (cborHead major n).length :=
  List.length_pos_iff.mpr (cborHead_ne_nil major n)

theorem readsAs_number {depth : Nat} {n : Int} (h : n.natAbs < 0x10000000000000000) :
    ReadsAs depth (cborNumber n) (Node.number n).cbor := by
  intro fuel rest hfuel
  unfold cborNumber at hfuel ⊢
  rw [cbor]
  cases fuel with
  | zero =>
    have hpos : 0 < (if 0 ≤ n then cborHead 0 n.toNat else cborHead 1 (-1 - n).toNat).length := by
      split <;> exact length_cborHead_pos ..
    omega
  | succ fuel =>
    by_cases hn : 0 ≤ n
    · rw [if_pos hn, if_pos hn]
      obtain ⟨info, -, hread⟩ := readHead_cborHead 0 (n := n.toNat) (by decide) (by omega) rest
      rw [readItem, hread]
      rfl
    · rw [if_neg hn, if_neg hn]
      obtain ⟨info, -, hread⟩ :=
        readHead_cborHead 1 (n := (-1 - n).toNat) (by decide) (by omega) rest
      rw [readItem, hread]
      rfl

theorem readBytes_append (bytes rest : Bytes) :
    readBytes bytes.length (bytes ++ rest) = some (bytes, rest) := by
  unfold readBytes
  simp

theorem readsAs_text {depth : Nat} {t : Bytes} (h : t.length < 0x10000000000000000) :
    ReadsAs depth (cborText t) (.text [t]) := by
  intro fuel rest hfuel
  unfold cborText at hfuel ⊢
  cases fuel with
  | zero =>
    have hpos := length_cborHead_pos 3 t.length
    rw [List.length_append] at hfuel
    omega
  | succ fuel =>
    obtain ⟨info, hinfo, hread⟩ := readHead_cborHead 3 (by decide) h (t ++ rest)
    rw [readItem, List.append_assoc, hread]
    simp only [readString, if_neg hinfo, readBytes_append, Option.map_some]

/-- Items that are read one by one are read one after the other. -/
theorem readItems_flatten {depth : Nat} {parts : List (Bytes × CborItem)}
    (h : ∀ p ∈ parts, p.1 ≠ [] ∧ ReadsAs depth p.1 p.2) (fuel : Nat) (done : List CborItem)
    (rest : Bytes) (hfuel : 2 * (parts.map (·.1)).flatten.length + 1 ≤ fuel) :
    readItems fuel depth parts.length done ((parts.map (·.1)).flatten ++ rest) =
      some (done.reverse ++ parts.map (·.2), rest) := by
  induction parts generalizing fuel done with
  | nil =>
    cases fuel with
    | zero => omega
    | succ fuel => simp [readItems]
  | cons p more ih =>
    obtain ⟨hne, hread⟩ := h p (List.mem_cons_self ..)
    have hpos : 0 < p.1.length := List.length_pos_iff.mpr hne
    simp only [List.map_cons, List.flatten_cons, List.length_append, List.append_assoc] at hfuel ⊢
    cases fuel with
    | zero => omega
    | succ fuel =>
      have hitem := hread fuel ((more.map (·.1)).flatten ++ rest) (by omega)
      have hmore := ih (fun q hq => h q (List.mem_cons_of_mem _ hq)) fuel (p.2 :: done) (by omega)
      rw [List.length_cons, readItems, hitem]
      dsimp only
      rw [hmore]
      simp

theorem encodeCbor_ne_nil (node : Node) : node.encodeCbor ≠ [] := by
  have happend : ∀ major n rest, cborHead major n ++ rest ≠ [] :=
    fun major n rest h => cborHead_ne_nil major n (List.append_eq_nil_iff.mp h).1
  cases node with
  | number n =>
    rw [encodeCbor, cborNumber]
    split <;> exact cborHead_ne_nil _ _
  | text t =>
    rw [encodeCbor, cborText]
    exact happend _ _ _
  | list items =>
    rw [encodeCbor]
    exact happend _ _ _
  | object fields =>
    rw [encodeCbor]
    exact happend _ _ _

/-- A list is read back if its items are. -/
theorem readsAs_list {depth : Nat} {items : List Node} (hsize : items.length ≤ maxSize)
    (h : ∀ item ∈ items, ReadsAs depth item.encodeCbor item.cbor) :
    ReadsAs (depth + 1) (Node.list items).encodeCbor (Node.list items).cbor := by
  intro fuel rest hfuel
  rw [encodeCbor, encodeItems_eq, List.length_append] at hfuel
  rw [encodeCbor, encodeItems_eq, cbor, cborItems_eq]
  have hpos := length_cborHead_pos 4 items.length
  cases fuel with
  | zero => omega
  | succ fuel =>
    have hparts : ∀ p ∈ items.map fun item => (item.encodeCbor, item.cbor),
        p.1 ≠ [] ∧ ReadsAs depth p.1 p.2 := by
      intro p hp
      obtain ⟨item, hitem, rfl⟩ := List.mem_map.mp hp
      exact ⟨encodeCbor_ne_nil item, h item hitem⟩
    have hbytes : ((items.map fun item => (item.encodeCbor, item.cbor)).map (·.1)).flatten =
        (items.map encodeCbor).flatten := by
      rw [List.map_map]
      rfl
    have hitems := readItems_flatten hparts fuel [] rest (by rw [hbytes]; omega)
    obtain ⟨info, hinfo, hhead⟩ := readHead_cborHead 4 (n := items.length) (by decide)
      (by unfold maxSize at hsize; omega) ((items.map encodeCbor).flatten ++ rest)
    rw [hbytes, List.length_map, List.map_map, List.reverse_nil, List.nil_append] at hitems
    rw [readItem, List.append_assoc, hhead]
    dsimp only
    rw [if_neg hinfo, if_neg (by omega), hitems]
    rfl

/-- A name and a value are read as two items, which make one entry. -/
theorem pairs?_entries (entries : List (Bytes × CborItem)) :
    pairs? (entries.flatMap fun f => [.text [f.1], f.2]) =
      some (entries.map fun f => (.text [f.1], f.2)) := by
  induction entries with
  | nil => rfl
  | cons f rest ih =>
    rw [List.flatMap_cons]
    simp only [List.cons_append, List.nil_append, pairs?]
    rw [ih]
    rfl

/-- A record is read back, in the canonical order, if the values of its fields are. -/
theorem readsAs_object {depth : Nat} {fields : List (Bytes × Node)}
    (hsize : fields.length ≤ maxSize) (hnames : ∀ f ∈ fields, f.1.length < 0x10000000000000000)
    (h : ∀ f ∈ fields, ReadsAs depth f.2.encodeCbor f.2.cbor) :
    ReadsAs (depth + 1) (Node.object fields).encodeCbor (Node.object fields).cbor := by
  intro fuel rest hfuel
  -- The bytes are those of the names and values in turn, in the canonical order.
  let parts := (ordered fields).flatMap fun f =>
    [(cborText f.1, CborItem.text [f.1]), (f.2.encodeCbor, f.2.cbor)]
  have hbytes : (Node.object fields).encodeCbor =
      cborHead 5 fields.length ++ (parts.map (·.1)).flatten := by
    rw [encodeCbor, encodeFields_eq]
    change _ ++ (ordered (fields.map fun f => (f.1, encodeCbor f.2))).flatMap _ = _
    rw [ordered_map, List.flatMap_map, List.map_flatMap, List.flatMap_def, List.flatMap_def,
      List.flatten_flatten, List.map_map]
    simp [Function.comp_def]
  have hlength : parts.length = 2 * fields.length := by
    rw [List.length_flatMap, ← (ordered_perm fields).length_eq, Nat.mul_comm,
      ← List.sum_replicate_nat, ← List.map_const']
    rfl
  have hitems : parts.map (·.2) =
      ((ordered fields).map fun f => (f.1, f.2.cbor)).flatMap fun f => [.text [f.1], f.2] := by
    rw [List.map_flatMap, List.flatMap_map]
    rfl
  have hparts : ∀ p ∈ parts, p.1 ≠ [] ∧ ReadsAs depth p.1 p.2 := by
    intro p hp
    obtain ⟨f, hf, hp⟩ := List.mem_flatMap.mp hp
    have hf := (ordered_perm fields).mem_iff.mp hf
    simp only [List.mem_cons, List.not_mem_nil, or_false] at hp
    rcases hp with rfl | rfl
    · exact ⟨encodeCbor_ne_nil (.text f.1), readsAs_text (hnames f hf)⟩
    · exact ⟨encodeCbor_ne_nil f.2, h f hf⟩
  have hpos := length_cborHead_pos 5 fields.length
  rw [hbytes, List.length_append] at hfuel
  rw [hbytes, cbor, cborFields_eq, ordered_map]
  cases fuel with
  | zero => omega
  | succ fuel =>
    have hread := readItems_flatten hparts fuel [] rest (by omega)
    obtain ⟨info, hinfo, hhead⟩ := readHead_cborHead 5 (n := fields.length) (by decide)
      (by unfold maxSize at hsize; omega) ((parts.map (·.1)).flatten ++ rest)
    rw [hlength, hitems, List.reverse_nil, List.nil_append] at hread
    rw [readItem, List.append_assoc, hhead]
    simp only [if_neg hinfo, if_neg (Nat.not_lt.mpr hsize), hread, pairs?_entries,
      Option.map_some]

/-- Every tree in bounds is read back. -/
theorem readsAs_of_bounded {depth : Nat} {node : Node} (h : node.Bounded .cbor depth) :
    ReadsAs depth node.encodeCbor node.cbor := by
  induction h with
  | number h =>
    rw [encodeCbor]
    exact readsAs_number h
  | text h =>
    rw [encodeCbor, cbor]
    exact readsAs_text h
  | list hsize _ ih => exact readsAs_list hsize ih
  | object hsize hnames _ ih => exact readsAs_object hsize hnames ih

/-- The bytes of a tree are read as the tree. -/
theorem parse_encodeCbor {node : Node} (h : node.Bounded .cbor maxDepth) :
    parse node.encodeCbor = some node.cbor := by
  have hread := readsAs_of_bounded h (2 * node.encodeCbor.length + 2) [] (by omega)
  rw [List.append_nil] at hread
  unfold parse
  rw [hread]

end CborItem

end ClassTrace
