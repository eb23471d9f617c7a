import Mathlib.Data.List.Find
import Mathlib.Data.Set.Card
import ClassTrace.Proofs.Heap

/-!
Keys and what maps make of them. A map holds one entry for each key that was put into it, with the
value of the latest put. The keys that programs use are null, strings and references; two of them
are held under one key if they have the same bytes, are boxes of the same number or refer to one
entry, and they are so for ever.
-/
namespace ClassTrace

/-- The key is compared by equality. Those of floats are not. -/
def Key.Plain : Key → Prop
  | .float _ | .double _ => False
  | _ => True

theorem Key.Plain.same_eq {k : Key} (hk : k.Plain) : k.same = fun k' => decide (k = k') := by
  funext k'
  cases k with
  | float v | double v => exact hk.elim
  | _ => rfl

namespace KeyedMap

variable {α : Type} {k k' : Key}

def ofPuts (puts : List (Key × α)) : KeyedMap α := puts.foldr (fun p m => m.put p.1 p.2) {}

theorem ofPuts_cons (p : Key × α) (puts : List (Key × α)) :
    ofPuts (p :: puts) = (ofPuts puts).put p.1 p.2 := rfl

def keys (m : KeyedMap α) : List Key := m.entries.map (·.1)

theorem contains_iff (hk : k.Plain) (m : KeyedMap α) : m.contains k = true ↔ k ∈ m.keys := by
  unfold contains keys
  rw [hk.same_eq, List.any_eq_true, List.mem_map]
  refine exists_congr fun e => and_congr_right fun _ => ?_
  rw [decide_eq_true_iff, eq_comm]

/-- A put adds its key at the end, or leaves the keys as they are. -/
theorem keys_put (hk : k.Plain) (m : KeyedMap α) (v : α) :
    (m.put k v).keys = if k ∈ m.keys then m.keys else m.keys ++ [k] := by
  unfold put
  by_cases hmem : k ∈ m.keys
  · rw [if_pos ((contains_iff hk m).mpr hmem), if_pos hmem, hk.same_eq]
    unfold keys
    rw [List.map_map]
    refine List.map_congr_left fun e _ => ?_
    by_cases hsame : k = e.1
    · simp [hsame]
    · simp [hsame]
  · rw [if_neg fun h => hmem ((contains_iff hk m).mp h), if_neg hmem]
    unfold keys
    rw [List.map_append]
    rfl

/-- Only the entry that is replaced is found to hold something else. -/
theorem find?_replace (k k' : Key) (v : α) (entries : List (Key × α)) :
    ((entries.map fun e => if k = e.1 then (k, v) else e).find? fun e => k' = e.1).map (·.2) =
      if k' = k ∧ k ∈ entries.map (·.1) then some v
      else (entries.find? fun e => k' = e.1).map (·.2) := by
  induction entries with
  | nil => simp
  | cons e entries ih =>
    obtain ⟨key, w⟩ := e
    simp only [List.map_cons, List.find?_cons, List.mem_cons]
    by_cases hreplaced : k = key
    · subst hreplaced
      by_cases hfound : k' = k
      · simp [hfound]
      · simp only [if_true, hfound, decide_false, ih, false_and, if_false]
    · by_cases hfound : k' = key
      · subst hfound
        simp [hreplaced, Ne.symm hreplaced]
      · simp only [hreplaced, if_false, hfound, decide_false, ih, false_or]

/-- A put is seen under its own key and under no other. -/
theorem get?_put (hk : k.Plain) (hk' : k'.Plain) (m : KeyedMap α) (v : α) :
    (m.put k v).get? k' = if k' = k then some v else m.get? k' := by
  unfold put
  by_cases hmem : k ∈ m.keys
  · rw [if_pos ((contains_iff hk m).mpr hmem)]
    unfold get?
    rw [hk.same_eq, hk'.same_eq]
    simp only [decide_eq_true_eq]
    refine (find?_replace k k' v m.entries).trans ?_
    exact if_congr (and_iff_left hmem) rfl rfl
  · rw [if_neg fun h => hmem ((contains_iff hk m).mp h)]
    unfold get?
    rw [List.find?_append, hk'.same_eq]
    by_cases hfound : k' = k
    · have hnone : m.entries.find? (fun e => decide (k' = e.1)) = none := by
        rw [List.find?_eq_none]
        intro e he heq
        refine hmem (List.mem_map.mpr ⟨e, he, ?_⟩)
        exact (of_decide_eq_true heq).symm.trans hfound
      rw [hnone]
      simp [hfound]
    · simp [hfound]

section Puts

variable {puts : List (Key × α)} (hplain : ∀ p ∈ puts, p.1.Plain)
include hplain

/-- A look-up finds the latest put under the key. -/
theorem get?_ofPuts (hk : k.Plain) :
    (ofPuts puts).get? k = (puts.find? fun p => k = p.1).map (·.2) := by
  induction puts with
  | nil => rfl
  | cons p puts ih =>
    rw [List.forall_mem_cons] at hplain
    rw [ofPuts_cons, get?_put hplain.1 hk, ih hplain.2, List.find?_cons]
    by_cases hfound : k = p.1
    · simp [hfound]
    · simp [hfound]

/-- There is one entry for each key put. -/
theorem keys_ofPuts :
    (ofPuts puts).keys.Nodup ∧ ∀ k, k ∈ (ofPuts puts).keys ↔ k ∈ puts.map (·.1) := by
  induction puts with
  | nil => exact ⟨List.nodup_nil, fun k => Iff.rfl⟩
  | cons p puts ih =>
    rw [List.forall_mem_cons] at hplain
    obtain ⟨hnodup, hmem⟩ := ih hplain.2
    rw [ofPuts_cons, keys_put hplain.1]
    by_cases hold : p.1 ∈ (ofPuts puts).keys
    · rw [if_pos hold]
      refine ⟨hnodup, fun k => ?_⟩
      rw [hmem k, List.map_cons, List.mem_cons]
      refine ⟨Or.inr, ?_⟩
      rintro (rfl | h)
      · exact (hmem p.1).mp hold
      · exact h
    · rw [if_neg hold]
      refine ⟨List.nodup_append.mpr ⟨hnodup, List.nodup_singleton _, ?_⟩, fun k => ?_⟩
      · rintro a ha b hb rfl
        exact hold (List.mem_singleton.mp hb ▸ ha)
      · rw [List.mem_append, hmem k, List.mem_singleton, List.map_cons, List.mem_cons]
        exact or_comm

theorem contains_ofPuts (hk : k.Plain) :
    (ofPuts puts).contains k = puts.any fun p => k = p.1 := by
  rw [Bool.eq_iff_iff, contains_iff hk, (keys_ofPuts hplain).2, List.any_eq_true, List.mem_map]
  refine exists_congr fun p => and_congr_right fun _ => ?_
  rw [decide_eq_true_iff, eq_comm]

/-- The size is the number of keys put. -/
theorem size_ofPuts : (ofPuts puts).size = (puts.map (·.1)).toFinset.card := by
  obtain ⟨hnodup, hmem⟩ := keys_ofPuts hplain
  have hset : (ofPuts puts).keys.toFinset = (puts.map (·.1)).toFinset := by
    ext k
    rw [List.mem_toFinset, List.mem_toFinset, hmem k]
  rw [← hset, List.toFinset_card_of_nodup hnodup]
  exact (List.length_map ..).symm

end Puts

end KeyedMap

def Entry.key (id : Int) : Entry → Key
  | .integer v => .int v
  | _ => .entry id

namespace Heap

/-- What programs can use as a key: null, a string or a reference to an entry. -/
def IsKey (h : Heap) : Value → Prop
  | .null | .string _ => True
  | .ref id => h.Has id
  | _ => False

/-- Equality of keys as programs see it: strings have the same bytes, boxes the same number, and
anything else is one entry. -/
def equivalent (h : Heap) : Value → Value → Bool
  | .null, .null => true
  | .string s, .string s' => s = s'
  | .ref id, .ref id' => match h.get? id, h.get? id' with
    | some (.integer v), some (.integer v') => v = v'
    | _, _ => id = id'
  | _, _ => false

variable {h h' : Heap} {k k' : Value}

theorem key_ref {id : Int} {e : Entry} (he : h.get? id = some e) :
    h.key (.ref id) = e.key id := by
  simp only [key, Value.payload, he]
  cases e <;> rfl

/-- The keys that programs can use are compared by equality. -/
theorem IsKey.plain (hk : h.IsKey k) : (h.key k).Plain := by
  cases k with
  | null | string s => trivial
  | ref id =>
    obtain ⟨e, he⟩ := get?_of_has hk
    rw [key_ref he]
    cases e <;> trivial
  | _ => exact hk.elim

theorem equivalent_ref {id id' : Int} {e e' : Entry} (he : h.get? id = some e)
    (he' : h.get? id' = some e') :
    h.equivalent (.ref id) (.ref id') = decide (e.key id = e'.key id') := by
  -- A box and another entry have different ids.
  have hdiffer : e ≠ e' → id ≠ id' := by
    rintro hne rfl
    exact hne (Option.some.inj (he.symm.trans he'))
  simp only [equivalent, he, he']
  cases e with
  | integer v =>
    cases e' with
    | integer v' => simp [Entry.key]
    | _ => simp [Entry.key, hdiffer nofun]
  | _ =>
    cases e' with
    | integer v' => simp [Entry.key, hdiffer nofun]
    | _ => simp [Entry.key]

theorem key_ref_ne {id : Int} (hid : h.Has id) :
    h.key (.ref id) ≠ .null ∧ ∀ s, h.key (.ref id) ≠ .string s := by
  obtain ⟨e, he⟩ := get?_of_has hid
  rw [key_ref he]
  cases e <;> exact ⟨nofun, fun _ => nofun⟩

/-- Keys are equivalent if maps hold them under the same key. -/
theorem equivalent_eq (hk : h.IsKey k) (hk' : h.IsKey k') :
    h.equivalent k k' = decide (h.key k = h.key k') := by
  cases k with
  | null =>
    cases k' with
    | null | string s' => rfl
    | ref id' => exact (decide_eq_false (key_ref_ne hk').1.symm).symm
    | _ => exact hk'.elim
  | string s =>
    cases k' with
    | null => rfl
    | string s' => simp [equivalent, key]
    | ref id' => exact (decide_eq_false ((key_ref_ne hk').2 s).symm).symm
    | _ => exact hk'.elim
  | ref id =>
    cases k' with
    | null => exact (decide_eq_false (key_ref_ne hk).1).symm
    | string s' => exact (decide_eq_false ((key_ref_ne hk).2 s')).symm
    | ref id' =>
      obtain ⟨e, he⟩ := get?_of_has hk
      obtain ⟨e', he'⟩ := get?_of_has hk'
      rw [equivalent_ref he he', key_ref he, key_ref he']
    | _ => exact hk'.elim
  | _ => exact hk.elim

/-- What is equivalent to a key is a key. -/
theorem IsKey.of_equivalent (hk : h.IsKey k) (heq : h.equivalent k k' = true) : h.IsKey k' := by
  cases k with
  | null | string s =>
    cases k' with
    | null | string s' => trivial
    | _ => cases heq
  | ref id =>
    cases k' with
    | ref id' =>
      simp only [equivalent] at heq
      split at heq
      · rename_i he'
        exact has_of_get? he'
      · cases of_decide_eq_true heq
        exact hk
    | _ => cases heq
  | _ => exact hk.elim

/-- Keys stay keys, and they stay the same. -/
theorem Evolves.key (hev : h.Evolves h') (hk : h.IsKey k) : h'.IsKey k ∧ h'.key k = h.key k := by
  cases k with
  | null | string s => exact ⟨trivial, rfl⟩
  | ref id =>
    obtain ⟨e, he⟩ := get?_of_has hk
    obtain ⟨e', he', hee⟩ := hev.get? he
    refine ⟨hev.has hk, ?_⟩
    rw [key_ref he, key_ref he']
    cases hee <;> rfl
  | _ => exact hk.elim

def latest? (h : Heap) (puts : List (Value × Value)) (k : Value) : Option Value :=
  (puts.find? fun p => h.equivalent k p.1).map (·.2)

noncomputable def classes (h : Heap) (keys : List Value) : Nat :=
  Set.ncard ((fun k => {k' | h.equivalent k k' = true}) '' {k | k ∈ keys})

/-- A map has one key for each class. -/
theorem card_keys {keys : List Value} (hkeys : ∀ k ∈ keys, h.IsKey k) :
    (keys.map h.key).toFinset.card = h.classes keys := by
  -- A class is all that its key stands for.
  let stands : Key → Set Value := fun key => {k | h.IsKey k ∧ h.key k = key}
  have hclass : ∀ k ∈ keys, {k' | h.equivalent k k' = true} = stands (h.key k) := by
    intro k hk
    ext k'
    constructor
    · intro (heq : h.equivalent k k' = true)
      have hk' := (hkeys k hk).of_equivalent heq
      rw [equivalent_eq (hkeys k hk) hk'] at heq
      exact ⟨hk', (of_decide_eq_true heq).symm⟩
    · rintro ⟨hk', heq⟩
      exact (equivalent_eq (hkeys k hk) hk').trans (decide_eq_true heq.symm)
  have hset : ((keys.map h.key).toFinset : Set Key) = h.key '' {k | k ∈ keys} := by
    ext key
    simp
  have hinj : Set.InjOn stands (h.key '' {k | k ∈ keys}) := by
    rintro _ ⟨k, hk, rfl⟩ key - heq
    have hmem : k ∈ stands (h.key k) := ⟨hkeys k hk, rfl⟩
    rw [heq] at hmem
    exact hmem.2
  have himage : (fun k => {k' | h.equivalent k k' = true}) '' {k | k ∈ keys} =
      stands '' (h.key '' {k | k ∈ keys}) :=
    (Set.image_congr hclass).trans (Set.image_image stands h.key _).symm
  unfold classes
  rw [himage, hinj.ncard_image, ← hset, Set.ncard_coe_finset]

end Heap

end ClassTrace
