import ClassTrace.Heap
import ClassTrace.Proofs.Frame

/-!
How heaps change. Entries are never removed and stay what they are: an object keeps its class and
the names of its fields, an array its type and its length, a box its number. A value shown once is
therefore shown the same ever after, as long as it designates an entry.
-/
namespace ClassTrace

theorem mem_of_lookup {κ ω : Type} [BEq κ] [LawfulBEq κ] {l : List (κ × ω)} {k : κ} {v : ω}
    (h : l.lookup k = some v) : (k, v) ∈ l := by
  obtain ⟨front, back, rfl, -⟩ := List.lookup_eq_some_iff.mp h
  exact List.mem_append_right front (List.mem_cons_self ..)

namespace Fields

theorem map_fst_set (fields : Fields) (name : Bytes) (v : Value) :
    (fields.set name v).map (·.1) = fields.map (·.1) := by
  unfold set
  rw [List.map_map]
  refine List.map_congr_left fun f _ => ?_
  by_cases h : f.1 = name
  · simp [h]
  · simp [h]

theorem mem_set {fields : Fields} {name other : Bytes} {v w : Value}
    (h : (other, w) ∈ fields.set name v) : (other, w) ∈ fields ∨ w = v := by
  obtain ⟨f, hf, heq⟩ := List.mem_map.mp h
  by_cases hn : f.1 = name
  · rw [if_pos hn] at heq
    exact Or.inr (congrArg Prod.snd heq).symm
  · rw [if_neg hn] at heq
    exact Or.inl (heq ▸ hf)

/-- A field that is set has the new value, if it was there, and no other changes. -/
theorem get?_set (fields : Fields) (name other : Bytes) (v : Value) :
    (fields.set name v).get? other =
      if other = name then (fields.get? name).map fun _ => v else fields.get? other := by
  unfold get? set
  induction fields with
  | nil => simp
  | cons f rest ih =>
    obtain ⟨n, w⟩ := f
    by_cases hn : n = name
    · subst hn
      by_cases ho : other = n
      · subst ho
        simp
      · have hb : (other == n) = false := beq_eq_false_iff_ne.mpr ho
        simpa [List.lookup_cons, hb, ho] using ih
    · have hb : (name == n) = false := beq_eq_false_iff_ne.mpr (Ne.symm hn)
      by_cases ho : other = n
      · subst ho
        simp [hn]
      · have ho' : (other == n) = false := beq_eq_false_iff_ne.mpr ho
        simpa [List.lookup_cons, hn, hb, ho'] using ih

theorem mem_of_get? {fields : Fields} {name : Bytes} {v : Value} (h : fields.get? name = some v) :
    (name, v) ∈ fields :=
  mem_of_lookup h

theorem get?_of_mem {fields : Fields} {name : Bytes} (h : name ∈ fields.map (·.1)) :
    ∃ v, fields.get? name = some v := by
  unfold get?
  induction fields with
  | nil => cases h
  | cons f rest ih =>
    obtain ⟨n, v⟩ := f
    rw [List.lookup_cons]
    by_cases hn : name = n
    · exact ⟨v, by simp [hn]⟩
    · have hmem : name ∈ rest.map (·.1) := by simpa [hn] using h
      obtain ⟨w, hw⟩ := ih hmem
      have hb : (name == n) = false := beq_eq_false_iff_ne.mpr hn
      exact ⟨w, by simp only [hb, hw]⟩

/-- Which fields there are depends on the names alone. -/
theorem get?_of_names {fields fields' : Fields} (hnames : fields'.map (·.1) = fields.map (·.1))
    {name : Bytes} {v : Value} (hv : fields'.get? name = some v) :
    ∃ w, fields.get? name = some w := by
  have hmem : name ∈ fields.map (·.1) := hnames ▸ List.mem_map.mpr ⟨_, mem_of_get? hv, rfl⟩
  exact get?_of_mem hmem

theorem get?_fresh {names : List Bytes} {name : Bytes} {v : Value}
    (hv : (fresh names).get? name = some v) : v = .null := by
  obtain ⟨_, -, heq⟩ := List.mem_map.mp (mem_of_get? hv)
  cases heq
  rfl

end Fields

namespace Entry

def Mentions (e : Entry) (id : Int) : Prop :=
  match e with
  | .object _ fields => ∃ name, (name, .ref id) ∈ fields
  | .array _ elements => .ref id ∈ elements
  | .map m => ∃ key, (key, .ref id) ∈ m.entries
  | .integer _ | .stream _ => False

/-- What may become of an entry: contents change, the shape does not. -/
inductive Evolves : Entry → Entry → Prop
  | object (owner : Bytes) {fields fields' : Fields} :
      fields'.map (·.1) = fields.map (·.1) →
      Evolves (.object owner fields) (.object owner fields')
  | array (element : FieldType) {elements elements' : Array Value} :
      elements'.size = elements.size →
      Evolves (.array element elements) (.array element elements')
  | map (m m' : KeyedMap Value) : Evolves (.map m) (.map m')
  | integer (v : Int32) : Evolves (.integer v) (.integer v)
  | stream (s : PrintStream) : Evolves (.stream s) (.stream s)

theorem Evolves.refl (e : Entry) : e.Evolves e := by
  cases e with
  | object owner fields => exact .object owner rfl
  | array element elements => exact .array element rfl
  | integer v => exact .integer v
  | map m => exact .map m m
  | stream s => exact .stream s

theorem Evolves.trans {e e' e'' : Entry} (h : e.Evolves e') (h' : e'.Evolves e'') :
    e.Evolves e'' := by
  cases h with
  | object owner hn =>
    cases h' with
    | object _ hn' => exact .object owner (hn'.trans hn)
  | array element hs =>
    cases h' with
    | array _ hs' => exact .array element (hs'.trans hs)
  | map m m' =>
    cases h' with
    | map _ m'' => exact .map m m''
  | integer v => exact h'
  | stream s => exact h'

theorem Evolves.text {e e' : Entry} (h : e.Evolves e') (id : Int) : e'.text id = e.text id := by
  cases h <;> rfl

def Kept (e e' : Entry) : Prop := e' = e ∨ ∃ m m', e = .map m ∧ e' = .map m'

theorem Kept.trans {e e' e'' : Entry} (h : e.Kept e') (h' : e'.Kept e'') : e.Kept e'' := by
  rcases h with rfl | ⟨m, m', rfl, rfl⟩
  · exact h'
  · rcases h' with rfl | ⟨_, m'', -, rfl⟩
    · exact Or.inr ⟨m, m', rfl, rfl⟩
    · exact Or.inr ⟨m, m'', rfl, rfl⟩

theorem Kept.evolves {e e' : Entry} (h : e.Kept e') : e.Evolves e' := by
  rcases h with rfl | ⟨m, m', rfl, rfl⟩
  · exact Evolves.refl e'
  · exact .map m m'

end Entry

namespace KeyedMap

theorem mem_put {m : KeyedMap Value} {k key : Key} {v w : Value}
    (h : (key, w) ∈ (m.put k v).entries) : (∃ k', (k', w) ∈ m.entries) ∨ w = v := by
  unfold put at h
  split at h
  · obtain ⟨e, he, heq⟩ := List.mem_map.mp h
    split at heq
    · exact Or.inr (congrArg Prod.snd heq).symm
    · exact Or.inl ⟨key, heq ▸ he⟩
  · rcases List.mem_append.mp h with hold | hnew
    · exact Or.inl ⟨key, hold⟩
    · exact Or.inr (congrArg Prod.snd (List.mem_singleton.mp hnew))

theorem mem_of_get? {m : KeyedMap Value} {k : Key} {v : Value} (h : m.get? k = some v) :
    ∃ key, (key, v) ∈ m.entries := by
  obtain ⟨e, he, rfl⟩ := Option.map_eq_some_iff.mp h
  exact ⟨e.1, List.mem_of_find?_eq_some he⟩

end KeyedMap

namespace Heap

def Has (h : Heap) (id : Int) : Prop := 0 ≤ id ∧ id < h.size

def Mentions (h : Heap) (id : Int) : Prop :=
  ∃ (i : Nat) (e : Entry), h.entries[i]? = some e ∧ e.Mentions id

theorem get?_eq_some_iff {h : Heap} {id : Int} {e : Entry} :
    h.get? id = some e ↔ 0 ≤ id ∧ h.entries[id.toNat]? = some e := by
  unfold get?
  by_cases hid : id < 0
  · simp only [if_pos hid]
    constructor
    · intro he
      cases he
    · intro he
      omega
  · simp only [if_neg hid]
    constructor
    · exact fun he => ⟨by omega, he⟩
    · exact fun he => he.2

theorem has_of_get? {h : Heap} {id : Int} {e : Entry} (he : h.get? id = some e) : h.Has id := by
  obtain ⟨h0, he⟩ := get?_eq_some_iff.mp he
  have hlt : id.toNat < h.entries.size := (Array.getElem?_eq_some_iff.mp he).1
  refine ⟨h0, ?_⟩
  unfold size
  omega

theorem get?_of_has {h : Heap} {id : Int} (hid : h.Has id) : ∃ e, h.get? id = some e := by
  have hlt : id.toNat < h.entries.size := by
    have h1 := hid.1
    have h2 := hid.2
    unfold size at h2
    omega
  exact ⟨h.entries[id.toNat], get?_eq_some_iff.mpr ⟨hid.1, Array.getElem?_eq_getElem hlt⟩⟩

theorem get_eq_ok {h : Heap} {id : Int} {e : Entry} (he : h.get id = .ok e) :
    h.get? id = some e := by
  unfold get at he
  split at he
  · rename_i e' hget
    cases he
    exact hget
  · cases he

theorem object_eq_ok {h : Heap} {id : Int} {owner : Bytes} {fields : Fields}
    (ho : h.object id = .ok (owner, fields)) : h.get? id = some (.object owner fields) := by
  unfold object at ho
  cases he : h.get id with
  | error e =>
    rw [he] at ho
    cases ho
  | ok e =>
    rw [he] at ho
    cases e with
    | object _ _ =>
      cases ho
      exact get_eq_ok he
    | _ => cases ho

theorem array_eq_ok {h : Heap} {id : Int} {element : FieldType} {elements : Array Value}
    (ha : h.array id = .ok (element, elements)) : h.get? id = some (.array element elements) := by
  unfold array at ha
  cases he : h.get id with
  | error e =>
    rw [he] at ha
    cases ha
  | ok e =>
    rw [he] at ha
    cases e with
    | array _ _ =>
      cases ha
      exact get_eq_ok he
    | _ => cases ha

/-- The heap after some run: every entry is there and has kept its shape. -/
structure Evolves (h h' : Heap) : Prop where
  size : h.size ≤ h'.size
  entry : ∀ (i : Nat) (e : Entry), h.entries[i]? = some e →
    ∃ e', h'.entries[i]? = some e' ∧ e.Evolves e'

theorem Evolves.refl (h : Heap) : h.Evolves h :=
  ⟨Nat.le_refl _, fun _ e he => ⟨e, he, Entry.Evolves.refl e⟩⟩

theorem Evolves.trans {h h' h'' : Heap} (h₁ : h.Evolves h') (h₂ : h'.Evolves h'') :
    h.Evolves h'' := by
  refine ⟨Nat.le_trans h₁.size h₂.size, fun i e he => ?_⟩
  obtain ⟨e', he', hev⟩ := h₁.entry i e he
  obtain ⟨e'', he'', hev'⟩ := h₂.entry i e' he'
  exact ⟨e'', he'', hev.trans hev'⟩

/-- An entry is still there on an evolved heap, with its shape. -/
theorem Evolves.get? {h h' : Heap} (hev : h.Evolves h') {id : Int} {e : Entry}
    (he : h.get? id = some e) : ∃ e', h'.get? id = some e' ∧ e.Evolves e' := by
  obtain ⟨h0, he⟩ := get?_eq_some_iff.mp he
  obtain ⟨e', he', hev⟩ := hev.entry id.toNat e he
  exact ⟨e', get?_eq_some_iff.mpr ⟨h0, he'⟩, hev⟩

theorem Evolves.has {h h' : Heap} (hev : h.Evolves h') {id : Int} (hid : h.Has id) : h'.Has id :=
  ⟨hid.1, Int.lt_of_lt_of_le hid.2 (Int.ofNat_le.mpr hev.size)⟩

/-- A value that designates an entry, or none at all, is shown the same later. -/
theorem Evolves.display {h h' : Heap} (hev : h.Evolves h') {v : Value} (hv : v.Within h.Has) :
    h'.display v = h.display v := by
  cases v with
  | ref id =>
    obtain ⟨e, he⟩ := get?_of_has (hv id rfl)
    obtain ⟨e', he', hee⟩ := hev.get? he
    simp only [Heap.display, he, he']
    exact hee.text id
  | _ => rfl

/-- The heap after an action that reports nothing: maps may have changed, and each entry added is
a `Fresh` one. -/
structure Extends (Fresh : Entry → Prop) (h h' : Heap) : Prop where
  size : h.size ≤ h'.size
  kept : ∀ (i : Nat) (e : Entry), h.entries[i]? = some e →
    ∃ e', h'.entries[i]? = some e' ∧ e.Kept e'
  fresh : ∀ (i : Nat) (e : Entry), h.size ≤ i → h'.entries[i]? = some e → Fresh e

theorem Extends.evolves {Fresh : Entry → Prop} {h h' : Heap} (hx : h.Extends Fresh h') :
    h.Evolves h' := by
  refine ⟨hx.size, fun i e he => ?_⟩
  obtain ⟨e', he', hk⟩ := hx.kept i e he
  exact ⟨e', he', hk.evolves⟩

theorem Extends.refl (Fresh : Entry → Prop) (h : Heap) : h.Extends Fresh h := by
  refine ⟨Nat.le_refl _, fun i e he => ⟨e, he, Or.inl rfl⟩, fun i e hi he => ?_⟩
  have hlt := (Array.getElem?_eq_some_iff.mp he).1
  unfold Heap.size at hi
  omega

/-- Fresh entries may include maps in any state, so that they stay fresh while maps change. -/
theorem Extends.trans {Fresh : Entry → Prop} (hmap : ∀ m, Fresh (.map m)) {h h' h'' : Heap}
    (h₁ : h.Extends Fresh h') (h₂ : h'.Extends Fresh h'') : h.Extends Fresh h'' := by
  refine ⟨Nat.le_trans h₁.size h₂.size, fun i e he => ?_, fun i e hi he => ?_⟩
  · obtain ⟨e', he', hk⟩ := h₁.kept i e he
    obtain ⟨e'', he'', hk'⟩ := h₂.kept i e' he'
    exact ⟨e'', he'', hk.trans hk'⟩
  · by_cases hi' : h'.size ≤ i
    · exact h₂.fresh i e hi' he
    · have hlt : i < h'.entries.size := by
        unfold Heap.size at hi'
        omega
      have he' := Array.getElem?_eq_getElem hlt
      obtain ⟨e'', he'', hk⟩ := h₂.kept i _ he'
      have hfresh := h₁.fresh i _ hi he'
      rw [he''] at he
      cases he
      rcases hk with heq | ⟨m, m', -, hm⟩
      · rw [heq]
        exact hfresh
      · rw [hm]
        exact hmap m'

/-- An entry that was not there before is one that the transition may add. -/
theorem Extends.fresh_of_get? {Fresh : Entry → Prop} {h h' : Heap} (hx : h.Extends Fresh h')
    {id : Int} {e : Entry} (hnew : ¬ h.Has id) (he : h'.get? id = some e) : Fresh e := by
  obtain ⟨h0, he⟩ := get?_eq_some_iff.mp he
  refine hx.fresh id.toNat e ?_ he
  have hge : ¬ id < h.size := fun hlt => hnew ⟨h0, hlt⟩
  omega

/-- A heap with one fresh entry more extends the heap. -/
theorem extends_alloc {Fresh : Entry → Prop} (h : Heap) {e : Entry} (he : Fresh e) :
    h.Extends Fresh (h.alloc e) := by
  unfold alloc
  refine ⟨by simp [Heap.size], fun i e' he' => ⟨e', ?_, Or.inl rfl⟩, fun i e' hi he' => ?_⟩
  · have hlt := (Array.getElem?_eq_some_iff.mp he').1
    rw [Array.getElem?_push, if_neg (by omega)]
    exact he'
  · rw [Array.getElem?_push] at he'
    split at he'
    · cases he'
      exact he
    · have hlt := (Array.getElem?_eq_some_iff.mp he').1
      unfold Heap.size at hi
      omega

theorem mentions_alloc {h : Heap} {e : Entry} {id : Int} (hm : (h.alloc e).Mentions id) :
    h.Mentions id ∨ e.Mentions id := by
  obtain ⟨i, e', he', hm⟩ := hm
  unfold alloc at he'
  rw [Array.getElem?_push] at he'
  split at he'
  · cases he'
    exact Or.inr hm
  · exact Or.inl ⟨i, e', he', hm⟩

theorem getElem?_modify (h : Heap) (id : Int) (f : Entry → Entry) (i : Nat) :
    (h.modify id f).entries[i]? =
      if id.toNat = i then (h.entries[i]?).map f else h.entries[i]? := by
  unfold modify
  exact Array.getElem?_modify

theorem size_modify (h : Heap) (id : Int) (f : Entry → Entry) :
    (h.modify id f).size = h.size := by
  simp [Heap.size, modify]

/-- A modified entry mentions what it did before, or what the change brings in. -/
theorem mentions_modify {h : Heap} {target : Int} {f : Entry → Entry} {K : Int → Prop} {id : Int}
    (hf : ∀ e, (f e).Mentions id → e.Mentions id ∨ K id) (hm : (h.modify target f).Mentions id) :
    h.Mentions id ∨ K id := by
  obtain ⟨i, e, he, hm⟩ := hm
  rw [getElem?_modify] at he
  split at he
  · obtain ⟨e₀, he₀, rfl⟩ := Option.map_eq_some_iff.mp he
    rcases hf e₀ hm with hold | hnew
    · exact Or.inl ⟨i, e₀, he₀, hold⟩
    · exact Or.inr hnew
  · exact Or.inl ⟨i, e, he, hm⟩

theorem mentions_setField {h : Heap} {target : Int} {name : Bytes} {v : Value} {id : Int}
    (hm : (h.setField target name v).Mentions id) : h.Mentions id ∨ v = .ref id := by
  refine mentions_modify (K := fun id => v = .ref id) (fun e he => ?_) hm
  cases e with
  | object owner fields =>
    obtain ⟨n, hn⟩ := he
    rcases Fields.mem_set hn with hold | hnew
    · exact Or.inl ⟨n, hold⟩
    · exact Or.inr hnew.symm
  | _ => exact Or.inl he

theorem mentions_setElement {h : Heap} {target : Int} {index : Nat} {v : Value} {id : Int}
    (hm : (h.setElement target index v).Mentions id) : h.Mentions id ∨ v = .ref id := by
  refine mentions_modify (K := fun id => v = .ref id) (fun e he => ?_) hm
  cases e with
  | array element elements =>
    rcases Array.mem_or_eq_of_mem_setIfInBounds he with hold | hnew
    · exact Or.inl hold
    · exact Or.inr hnew.symm
  | _ => exact Or.inl he

/-- What a map is replaced by may mention anything; other entries stay. -/
theorem mentions_setMap {h : Heap} {target : Int} {m : KeyedMap Value} {id : Int}
    (hm : (h.setMap target m).Mentions id) : h.Mentions id ∨ (Entry.map m).Mentions id := by
  refine mentions_modify (K := (Entry.map m).Mentions) (fun e he => ?_) hm
  cases e with
  | map _ => exact Or.inr he
  | _ => exact Or.inl he

/-- A put into a map changes no entry but the map. -/
theorem extends_setMap {Fresh : Entry → Prop} (h : Heap) (target : Int) (m : KeyedMap Value) :
    h.Extends Fresh (h.setMap target m) := by
  have hsize : (h.setMap target m).size = h.size := size_modify ..
  refine ⟨Nat.le_of_eq hsize.symm, fun i e he => ?_, fun i e hi he => ?_⟩
  · unfold setMap
    rw [getElem?_modify, he]
    split
    · cases e with
      | map m₀ => exact ⟨.map m, rfl, Or.inr ⟨m₀, m, rfl, rfl⟩⟩
      | _ => exact ⟨_, rfl, Or.inl rfl⟩
    · exact ⟨e, rfl, Or.inl rfl⟩
  · have hlt := (Array.getElem?_eq_some_iff.mp he).1
    unfold Heap.size at hi hsize
    omega

theorem get?_modify (h : Heap) (target : Int) (f : Entry → Entry) (id : Int) :
    (h.modify target f).get? id =
      if target.toNat = id.toNat then (h.get? id).map f else h.get? id := by
  unfold get?
  by_cases hid : id < 0
  · simp [hid]
  · simp only [if_neg hid]
    exact getElem?_modify h target f id.toNat

/-- A change that keeps the texts of entries shows in no value. -/
theorem display_modify {h : Heap} {target : Int} {f : Entry → Entry}
    (hf : ∀ e id, (f e).text id = e.text id) (v : Value) :
    (h.modify target f).display v = h.display v := by
  cases v with
  | ref id =>
    simp only [display, get?_modify]
    by_cases ht : target.toNat = id.toNat
    · rw [if_pos ht]
      cases h.get? id with
      | none => rfl
      | some e => exact hf e id
    · rw [if_neg ht]
  | _ => rfl

theorem display_setField (h : Heap) (target : Int) (name : Bytes) (w v : Value) :
    (h.setField target name w).display v = h.display v := by
  refine display_modify (fun e id => ?_) v
  cases e <;> rfl

theorem display_setElement (h : Heap) (target : Int) (index : Nat) (w v : Value) :
    (h.setElement target index w).display v = h.display v := by
  refine display_modify (fun e id => ?_) v
  cases e <;> rfl

end Heap

end ClassTrace
