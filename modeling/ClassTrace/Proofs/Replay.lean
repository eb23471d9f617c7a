import ClassTrace.Proofs.References

/-!
Stores can be replayed from the trace. The stores reported for one field or one element form a
chain: each starts with the text that the one before it ended with, the first with the text of
what was there when the entry was made, and the last ends with the text of what is there now. This
takes that every change of the heap is reported, with the value it replaces, and that a value is
shown the same ever after.
-/
namespace ClassTrace

inductive Cell where
  | field (object : Int) (name : Bytes)
  | element (array index : Int)
deriving DecidableEq

/-- The store that an event reports: its cell, the text of the old value and that of the new
one. -/
def Event.store? : Event → Option (Cell × Bytes × Bytes)
  | .setField _ object field old new _ => some (.field object field, old, new)
  | .setElement _ array index old new _ => some (.element array index, old, new)
  | _ => none

namespace Cell

def id : Cell → Int
  | .field object _ => object
  | .element array _ => array

def stores (c : Cell) (es : List Event) : List (Bytes × Bytes) :=
  es.filterMap fun e => match e.store? with
    | some (d, texts) => if d = c then some texts else none
    | none => none

theorem stores_append (c : Cell) (es fs : List Event) :
    c.stores (es ++ fs) = c.stores es ++ c.stores fs := by
  unfold stores
  exact List.filterMap_append

theorem stores_eq_nil (c : Cell) {es : List Event} (h : ∀ e ∈ es, e.store? = none) :
    c.stores es = [] := by
  unfold stores
  refine List.filterMap_eq_nil_iff.mpr fun e he => ?_
  rw [h e he]

theorem stores_single (c : Cell) {e : Event} {d : Cell} {texts : Bytes × Bytes}
    (h : e.store? = some (d, texts)) : c.stores [e] = if d = c then [texts] else [] := by
  unfold stores
  by_cases hd : d = c
  · simp [h, hd]
  · simp [h, hd]

end Cell

/-- Each store starts where the one before it ended. -/
inductive Chain : Bytes → List (Bytes × Bytes) → Bytes → Prop
  | nil (text : Bytes) : Chain text [] text
  | cons {old new last : Bytes} {rest : List (Bytes × Bytes)} (h : Chain new rest last) :
      Chain old ((old, new) :: rest) last

/-- Chains that meet make one chain. -/
theorem Chain.append {a b c : Bytes} {xs ys : List (Bytes × Bytes)} (h : Chain a xs b)
    (h' : Chain b ys c) : Chain a (xs ++ ys) c := by
  induction h with
  | nil => exact h'
  | cons _ ih => exact .cons (ih h')

namespace Heap

def cell? (h : Heap) : Cell → Option Value
  | .field object name => match h.get? object with
    | some (.object _ fields) => fields.get? name
    | _ => none
  | .element array index => match h.get? array with
    | some (.array _ elements) => if 0 ≤ index then elements[index.toNat]? else none
    | _ => none

theorem has_of_cell? {h : Heap} {c : Cell} {v : Value} (hv : h.cell? c = some v) :
    h.Has c.id := by
  cases c with
  | field object name =>
    simp only [cell?] at hv
    split at hv
    · rename_i hget
      exact has_of_get? hget
    · cases hv
  | element array index =>
    simp only [cell?] at hv
    split at hv
    · rename_i hget
      exact has_of_get? hget
    · cases hv

theorem get?_modify_self {h : Heap} {target : Int} {f : Entry → Entry} {e : Entry}
    (he : h.get? target = some e) : (h.modify target f).get? target = some (f e) := by
  rw [get?_modify, if_pos rfl, he]
  rfl

theorem get?_modify_of_ne {h : Heap} {target id : Int} {f : Entry → Entry} {e : Entry}
    (he : h.get? target = some e) (hne : id ≠ target) :
    (h.modify target f).get? id = h.get? id := by
  rw [get?_modify]
  by_cases hid : id < 0
  · simp [get?, hid]
  · have h0 := (get?_eq_some_iff.mp he).1
    rw [if_neg (by omega)]

/-- A store into a field changes one cell. -/
theorem cell?_setField {h : Heap} {id : Int} {owner name : Bytes} {fields : Fields}
    {old v : Value} (hget : h.get? id = some (.object owner fields))
    (hold : fields.get? name = some old) (c : Cell) :
    (h.setField id name v).cell? c = if Cell.field id name = c then some v else h.cell? c := by
  unfold setField
  cases c with
  | field object other =>
    by_cases hid : object = id
    · subst hid
      by_cases hname : other = name
      · simp [cell?, get?_modify_self hget, Fields.get?_set, hname, hold]
      · have hne : Cell.field object name ≠ .field object other := by
          rintro h
          cases h
          exact hname rfl
        simp [cell?, get?_modify_self hget, hget, Fields.get?_set, hname, hne]
    · have hne : Cell.field id name ≠ .field object other := by
        rintro h
        cases h
        exact hid rfl
      simp only [cell?, get?_modify_of_ne hget hid, if_neg hne]
  | element array index =>
    have hne : Cell.field id name ≠ .element array index := nofun
    rw [if_neg hne]
    by_cases hid : array = id
    · subst hid
      simp only [cell?, get?_modify_self hget, hget]
    · simp only [cell?, get?_modify_of_ne hget hid]

theorem cell?_setElement {h : Heap} {id : Int} {element : FieldType} {elements : Array Value}
    {index : Nat} {old v : Value} (hget : h.get? id = some (.array element elements))
    (hold : elements[index]? = some old) (c : Cell) :
    (h.setElement id index v).cell? c =
      if Cell.element id index = c then some v else h.cell? c := by
  unfold setElement
  have hlt : index < elements.size := (Array.getElem?_eq_some_iff.mp hold).1
  cases c with
  | field object name =>
    have hne : Cell.element id index ≠ .field object name := nofun
    rw [if_neg hne]
    by_cases hid : object = id
    · subst hid
      simp only [cell?, get?_modify_self hget, hget]
    · simp only [cell?, get?_modify_of_ne hget hid]
  | element array other =>
    by_cases hid : array = id
    · subst hid
      by_cases hother : other = index
      · subst hother
        simp [cell?, get?_modify_self hget, hlt]
      · have hne : Cell.element array index ≠ .element array other := by
          rintro h
          cases h
          exact hother rfl
        simp only [cell?, get?_modify_self hget, hget, if_neg hne]
        by_cases h0 : 0 ≤ other
        · simp only [if_pos h0]
          exact Array.getElem?_setIfInBounds_ne (by omega)
        · simp only [if_neg h0]
    · have hne : Cell.element id index ≠ .element array other := by
        rintro h
        cases h
        exact hid rfl
      simp only [cell?, get?_modify_of_ne hget hid, if_neg hne]

/-- Cells keep what they hold while entries are only added and maps changed. -/
theorem Extends.cell? {Fresh : Entry → Prop} {h h' : Heap} (hx : h.Extends Fresh h') {c : Cell}
    {v : Value} (hv : h.cell? c = some v) : h'.cell? c = some v := by
  have hkept : ∀ {id : Int} {e : Entry}, h.get? id = some e → (∀ m, e ≠ .map m) →
      h'.get? id = some e := by
    intro id e he hmap
    obtain ⟨h0, he⟩ := get?_eq_some_iff.mp he
    obtain ⟨e', he', hk⟩ := hx.kept id.toNat e he
    rcases hk with rfl | ⟨m, _, rfl, -⟩
    · exact get?_eq_some_iff.mpr ⟨h0, he'⟩
    · exact absurd rfl (hmap m)
  cases c with
  | field object name =>
    simp only [Heap.cell?] at hv ⊢
    split at hv
    · rename_i hget
      rw [hkept hget nofun]
      exact hv
    · cases hv
  | element array index =>
    simp only [Heap.cell?] at hv ⊢
    split at hv
    · rename_i hget
      rw [hkept hget nofun]
      exact hv
    · cases hv

/-- Cells of an entry that was there before were there before. -/
theorem Evolves.cell?_of_has {h h' : Heap} (hev : h.Evolves h') {c : Cell} {v : Value}
    (hhas : h.Has c.id) (hv : h'.cell? c = some v) : ∃ w, h.cell? c = some w := by
  obtain ⟨e, he⟩ := get?_of_has hhas
  obtain ⟨e', he', hshape⟩ := hev.get? he
  cases c with
  | field object name =>
    simp only [Heap.cell?, Cell.id] at he he' hv ⊢
    rw [he'] at hv
    rw [he]
    cases hshape with
    | object owner hnames => exact Fields.get?_of_names hnames hv
    | _ => cases hv
  | element array index =>
    simp only [Heap.cell?, Cell.id] at he he' hv ⊢
    rw [he'] at hv
    rw [he]
    cases hshape with
    | array element hsize =>
      dsimp only at hv ⊢
      split at hv
      · rename_i h0
        have hlt := (Array.getElem?_eq_some_iff.mp hv).1
        rw [hsize] at hlt
        exact ⟨_, by rw [if_pos h0]; exact Array.getElem?_eq_getElem hlt⟩
      · cases hv
    | _ => cases hv

theorem evolves_modify (h : Heap) (target : Int) {f : Entry → Entry}
    (hf : ∀ e : Entry, e.Evolves (f e)) :
    h.Evolves (h.modify target f) := by
  refine ⟨Nat.le_of_eq (size_modify h target f).symm, fun i e he => ?_⟩
  rw [getElem?_modify, he]
  split
  · exact ⟨f e, rfl, hf e⟩
  · exact ⟨e, rfl, .refl e⟩

theorem evolves_setField (h : Heap) (id : Int) (name : Bytes) (v : Value) :
    h.Evolves (h.setField id name v) := by
  refine evolves_modify h id fun e => ?_
  cases e with
  | object owner fields => exact .object owner (Fields.map_fst_set fields name v)
  | _ => exact .refl _

theorem evolves_setElement (h : Heap) (id : Int) (index : Nat) (v : Value) :
    h.Evolves (h.setElement id index v) := by
  refine evolves_modify h id fun e => ?_
  cases e with
  | array element elements => exact .array element (by simp)
  | _ => exact .refl _

end Heap

namespace Machine

/-- What a transition does to the heap, with the events it records: it adds entries and changes
maps without a store, or it makes one store. -/
inductive Writes (m m' : Machine) : List Event → Prop
  | extend {es : List Event} (hx : m.heap.Extends (Fresh m.program m.library) m'.heap)
      (hes : ∀ e ∈ es, e.store? = none) : Writes m m' es
  | texts {args : List Bytes} (h : m' = m.pushTexts args) : Writes m m' []
  | field {line id : Int} {owner name tag : Bytes} {fields : Fields} {old v : Value}
      (hget : m.heap.get? id = some (.object owner fields)) (hold : fields.get? name = some old)
      (h : m'.heap = m.heap.setField id name v) :
      Writes m m' [.setField line id name (m.heap.display old) (m.heap.display v) tag]
  | element {line id : Int} {element : FieldType} {elements : Array Value} {index : Nat}
      {old v : Value} {tag : Bytes} (hget : m.heap.get? id = some (.array element elements))
      (hold : elements[index]? = some old) (h : m'.heap = m.heap.setElement id index v) :
      Writes m m' [.setElement line id index (m.heap.display old) (m.heap.display v) tag]

/-- The arguments of a program are added as one array. -/
theorem extends_pushTexts (m : Machine) (args : List Bytes) :
    m.heap.Extends (· = .array (.object "java/lang/String") (args.map Value.string).toArray)
      (m.pushTexts args).heap :=
  Heap.extends_alloc m.heap rfl

theorem Quiet.writes {m m' : Machine} (h : m.Quiet m') : Writes m m' [] :=
  .extend h.heap nofun

theorem Announces.heap {e : Event} {m m' : Machine} (h : Announces e m m') :
    m'.heap = m.heap := by
  obtain ⟨console, rfl⟩ := h
  rfl

theorem Enters.writes {start m m' : Machine} {method : Method} (hq : start.Quiet m)
    (h : Enters start m method m') :
    ∃ es, Writes start m' es ∧
      (start.settings.recording = true → m'.events = start.events ++ es) := by
  obtain ⟨hcode, hdepth, hbegins, hstack, hreturn, hsrc, h⟩ := h
  refine ⟨_, .extend ?_ ?_, fun hr => (h.appends hq hr rfl rfl).2.1⟩
  · rw [h.heap]
    exact hq.heap
  · exact fun e he => List.mem_singleton.mp he ▸ rfl

/-- A step records one store for each change of a cell. -/
theorem Finishes.writes {start m' : Machine} {i : Instruction} (h : Finishes start i m') :
    ∃ es, Writes start m' es ∧
      (start.settings.recording = true → m'.events = start.events ++ es) := by
  obtain ⟨m, hq, hend⟩ := h
  cases hend with
  | silent | library => exact ⟨[], hq.writes, fun _ => by rw [hq.events, List.append_nil]⟩
  | assign hheap hi hm hold hset hv h =>
    refine ⟨_, .extend ?_ ?_, fun hr => (h.appends hq hr rfl rfl).2.1⟩
    · rw [h.heap]
      exact hq.heap
    · exact fun e he => List.mem_singleton.mp he ▸ rfl
  | setField hheap hi hget hold hv h =>
    refine ⟨_, ?_, fun hr => (h.appends hq hr rfl rfl).2.1⟩
    rw [hheap] at hget ⊢
    exact .field hget hold (by rw [h.heap, hheap])
  | setElement hheap hget hold hstorable hv h =>
    refine ⟨_, ?_, fun hr => (h.appends hq hr rfl rfl).2.1⟩
    rw [hheap] at hget ⊢
    exact .element hget hold (by rw [h.heap, hheap])
  | call hheap href howner h => exact h.writes hq
  | ret hheap hsome hv h =>
    cases h with
    | toHost hm h | toCaller hm h =>
      refine ⟨_, .extend ?_ ?_, fun hr => (h.appends hq hr rfl rfl).2.1⟩
      · rw [h.heap]
        exact hq.heap
      · exact fun e he => List.mem_singleton.mp he ▸ rfl

/-- Every transition writes at most one cell, and reports it. -/
theorem Transition.writes {Pushable : Machine → Value → Prop} {m m' : Machine}
    (ht : Transition Pushable m m') :
    ∃ es, Writes m m' es ∧ (m.settings.recording = true → m'.events = m.events ++ es) := by
  -- Most transitions leave the events and all cells alone.
  have hnone : m'.events = m.events → m.heap.Extends (Fresh m.program m.library) m'.heap →
      ∃ es, Writes m m' es ∧ (m.settings.recording = true → m'.events = m.events ++ es) := by
    intro hev hx
    exact ⟨[], .extend hx nofun, fun _ => by rw [hev, List.append_nil]⟩
  cases ht with
  | push | configure => exact hnone rfl (.refl _ _)
  | pop hm h =>
    unfold hostPop at h
    split at h
    · cases h
    · cases h
      exact hnone rfl (.refl _ _)
  | texts hm args => exact ⟨[], .texts rfl, fun _ => by rw [List.append_nil]; rfl⟩
  | enter hm h =>
    obtain ⟨m₁, hq, -, he⟩ := (ends_enter (Quiet.refl m)).of_ok h
    exact he.writes hq
  | refuse hm h =>
    have hq := (ends_enter (Quiet.refl m)).of_error h
    exact hnone hq.events hq.heap
  | step h =>
    obtain ⟨hne, hstep⟩ := h
    obtain ⟨f, rest, hm⟩ := List.exists_cons_of_ne_nil hne
    obtain ⟨i, -, hi⟩ := step_ok hm hstep
    exact hi.writes
  | fault hm h =>
    have hq := step_error h
    exact hnone hq.events hq.heap

section

variable {m m' : Machine} {es : List Event}

theorem Writes.evolves (h : Writes m m' es) : m.heap.Evolves m'.heap := by
  cases h with
  | extend hx => exact hx.evolves
  | texts h =>
    subst h
    exact (extends_pushTexts m _).evolves
  | field hget hold h => exact h ▸ Heap.evolves_setField ..
  | element hget hold h => exact h ▸ Heap.evolves_setElement ..

theorem mentions_of_cell? {c : Cell} {id : Int} (hv : m.heap.cell? c = some (.ref id)) :
    m.Mentions id := by
  cases c with
  | field object name =>
    simp only [Heap.cell?] at hv
    split at hv
    · rename_i hget
      exact within_field hget hv id rfl
    · cases hv
  | element array index =>
    simp only [Heap.cell?] at hv
    split at hv
    · rename_i hget
      split at hv
      · exact within_element hget hv id rfl
      · cases hv
    · cases hv

/-- The stores of a transition lead each cell from what it held to what it holds. -/
theorem Writes.chain (h : Writes m m' es) (hs : m.Sound) {c : Cell} {v : Value}
    (hv : m.heap.cell? c = some v) :
    ∃ w, m'.heap.cell? c = some w ∧
      Chain (m.heap.display v) (c.stores es) (m'.heap.display w) := by
  have hsame : m'.heap.display v = m.heap.display v := by
    refine h.evolves.display ?_
    rintro id rfl
    exact hs id (mentions_of_cell? hv)
  have hnil : m'.heap.cell? c = some v → c.stores es = [] →
      ∃ w, m'.heap.cell? c = some w ∧
        Chain (m.heap.display v) (c.stores es) (m'.heap.display w) := by
    intro hcell hstores
    exact ⟨v, hcell, by rw [hstores, hsame]; exact .nil _⟩
  cases h with
  | extend hx hes => exact hnil (hx.cell? hv) (c.stores_eq_nil hes)
  | texts h =>
    subst h
    exact hnil ((extends_pushTexts m _).cell? hv) rfl
  | field hget hold h =>
    rename_i line id owner name tag fields old w
    have hcell := Heap.cell?_setField (v := w) hget hold c
    rw [← h] at hcell
    rw [c.stores_single rfl]
    by_cases hc : Cell.field id name = c
    · rw [if_pos hc] at hcell
      have hv' : v = old := by
        rw [← hc] at hv
        simp only [Heap.cell?, hget, hold, Option.some.injEq] at hv
        exact hv.symm
      refine ⟨w, hcell, ?_⟩
      rw [if_pos hc, hv', h, Heap.display_setField]
      exact .cons (.nil _)
    · rw [if_neg hc] at hcell ⊢
      exact ⟨v, hcell.trans hv, hsame ▸ .nil _⟩
  | element hget hold h =>
    rename_i line id element elements index old w tag
    have hcell := Heap.cell?_setElement (v := w) hget hold c
    rw [← h] at hcell
    rw [c.stores_single rfl]
    by_cases hc : Cell.element id index = c
    · rw [if_pos hc] at hcell
      have hv' : v = old := by
        rw [← hc] at hv
        simp only [Heap.cell?, hget, Int.natCast_nonneg, if_true, Int.toNat_natCast, hold,
          Option.some.injEq] at hv
        exact hv.symm
      refine ⟨w, hcell, ?_⟩
      rw [if_pos hc, hv', h, Heap.display_setElement]
      exact .cons (.nil _)
    · rw [if_neg hc] at hcell ⊢
      exact ⟨v, hcell.trans hv, hsame ▸ .nil _⟩

/-- No store is reported for an entry that is not there yet. -/
theorem Writes.stores_new (h : Writes m m' es) {c : Cell} (hc : ¬ m.heap.Has c.id) :
    c.stores es = [] := by
  cases h with
  | extend hx hes => exact c.stores_eq_nil hes
  | texts => rfl
  | field hget =>
    rw [c.stores_single rfl, if_neg]
    rintro rfl
    exact hc (Heap.has_of_get? hget)
  | element hget =>
    rw [c.stores_single rfl, if_neg]
    rintro rfl
    exact hc (Heap.has_of_get? hget)

end

section

variable {program : Class} {library : Library}

/-- A new object has the declared fields, all null. -/
theorem Fresh.fields_eq {owner : Bytes} {fields : Fields}
    (h : Fresh program library (.object owner fields)) :
    fields = Fields.fresh program.fieldNames := by
  generalize he : Entry.object owner fields = e at h
  cases h with
  | object =>
    cases he
    rfl
  | built hb =>
    rename_i b
    cases b with
    | object =>
      cases he
      rfl
    | _ => cases he
  | _ => cases he

/-- The default library makes no arrays, so those made while running start with null. -/
theorem Fresh.elements_null {element : FieldType} {elements : Array Value} {index : Nat}
    {v : Value} (h : Fresh program .default (.array element elements))
    (hv : elements[index]? = some v) :
    v = .null := by
  generalize he : Entry.array element elements = e at h
  cases h with
  | array =>
    cases he
    exact Array.eq_of_mem_replicate (Array.mem_of_getElem? hv)
  | built hb =>
    simp only [Library.default, List.mem_singleton, Prod.mk.injEq, Maker.build.injEq] at hb
    rw [hb.2] at he
    cases he
  | _ => cases he

end

/-- What a cell of a new entry holds: null, or an argument of the program. -/
theorem Writes.initial {m m' : Machine} {es : List Event} (h : Writes m m' es)
    (hlib : m.library = .default) {c : Cell} {v : Value} (hnew : ¬ m.heap.Has c.id)
    (hv : m'.heap.cell? c = some v) :
    v = .null ∨ ∃ args array index text, m' = m.pushTexts args ∧ c = .element array index ∧
      args[index.toNat]? = some text ∧ v = .string text := by
  cases h with
  | extend hx hes =>
    rw [hlib] at hx
    refine Or.inl ?_
    cases c with
    | field object name =>
      simp only [Heap.cell?] at hv
      split at hv
      · rename_i hget
        have hfields := (hx.fresh_of_get? hnew hget).fields_eq
        exact Fields.get?_fresh (hfields ▸ hv)
      · cases hv
    | element array index =>
      simp only [Heap.cell?] at hv
      split at hv
      · rename_i hget
        split at hv
        · exact (hx.fresh_of_get? hnew hget).elements_null hv
        · cases hv
      · cases hv
  | texts h =>
    rename_i args
    subst h
    refine Or.inr ⟨args, ?_⟩
    have hx := extends_pushTexts m args
    cases c with
    | field object name =>
      simp only [Heap.cell?] at hv
      split at hv
      · rename_i hget
        cases hx.fresh_of_get? hnew hget
      · cases hv
    | element array index =>
      simp only [Heap.cell?] at hv
      split at hv
      · rename_i hget
        split at hv
        · cases hx.fresh_of_get? hnew hget
          rw [List.getElem?_toArray, List.getElem?_map] at hv
          obtain ⟨text, htext, rfl⟩ := Option.map_eq_some_iff.mp hv
          exact ⟨array, index, text, rfl, rfl, htext, rfl⟩
        · cases hv
      · cases hv
  | field hget hold h =>
    have hhas := Heap.has_of_cell? hv
    have hsize : m'.heap.size = m.heap.size := h ▸ Heap.size_modify ..
    exact absurd ⟨hhas.1, hsize ▸ hhas.2⟩ hnew
  | element hget hold h =>
    have hhas := Heap.has_of_cell? hv
    have hsize : m'.heap.size = m.heap.size := h ▸ Heap.size_modify ..
    exact absurd ⟨hhas.1, hsize ▸ hhas.2⟩ hnew

/-- A host that pushes existing references only keeps the machine free of others. -/
theorem Sound.transition {m m' : Machine} (hs : m.Sound) (ht : Transition Designates m m') :
    m'.Sound := by
  obtain ⟨es, hw, -⟩ := ht.writes
  have hev := hw.evolves
  intro id hid
  rcases ht.mentions hid with (hold | ⟨hge, hlt⟩) | ⟨v, hv, rfl⟩
  · exact hev.has (hs id hold)
  · exact ⟨by omega, hlt⟩
  · exact hev.has (hv id rfl)

def Shaped (m : Machine) : Prop :=
  ∀ id owner fields, m.heap.get? id = some (.object owner fields) →
    fields.map (·.1) = m.program.fieldNames.eraseDups

/-- Objects keep their fields through every write. -/
theorem Shaped.writes {m m' : Machine} {es : List Event} (hs : m.Shaped)
    (hp : m'.program = m.program) (hw : Writes m m' es) : m'.Shaped := by
  intro id owner fields hget
  rw [hp]
  by_cases hhas : m.heap.Has id
  · obtain ⟨e, he⟩ := Heap.get?_of_has hhas
    obtain ⟨e', he', hev⟩ := hw.evolves.get? he
    rw [hget] at he'
    cases he'
    cases hev with
    | object _ hnames => exact hnames.trans (hs id owner _ he)
  · cases hw with
    | extend hx =>
      rw [(hx.fresh_of_get? hhas hget).fields_eq]
      simp [Fields.fresh, Function.comp_def]
    | texts h =>
      subst h
      cases (extends_pushTexts m _).fresh_of_get? hhas hget
    | field _ _ h | element _ _ h =>
      have hsize : m'.heap.size = m.heap.size := h ▸ Heap.size_modify ..
      have hhas' := Heap.has_of_get? hget
      exact absurd ⟨hhas'.1, hsize ▸ hhas'.2⟩ hhas

/-- The text of what element `index` of the array held when the array was made, on the way from
`start` to `m`. It is null, unless the array was made of the arguments of the program. -/
def Allotted (start m : Machine) (id index : Int) (text : Bytes) : Prop :=
  ∃ m₁ m₂ v, Reaches Designates start m₁ ∧ Transition Designates m₁ m₂ ∧ Reaches Designates m₂ m ∧
    ¬ m₁.heap.Has id ∧ m₂.heap.cell? (.element id index) = some v ∧ text = m₂.heap.display v ∧
    (v = .null ∨ ∃ args arg, m₂ = m₁.pushTexts args ∧ args[index.toNat]? = some arg ∧
      v = .string arg)

def Origin (start m : Machine) (text : Bytes) : Cell → Prop
  | .field _ _ => text = "null"
  | .element id index => Allotted start m id index text

/-- What holds of every state that the host can bring a machine to. -/
structure Replayable (start m : Machine) : Prop where
  program : m.program = start.program
  library : m.library = .default
  recording : m.settings.recording = true
  sound : m.Sound
  shaped : m.Shaped
  silent : ∀ c : Cell, ¬ m.heap.Has c.id → c.stores m.events = []
  chained : ∀ (c : Cell) (v : Value), m.heap.cell? c = some v →
    ∃ text, Origin start m text c ∧ Chain text (c.stores m.events) (m.heap.display v)

theorem Origin.mono {start m m' : Machine} {text : Bytes} {c : Cell} (h : Origin start m text c)
    (hr : Reaches Designates m m') : Origin start m' text c := by
  cases c with
  | field object name => exact h
  | element id index =>
    obtain ⟨m₁, m₂, v, hm₁, ht, hm₂, hv⟩ := h
    exact ⟨m₁, m₂, v, hm₁, ht, hm₂.trans hr, hv⟩

/-- If the stores were a chain up to a state, they are one after any transition. -/
theorem Replayable.transition {start m m' : Machine} (h : Replayable start m)
    (hreach : Reaches Designates start m) (ht : Transition Designates m m') :
    Replayable start m' := by
  obtain ⟨hp, hl, hrec⟩ := ht.kept
  obtain ⟨es, hw, hev⟩ := ht.writes
  have hev := hev h.recording
  refine ⟨hp.trans h.program, hl.trans h.library, hrec.trans h.recording, h.sound.transition ht,
    h.shaped.writes hp hw, fun c hc => ?_, fun c v hv => ?_⟩
  · have hold : ¬ m.heap.Has c.id := fun hhas => hc (hw.evolves.has hhas)
    rw [hev, c.stores_append, h.silent c hold, hw.stores_new hold]
    rfl
  · rw [hev, c.stores_append]
    by_cases hhas : m.heap.Has c.id
    · obtain ⟨w, hw'⟩ := hw.evolves.cell?_of_has hhas hv
      obtain ⟨text, horigin, hchain⟩ := h.chained c w hw'
      obtain ⟨v', hv', hchain'⟩ := hw.chain h.sound hw'
      cases hv.symm.trans hv'
      exact ⟨text, horigin.mono (.single ht), hchain.append hchain'⟩
    · rw [h.silent c hhas, hw.stores_new hhas]
      refine ⟨m'.heap.display v, ?_, .nil _⟩
      have hfirst := hw.initial h.library hhas hv
      cases c with
      | field object name =>
        rcases hfirst with rfl | ⟨_, _, _, _, _, hc, _⟩
        · rfl
        · cases hc
      | element id index =>
        refine ⟨m, m', v, hreach, ht, .refl, hhas, hv, rfl, ?_⟩
        rcases hfirst with hnull | ⟨args, _, _, arg, heq, hc, harg, hv⟩
        · exact Or.inl hnull
        · cases hc
          exact Or.inr ⟨args, arg, heq, harg, hv⟩

theorem not_mentions_default (id : Int) : ¬ Library.default.Mentions id := by
  rintro (⟨key, h⟩ | ⟨owner, element, elements, h, -⟩ | ⟨key, h⟩)
  · simp [Library.default] at h
  · simp [Library.default] at h
  · simp [Library.default] at h

theorem sound_start (program : Class) (settings : Settings) (runId : Bytes) (console : Console) :
    (start program .default settings runId console).Sound := by
  obtain ⟨document, console', -, hstart⟩ := start_eq program .default settings runId console
  rw [hstart]
  intro id hid
  exfalso
  cases hid with
  | host h => cases h
  | frame hf h => cases hf
  | heap h =>
    rcases Heap.mentions_alloc (h := {}) h with ⟨i, e, he, -⟩ | hobject
    · simp at he
    · exact not_mentions_newObject program id hobject
  | static h => cases h
  | library h => exact not_mentions_default id h

theorem replayable_start (program : Class) {settings : Settings} (runId : Bytes)
    (console : Console) (hr : settings.recording = true) :
    Replayable (start program .default settings runId console)
      (start program .default settings runId console) := by
  have hsound := sound_start program settings runId console
  obtain ⟨document, console', htrace, hstart⟩ := start_eq program .default settings runId console
  rw [hstart] at hsound ⊢
  have hfresh : ∀ {id : Int} {e : Entry}, Heap.get? ⟨#[program.newObject]⟩ id = some e →
      Fresh program .default e := by
    intro id e he
    refine (Heap.extends_alloc (h := {}) .object).fresh_of_get? ?_ he
    rintro ⟨h0, hlt⟩
    simp only [Heap.size, Array.size_empty] at hlt
    omega
  have hevents : Machine.events
      { program, library := .default, settings, document, console := console',
        heap := ⟨#[program.newObject]⟩ } = [] := by
    unfold Machine.events
    rw [htrace]
  refine ⟨rfl, rfl, hr, hsound, fun id owner fields hget => ?_, fun c _ => by rw [hevents]; rfl,
    fun c v hv => ?_⟩
  · rw [(hfresh hget).fields_eq]
    simp [Fields.fresh, Function.comp_def]
  · rw [hevents]
    cases c with
    | field object name =>
      simp only [Heap.cell?] at hv
      split at hv
      · rename_i hget
        cases Fields.get?_fresh ((hfresh hget).fields_eq ▸ hv)
        exact ⟨"null", rfl, .nil _⟩
      · cases hv
    | element array index =>
      simp only [Heap.cell?] at hv
      split at hv
      · rename_i hget
        -- The only entry is an object.
        have h0 := (Heap.get?_eq_some_iff.mp hget).2
        rcases hn : array.toNat with _ | n
        · rw [hn] at h0
          cases h0
        · rw [hn] at h0
          simp at h0
      · cases hv

/-- The stores are a chain in every state that the host can reach. -/
theorem Reaches.replayable {start m : Machine} (hstart : Replayable start start)
    (h : Reaches Designates start m) : Replayable start m := by
  induction h with
  | refl => exact hstart
  | tail hr ht ih => exact ih.transition hr ht

/-- Entries keep their shape on every way of the host. -/
theorem Reaches.evolves {Pushable : Machine → Value → Prop} {m m' : Machine}
    (h : Reaches Pushable m m') : m.heap.Evolves m'.heap := by
  induction h with
  | refl => exact .refl _
  | tail _ ht ih =>
    obtain ⟨es, hw, -⟩ := ht.writes
    exact ih.trans hw.evolves

/-- The stores of every field and every element are a chain from the first text to the present
one, and values are shown the same ever after. -/
theorem stores_replay (program : Class) (settings : Settings) (runId : Bytes) (console : Console)
    (m : Machine) (hrecording : settings.recording = true)
    (hreach : Reaches Designates (start program .default settings runId console) m) :
    (∀ id owner fields name, m.heap.get? id = some (.object owner fields) →
      name ∈ program.fieldNames →
      ∃ v, fields.get? name = some v ∧
        Chain "null" (Cell.stores (.field id name) m.events) (m.heap.display v)) ∧
    (∀ (id : Int) (element : FieldType) (elements : Array Value) (index : Nat) (v : Value),
      m.heap.get? id = some (.array element elements) → elements[index]? = some v →
      ∃ text, Allotted (start program .default settings runId console) m id index text ∧
        Chain text (Cell.stores (.element id index) m.events) (m.heap.display v)) ∧
    (∀ m' v, Reaches Designates m m' → (∀ id, v = .ref id → m.Mentions id ∨ m.heap.Has id) →
      m'.heap.display v = m.heap.display v) := by
  have hrep := hreach.replayable (replayable_start program runId console hrecording)
  have hprogram : m.program = program := by
    rw [hrep.program]
    obtain ⟨_, _, -, hstart⟩ := start_eq program .default settings runId console
    rw [hstart]
  refine ⟨?_, ?_, ?_⟩
  · intro id owner fields name hget hname
    have hnames := hrep.shaped id owner fields hget
    rw [hprogram] at hnames
    have hmem : name ∈ fields.map (·.1) := hnames ▸ List.mem_eraseDups.mpr hname
    obtain ⟨v, hv⟩ := Fields.get?_of_mem hmem
    have hcell : m.heap.cell? (.field id name) = some v := by
      simp only [Heap.cell?, hget, hv]
    obtain ⟨text, horigin, hchain⟩ := hrep.chained _ v hcell
    cases horigin
    exact ⟨v, hv, hchain⟩
  · intro id element elements index v hget hv
    have hcell : m.heap.cell? (.element id index) = some v := by
      simp only [Heap.cell?, hget, Int.natCast_nonneg, if_true, Int.toNat_natCast, hv]
    exact hrep.chained _ v hcell
  · intro m' v hm' hv
    refine hm'.evolves.display fun id hid => ?_
    rcases hv id hid with hheld | hhas
    · exact hrep.sound id hheld
    · exact hhas

def storing : Class where
  name := "T"
  super := []
  pool := #[none, some (.fieldRef ⟨⟨"T", 0⟩, ⟨"x", "I", .plain (.value (.primitive .int))⟩,
    .value (.primitive .int)⟩)]
  fields := [⟨"x", .primitive .int, true⟩]
  methods := [
    { owner := "T", name := "main", descriptor := "()V", signature := ⟨[], .void⟩,
      isStatic := true, maxStack := 3,
      code := #[0x04, 0xB3, 0, 1, 0x05, 0xB3, 0, 1, 0x04, 0xBC, 10, 0x03, 0x08, 0x4F, 0xB1] }]

def storingRun : Machine := storing.after (.byName "main") 20

/-- Two stores into a static field and one into a new array. Those into the field form a chain
from null to what the field holds. -/
theorem stores_replay_storing :
    Reaches Designates (start storing .default {} [] {}) storingRun ∧
      storingRun.events = [.call (-1) "main" "static" [], .setField (-1) 0 "x" "null" "1" [],
        .setField (-1) 0 "x" "1" "2" [], .setElement (-1) 1 0 "null" "5" [], .ret (-1) "void"] ∧
      ∃ owner fields v, storingRun.heap.get? 0 = some (.object owner fields) ∧
        fields.get? "x" = some v ∧
        Chain "null" (Cell.stores (.field 0 "x") storingRun.events)
          (storingRun.heap.display v) := by
  have hreach : Reaches Designates (start storing .default {} [] {}) storingRun :=
    storing.reaches_after _ _
  have hobject : (storingRun.heap.get? 0).map Entry.sort = some .object := by decide +kernel
  refine ⟨hreach, by decide +kernel, ?_⟩
  cases hget : storingRun.heap.get? 0 with
  | none =>
    rw [hget] at hobject
    cases hobject
  | some e =>
    rw [hget] at hobject
    cases e with
    | object owner fields =>
      obtain ⟨v, hv, hchain⟩ :=
        (stores_replay storing {} [] {} storingRun rfl hreach).1 0 owner fields "x"
        hget (by decide)
      exact ⟨owner, fields, v, rfl, hv, hchain⟩
    | _ => cases hobject

end Machine

end ClassTrace
