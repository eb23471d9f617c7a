import ClassTrace.Proofs.CborRoundTrip
import ClassTrace.Proofs.ExactDoubles
import ClassTrace.Proofs.JsonRoundTrip
import ClassTrace.Trace.Archive

/-!
What a view shows of a value that a tree was read as. Where a document gives every name once, each
value is looked at alone. Both formats restore the texts, lists and records of a tree; integers
are restored where they are asked for, and are numbers of the format in data.
-/
namespace ClassTrace

namespace ValueView

variable {α β : Type} {view : ValueView α} {v : α}

theorem text_single {t : Bytes} (hnull : view.isNull v = false) (h : view.text? v = some t) :
    view.text [v] = some t := by
  simp [text, hnull, h]

theorem int_single {n : Int} (hnull : view.isNull v = false) (h : view.int? v = some n) :
    view.int [v] = some n := by
  simp [int, hnull, h]

theorem datum_single {d : Datum} (h : view.datum? v = some d) : view.datum [v] = some d := by
  simp [datum, h]

theorem record_single {get : String → List α} (hnull : view.isNull v = false)
    (h : view.members? v = some get) : view.record [v] = some get := by
  simp [record, hnull, h]

/-- The columns of one list are its items. -/
theorem columns_single (read : List α → Option β) (items : List α) :
    columns read [items] = items.mapM fun item => read [item] := by
  have hplaces :
      (List.range items.length).map (fun i => [items].filterMap fun items => items[i]?) =
      items.map fun item => [item] := by
    refine List.ext_getElem (by simp) fun i hi _ => ?_
    simp only [List.length_map, List.length_range] at hi
    simp [List.filterMap_cons, List.getElem?_eq_getElem hi]
  have hwidth : ([items].map List.length).foldl max 0 = items.length := Nat.zero_max ..
  unfold columns
  rw [hwidth]
  calc
    _ = ((List.range items.length).map fun i =>
          [items].filterMap fun items => items[i]?).mapM read := by
        rw [List.mapM_map]
        rfl
    _ = _ := by
        rw [hplaces, List.mapM_map]
        rfl

theorem mapM_of_forall₂ {read : α → Option β} {items : List α} {rows : List β}
    (h : List.Forall₂ (fun item row => read item = some row) items rows) :
    items.mapM read = some rows := by
  induction h with
  | nil => rfl
  | cons hrow _ ih => simp [List.mapM_cons, hrow, ih]

/-- Each item of a list that is given once is read alone. -/
theorem list_single {read : List α → Option β} {items : List α} {rows : List β}
    (hnull : view.isNull v = false) (h : view.list? v = some items)
    (hread : List.Forall₂ (fun item row => read [item] = some row) items rows) :
    view.list read [v] = some (some rows) := by
  have hlists : view.lists [v] = some [some items] := by simp [lists, hnull, h]
  have hrows : items.mapM (fun item => read [item]) = some rows := mapM_of_forall₂ hread
  have hlength := hread.length_eq
  unfold list
  rw [hlists]
  cases items with
  | nil =>
    cases hrows
    rfl
  | cons item rest =>
    have hgroups : groups [some (item :: rest)] = [[item :: rest]] := rfl
    simp only [Option.bind_eq_bind, Option.bind_some, hgroups, List.mapM_cons, List.mapM_nil,
      columns_single, hrows]
    simp [hlength]

end ValueView

def Archive.names : List String :=
  ["run_id", "classes", "functions", "trace", "name", "fields", "tag", "returnType",
    "parameters", "line", "event", "event_data"]

namespace Node

structure IsRecord (fields : List (Bytes × Node)) : Prop where
  known : ∀ f ∈ fields, ∃ name ∈ Archive.names, f.1 = Bytes.ofString name
  nodup : (fields.map (·.1)).Nodup

def values (fields : List (Bytes × Node)) (name : String) : List Node :=
  (fields.filter fun f => f.1 = Bytes.ofString name).map (·.2)

theorem length_values_le {fields : List (Bytes × Node)} (h : (fields.map (·.1)).Nodup)
    (name : String) :
    (values fields name).length ≤ 1 := by
  have hcount := List.nodup_iff_count_le_one.mp h (Bytes.ofString name)
  rw [List.count_eq_countP, List.countP_map, List.countP_eq_length_filter] at hcount
  rw [values, List.length_map]
  exact le_of_eq_of_le (congrArg List.length
    (List.filter_congr fun f _ => (beq_eq_decide ..).symm)) hcount

/-- The order of fields does not matter where each name stands once. -/
theorem values_of_perm {fields fields' : List (Bytes × Node)} (hperm : fields'.Perm fields)
    (h : (fields.map (·.1)).Nodup) (name : String) :
    values fields' name = values fields name := by
  have hvalues : (values fields' name).Perm (values fields name) := (hperm.filter _).map _
  have hlength := length_values_le h name
  cases hfields : values fields name with
  | nil =>
    rw [hfields] at hvalues
    exact hvalues.eq_nil
  | cons v rest =>
    rw [hfields, List.length_cons] at hlength
    have hrest : rest = [] := List.eq_nil_of_length_eq_zero (by omega)
    rw [hfields, hrest] at hvalues
    rw [hrest]
    exact hvalues.eq_singleton

theorem cbor_object (fields : List (Bytes × Node)) :
    (object fields).cbor = .map ((ordered fields).map fun f => (.text [f.1], f.2.cbor)) := by
  rw [cbor, cborFields_eq, ordered_map, List.map_map]
  rfl

end Node

theorem Datum.ofFields_of_nodup {fields : List (Bytes × Datum)} (h : (fields.map (·.1)).Nodup) :
    ofFields fields = .object fields := by
  suffices hfold : ∀ done : List (Bytes × Datum), ((done ++ fields).map (·.1)).Nodup →
      fields.foldl (fun all f => insert all f.1 f.2) done = done ++ fields by
    rw [ofFields, hfold [] h, List.nil_append]
  clear h
  induction fields with
  | nil => simp
  | cons f rest ih =>
    intro done hnodup
    have hfresh : insert done f.1 f.2 = done ++ [f] := by
      unfold insert
      rw [if_neg]
      simp only [List.map_append, List.map_cons, List.nodup_append, List.mem_map,
        List.mem_cons] at hnodup
      simp only [List.any_eq_true, decide_eq_true_eq, not_exists, not_and]
      intro g hg hname
      exact hnodup.2.2 g.1 ⟨g, hg, rfl⟩ f.1 (.inl rfl) hname
    rw [List.foldl_cons, hfresh, ih _ (by simpa using hnodup)]
    simp

theorem map_fst_of_forall₂ {fields : List (Bytes × Node)} {data : List (Bytes × Datum)}
    (h : List.Forall₂ (fun f d => f.1 = d.1) fields data) :
    fields.map (·.1) = data.map (·.1) := by
  induction h with
  | nil => rfl
  | cons hfield _ ih => rw [List.map_cons, List.map_cons, hfield, ih]

/-- A view restores trees from the values that they are read as. Texts come back as `text` says if
they are sound, and integers are `number` in data. -/
structure ValueView.Restores {α : Type} (view : ValueView α) (value : Node → α)
    (text : Bytes → Bytes) (number : Int → Datum) (Sound : Bytes → Prop) : Prop where
  plain (s : String) : Sound s ∧ text s = s
  notNull (node : Node) : view.isNull (value node) = false
  ofText {t : Bytes} (h : Sound t) : view.text? (value (.text t)) = some (text t)
  ofNumber {n : Int} (h : n.natAbs < 2 ^ 53) : view.int? (value (.number n)) = some n
  ofList (items : List Node) : view.list? (value (.list items)) = some (items.map value)
  ofRecord {fields : List (Bytes × Node)} (h : Node.IsRecord fields) :
    ∃ get, view.members? (value (.object fields)) = some get ∧
      ∀ name ∈ Archive.names, get name = (Node.values fields name).map value
  dataText {t : Bytes} (h : Sound t) : view.datum? (value (.text t)) = some (.text (text t))
  dataNumber {n : Int} (h : n.natAbs < 2 ^ 53) : view.datum? (value (.number n)) = some (number n)
  dataList {items : List Node} {data : List Datum}
    (h : List.Forall₂ (fun item d => view.datum? (value item) = some d) items data) :
    view.datum? (value (.list items)) = some (.list data)
  /-- The fields of a record may come back in another order. -/
  dataRecord {fields : List (Bytes × Node)} {data : List (Bytes × Datum)}
    (hplain : ∀ f ∈ fields, ∃ name : String, f.1 = Bytes.ofString name)
    (hnodup : (fields.map (·.1)).Nodup)
    (h : List.Forall₂ (fun f d => f.1 = d.1 ∧ view.datum? (value f.2) = some d.2) fields data) :
    ∃ fields', view.datum? (value (.object fields)) = some (.object fields') ∧ fields'.Perm data

/-- The names of a document match no other of them, whatever their case. -/
theorem Fold.matchesName_names :
    ∀ name ∈ Archive.names, ∀ key ∈ Archive.names, matchesName name key =
      decide (key = name) := by
  decide +kernel

/-- An integer that is a double is read as the integer. -/
theorem JsonNumber.int?_integer {n : Int} (h : n.natAbs < 2 ^ 53) :
    (integer n).int? = some n := by
  have hvalue : (if decide (n < 0) = true then -(n.natAbs : Int) else n.natAbs) = n := by
    by_cases hn : n < 0 <;> simp only [hn, decide_true, decide_false, if_true, Bool.false_eq_true,
      if_false] <;>
      omega
  change (fun value : Int => if -0x8000000000000000 ≤ value ∧
    value < 0x8000000000000000 then some value
    else none) (if decide (n < 0) = true then -(n.natAbs : Int) else n.natAbs) = some n
  rw [hvalue]
  exact if_pos (by omega)

theorem JsonNumber.float?_integer {n : Int} (h : n.natAbs < 2 ^ 53) :
    (integer n).float? = some (Binary.ofInt n) :=
  Binary.ofDecimal?_whole (n < 0) h

namespace JsonValue

theorem datumItems?_of_forall₂ {items : List Node} {data : List Datum}
    (h : List.Forall₂ (fun item d => datum? item.json = some d) items data) :
    datumItems? (items.map Node.json) = some data := by
  induction h with
  | nil => rfl
  | cons hitem _ ih => simp only [List.map_cons, datumItems?, hitem, ih]

theorem datumFields?_of_forall₂ {fields : List (Bytes × Node)} {data : List (Bytes × Datum)}
    (hplain : ∀ f ∈ fields, ∃ name : String, f.1 = Bytes.ofString name)
    (h : List.Forall₂ (fun f d => f.1 = d.1 ∧ datum? f.2.json = some d.2) fields data) :
    datumFields? (fields.map fun f => (Utf8.repaired f.1, f.2.json)) = some data := by
  induction h with
  | nil => rfl
  | @cons f d _ _ hfield _ ih =>
    obtain ⟨name, hname⟩ := hplain f (List.mem_cons_self ..)
    have hrest := ih fun g hg => hplain g (List.mem_cons_of_mem _ hg)
    have hkey : Utf8.repaired f.1 = d.1 := by
      rw [hname, Utf8.repaired_ofString, ← hname, hfield.1]
    simp only [List.map_cons, datumFields?, hfield.2, hrest, hkey]

/-- The values for a name of a document are those of its fields. -/
theorem members_json {fields : List (Bytes × Node)} (h : Node.IsRecord fields) {name : String}
    (hname : name ∈ Archive.names) :
    ((fields.map fun f => (Utf8.repaired f.1, f.2.json)).filter fun f =>
      Fold.matchesName name f.1).map (·.2) = (Node.values fields name).map Node.json := by
  rw [List.filter_map, List.map_map, Node.values, List.map_map]
  refine congrArg (List.map _) (List.filter_congr fun f hf => ?_)
  obtain ⟨key, hkey, hf⟩ := h.known f hf
  simp only [Function.comp_apply, hf, Utf8.repaired_ofString,
    Fold.matchesName_names name hname key hkey, Bytes.ofString_inj]

theorem view_restores :
    view.Restores Node.json Utf8.repaired (fun n => .float (Binary.ofInt n)) fun _ => True where
  plain s := ⟨trivial, Utf8.repaired_ofString s⟩
  notNull node := by cases node <;> rfl
  ofText _ := rfl
  ofNumber h := JsonNumber.int?_integer h
  ofList items := congrArg some (Node.jsonItems_eq items)
  ofRecord {fields} h := by
    refine ⟨_, rfl, fun name hname => ?_⟩
    rw [Node.jsonFields_eq]
    exact members_json h hname
  dataText _ := rfl
  dataNumber {n} h := by
    change (JsonNumber.integer n).float?.map Datum.float = _
    rw [JsonNumber.float?_integer h]
    rfl
  dataList {items data} h := by
    change (datumItems? (Node.jsonItems items)).map Datum.list = _
    rw [Node.jsonItems_eq, datumItems?_of_forall₂ h]
    rfl
  dataRecord {fields data} hplain hnodup h := by
    refine ⟨data, ?_, .refl data⟩
    change (datumFields? (Node.jsonFields fields)).map Datum.ofFields = _
    rw [map_fst_of_forall₂ (h.imp fun _ _ hfield => hfield.1)] at hnodup
    rw [Node.jsonFields_eq, datumFields?_of_forall₂ hplain h, Option.map_some,
      Datum.ofFields_of_nodup hnodup]

end JsonValue

namespace CborItem

theorem datumItems?_of_forall₂ {items : List Node} {data : List Datum}
    (h : List.Forall₂ (fun item d => datum? item.cbor = some d) items data) :
    datumItems? (items.map Node.cbor) = some data := by
  induction h with
  | nil => rfl
  | cons hitem _ ih => simp only [List.map_cons, datumItems?, hitem, ih]

theorem join?_single {t : Bytes} (h : Utf8.isValid t = true) : join? [t] = some t := by
  simp [join?, h]

theorem datumEntries?_of_forall₂ {fields : List (Bytes × Node)} {data : List (Bytes × Datum)}
    (hplain : ∀ f ∈ fields, ∃ name : String, f.1 = Bytes.ofString name)
    (h : List.Forall₂ (fun f d => f.1 = d.1 ∧ datum? f.2.cbor = some d.2) fields data) :
    datumEntries? (fields.map fun f => (.text [f.1], f.2.cbor)) = some data := by
  induction h with
  | nil => rfl
  | @cons f d _ _ hfield _ ih =>
    obtain ⟨name, hname⟩ := hplain f (List.mem_cons_self ..)
    have hrest := ih fun g hg => hplain g (List.mem_cons_of_mem _ hg)
    have hkey : text? (.text [f.1]) = some d.1 := by
      rw [← hfield.1, hname]
      exact join?_single (Utf8.isValid_ofString name)
    simp only [List.map_cons, datumEntries?, hfield.2, hrest, hkey]

/-- The values for a name of a document are those of its fields. -/
theorem members_cbor {fields : List (Bytes × Node)} (h : Node.IsRecord fields) {name : String}
    (hname : name ∈ Archive.names) :
    ((((Node.ordered fields).map fun f => (some f.1, f.2.cbor)).filter fun (key, _) =>
      match key with
      | some key => key.length = name.utf8ByteSize && Fold.matchesName name key
      | none => false).map (·.2)).take 1 = (Node.values fields name).map Node.cbor := by
  have hperm := Node.ordered_perm fields
  have hfilter : ∀ f ∈ Node.ordered fields,
      (decide (f.1.length = name.utf8ByteSize) && Fold.matchesName name f.1) =
        decide (f.1 = Bytes.ofString name) := by
    intro f hf
    obtain ⟨key, hkey, hf⟩ := h.known f (hperm.mem_iff.mp hf)
    by_cases heq : key = name
    · subst heq
      simp [hf, Fold.matchesName_names key hname key hkey, Bytes.length_ofString]
    · simp [hf, Fold.matchesName_names name hname key hkey, heq, Bytes.ofString_inj]
  have hlength := Node.length_values_le h.nodup name
  rw [← Node.values_of_perm hperm h.nodup name] at hlength ⊢
  rw [List.filter_map, List.map_map]
  calc _ = ((Node.values (Node.ordered fields) name).map Node.cbor).take 1 := by
        rw [Node.values, List.map_map]
        exact congrArg (fun l => (List.map _ l).take 1) (List.filter_congr hfilter)
    _ = _ := List.take_of_length_le (by rwa [List.length_map])

theorem int?_number {n : Int} (h : n.natAbs < 2 ^ 53) : (Node.number n).cbor.int? = some n := by
  rw [Node.cbor]
  by_cases hn : 0 ≤ n
  · have hvalue : (n.toNat : Int) = n := by omega
    rw [if_pos hn]
    change (if -0x8000000000000000 ≤ (n.toNat : Int) ∧ (n.toNat : Int) < 0x8000000000000000 then
      some (n.toNat : Int) else none) = some n
    rw [if_pos (by omega), hvalue]
  · have hvalue : -1 - ((-1 - n).toNat : Int) = n := by omega
    rw [if_neg hn]
    change (if -0x8000000000000000 ≤ -1 - ((-1 - n).toNat : Int) ∧
        -1 - ((-1 - n).toNat : Int) < 0x8000000000000000 then
      some (-1 - ((-1 - n).toNat : Int)) else none) = some n
    rw [if_pos (by omega), hvalue]

theorem datum?_number (n : Int) : (Node.number n).cbor.datum? = some (.int n) := by
  rw [Node.cbor]
  by_cases hn : 0 ≤ n
  · have hvalue : (n.toNat : Int) = n := by omega
    rw [if_pos hn, datum?, hvalue]
  · have hvalue : -1 - ((-1 - n).toNat : Int) = n := by omega
    rw [if_neg hn, datum?, hvalue]

theorem view_restores : view.Restores Node.cbor id .int fun t => Utf8.isValid t = true where
  plain s := ⟨Utf8.isValid_ofString s, rfl⟩
  notNull node := by
    cases node with
    | number n =>
      rw [Node.cbor]
      split <;> rfl
    | text t => rfl
    | list items => rfl
    | object fields => rfl
  ofText h := join?_single h
  ofNumber h := int?_number h
  ofList items := congrArg some (Node.cborItems_eq items)
  ofRecord {fields} h := by
    have hnamed : ((Node.ordered fields).map fun f => (text [f.1], f.2.cbor)).mapM
        (fun e => (name? e.1).map (·, e.2)) =
        some ((Node.ordered fields).map fun f => (some f.1, f.2.cbor)) := by
      refine ValueView.mapM_of_forall₂ ?_
      rw [List.forall₂_map_left_iff, List.forall₂_map_right_iff, List.forall₂_same]
      intro f hf
      obtain ⟨key, -, hkey⟩ := h.known f ((Node.ordered_perm fields).mem_iff.mp hf)
      have hvalid : Utf8.isValid f.1 = true := hkey ▸ Utf8.isValid_ofString key
      simp only [name?, join?_single hvalid, Option.map_some]
    refine ⟨_, ?_, fun name hname => members_cbor h hname⟩
    rw [Node.cbor_object]
    change Option.bind (List.mapM _ _) (fun named => _) = _
    rw [hnamed]
    rfl
  dataText h := by
    change (join? _).map Datum.text = _
    rw [join?_single h]
    rfl
  dataNumber _ := datum?_number _
  dataList {items data} h := by
    change (datumItems? (Node.cborItems items)).map Datum.list = _
    rw [Node.cborItems_eq, datumItems?_of_forall₂ h]
    rfl
  dataRecord {fields data} hplain hnodup h := by
    have hperm := Node.ordered_perm fields
    obtain ⟨data', hdata, hperm'⟩ := List.perm_comp_forall₂ hperm h
    have hnodup' : (data'.map (·.1)).Nodup := by
      rw [← map_fst_of_forall₂ (hdata.imp fun _ _ hfield => hfield.1)]
      exact (hperm.map _).nodup_iff.mpr hnodup
    refine ⟨data', ?_, hperm'⟩
    rw [show view.datum? = datum? from rfl, Node.cbor_object, datum?,
      datumEntries?_of_forall₂ (fun f hf => hplain f (hperm.mem_iff.mp hf))
      hdata, Option.map_some, Datum.ofFields_of_nodup hnodup']

end CborItem

end ClassTrace
