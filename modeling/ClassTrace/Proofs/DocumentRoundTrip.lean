import ClassTrace.Proofs.ValueViews

/-!
Documents survive their encoding. What a recorder was told is what a reader of the document finds,
as JSON with every stray byte of a text replaced and as CBOR, which has room for less, without any
change.
-/
namespace ClassTrace

section Rows

variable (text : Bytes → Bytes) (number : Int → Datum)

def ClassInfo.row (c : ClassInfo) : ClassRow where
  name := text c.name
  fields := some (c.fields.map text)
  tag := text c.tag

def FunctionInfo.row (f : FunctionInfo) : FunctionRow where
  name := text f.name
  returnType := text f.returnType
  params := some (f.params.map text)

/-- What an event tells beside its line, name and tag, by the names that a document has for it. -/
def Event.payload : Event → List (Bytes × Datum)
  | .assign _ name old new _ =>
    [("name", .text (text name)), ("oldValue", .text (text old)), ("newValue", .text (text new))]
  | .setField _ object field old new _ =>
    [("objectId", number object), ("fieldName", .text (text field)), ("oldVal", .text (text old)),
      ("newVal", .text (text new))]
  | .setElement _ array index old new _ =>
    [("arrayId", number array), ("index", number index), ("oldValue", .text (text old)),
      ("newValue", .text (text new))]
  | .call _ function _ args =>
    [("funcName", .text (text function)), ("args", .list (args.map fun arg => .text (text arg)))]
  | .ret _ value => [("value", .text (text value))]

/-- A row tells of an event. The order of the fields of its data is open. -/
structure EventRow.Tells (e : Event) (row : EventRow) : Prop where
  line : row.line = e.line
  event : row.event = e.name
  tag : row.tag = text e.tag
  data : ∃ fields, row.data = .object fields ∧ fields.Perm (e.payload text number)

/-- An archive has the run, the classes, the functions and the events of a document, all in their
order. -/
structure Archive.Tells (d : Document) (a : Archive) : Prop where
  runId : a.runId = text d.runId
  classes : a.classes = some (d.classes.toList.map (ClassInfo.row text))
  functions : a.functions = some (d.functions.toList.map (FunctionInfo.row text))
  trace :
    ∃ rows, a.trace = some rows ∧ List.Forall₂ (EventRow.Tells text number) d.trace.toList rows

end Rows

namespace Node

@[simp]
theorem values_nil (name : String) : values [] name = [] := rfl

@[simp]
theorem values_cons (s : String) (v : Node) (rest : List (Bytes × Node)) (name : String) :
    values ((Bytes.ofString s, v) :: rest) name =
      if s = name then v :: values rest name else values rest name := by
  unfold values
  by_cases h : s = name
  · simp [h]
  · simp [h, Bytes.ofString_inj]

@[simp]
theorem values_append (fields rest : List (Bytes × Node)) (name : String) :
    values (fields ++ rest) name = values fields name ++ values rest name := by
  simp [values]

@[simp]
theorem values_unlessEmpty (s : String) (text : Bytes) (name : String) :
    values (unlessEmpty s text) name = if s = name ∧ text ≠ [] then [.text text] else [] := by
  unfold unlessEmpty
  cases text <;> simp

theorem isRecord_of_sublist {fields : List (Bytes × Node)} (names : List String)
    (h : (fields.map (·.1)).Sublist (names.map Bytes.ofString))
    (hknown : ∀ name ∈ names, name ∈ Archive.names) (hnodup : names.Nodup) : IsRecord fields where
  known f hf := by
    obtain ⟨name, hname, heq⟩ := List.mem_map.mp (h.subset (List.mem_map_of_mem hf))
    exact ⟨name, hknown name hname, heq.symm⟩
  nodup := h.nodup (hnodup.map fun _ _ => Bytes.ofString_inj.mp)

theorem names_unlessEmpty (s : String) (text : Bytes) :
    ((unlessEmpty s text).map (·.1)).Sublist [Bytes.ofString s] := by
  unfold unlessEmpty
  split
  · exact List.nil_sublist _
  · exact List.Sublist.refl _

end Node

namespace ValueView.Restores

variable {α : Type} {view : ValueView α} {value : Node → α} {text : Bytes → Bytes}
  {number : Int → Datum} {Sound : Bytes → Prop} (R : view.Restores value text number Sound)

include R

theorem text_single {t : Bytes} (h : Sound t) : view.text [value (.text t)] = some (text t) :=
  ValueView.text_single (R.notNull _) (R.ofText h)

/-- A text that is left out is empty. -/
theorem text_optional {t : Bytes} (h : Sound t) :
    view.text ((if t ≠ [] then [.text t] else []).map value) = some (text t) := by
  by_cases ht : t = []
  · subst ht
    exact congrArg some (R.plain "").2.symm
  · rw [if_pos ht]
    exact R.text_single h

theorem list_single {β γ : Type} {read : List α → Option β} {items : List γ} {node : γ → Node}
    {rows : List β}
    (h : List.Forall₂ (fun item row => read [value (node item)] = some row) items rows) :
    view.list read [value (.list (items.map node))] = some (some rows) := by
  refine ValueView.list_single (R.notNull _) (R.ofList _) ?_
  rw [List.forall₂_map_left_iff, List.forall₂_map_left_iff]
  exact h

theorem list_map {β γ : Type} {read : List α → Option β} {items : List γ} {node : γ → Node}
    {row : γ → β} (h : ∀ item ∈ items, read [value (node item)] = some (row item)) :
    view.list read [value (.list (items.map node))] = some (some (items.map row)) := by
  refine R.list_single ?_
  rw [List.forall₂_map_right_iff, List.forall₂_same]
  exact h

theorem texts_single {ts : List Bytes} (h : ∀ t ∈ ts, Sound t) :
    view.texts [value (Node.texts ts)] = some (some (ts.map text)) :=
  R.list_map fun t ht => R.text_single (h t ht)

/-- A record is read through its fields. -/
theorem record_single {fields : List (Bytes × Node)} (h : Node.IsRecord fields) :
    ∃ get, view.record [value (.object fields)] = some get ∧
      ∀ name ∈ Archive.names, get name = (Node.values fields name).map value := by
  obtain ⟨get, hget, hvalues⟩ := R.ofRecord h
  exact ⟨get, ValueView.record_single (R.notNull _) hget, hvalues⟩

/-- A class is read back from its record. -/
theorem classRow_node {c : ClassInfo} (h : ∀ t ∈ (Report.classInfo c).texts, Sound t) :
    view.classRow [value c.node] = some (c.row text) := by
  simp only [Report.texts, List.mem_cons, forall_eq_or_imp] at h
  obtain ⟨hname, htag, hfields⟩ := h
  have hrecord :
      Node.IsRecord ([(("name" : Bytes), .text c.name), ("fields", Node.texts c.fields)] ++
      Node.unlessEmpty "tag" c.tag) := by
    refine Node.isRecord_of_sublist ["name", "fields", "tag"] ?_ (by decide) (by decide)
    rw [List.map_append]
    exact (List.Sublist.refl _).append (Node.names_unlessEmpty ..)
  obtain ⟨get, hget, hvalues⟩ := R.record_single hrecord
  have hgetName : get "name" = [value (.text c.name)] := by simp [hvalues "name" (by decide)]
  have hgetFields : get "fields" = [value (Node.texts c.fields)] := by
    simp [hvalues "fields" (by decide)]
  have hgetTag : get "tag" = (if c.tag ≠ [] then [.text c.tag] else []).map value := by
    simp [hvalues "tag" (by decide)]
  unfold ValueView.classRow ClassInfo.node
  rw [hget]
  simp only [Option.bind_eq_bind, Option.bind_some, hgetName, hgetFields, hgetTag,
    R.text_single hname, R.texts_single hfields, R.text_optional htag]
  rfl

theorem functionRow_node {f : FunctionInfo} (h : ∀ t ∈ (Report.function f).texts, Sound t) :
    view.functionRow [value f.node] = some (f.row text) := by
  simp only [Report.texts, List.mem_cons, forall_eq_or_imp] at h
  obtain ⟨hname, htype, hparams⟩ := h
  have hrecord : Node.IsRecord [("name", .text f.name), ("returnType", .text f.returnType),
      ("parameters", Node.texts f.params)] :=
    Node.isRecord_of_sublist ["name", "returnType", "parameters"] (List.Sublist.refl _)
      (by decide) (by decide)
  obtain ⟨get, hget, hvalues⟩ := R.record_single hrecord
  have hgetName : get "name" = [value (.text f.name)] := by simp [hvalues "name" (by decide)]
  have hgetType : get "returnType" = [value (.text f.returnType)] := by
    simp [hvalues "returnType" (by decide)]
  have hgetParams : get "parameters" = [value (Node.texts f.params)] := by
    simp [hvalues "parameters" (by decide)]
  unfold ValueView.functionRow FunctionInfo.node
  rw [hget]
  simp only [Option.bind_eq_bind, Option.bind_some, hgetName, hgetType, hgetParams,
    R.text_single hname, R.text_single htype, R.texts_single hparams]
  rfl

/-- The data of an event is its payload. -/
theorem datum_data {e : Event} (htexts : ∀ t ∈ e.texts, Sound t)
    (hnumbers : ∀ n ∈ e.numbers, n.natAbs < 2 ^ 53) :
    ∃ fields, view.datum? (value (.object e.data)) = some (.object fields) ∧
      fields.Perm (e.payload text number) := by
  have hplain : ∀ f ∈ e.data, ∃ name : String, f.1 = Bytes.ofString name := by
    cases e <;> simp [Event.data]
  have hnodup : (e.data.map (·.1)).Nodup := by
    cases e <;> simp [Event.data, Bytes.ofString_inj]
  refine R.dataRecord hplain hnodup ?_
  cases e with
  | assign line name old new tag =>
    simp only [Event.texts, List.mem_cons, forall_eq_or_imp] at htexts
    obtain ⟨hname, hold, hnew, -⟩ := htexts
    exact .cons ⟨rfl, R.dataText hname⟩
      (.cons ⟨rfl, R.dataText hold⟩ (.cons ⟨rfl, R.dataText hnew⟩ .nil))
  | setField line object field old new tag =>
    simp only [Event.texts, Event.numbers, List.mem_cons, forall_eq_or_imp] at htexts hnumbers
    obtain ⟨hfield, hold, hnew, -⟩ := htexts
    exact .cons ⟨rfl, R.dataNumber hnumbers.2.1⟩ (.cons ⟨rfl, R.dataText hfield⟩
      (.cons ⟨rfl, R.dataText hold⟩ (.cons ⟨rfl, R.dataText hnew⟩ .nil)))
  | setElement line array index old new tag =>
    simp only [Event.texts, Event.numbers, List.mem_cons, forall_eq_or_imp] at htexts hnumbers
    obtain ⟨hold, hnew, -⟩ := htexts
    exact .cons ⟨rfl, R.dataNumber hnumbers.2.1⟩ (.cons ⟨rfl, R.dataNumber hnumbers.2.2.1⟩
      (.cons ⟨rfl, R.dataText hold⟩ (.cons ⟨rfl, R.dataText hnew⟩ .nil)))
  | call line function kind args =>
    simp only [Event.texts, List.mem_cons, forall_eq_or_imp] at htexts
    obtain ⟨hfunction, -, hargs⟩ := htexts
    have hlist : view.datum? (value (Node.texts args)) =
        some (.list (args.map fun arg => .text (text arg))) := by
      refine R.dataList ?_
      rw [List.forall₂_map_left_iff, List.forall₂_map_right_iff, List.forall₂_same]
      exact fun arg harg => R.dataText (hargs arg harg)
    exact .cons ⟨rfl, R.dataText hfunction⟩ (.cons ⟨rfl, hlist⟩ .nil)
  | ret line result =>
    simp only [Event.texts, List.mem_singleton, forall_eq] at htexts
    exact .cons ⟨rfl, R.dataText htexts⟩ .nil

/-- An event is read back as a row that tells of it. -/
theorem eventRow_node {e : Event} (htexts : ∀ t ∈ e.texts, Sound t)
    (hnumbers : ∀ n ∈ e.numbers, n.natAbs < 2 ^ 53) :
    ∃ row, view.eventRow [value e.node] = some row ∧ row.Tells text number e := by
  have hrecord : Node.IsRecord ([(("line" : Bytes), .number e.line), ("event", .text e.name),
      ("event_data", .object e.data)] ++ Node.unlessEmpty "tag" e.tag) := by
    refine Node.isRecord_of_sublist ["line", "event", "event_data", "tag"] ?_ (by decide)
      (by decide)
    rw [List.map_append]
    exact (List.Sublist.refl _).append (Node.names_unlessEmpty ..)
  have hline : e.line.natAbs < 2 ^ 53 :=
    hnumbers _ (by cases e <;> simp [Event.numbers, Event.line])
  have htag : Sound e.tag := by
    cases e with
    | ret => exact (R.plain "").1
    | _ => exact htexts _ (by simp [Event.texts, Event.tag])
  obtain ⟨name, hname⟩ : ∃ name : String, e.name = Bytes.ofString name := by
    cases e <;> exact ⟨_, rfl⟩
  obtain ⟨fields, hdata, hperm⟩ := R.datum_data htexts hnumbers
  obtain ⟨get, hget, hvalues⟩ := R.record_single hrecord
  have hgetLine : get "line" = [value (.number e.line)] := by simp [hvalues "line" (by decide)]
  have hgetEvent : get "event" = [value (.text e.name)] := by simp [hvalues "event" (by decide)]
  have hgetData : get "event_data" = [value (.object e.data)] := by
    simp [hvalues "event_data" (by decide)]
  have hgetTag : get "tag" = (if e.tag ≠ [] then [.text e.tag] else []).map value := by
    simp [hvalues "tag" (by decide)]
  have hevent : view.text [value (.text e.name)] = some e.name := by
    rw [hname, R.text_single (R.plain name).1, (R.plain name).2]
  refine ⟨⟨e.line, e.name, .object fields, text e.tag⟩, ?_, ⟨rfl, rfl, rfl, fields, rfl, hperm⟩⟩
  unfold ValueView.eventRow Event.node
  rw [hget]
  simp only [Option.bind_eq_bind, Option.bind_some, hgetLine, hgetEvent, hgetData,
    hgetTag, hevent, ValueView.int_single (R.notNull _) (R.ofNumber hline),
    ValueView.datum_single hdata, R.text_optional htag]
  rfl

end ValueView.Restores

theorem exists_forall₂ {α β : Type} {Rel : α → β → Prop} {items : List α}
    (h : ∀ a ∈ items, ∃ b, Rel a b) :
    ∃ rows, List.Forall₂ Rel items rows := by
  induction items with
  | nil => exact ⟨[], .nil⟩
  | cons a rest ih =>
    obtain ⟨b, hb⟩ := h a (List.mem_cons_self ..)
    obtain ⟨rows, hrows⟩ := ih fun a' ha' => h a' (List.mem_cons_of_mem _ ha')
    exact ⟨b :: rows, .cons hb hrows⟩

/-- A restored document tells all that the document does. -/
theorem ValueView.Restores.archive_node {α : Type} {view : ValueView α} {value : Node → α}
    {text : Bytes → Bytes} {number : Int → Datum} {Sound : Bytes → Prop}
    (R : view.Restores value text number Sound) {d : Document}
    (hrun : Sound d.runId) (htexts : d.All fun r => ∀ t ∈ r.texts, Sound t)
    (hnumbers : d.All fun r => ∀ n ∈ r.numbers, n.natAbs < 2 ^ 53) :
    ∃ a, view.archive (value d.node) = some a ∧ a.Tells text number d := by
  have hrecord : Node.IsRecord (Node.unlessEmpty "run_id" d.runId ++
      [(("classes" : Bytes), .list (d.classes.toList.map ClassInfo.node)),
        ("functions", .list (d.functions.toList.map FunctionInfo.node)),
        ("trace", .list (d.trace.toList.map Event.node))]) := by
    refine Node.isRecord_of_sublist ["run_id", "classes", "functions", "trace"] ?_ (by decide)
      (by decide)
    rw [List.map_append]
    exact (Node.names_unlessEmpty ..).append (List.Sublist.refl _)
  obtain ⟨rows, hrows⟩ :=
    exists_forall₂ fun e he => R.eventRow_node (htexts.trace e he) (hnumbers.trace e he)
  obtain ⟨get, hget, hvalues⟩ := R.record_single hrecord
  have hgetRun : get "run_id" = (if d.runId ≠ [] then [.text d.runId] else []).map value := by
    simp [hvalues "run_id" (by decide)]
  have hgetClasses : get "classes" = [value (.list (d.classes.toList.map ClassInfo.node))] := by
    simp [hvalues "classes" (by decide)]
  have hgetFunctions :
      get "functions" = [value (.list (d.functions.toList.map FunctionInfo.node))] := by
    simp [hvalues "functions" (by decide)]
  have hgetTrace : get "trace" = [value (.list (d.trace.toList.map Event.node))] := by
    simp [hvalues "trace" (by decide)]
  have hclasses := R.list_map fun c hc => R.classRow_node (htexts.classes c hc)
  have hfunctions := R.list_map fun f hf => R.functionRow_node (htexts.functions f hf)
  refine ⟨⟨text d.runId, _, _, _⟩, ?_, ⟨rfl, rfl, rfl, rows, rfl, hrows.imp fun _ _ h => h.2⟩⟩
  unfold ValueView.archive Document.node
  rw [hget]
  simp only [Option.bind_eq_bind, Option.bind_some, hgetRun, hgetClasses, hgetFunctions,
    hgetTrace, hclasses, hfunctions,
    R.list_single (hrows.imp fun _ _ h => h.1), R.text_optional hrun]
  rfl

namespace Document

variable {d : Document}

/-- A document is read back from JSON if its numbers are those of doubles. -/
theorem decode_json (colored : Bool)
    (hnumbers : d.All fun r => ∀ n ∈ r.numbers, n.natAbs < 2 ^ 53) :
    ∃ a, Archive.decode (d.writes colored .json).flatten .json = some a ∧
      a.Tells Utf8.repaired (fun n => .float (Binary.ofInt n)) d := by
  -- JSON has no bounds but the depth, far above that of a document.
  have hbounded :
      d.node.Bounded ⟨fun _ => True, fun _ => True, fun _ => True⟩ JsonValue.maxDepth :=
    bounded_node ⟨fun _ => trivial, fun _ => trivial⟩ 9995 trivial trivial trivial trivial
      (.of_forall (fun _ => ⟨fun _ _ => trivial, fun _ _ => trivial, trivial⟩) d)
  have hbytes : (d.writes colored .json).flatten = d.node.renderJson .plain 0 ++ [10] := rfl
  unfold Archive.decode
  simp only [hbytes, JsonValue.parse_renderJson hbounded]
  exact JsonValue.view_restores.archive_node trivial
    (.of_forall (fun _ _ _ => trivial) d) hnumbers

/-- A document in bounds is read back from CBOR if its texts are UTF-8. -/
theorem decode_cbor (colored : Bool) (hbounded : d.node.Bounded .cbor CborItem.maxDepth)
    (hrun : Utf8.isValid d.runId = true)
    (htexts : d.All fun r => ∀ t ∈ r.texts, Utf8.isValid t = true)
    (hnumbers : d.All fun r => ∀ n ∈ r.numbers, n.natAbs < 2 ^ 53) :
    ∃ a, Archive.decode (d.writes colored .cbor).flatten .cbor = some a ∧ a.Tells id .int d := by
  have hbytes : (d.writes colored .cbor).flatten = d.node.encodeCbor := List.append_nil _
  unfold Archive.decode
  simp only [hbytes, CborItem.parse_encodeCbor hbounded]
  exact CborItem.view_restores.archive_node hrun htexts hnumbers

theorem bounds_cbor_usual : Node.Bounds.cbor.Usual where
  text {t} h := by
    change t.length < 2 ^ 64
    omega
  size {k} h := by
    change k ≤ CborItem.maxSize
    unfold CborItem.maxSize
    omega

/-- Whatever was reported, the document is read back from both formats with all that it tells. As
JSON each byte of a text that is no part of a character is replaced, and integers in the data of
events are doubles with the same value. As CBOR nothing changes, if all texts are UTF-8 and no
list is too long. -/
theorem survives_encoding (runId : Bytes) (reports : List Report) (colored : Bool)
    (hnumbers : ∀ r ∈ reports, ∀ n ∈ r.numbers, n.natAbs < 2 ^ 53) :
    let d := reports.foldl record { runId }
    (d.runId = runId ∧ d.classes.toList = reports.filterMap Report.class? ∧
      d.functions.toList = reports.filterMap Report.function? ∧
      d.trace.toList = reports.filterMap Report.event?) ∧
    (∃ a, Archive.decode (d.writes colored .json).flatten .json = some a ∧
      a.Tells Utf8.repaired (fun n => .float (Binary.ofInt n)) d) ∧
    ((∀ t ∈ runId :: reports.flatMap Report.texts, Utf8.isValid t = true ∧ t.length < 2 ^ 64) →
      (∀ r ∈ reports, r.items.length ≤ CborItem.maxSize) → d.classes.size ≤ CborItem.maxSize →
      d.functions.size ≤ CborItem.maxSize → d.trace.size ≤ CborItem.maxSize →
      ∃ a, Archive.decode (d.writes colored .cbor).flatten .cbor = some a ∧ a.Tells id .int d) ∧
    (∀ t, Utf8.Repairs t (Utf8.repaired t) ∧ (Utf8.isValid t = true → Utf8.repaired t = t)) ∧
    ∀ n : Int, n.natAbs < 2 ^ 53 →
      ∃ s, Binary.readDouble (Binary.ofInt n) = .finite s ∧ s.isWhole = true ∧
        s.truncate = n := by
  intro d
  have hsmall : d.All fun r => ∀ n ∈ r.numbers, n.natAbs < 2 ^ 53 := all_foldl_record hnumbers
  refine ⟨foldl_record { runId } reports, decode_json colored hsmall, ?_,
    fun t => ⟨Utf8.repairs_repaired t, Utf8.repaired_of_isValid⟩,
    fun n => Binary.readDouble_ofInt⟩
  intro htexts hitems hclasses hfunctions htrace
  rw [List.forall_mem_cons] at htexts
  obtain ⟨⟨hrun, hlength⟩, htexts⟩ := htexts
  have htext : ∀ r ∈ reports, ∀ t ∈ r.texts, Utf8.isValid t = true ∧ t.length < 2 ^ 64 :=
    fun r hr t ht => htexts t (List.mem_flatMap.mpr ⟨r, hr, ht⟩)
  have hreports : d.All (Report.Bounded .cbor) := by
    refine all_foldl_record fun r hr =>
      ⟨fun t ht => (htext r hr t ht).2, fun n hn => ?_, hitems r hr⟩
    have hn := hnumbers r hr n hn
    change n.natAbs < 2 ^ 64
    omega
  have hrunId : d.runId = runId := (foldl_record { runId } reports).1
  have hbounded : d.node.Bounded .cbor CborItem.maxDepth :=
    bounded_node bounds_cbor_usual 27 (hrunId.symm ▸ hlength) hclasses hfunctions htrace hreports
  exact decode_cbor colored hbounded (hrunId.symm ▸ hrun)
    (all_foldl_record fun r hr t ht => (htext r hr t ht).1) hsmall

def session : List Report :=
  [.classInfo ⟨"Main", ["größe", "a\"b"], ""⟩, .function ⟨"main", "V", []⟩,
    .event (.call (-1) "Main.main" "static" ["<&>", "line \n"]),
    .event (.setElement 7 3 9007199254740991 "" "0" "counter"), .event (.ret 8 Event.voidValue)]

def sessionOf (runId : Bytes) : Document := session.foldl record { runId }

/-- The session is read back from JSON where its run has a stray byte, and from CBOR where it has
none. -/
theorem survives_encoding_session :
    (∀ r ∈ session, ∀ n ∈ r.numbers, n.natAbs < 2 ^ 53) ∧
    (∃ a, Archive.decode ((sessionOf [0x72, 0xFF]).writes false .json).flatten .json = some a ∧
      a.Tells Utf8.repaired (fun n => .float (Binary.ofInt n)) (sessionOf [0x72, 0xFF]) ∧
      a.runId = [0x72, 0xEF, 0xBF, 0xBD]) ∧
    ∃ a, Archive.decode ((sessionOf [0x72]).writes false .cbor).flatten .cbor = some a ∧
      a.Tells id .int (sessionOf [0x72]) := by
  have hnumbers : ∀ r ∈ session, ∀ n ∈ r.numbers, n.natAbs < 2 ^ 53 := by decide +kernel
  obtain ⟨-, ⟨a, hdecode, htells⟩, -⟩ := survives_encoding [0x72, 0xFF] session false hnumbers
  have hrepaired : Utf8.repaired [0x72, 0xFF] = [0x72, 0xEF, 0xBF, 0xBD] := by decide +kernel
  have hcbor :=
    (survives_encoding [0x72] session false hnumbers).2.2.1 (by decide +kernel)
      (by decide +kernel) (by decide +kernel) (by decide +kernel) (by decide +kernel)
  exact ⟨hnumbers, ⟨a, hdecode, htells, htells.runId.trans hrepaired⟩, hcbor⟩

end Document

end ClassTrace
