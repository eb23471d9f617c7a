import ClassTrace.Trace.Format

/-!
The tree of a document: the reports that it holds, and bounds on its parts that follow from bounds
on what was reported. A document is never nested deeper than the arguments of a call.
-/
namespace ClassTrace

namespace Report

def class? : Report → Option ClassInfo
  | .classInfo c => some c
  | .function _ | .event _ => none

def function? : Report → Option FunctionInfo
  | .function f => some f
  | .classInfo _ | .event _ => none

def event? : Report → Option Event
  | .event e => some e
  | .classInfo _ | .function _ => none

end Report

def Event.texts : Event → List Bytes
  | .assign _ name old new tag => [name, old, new, tag]
  | .setField _ _ field old new tag => [field, old, new, tag]
  | .setElement _ _ _ old new tag => [old, new, tag]
  | .call _ function kind args => function :: kind :: args
  | .ret _ value => [value]

def Event.numbers : Event → List Int
  | .assign line .. | .call line .. | .ret line .. => [line]
  | .setField line object .. => [line, object]
  | .setElement line array index .. => [line, array, index]

namespace Report

def texts : Report → List Bytes
  | .function f => f.name :: f.returnType :: f.params
  | .classInfo c => c.name :: c.tag :: c.fields
  | .event e => e.texts

def numbers : Report → List Int
  | .function _ | .classInfo _ => []
  | .event e => e.numbers

def items : Report → List Bytes
  | .function f => f.params
  | .classInfo c => c.fields
  | .event (.call _ _ _ args) => args
  | .event _ => []

end Report

namespace Document

structure All (P : Report → Prop) (d : Document) : Prop where
  classes : ∀ c ∈ d.classes.toList, P (.classInfo c)
  functions : ∀ f ∈ d.functions.toList, P (.function f)
  trace : ∀ e ∈ d.trace.toList, P (.event e)

theorem All.of_forall {P : Report → Prop} (h : ∀ r, P r) (d : Document) : d.All P :=
  ⟨fun _ _ => h _, fun _ _ => h _, fun _ _ => h _⟩

/-- A document holds the reports it was given, each kind in the order of the reports. -/
theorem foldl_record (d : Document) (reports : List Report) :
    (reports.foldl record d).runId = d.runId ∧
    (reports.foldl record d).classes.toList = d.classes.toList ++
      reports.filterMap Report.class? ∧
    (reports.foldl record d).functions.toList = d.functions.toList ++
      reports.filterMap Report.function? ∧
    (reports.foldl record d).trace.toList = d.trace.toList ++
      reports.filterMap Report.event? := by
  induction reports generalizing d with
  | nil => simp
  | cons r rest ih =>
    obtain ⟨hrun, hclasses, hfunctions, htrace⟩ := ih (d.record r)
    rw [List.foldl_cons, hrun, hclasses, hfunctions, htrace]
    cases r <;> simp [record, List.filterMap_cons, Report.class?, Report.function?, Report.event?]

/-- What holds of all reports holds of the document that they make. -/
theorem all_foldl_record {P : Report → Prop} {runId : Bytes} {reports : List Report}
    (h : ∀ r ∈ reports, P r) :
    (reports.foldl record { runId }).All P := by
  obtain ⟨-, hclasses, hfunctions, htrace⟩ := foldl_record { runId } reports
  constructor
  · intro c hc
    rw [hclasses] at hc
    obtain ⟨r, hr, hrc⟩ := List.mem_filterMap.mp hc
    cases r <;> cases hrc
    exact h _ hr
  · intro f hf
    rw [hfunctions] at hf
    obtain ⟨r, hr, hrf⟩ := List.mem_filterMap.mp hf
    cases r <;> cases hrf
    exact h _ hr
  · intro e he
    rw [htrace] at he
    obtain ⟨r, hr, hre⟩ := List.mem_filterMap.mp he
    cases r <;> cases hre
    exact h _ hr

end Document

namespace Node

structure Bounds where
  number : Int → Prop
  text : Bytes → Prop
  size : Nat → Prop

/-- All parts of a tree are in bounds, and lists and records are nested at most so deep. -/
inductive Bounded (B : Bounds) : Nat → Node → Prop
  | number {depth : Nat} {n : Int} (h : B.number n) : Bounded B depth (.number n)
  | text {depth : Nat} {t : Bytes} (h : B.text t) : Bounded B depth (.text t)
  | list {depth : Nat} {items : List Node} (hsize : B.size items.length)
      (h : ∀ item ∈ items, Bounded B depth item) : Bounded B (depth + 1) (.list items)
  | object {depth : Nat} {fields : List (Bytes × Node)} (hsize : B.size fields.length)
      (hnames : ∀ f ∈ fields, B.text f.1) (h : ∀ f ∈ fields, Bounded B depth f.2) :
      Bounded B (depth + 1) (.object fields)

structure Bounds.Usual (B : Bounds) : Prop where
  text {t : Bytes} (h : t.length ≤ 13) : B.text t
  size {k : Nat} (h : k ≤ 4) : B.size k

variable {B : Bounds}

theorem bounded_texts (depth : Nat) {ts : List Bytes} (hsize : B.size ts.length)
    (h : ∀ t ∈ ts, B.text t) :
    (texts ts).Bounded B (depth + 1) := by
  refine .list (by rwa [List.length_map]) fun item hitem => ?_
  obtain ⟨t, ht, rfl⟩ := List.mem_map.mp hitem
  exact .text (h t ht)

theorem bounded_record (hB : B.Usual) {depth : Nat} {fields : List (Bytes × Node)}
    (hcount : fields.length ≤ 4) (h : ∀ f ∈ fields, f.1.length ≤ 13 ∧ f.2.Bounded B depth) :
    (object fields).Bounded B (depth + 1) :=
  .object (hB.size hcount) (fun f hf => hB.text (h f hf).1) fun f hf => (h f hf).2

theorem length_unlessEmpty_le (name text : Bytes) : (unlessEmpty name text).length ≤ 1 := by
  unfold unlessEmpty
  split <;> simp

theorem bounded_unlessEmpty {depth : Nat} {name text : Bytes} (hname : name.length ≤ 13)
    (h : B.text text) :
    ∀ f ∈ unlessEmpty name text, f.1.length ≤ 13 ∧ f.2.Bounded B depth := by
  intro f hf
  unfold unlessEmpty at hf
  split at hf
  · cases hf
  · obtain rfl := List.mem_singleton.mp hf
    exact ⟨hname, .text h⟩

end Node

section Documents

open Node

variable {B : Bounds} (hB : B.Usual)

structure Report.Bounded (B : Bounds) (r : Report) : Prop where
  texts : ∀ t ∈ r.texts, B.text t
  numbers : ∀ n ∈ r.numbers, B.number n
  items : B.size r.items.length

include hB

theorem ClassInfo.bounded_node (depth : Nat) {c : ClassInfo}
    (h : (Report.classInfo c).Bounded B) :
    c.node.Bounded B (depth + 2) := by
  obtain ⟨htexts, -, hitems⟩ := h
  simp only [Report.texts, List.forall_mem_cons] at htexts
  obtain ⟨hname, htag, hfields⟩ := htexts
  have hcount := length_unlessEmpty_le "tag" c.tag
  refine bounded_record hB
    (by simp only [List.length_append, List.length_cons, List.length_nil]; omega) ?_
  rw [List.forall_mem_append]
  refine ⟨?_, bounded_unlessEmpty (by decide) htag⟩
  simp only [List.forall_mem_cons]
  exact ⟨⟨by decide, .text hname⟩, ⟨by decide, bounded_texts depth hitems hfields⟩,
    List.forall_mem_nil _⟩

theorem FunctionInfo.bounded_node (depth : Nat) {f : FunctionInfo}
    (h : (Report.function f).Bounded B) :
    f.node.Bounded B (depth + 2) := by
  obtain ⟨htexts, -, hitems⟩ := h
  simp only [Report.texts, List.forall_mem_cons] at htexts
  obtain ⟨hname, htype, hparams⟩ := htexts
  refine bounded_record hB (by simp) ?_
  simp only [List.forall_mem_cons]
  exact ⟨⟨by decide, .text hname⟩, ⟨by decide, .text htype⟩,
    ⟨by decide, bounded_texts depth hitems hparams⟩, List.forall_mem_nil _⟩

theorem Event.bounded_data (depth : Nat) {e : Event} (h : (Report.event e).Bounded B) :
    (Node.object e.data).Bounded B (depth + 2) := by
  obtain ⟨htexts, hnumbers, hitems⟩ := h
  cases e with
  | assign line name old new tag =>
    simp only [Report.texts, Event.texts, List.forall_mem_cons] at htexts
    obtain ⟨hname, hold, hnew, -⟩ := htexts
    refine bounded_record hB (by simp [data]) ?_
    simp only [data, List.forall_mem_cons]
    exact ⟨⟨by decide, .text hname⟩, ⟨by decide, .text hold⟩, ⟨by decide, .text hnew⟩,
      List.forall_mem_nil _⟩
  | setField line object field old new tag =>
    simp only [Report.texts, Report.numbers, Event.texts, Event.numbers, List.forall_mem_cons]
      at htexts hnumbers
    obtain ⟨hfield, hold, hnew, -⟩ := htexts
    refine bounded_record hB (by simp [data]) ?_
    simp only [data, List.forall_mem_cons]
    exact ⟨⟨by decide, .number hnumbers.2.1⟩, ⟨by decide, .text hfield⟩, ⟨by decide, .text hold⟩,
      ⟨by decide, .text hnew⟩, List.forall_mem_nil _⟩
  | setElement line array index old new tag =>
    simp only [Report.texts, Report.numbers, Event.texts, Event.numbers, List.forall_mem_cons]
      at htexts hnumbers
    obtain ⟨hold, hnew, -⟩ := htexts
    refine bounded_record hB (by simp [data]) ?_
    simp only [data, List.forall_mem_cons]
    exact ⟨⟨by decide, .number hnumbers.2.1⟩, ⟨by decide, .number hnumbers.2.2.1⟩,
      ⟨by decide, .text hold⟩, ⟨by decide, .text hnew⟩, List.forall_mem_nil _⟩
  | call line function kind args =>
    simp only [Report.texts, Event.texts, List.forall_mem_cons] at htexts
    obtain ⟨hfunction, -, hargs⟩ := htexts
    refine bounded_record hB (by simp [data]) ?_
    simp only [data, List.forall_mem_cons]
    exact ⟨⟨by decide, .text hfunction⟩, ⟨by decide, bounded_texts depth hitems hargs⟩,
      List.forall_mem_nil _⟩
  | ret line value =>
    simp only [Report.texts, Event.texts, List.forall_mem_cons] at htexts
    refine bounded_record hB (by simp [data]) ?_
    simp only [data, List.forall_mem_cons]
    exact ⟨⟨by decide, .text htexts.1⟩, List.forall_mem_nil _⟩

theorem Event.bounded_node (depth : Nat) {e : Event} (h : (Report.event e).Bounded B) :
    e.node.Bounded B (depth + 3) := by
  have hline : B.number e.line :=
    h.numbers _ (by cases e <;> simp [Report.numbers, numbers, line])
  have hname : B.text e.name := hB.text (by cases e <;> simp only [name] <;> decide)
  have htag : B.text e.tag := by
    cases e with
    | ret => exact hB.text (Nat.zero_le _)
    | _ => exact h.texts _ (by simp [Report.texts, texts, tag])
  have hcount := length_unlessEmpty_le "tag" e.tag
  refine bounded_record hB
    (by simp only [List.length_append, List.length_cons, List.length_nil]; omega) ?_
  rw [List.forall_mem_append]
  refine ⟨?_, bounded_unlessEmpty (by decide) htag⟩
  simp only [List.forall_mem_cons]
  exact ⟨⟨by decide, .number hline⟩, ⟨by decide, .text hname⟩,
    ⟨by decide, bounded_data hB depth h⟩, List.forall_mem_nil _⟩

/-- The tree of a document is in bounds if all reports are, and there are not too many of a
kind. -/
theorem Document.bounded_node (depth : Nat) {d : Document} (hrun : B.text d.runId)
    (hclasses : B.size d.classes.size) (hfunctions : B.size d.functions.size)
    (htrace : B.size d.trace.size) (h : d.All (Report.Bounded B)) :
    d.node.Bounded B (depth + 5) := by
  have hcount := length_unlessEmpty_le "run_id" d.runId
  refine bounded_record hB
    (by simp only [List.length_append, List.length_cons, List.length_nil]; omega) ?_
  rw [List.forall_mem_append]
  refine ⟨bounded_unlessEmpty (by decide) hrun, ?_⟩
  simp only [List.forall_mem_cons]
  refine ⟨⟨by decide, .list ?_ ?_⟩, ⟨by decide, .list ?_ ?_⟩, ⟨by decide, .list ?_ ?_⟩,
    List.forall_mem_nil _⟩
  · simpa using hclasses
  · exact List.forall_mem_map.mpr fun c hc => c.bounded_node hB (depth + 1) (h.classes c hc)
  · simpa using hfunctions
  · exact List.forall_mem_map.mpr fun f hf => f.bounded_node hB (depth + 1) (h.functions f hf)
  · simpa using htrace
  · exact List.forall_mem_map.mpr fun e he => e.bounded_node hB depth (h.trace e he)

end Documents

end ClassTrace
