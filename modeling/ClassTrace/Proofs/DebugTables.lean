import ClassTrace.Proofs.HostLockstep

/-!
Debug tables do not influence execution. Two classes that differ in the line tables, the variable
tables and the parameter names of their methods answer the host alike, whatever it does; only the
lines of events and the names of locals in them differ.
-/
namespace ClassTrace

def Method.stripped (method : Method) : Method :=
  { method with lines := #[], localVariables := [], paramNames := [] }

def Class.stripped (c : Class) : Class := { c with methods := c.methods.map Method.stripped }

/-- The event without what debug tables tell: its line, and the name of a local. -/
def Event.stripped : Event → Event
  | .assign _ _ old new tag => .assign 0 [] old new tag
  | e => e.atLine 0

theorem Event.stripped_atLine (e : Event) (line : Int) :
    (e.atLine line).stripped = e.stripped := by
  cases e with
  | _ => rfl

theorem Method.eq_annotate_of_stripped_eq {method method' : Method}
    (h : method'.stripped = method.stripped) :
    method' = method.annotate method'.annotations ∧ method'.maxStack = method.maxStack := by
  cases method
  cases method'
  simp only [Method.stripped, Method.mk.injEq] at h
  obtain ⟨rfl, rfl, rfl, rfl, rfl, rfl, rfl, rfl, -⟩ := h
  exact ⟨rfl, rfl⟩

namespace Variation

/-- Other debug tables. Nothing is excused, and the texts written are the same. -/
def debugTables : Variation where
  annotations := fun method t => t.maxStack = method.maxStack
  depth := fun d d' => d' = d
  branches := fun legacy legacy' => legacy' = legacy
  event := fun e e' => e'.stripped = e.stripped
  document := fun d d' => d'.trace.toList.map Event.stripped = d.trace.toList.map Event.stripped
  console := Console.SameTexts
  excused := fun _ => False
  size_cases := fun _ _ ht => Or.inl ht
  depth_cases := fun _ _ hd => Or.inl hd
  event_refl := fun _ => rfl
  event_line := by
    intro method t pc e _
    rw [Event.stripped_atLine, Event.stripped_atLine]
  event_assign := fun _ _ _ _ _ _ => rfl
  record := by
    intro d d' e e' hd he
    unfold Document.record
    rw [Array.toList_push, Array.toList_push, List.map_append, List.map_append, hd]
    exact congrArg (_ ++ [·]) he
  log := fun _ _ r hc => hc.log r r
  logEvent := fun _ _ e e' hc _ => hc.log e.logRecord e'.logRecord
  writes := Console.respected_sameTexts

/-- Methods that are the same without their debug tables differ in these only. -/
theorem methods_of_stripped_eq {methods methods' : List Method}
    (h : methods'.map Method.stripped = methods.map Method.stripped) :
    List.Forall₂ debugTables.Methods methods methods' := by
  have hstripped :
      List.Forall₂ Eq (methods.map Method.stripped) (methods'.map Method.stripped) := by
    rw [h]
    exact List.forall₂_refl _
  rw [List.forall₂_map_left_iff, List.forall₂_map_right_iff] at hstripped
  refine hstripped.imp fun method method' hm => ?_
  obtain ⟨heq, hsize⟩ := Method.eq_annotate_of_stripped_eq hm.symm
  exact ⟨method'.annotations, hsize, heq⟩

end Variation

namespace Machine

theorem report_sameTexts (r : Report) (m : Machine) :
    Console.SameTexts m.console (m.report r).console := by
  rw [report_eq]
  dsimp only
  split
  · exact Console.sameTexts_log _ _
  · exact .refl _

/-- Nothing is written while a machine starts. -/
theorem start_sameTexts (program : Class) (library : Library) (settings : Settings)
    (runId : Bytes) (console : Console) :
    Console.SameTexts console (start program library settings runId console).console := by
  have hfold : ∀ (methods : List Method) (m : Machine), Console.SameTexts m.console
      (methods.foldl
        (fun m f => m.report (.function ⟨f.name, f.signature.result.spelling, f.paramNames⟩))
        m).console := by
    intro methods
    induction methods with
    | nil => exact fun m => .refl _
    | cons method rest ih => exact fun m => (report_sameTexts _ m).trans (ih _)
  exact (hfold program.methods
    { program, library, settings, document := { runId }, console }).trans
    (report_sameTexts (.classInfo ⟨program.name, program.fieldNames, []⟩) _)

/-- Machines for two classes that are the same once stripped start alike. -/
theorem start_debugTables {program program' : Class} (h : program'.stripped = program.stripped)
    (library : Library) (settings : Settings) (runId : Bytes) (console : Console) :
    Variation.debugTables.Machines (start program library settings runId console)
      (start program' library settings runId console) := by
  obtain ⟨d, c, hd, hstart⟩ := start_eq program library settings runId console
  obtain ⟨d', c', hd', hstart'⟩ := start_eq program' library settings runId console
  have hc := start_sameTexts program library settings runId console
  have hc' := start_sameTexts program' library settings runId console
  rw [hstart] at hc
  rw [hstart'] at hc'
  rw [hstart, hstart']
  obtain ⟨name, super, pool, fields, methods⟩ := program
  obtain ⟨name', super', pool', fields', methods'⟩ := program'
  simp only [Class.stripped, Class.mk.injEq] at h
  obtain ⟨rfl, rfl, rfl, rfl, hmethods⟩ := h
  refine ⟨⟨methods', [], settings.maxDepth, settings.legacyBranches, d', c'⟩,
    ⟨Variation.methods_of_stripped_eq hmethods, .nil, rfl, rfl, ?_, hc.symm.trans hc'⟩, rfl⟩
  change List.map _ d'.trace.toList = List.map _ d.trace.toList
  rw [hd, hd']

end Machine

namespace HostOperation

/-- What the host can observe after an operation is the same on two machines, but for what debug
tables tell about events. -/
structure SameButTables (r r' : HostAnswer × Machine) : Prop where
  answer : r'.1 = r.1
  host : r'.2.host = r.2.host
  heap : r'.2.heap = r.2.heap
  depth : r'.2.frames.length = r.2.frames.length
  written : r'.2.console.written = r.2.console.written
  events : r'.2.events.map Event.stripped = r.2.events.map Event.stripped

/-- Classes that are the same without their debug tables cannot be told apart by a host, whatever
it does, but for the lines and the names of locals in events. -/
theorem debug_tables_irrelevant {program program' : Class}
    (h : program'.stripped = program.stripped) (library : Library) (settings : Settings)
    (runId : Bytes) (console : Console) (ops : List HostOperation) :
    List.Forall₂ SameButTables
      (performAll ops (Machine.start program library settings runId console))
      (performAll ops (Machine.start program' library settings runId console)) := by
  have hstart := Machine.start_debugTables h library settings runId console
  have hops :=
    Variation.operations_agree (V := .debugTables) (fun _ hf => hf) (fun _ => rfl) ops hstart
  refine hops.imp fun r r' hr => ?_
  obtain ⟨hanswer, hmachines⟩ := hr
  refine ⟨hanswer, hmachines.host_eq, hmachines.heap_eq, hmachines.length_frames,
    hmachines.console.written, ?_⟩
  obtain ⟨w, hw, heq⟩ := hmachines
  rw [heq]
  exact hw.document

def counting (lines : Array Int) (localVariables : List Variable) (paramNames : List Bytes) :
    Class where
  name := "T"
  super := []
  pool := #[none]
  fields := []
  methods := [
    { owner := "T", name := "next", descriptor := "(I)I",
      signature := ⟨[.primitive .int], .value (.primitive .int)⟩, isStatic := true,
      maxStack := 2, maxLocals := 2, code := #[0x1A, 0x04, 0x60, 0x3C, 0x1B, 0xAC],
      lines, localVariables, paramNames }]

def countingPlain : Machine := .start (counting #[] [] []) .default {} [] {}

def countingTabled : Machine :=
  .start (counting #[7, 7, 7, 7, 8, 8] [⟨"sum", "I", 4, 2, 1⟩] ["n"]) .default {} [] {}

def countOnce : List HostOperation := [.push (.int 41), .call (.byName "next") 10, .pop, .pop]

/-- One call with an argument, and one pop more than there are results. With debug tables the
store is reported at a line and under a name. -/
theorem debug_tables_irrelevant_counting :
    List.Forall₂ SameButTables (performAll countOnce countingPlain)
      (performAll countOnce countingTabled) ∧
    (performAll countOnce countingTabled).map (·.1) =
      [.done, .done, .popped (.int 42), .failed ⟨none, .fault .stackEmpty⟩] ∧
    (performAll countOnce countingPlain).getLast?.map (·.2.events) = some
      [.call (-1) "next" "static" ["41"], .assign (-1) "local1" "null" "42" [], .ret (-1) "42"] ∧
    (performAll countOnce countingTabled).getLast?.map (·.2.events) = some
      [.call (-1) "next" "static" ["41"], .assign 7 "sum" "null" "42" [], .ret 8 "42"] :=
  ⟨debug_tables_irrelevant (by decide) _ _ _ _ _, by
    decide +kernel, by decide +kernel, by decide +kernel⟩

end HostOperation

end ClassTrace
