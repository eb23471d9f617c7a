import ClassTrace.Proofs.EventLine
import ClassTrace.Proofs.Replay

/-!
A step changes what its event says, and nothing else. Faults come before the only change, so a
step that fails has left every local, field and element as it was. Of the steps that succeed,
stores, calls of methods of the class and returns have one event each, at the line of their
instruction; all others have none and store nothing.
-/
namespace ClassTrace

inductive EventSort where
  | assign
  | setField
  | setElement
  | call
  | ret
deriving DecidableEq, Repr

def Event.sort : Event → EventSort
  | .assign .. => .assign
  | .setField .. => .setField
  | .setElement .. => .setElement
  | .call .. => .call
  | .ret .. => .ret

/-- The sort of the event that the instruction has when it succeeds, if it has one. A call has one
if it is of a method of the class. -/
def Instruction.eventSort? (program : Class) : Instruction → Option EventSort
  | .store .. | .increment .. => some .assign
  | .putField _ | .putStatic _ => some .setField
  | .arrayStore _ => some .setElement
  | .invoke _ index => match program.pool.methodRef index with
    | .ok r => if r.owner.name = program.name then some .call else none
    | .error _ => none
  | .ret _ => some .ret
  | _ => none

namespace Heap

def SameCells (h h' : Heap) : Prop := ∀ c : Cell, h.Has c.id → h'.cell? c = h.cell? c

/-- Of the fields and elements that were there only the cell has changed. The texts are those of
what it held and of what it holds now. -/
def StoresCell (h h' : Heap) (c : Cell) (old new : Bytes) : Prop :=
  ∃ before after, h.cell? c = some before ∧ h'.cell? c = some after ∧ old = h.display before ∧
    new = h'.display after ∧ ∀ d : Cell, d ≠ c → h.Has d.id → h'.cell? d = h.cell? d

/-- A heap that is extended has the same fields and elements. -/
theorem Extends.sameCells {Fresh : Entry → Prop} {h h' : Heap} (hx : h.Extends Fresh h') :
    h.SameCells h' := by
  intro c hc
  cases hv : h.cell? c with
  | some v => exact hx.cell? hv
  | none =>
    cases hv' : h'.cell? c with
    | none => rfl
    | some w =>
      obtain ⟨v, hsome⟩ := hx.evolves.cell?_of_has hc hv'
      rw [hv] at hsome
      cases hsome

theorem storesCell_setField {h : Heap} {id : Int} {owner name : Bytes} {fields : Fields}
    {old v : Value} (hget : h.get? id = some (.object owner fields))
    (hold : fields.get? name = some old) :
    h.StoresCell (h.setField id name v) (.field id name) (h.display old) (h.display v) := by
  have hcell := cell?_setField (v := v) hget hold
  refine ⟨old, v, ?_, ?_, rfl, (display_setField ..).symm, fun d hd _ => ?_⟩
  · simp only [cell?, hget, hold]
  · rw [hcell, if_pos rfl]
  · rw [hcell, if_neg hd.symm]

theorem storesCell_setElement {h : Heap} {id : Int} {element : FieldType} {elements : Array Value}
    {index : Nat} {old v : Value} (hget : h.get? id = some (.array element elements))
    (hold : elements[index]? = some old) :
    h.StoresCell (h.setElement id index v) (.element id index) (h.display old) (h.display v) := by
  have hcell := cell?_setElement (v := v) hget hold
  refine ⟨old, v, ?_, ?_, rfl, (display_setElement ..).symm, fun d hd _ => ?_⟩
  · simp only [cell?, hget, Int.natCast_nonneg, if_true, Int.toNat_natCast, hold]
  · rw [hcell, if_pos rfl]
  · rw [hcell, if_neg hd.symm]

end Heap

namespace Frame

/-- Of the locals only the slot has changed, and the one above it, which a long or a double makes
null. -/
def StoresLocal (f f' : Frame) (slot : Nat) (before after : Value) : Prop :=
  f.locals[slot]? = some before ∧ f'.locals[slot]? = some after ∧
    (after.isWide = true → f'.locals[slot + 1]? = some .null) ∧
    ∀ j, j ≠ slot → (after.isWide = true → j ≠ slot + 1) → f'.locals[j]? = f.locals[j]?

/-- A store into a local changes its slot, and the one above it if the value is wide. -/
theorem storesLocal_setLocal {f f' : Frame} {slot : Nat} {old v : Value}
    (hold : f.locals[slot]? = some old) (hset : setLocal slot v f = .ok () f') :
    f.StoresLocal f' slot old v := by
  unfold setLocal at hset
  split at hset
  · rename_i hroom
    cases hset
    have hlt : slot < f.locals.size := (Array.getElem?_eq_some_iff.mp hold).1
    cases hwide : v.isWide with
    | false =>
      refine ⟨hold, ?_, ?_, ?_⟩
      · simp [hlt]
      · intro h
        rw [hwide] at h
        cases h
      · intro j hj _
        simp [Array.getElem?_setIfInBounds_ne (Ne.symm hj)]
    | true =>
      have hslots : v.slots = 2 := by simp [Value.slots, hwide]
      rw [hslots] at hroom
      refine ⟨hold, ?_, ?_, ?_⟩
      · simp [hlt]
      · have hnext : slot + 1 < f.locals.size := by omega
        simp [hnext]
      · intro j hj hj'
        have hne := hj' hwide
        simp [Array.getElem?_setIfInBounds_ne (Ne.symm hj),
          Array.getElem?_setIfInBounds_ne (Ne.symm hne)]
  · cases hset

end Frame

namespace Machine

def locals (m : Machine) : List (Array Value) := m.frames.map (·.locals)

structure KeepsStores (m m' : Machine) : Prop where
  locals : m'.locals = m.locals
  cells : m.heap.SameCells m'.heap

theorem TopContinues.locals {fs gs : List Frame} (h : TopContinues fs gs) :
    gs.map (·.locals) = fs.map (·.locals) := by
  cases h with
  | none => rfl
  | some rest hf => rw [List.map_cons, List.map_cons, hf.locals]

theorem Quiet.locals {m m' : Machine} (h : m.Quiet m') : m'.locals = m.locals := h.frames.locals

theorem Quiet.keepsStores {m m' : Machine} (h : m.Quiet m') : m.KeepsStores m' :=
  ⟨h.locals, h.heap.sameCells⟩

end Machine

/-- What the step with the event has changed, given its instruction. Stores change the place that
they report and nothing else; calls add locals and returns take those of the current frame
away. -/
def Event.Tells (i : Instruction) (m m' : Machine) : Event → Prop
  | .assign _ name old new _ => ∃ slot f f' rest before after, i.localSlot? = some slot ∧
      m.frames = f :: rest ∧ m'.frames = f' :: rest ∧ f.StoresLocal f' slot before after ∧
      name = f'.localName slot ∧ old = m.heap.display before ∧ new = m'.heap.display after ∧
      m'.heap = m.heap
  | .setField _ object field old new _ =>
      m'.locals = m.locals ∧ m.heap.StoresCell m'.heap (.field object field) old new
  | .setElement _ array index old new _ =>
      m'.locals = m.locals ∧ m.heap.StoresCell m'.heap (.element array index) old new
  | .call .. => (∃ added, m'.locals = added :: m.locals) ∧ m'.heap = m.heap
  | .ret .. => (∃ removed, m.locals = removed :: m'.locals) ∧ m'.heap = m.heap

namespace Machine

/-- The events of a step tell all that its instruction has changed. -/
structure Explains (i : Instruction) (m m' : Machine) (es : List Event) : Prop where
  events : m'.events = m.events ++ es
  sorts : es.map Event.sort = (i.eventSort? m.program).toList
  silent : es = [] → m.KeepsStores m'
  changes : ∀ e ∈ es, e.Tells i m m'

/-- A step without an event has changed nothing that a program can store into. -/
theorem Quiet.explains {m m' : Machine} {i : Instruction} (h : m.Quiet m')
    (hi : i.eventSort? m.program = none) : Explains i m m' [] where
  events := by rw [h.events, List.append_nil]
  sorts := by rw [hi]; rfl
  silent := fun _ => h.keepsStores
  changes := nofun

/-- One event explains a step if it is of the instruction's sort and tells what has changed. -/
theorem explains_single {m m' : Machine} {i : Instruction} {e : Event}
    (hev : m'.events = m.events ++ [e]) (hi : i.eventSort? m.program = some e.sort)
    (htells : e.Tells i m m') : Explains i m m' [e] where
  events := hev
  sorts := by rw [hi]; rfl
  silent := nofun
  changes := by
    intro e' he'
    rw [List.mem_singleton.mp he']
    exact htells

theorem eventSort?_of_silent {i : Instruction} (hi : i.isSilent = true) (program : Class) :
    i.eventSort? program = none := by
  cases i with
  | store | increment | arrayStore | putStatic | putField | invoke | ret => cases hi
  | _ => rfl

theorem eventSort?_of_localSlot {i : Instruction} {slot : Nat} (hi : i.localSlot? = some slot)
    (program : Class) : i.eventSort? program = some .assign := by
  cases i with
  | store | increment => rfl
  | _ => cases hi

theorem eventSort?_of_storesField {i : Instruction} (hi : i.storesField = true)
    (program : Class) :
    i.eventSort? program = some .setField := by
  cases i with
  | putStatic | putField => rfl
  | _ => cases hi

theorem Leaves.tells {m m₁ m' : Machine} {v : Option Value} {i : Instruction}
    (hr : m.settings.recording = true) (hq : m.Quiet m₁) (hheap : m₁.heap = m.heap)
    (h : Leaves v m₁ m') :
    ∃ line text, m'.events = m.events ++ [.ret line text] ∧
      Event.Tells i m m' (.ret line text) := by
  have hremoves : ∀ {f : Frame} {rest : List Frame}, m₁.frames = f :: rest →
      m'.locals = rest.map (·.locals) → ∃ removed, m.locals = removed :: m'.locals := by
    intro f rest hm hrest
    refine ⟨f.locals, ?_⟩
    rw [← hq.locals, hrest]
    unfold locals
    rw [hm, List.map_cons]
  cases h with
  | toHost hm h | toCaller hm h =>
    obtain ⟨-, hev, hframes⟩ := h.appends hq hr rfl rfl
    have hlocals := congrArg (List.map Frame.locals) hframes
    exact ⟨_, _, hev, hremoves hm hlocals, h.heap.trans hheap⟩

/-- What an instruction does last is what its event tells. -/
theorem Finishes.explains {m m' : Machine} {i : Instruction} (hr : m.settings.recording = true)
    (h : Finishes m i m') : ∃ es, Explains i m m' es := by
  obtain ⟨m₁, hq, hend⟩ := h
  have hkept : ∀ {m₂ : Machine}, m₂.frames = m₁.frames → m₂.locals = m.locals := by
    intro m₂ hframes
    rw [← hq.locals]
    unfold locals
    rw [hframes]
  cases hend with
  | silent hi => exact ⟨[], hq.explains (eventSort?_of_silent hi _)⟩
  | library href howner =>
    refine ⟨[], hq.explains ?_⟩
    simp only [Instruction.eventSort?, href, if_neg howner]
  | assign hheap hi hm hold hset hv h =>
    rename_i f f' rest slot old v
    obtain ⟨-, hev, hframes⟩ := h.appends hq hr rfl rfl
    have hheap' : m'.heap = m₁.heap := h.heap
    refine ⟨_, explains_single hev (eventSort?_of_localSlot hi _) ?_⟩
    -- Before its store the instruction has changed the operand stack of the current frame only.
    have htop := hq.frames
    rw [hm] at htop
    cases hm₀ : m.frames with
    | nil =>
      rw [hm₀] at htop
      cases htop
    | cons f₀ below =>
      rw [hm₀] at htop
      cases htop with
      | some _ hf =>
        have hstores := Frame.storesLocal_setLocal hold hset
        unfold Frame.StoresLocal at hstores
        rw [hf.locals] at hstores
        exact ⟨slot, f₀, f', rest, old, v, hi, hm₀, hframes, hstores, rfl, by rw [hheap],
          by rw [hheap'], hheap'.trans hheap⟩
  | setField hheap hi hget hold hv h =>
    obtain ⟨-, hev, hframes⟩ := h.appends hq hr rfl rfl
    refine ⟨_, explains_single hev (eventSort?_of_storesField hi _) ⟨hkept hframes, ?_⟩⟩
    rw [h.heap, ← hheap]
    exact Heap.storesCell_setField hget hold
  | setElement hheap hget hold hstorable hv h =>
    obtain ⟨-, hev, hframes⟩ := h.appends hq hr rfl rfl
    refine ⟨_, explains_single hev rfl ⟨hkept hframes, ?_⟩⟩
    rw [h.heap, ← hheap]
    exact Heap.storesCell_setElement hget hold
  | call hheap href howner h =>
    obtain ⟨hcode, hdepth, hbegins, hstack, hreturn, hsrc, h⟩ := h
    obtain ⟨-, hev, hframes⟩ := h.appends hq hr rfl rfl
    rename_i f _ _
    refine ⟨_, explains_single hev ?_ ⟨⟨f.locals, ?_⟩, h.heap.trans hheap⟩⟩
    · simp only [Instruction.eventSort?, href, if_pos howner, Event.sort]
    · rw [← hq.locals]
      unfold locals
      rw [hframes, List.map_cons]
  | ret hheap hsome hv h =>
    obtain ⟨line, text, hev, htells⟩ := h.tells (i := .ret _) hr hq hheap
    exact ⟨_, explains_single hev rfl htells⟩

/-- A step that fails has no event and has stored nothing. One that succeeds has the events that
its instruction prescribes, at the line of its address, and they tell all that it has changed. -/
theorem steps_explained (m : Machine) (hrecording : m.settings.recording = true) :
    (∀ e m', step m = .error e m' → m'.events = m.events ∧ m.KeepsStores m') ∧
    ∀ f rest m', m.frames = f :: rest → step m = .ok () m' →
      ∃ i es, f.Fetches i ∧ Explains i m m' es ∧ ∀ e ∈ es, e.line = f.method.line f.pc := by
  refine ⟨fun e m' h => ?_, fun f rest m' hm h => ?_⟩
  · have hq := step_error h
    exact ⟨hq.events, hq.keepsStores⟩
  · obtain ⟨i, hfetch, hfinishes⟩ := step_ok hm h
    obtain ⟨es, hes⟩ := hfinishes.explains hrecording
    refine ⟨i, es, hfetch, hes, fun e he => ?_⟩
    have hdoc : m'.document.trace.toList = m.document.trace.toList ++ es := hes.events
    rcases step_line hm h with hsame | ⟨e', hrecorded, hline⟩
    · rw [hsame] at hdoc
      rw [List.self_eq_append_right.mp hdoc] at he
      cases he
    · unfold recorded at hrecorded
      rw [hrecorded, if_pos hrecording] at hdoc
      have happend : m.document.trace.toList ++ [e'] = m.document.trace.toList ++ es :=
        Array.toList_push.symm.trans hdoc
      rw [← List.append_cancel_left happend] at he
      rw [List.mem_singleton.mp he]
      exact hline

def overlapping : Class where
  name := "T"
  super := []
  pool := #[none]
  fields := []
  methods := [
    { owner := "T", name := "main", descriptor := "()V", signature := ⟨[], .void⟩,
      isStatic := true, maxStack := 1, maxLocals := 2, code := #[0x08, 0x3C, 0x0A, 0x3F, 0xB1],
      lines := #[10, 10, 11, 11, 11] }]

def overlappingRun : Machine := overlapping.after (.byName "main") 3

def stepped? (m : Machine) : Option Machine :=
  match step m with
  | .ok _ m' => some m'
  | .error _ _ => none

/-- A step that can be computed is a step. -/
theorem stepsTo_of_stepped? {m m' : Machine} (hm : m.frames ≠ []) (h : m.stepped? = some m') :
    StepsTo m m' := by
  unfold stepped? at h
  split at h
  · rename_i hok
    cases h
    exact ⟨hm, hok⟩
  · cases h

/-- A long is stored into slot 0, so the int in slot 1 is gone. The one event of the step tells of
the long. -/
theorem steps_explained_overlapping : overlappingRun.settings.recording = true ∧
    overlappingRun.locals = [#[.null, .int 5]] ∧
    ∃ f m' i, overlappingRun.frames = [f] ∧ step overlappingRun = .ok () m' ∧ f.pc = 3 ∧
      m'.locals = [#[.long 1, .null]] ∧ f.Fetches i ∧
      Explains i overlappingRun m' [.assign 11 "local0" "null" "1" []] := by
  have hrecording : overlappingRun.settings.recording = true := by decide +kernel
  have hframes : overlappingRun.frames.map (·.pc) = [3] := by decide +kernel
  have hstep : overlappingRun.stepped?.map
      (fun m' => (m'.locals, m'.events.drop overlappingRun.events.length)) =
      some ([#[.long 1, .null]], [.assign 11 "local0" "null" "1" []]) := by
    decide +kernel
  refine ⟨hrecording, by decide +kernel, ?_⟩
  obtain ⟨f, rest, hm, hpc, hrest⟩ := List.map_eq_cons_iff.mp hframes
  rw [List.map_eq_nil_iff.mp hrest] at hm
  obtain ⟨m', hstepped, hseen⟩ := Option.map_eq_some_iff.mp hstep
  obtain ⟨-, hs⟩ := stepsTo_of_stepped? (by rw [hm]; exact List.cons_ne_nil _ _) hstepped
  obtain ⟨hlocals, hlast⟩ := Prod.mk.inj hseen
  obtain ⟨i, es, hfetch, hes, -⟩ := (steps_explained overlappingRun hrecording).2 f [] m' hm hs
  rw [hes.events, List.drop_left] at hlast
  exact ⟨f, m', i, hm, hs, hpc, hlocals, hfetch, hlast ▸ hes⟩

end Machine

end ClassTrace
