import ClassTrace.Proofs.Quiet

/-!
How instructions end. An instruction that fails has only done things without an event. One that
succeeds does such things first, and then at most one thing more, with its event: it stores into a
local, a field or an element, enters a method, or leaves one. Everything about runs is derived
from these endings.
-/
namespace ClassTrace

namespace Machine

def recorded (m : Machine) (e : Event) : Document :=
  if m.settings.recording then m.document.record (.event e) else m.document

/-- `m'` is `m` with the event reported; reports and log records may show on the console. -/
def Announces (e : Event) (m m' : Machine) : Prop :=
  ∃ console, m' = { m with document := m.recorded e, console }

/-- A report changes the document and the console, each by its own setting. -/
theorem report_eq (r : Report) (m : Machine) : m.report r =
    { m with
      document := if m.settings.recording then m.document.record r else m.document
      console :=
        if m.settings.loggingReports then m.console.add (.log r.logRecord) else m.console } := by
  unfold report
  by_cases hr : m.settings.recording = true <;>
    by_cases hl : m.settings.loggingReports = true <;> simp [hr, hl]

theorem announces_report (e : Event) (m : Machine) : Announces e m (report (.event e) m) :=
  ⟨_, report_eq (.event e) m⟩

theorem announces_of_eq {e e' : Event} (h : e = e') (m : Machine) :
    Announces e' m (report (.event e) m) :=
  h ▸ announces_report e m

theorem Announces.log {e : Event} {m m' : Machine} (h : Announces e m m') (r : LogRecord) :
    Announces e m (m'.log r) := by
  obtain ⟨console, rfl⟩ := h
  unfold Machine.log
  split
  · exact ⟨_, rfl⟩
  · exact ⟨console, rfl⟩

/-- Reporting neither touches nor looks at the host's stack and the frames. -/
theorem Announces.place {e : Event} {m m' : Machine} (h : Announces e m m')
    (onHost : Stack → Stack) (onFrames : List Frame → List Frame) :
    Announces e { m with host := onHost m.host, frames := onFrames m.frames }
      { m' with host := onHost m'.host, frames := onFrames m'.frames } := by
  obtain ⟨console, rfl⟩ := h
  exact ⟨console, rfl⟩

def events (m : Machine) : List Event := m.document.trace.toList

theorem Quiet.events {m m' : Machine} (h : m.Quiet m') : m'.events = m.events :=
  congrArg (fun d => d.trace.toList) h.document

/-- The event that is announced is the last one recorded. -/
theorem Announces.events {e : Event} {m m' : Machine} (h : Announces e m m')
    (hr : m.settings.recording = true) : m'.events = m.events ++ [e] := by
  obtain ⟨console, rfl⟩ := h
  unfold Machine.events recorded
  rw [if_pos hr]
  exact Array.toList_push

/-- What an announced event leaves alone. -/
theorem Announces.appends {start m m₁ m' : Machine} {e : Event} (h : Announces e m₁ m')
    (hq : start.Quiet m) (hr : start.settings.recording = true) (hset : m₁.settings = m.settings)
    (hdoc : m₁.document = m.document) :
    m'.settings = start.settings ∧ m'.events = start.events ++ [e] ∧ m'.frames = m₁.frames := by
  have hset' : m₁.settings = start.settings := hset.trans hq.settings
  have hev := h.events (hset' ▸ hr)
  refine ⟨?_, ?_, ?_⟩
  · obtain ⟨console, rfl⟩ := h
    exact hset'
  · rw [hev, ← hq.events]
    unfold Machine.events
    rw [hdoc]
  · obtain ⟨console, rfl⟩ := h
    rfl

/-- The frame is at the start of the method and has as many locals as the method needs. -/
structure Begins (f : Frame) (method : Method) : Prop where
  method : f.method = method
  pc : f.pc = 0
  opPc : f.opPc = 0
  locals : f.locals.size = f.method.localSize

/-- The machine goes from `m` into a new frame of the method. The instruction, or the call of the
host, began in `start`. -/
inductive Enters (start m : Machine) (method : Method) : Machine → Prop
  | intro {f : Frame} {kind : CallKind} {args : List Value} {m' : Machine}
      (hcode : method.hasCode = true) (hdepth : m.frames.length < m.settings.maxDepth)
      (hbegins : Begins f method) (hstack : f.stack = []) (hreturn : f.returnPc = m.resumeAt)
      (hsrc : ∀ id, f.Mentions id → start.Sources m.heap id)
      (h : Announces (.call m.line method.name kind.name (args.map m.heap.display))
        { m with frames := f :: m.frames } m') :
      Enters start m method m'

def shownValue (h : Heap) (v : Option Value) : Bytes :=
  match v with
  | some v => h.display v
  | none => Event.voidValue

/-- The machine leaves the current frame of `m` and hands the value over. -/
inductive Leaves (v : Option Value) (m : Machine) : Machine → Prop
  | toHost {f : Frame} {m' : Machine} (hm : m.frames = [f])
      (h : Announces (.ret f.line (shownValue m.heap v))
        { m with frames := [], host := v.toList ++ m.host } m') :
      Leaves v m m'
  | toCaller {f caller : Frame} {below : List Frame} {m' : Machine}
      (hm : m.frames = f :: caller :: below)
      (h : Announces (.ret f.line (shownValue m.heap v))
        { m with frames := caller.resume f.returnPc v :: below } m') :
      Leaves v m m'

end Machine

namespace Instruction

def isSilent : Instruction → Bool
  | .store .. | .increment .. | .arrayStore _ | .putStatic _ | .putField _ | .invoke ..
  | .ret _ => false
  | _ => true

def localSlot? : Instruction → Option Nat
  | .store _ slot | .increment slot _ => some slot
  | _ => none

def storesField : Instruction → Bool
  | .putStatic _ | .putField _ => true
  | _ => false

end Instruction

namespace Machine

/-- What an instruction that began in `start` does last, in `m`, when it succeeds. What has an
event is done with the heap that the instruction found. -/
inductive Ending (start m : Machine) : Instruction → Machine → Prop
  | silent {i : Instruction} (hi : i.isSilent = true) : Ending start m i m
  | library {mode : CallMode} {index : UInt16} {r : MethodRef}
      (hr : start.program.pool.methodRef index = .ok r)
      (howner : r.owner.name ≠ start.program.name) :
      Ending start m (.invoke mode index) m
  | assign {i : Instruction} {f f' : Frame} {rest : List Frame} {slot : Nat} {old v : Value}
      {m' : Machine} (hheap : m.heap = start.heap) (hi : i.localSlot? = some slot)
      (hm : m.frames = f :: rest)
      (hold : f.locals[slot]? = some old) (hset : Frame.setLocal slot v f = .ok () f')
      (hv : v.Within (start.Sources m.heap))
      (h : Announces (.assign f'.line (f'.localName slot) (m.heap.display old)
        (m.heap.display v) []) { m with frames := f' :: rest } m') :
      Ending start m i m'
  | setField {i : Instruction} {id : Int} {owner name : Bytes} {fields : Fields} {old v : Value}
      {m' : Machine} (hheap : m.heap = start.heap) (hi : i.storesField = true)
      (hget : m.heap.get? id = some (.object owner fields))
      (hold : fields.get? name = some old) (hv : v.Within (start.Sources m.heap))
      (h : Announces (.setField m.line id name (m.heap.display old) (m.heap.display v) [])
        { m with heap := m.heap.setField id name v } m') :
      Ending start m i m'
  | setElement {s : ElementStore} {id : Int} {element : FieldType} {elements : Array Value}
      {index : Nat} {old v : Value} {m' : Machine} (hheap : m.heap = start.heap)
      (hget : m.heap.get? id = some (.array element elements))
      (hold : elements[index]? = some old) (hstorable : storable element v = true)
      (hv : v.Within (start.Sources m.heap))
      (h : Announces (.setElement m.line id index (m.heap.display old) (m.heap.display v) [])
        { m with heap := m.heap.setElement id index v } m') :
      Ending start m (.arrayStore s) m'
  | call {mode : CallMode} {index : UInt16} {method : Method} {r : MethodRef} {m' : Machine}
      (hheap : m.heap = start.heap) (hr : start.program.pool.methodRef index = .ok r)
      (howner : r.owner.name = start.program.name)
      (h : Enters start m method m') :
      Ending start m (.invoke mode index) m'
  | ret {family : Option Family} {v : Option Value} {m' : Machine} (hheap : m.heap = start.heap)
      (hsome : v.isSome = family.isSome)
      (hv : ∀ w, v = some w → w.Within (start.Sources m.heap)) (h : Leaves v m m') :
      Ending start m (.ret family) m'

/-- The instruction can lead from `start` to `m'`: actions without an event, then its ending. -/
def Finishes (start : Machine) (i : Instruction) (m' : Machine) : Prop :=
  ∃ m, start.Quiet m ∧ Ending start m i m'

theorem Quiet.finishes {start m : Machine} (h : start.Quiet m) {i : Instruction}
    (hi : i.isSilent = true) : Finishes start i m :=
  ⟨m, h, .silent hi⟩

/-- What no instruction changes. -/
theorem Finishes.kept {start m' : Machine} {i : Instruction} (h : Finishes start i m') :
    m'.program = start.program ∧ m'.library = start.library ∧ m'.settings = start.settings := by
  obtain ⟨m, hq, hend⟩ := h
  have hm : m.program = start.program ∧ m.library = start.library ∧ m.settings = start.settings :=
    ⟨hq.program, hq.library, hq.settings⟩
  cases hend with
  | silent | library => exact hm
  | assign _ _ _ _ _ _ h | setField _ _ _ _ _ h | setElement _ _ _ _ _ h =>
    obtain ⟨console, rfl⟩ := h
    exact hm
  | call _ _ _ h =>
    obtain ⟨_, _, _, _, _, _, console, rfl⟩ := h
    exact hm
  | ret _ _ _ h =>
    cases h with
    | toHost _ h | toCaller _ h =>
      obtain ⟨console, rfl⟩ := h
      exact hm

end Machine

end ClassTrace
