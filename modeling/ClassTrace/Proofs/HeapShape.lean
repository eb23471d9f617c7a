import ClassTrace.Proofs.Replay

/-!
The heap never loses its shape. Whatever the host does, short of making up references, every
reference that the machine holds designates an entry, the first entry is the object of the class,
and objects have the fields that the class declares. This also holds where an operation stops
halfway with an error. Ids keep designating what they designated.
-/
namespace ClassTrace

namespace Machine

/-- An operation stopped with an error in `m'`. The frames are given up only after that. -/
inductive Stops (m m' : Machine) : Prop
  | step {e : RunError} (h : step m = .error e m')
  | enter {method : Method} {cause : Cause} (h : enter method .static m = .error cause m')

/-- What an operation did before it stopped has no event. -/
theorem Stops.quiet {m m' : Machine} (h : Stops m m') : m.Quiet m' := by
  cases h with
  | step h => exact step_error h
  | enter h => exact (ends_enter (Quiet.refl m)).of_error h

/-- References go to entries only, and the heap has the shape that the class gives it. -/
structure Intact (program : Class) (m : Machine) : Prop where
  sound : m.Sound
  singleton : ∃ fields, m.heap.get? 0 = some (.object program.name fields)
  declared : ∀ id owner fields, m.heap.get? id = some (.object owner fields) →
    ∀ name, name ∈ fields.map (·.1) ↔ name ∈ program.fieldNames

/-- Actions without an event bring in no dangling reference. -/
theorem Sound.quiet {m m' : Machine} (hs : m.Sound) (hq : m.Quiet m') : m'.Sound := by
  have hev := hq.heap.evolves
  intro id hid
  rcases hq.mentions id hid with hold | ⟨hge, hlt⟩
  · exact hev.has (hs id hold)
  · exact ⟨by omega, hlt⟩

/-- An object stays one of its class. -/
theorem object_evolves {h h' : Heap} (hev : h.Evolves h') {id : Int} {owner : Bytes}
    (hget : ∃ fields, h.get? id = some (.object owner fields)) :
    ∃ fields, h'.get? id = some (.object owner fields) := by
  obtain ⟨fields, hget⟩ := hget
  obtain ⟨e, he, hobject⟩ := hev.get? hget
  cases hobject with
  | object _ hnames => exact ⟨_, he⟩

theorem start_heap (program : Class) (library : Library) (settings : Settings) (runId : Bytes)
    (console : Console) :
    (start program library settings runId console).heap = ⟨#[program.newObject]⟩ := by
  obtain ⟨document, console', -, hstart⟩ := start_eq program library settings runId console
  rw [hstart]

/-- At first there is nothing on the heap but an object of the class. -/
theorem eq_newObject_of_start {program : Class} {library : Library} {settings : Settings}
    {runId : Bytes} {console : Console} {id : Int} {e : Entry}
    (hget : (start program library settings runId console).heap.get? id = some e) :
    e = program.newObject := by
  rw [start_heap] at hget
  have hmem := Array.mem_of_getElem? (Heap.get?_eq_some_iff.mp hget).2
  exact Array.mem_singleton.mp hmem

theorem start_program (program : Class) (library : Library) (settings : Settings) (runId : Bytes)
    (console : Console) : (start program library settings runId console).program = program := by
  obtain ⟨document, console', -, hstart⟩ := start_eq program library settings runId console
  rw [hstart]

theorem shaped_start (program : Class) (library : Library) (settings : Settings) (runId : Bytes)
    (console : Console) : (start program library settings runId console).Shaped := by
  intro id owner fields hget
  rw [start_program]
  cases eq_newObject_of_start hget
  simp [Fields.fresh, Function.comp_def]

/-- The first entry stays the object of the class it was made for. -/
theorem Reaches.singleton {Pushable : Machine → Value → Prop} {program : Class}
    {library : Library} {settings : Settings} {runId : Bytes} {console : Console} {m : Machine}
    (h : Reaches Pushable (start program library settings runId console) m) :
    ∃ fields, m.heap.get? 0 = some (.object program.name fields) := by
  refine object_evolves h.evolves ⟨Fields.fresh program.fieldNames, ?_⟩
  rw [start_heap]
  rfl

theorem Reaches.program {Pushable : Machine → Value → Prop} {m m' : Machine}
    (h : Reaches Pushable m m') : m'.program = m.program := (Reaches.kept h).1

/-- Objects keep the fields of the class in every state that the host can reach. -/
theorem Reaches.shaped {Pushable : Machine → Value → Prop} {m m' : Machine}
    (hs : m.Shaped) (h : Reaches Pushable m m') : m'.Shaped := by
  induction h with
  | refl => exact hs
  | tail _ ht ih =>
    obtain ⟨es, hw, -⟩ := ht.writes
    exact ih.writes ht.kept.1 hw

/-- No reference dangles in any state that the host can reach by pushing sound ones. -/
theorem Reaches.sound {m m' : Machine} (hs : m.Sound) (h : Reaches Designates m m') :
    m'.Sound := by
  induction h with
  | refl => exact hs
  | tail _ ht ih => exact ih.transition ht

theorem Sound.intact {program : Class} {m : Machine} (hsound : m.Sound) (hp : m.program = program)
    (hshaped : m.Shaped) (hfirst : ∃ fields, m.heap.get? 0 = some (.object program.name fields)) :
    m.Intact program := by
  refine ⟨hsound, hfirst, fun id owner fields hget name => ?_⟩
  rw [hshaped id owner fields hget, hp]
  exact List.mem_eraseDups

/-- The heap of every state is intact, also where an operation stops halfway, and it only grows:
each id keeps its entry, and each array its length and the type of its elements. -/
theorem heap_stays_intact (program : Class) (settings : Settings) (runId : Bytes)
    (console : Console) (m : Machine)
    (hreach : Reaches Designates (start program .default settings runId console) m) :
    m.Intact program ∧
    (∀ m', m.Stops m' → m'.Intact program ∧ m.heap.Evolves m'.heap) ∧
    ∀ m', Reaches Designates m m' → m.heap.Evolves m'.heap := by
  have hsound := hreach.sound (sound_start program settings runId console)
  have hprogram : m.program = program := hreach.program.trans (start_program ..)
  have hshaped := hreach.shaped (shaped_start _ _ _ _ _)
  have hfirst := hreach.singleton
  refine ⟨hsound.intact hprogram hshaped hfirst, fun m' hstop => ?_, fun m' hm' => hm'.evolves⟩
  have hq := hstop.quiet
  have hev := hq.heap.evolves
  have hshaped' := hshaped.writes hq.program hq.writes
  exact ⟨(hsound.quiet hq).intact (hq.program.trans hprogram) hshaped'
    (object_evolves hev hfirst), hev⟩

def filing : Class where
  name := "T"
  super := []
  pool := #[none, some (.classRef ⟨"T", 0⟩),
    some (.fieldRef ⟨⟨"T", 0⟩,
      ⟨"x", "Ljava/lang/Object;", .plain (.value (.object "java/lang/Object"))⟩,
      .value (.object "java/lang/Object")⟩),
    some (.classRef ⟨KeyedMap.className, 0⟩),
    some (.methodRef ⟨⟨KeyedMap.className, 0⟩,
      ⟨"put", "(Ljava/lang/Object;Ljava/lang/Object;)Ljava/lang/Object;",
        .method ⟨[.object "java/lang/Object", .object "java/lang/Object"],
          .value (.object "java/lang/Object")⟩⟩,
      ⟨[.object "java/lang/Object", .object "java/lang/Object"],
        .value (.object "java/lang/Object")⟩, false⟩),
    some (.fieldRef ⟨⟨"java/lang/System", 0⟩,
      ⟨"out", "Ljava/io/PrintStream;", .plain (.value (.object "java/io/PrintStream"))⟩,
      .value (.object "java/io/PrintStream")⟩)]
  fields := [⟨"x", .object "java/lang/Object", true⟩]
  methods := [
    { owner := "T", name := "main", descriptor := "()V", signature := ⟨[], .void⟩,
      isStatic := true, maxStack := 4, maxLocals := 1,
      code := #[0xBB, 0, 3, 0x59, 0x4B, 0xB3, 0, 2, 0x2A, 0x2A, 0x04, 0xBC, 10, 0xB6, 0, 4, 0x57,
        0xB2, 0, 5, 0xBB, 0, 1, 0x57, 0x57, 0x57] }]

def filingRun : Machine := filing.after (.byName "main") 20

/-- `main` puts an array into a map that a field holds, asks for the standard output, makes an
object and then pops once too often. The run stops with a fault, and what it made stays. -/
theorem heap_stays_intact_filing :
    Reaches Designates (start filing .default {} [] {}) filingRun ∧ filingRun.frames = [] ∧
      filingRun.heap.entries.map Entry.sort = #[.object, .map, .array, .stream, .object] ∧
      filingRun.Mentions 3 ∧ filingRun.heap.Has 3 ∧ filingRun.Intact filing := by
  have hreach : Reaches Designates (start filing .default {} [] {}) filingRun :=
    filing.reaches_after _ _
  have hintact := (heap_stays_intact filing {} [] {} filingRun hreach).1
  have hstream : (staticKey "java/lang/System" "out", .ref 3) ∈ filingRun.statics := by
    decide +kernel
  exact ⟨hreach, by
    decide +kernel, by decide +kernel, .static hstream, hintact.sound 3 (.static hstream),
    hintact⟩

end Machine

end ClassTrace
