import ClassTrace.Proofs.Arguments
import ClassTrace.Proofs.FrameBounds
import ClassTrace.Proofs.HeapShape

/-!
No access is out of range. Whatever class was loaded and whatever the host does, everything that
is looked up without a check of its own is there: the opcode at the address of a frame, the locals
of a receiver and of arguments, the offsets of a table, the object of the class, the arguments of
a library method and the values of a map. So what fails, fails with a fault.
-/
namespace ClassTrace

def KeyedMap.Gives (entries : KeyedMap Value) (v : Value) : Prop :=
  v = .null ∨ ∃ key, (key, v) ∈ entries.entries

theorem KeyedMap.gives_get? (entries : KeyedMap Value) (key : Key) :
    entries.Gives ((entries.get? key).getD .null) := by
  cases hv : entries.get? key with
  | none => exact Or.inl rfl
  | some v => exact Or.inr (KeyedMap.mem_of_get? hv)

/-- A fetched instruction has the opcode at the address of its frame. -/
theorem Frame.Fetches.hasOpcode {f : Frame} {i : Instruction} (h : f.Fetches i) :
    ∃ opcode, f.method.code[f.pc]? = some opcode ∧ i.HasOpcode opcode := by
  obtain ⟨opcode, next, hop, hdec⟩ := h
  have hpc : f.pc < f.method.code.size := (Array.getElem?_eq_some_iff.mp hop).1
  have hyields := Instruction.decode_hasOpcode opcode f.method.code (f.pc + 1) hpc
  exact ⟨opcode, hop, (hyields.of_ok hdec).1⟩

namespace Machine

/-- Everything that the machine looks up without a check of its own is there. -/
structure InRange (program : Class) (m : Machine) : Prop where
  /-- Control is within the code or at its end. -/
  pc : ∀ f ∈ m.frames, f.pc ≤ f.method.code.size
  /-- There is an opcode at the address of the instruction being run. -/
  opcode : ∀ f ∈ m.frames, ∃ opcode, f.method.code[f.opPc]? = some opcode
  locals : ∀ f ∈ m.frames, f.locals.size =
    max f.method.maxLocals (f.method.signature.argSlots + if f.method.isStatic then 0 else 1)
  /-- The opcode that a fault of a call names is the one that was fetched. -/
  calls : ∀ f ∈ m.frames, ∀ mode index, f.Fetches (.invoke mode index) →
    f.method.code[f.pc]? = some mode.opcode
  /-- The opcode that a fault of loading a constant names is the one that was fetched. -/
  loads : ∀ f ∈ m.frames, ∀ form index, f.Fetches (.loadConstant form index) →
    f.method.code[f.pc]? = some form.opcode
  /-- A table has an offset for every key in its range. -/
  tables : ∀ f ∈ m.frames, ∀ fallback low high offsets,
    f.Fetches (.operate (.tableSwitch fallback low high offsets)) →
    ∀ key, low ≤ key → key ≤ high →
      ∃ offset, offsets[(key.toInt - low.toInt).toNat]? = some offset
  /-- A method that is entered has got all that was popped for it. -/
  entered :
    ∀ method kind m', enter method kind m = .ok () m' → ∃ receiver? args stack callee below,
    m.operands = args.reverse ++ (receiver?.toList ++ stack) ∧
    receiver?.isSome = !method.isStatic ∧
    m'.frames = callee :: below ∧ callee.method = method ∧ callee.Receives receiver? args
  /-- A library method looks at no argument but those that were popped for it. -/
  arguments : ∀ index r routine, program.pool.methodRef index = .ok r →
    m.library.routine? r.owner.name r.nameType.name r.nameType.descriptor = some routine →
    ∀ s args s', Stack.popArgs r.signature.params s = .ok args s' → ∀ receiver extra,
      routine.run ⟨r.signature, receiver, args ++ extra⟩ =
        routine.run ⟨r.signature, receiver, args⟩
  singleton : ∃ fields, m.singleton = .ok (program.name, fields)
  /-- Looking into a map and putting into it give null or a value that is in the map. -/
  maps : ∀ id entries, m.heap.get? id = some (.map entries) → ∀ signature args,
    (∃ v, entries.Gives v ∧ mapGet ⟨signature, .ref id, args⟩ m = .ok v m) ∧
    ∃ v m', entries.Gives v ∧ mapPut ⟨signature, .ref id, args⟩ m = .ok v m'

variable {m m' : Machine}

/-- A method that was entered has its receiver and its arguments in the locals of the new
frame. -/
theorem enter_receives {method : Method} {kind : CallKind} (h : enter method kind m = .ok () m') :
    ∃ receiver? args stack callee below,
      m.operands = args.reverse ++ (receiver?.toList ++ stack) ∧
      receiver?.isSome = !method.isStatic ∧
      m'.frames = callee :: below ∧ callee.method = method ∧ callee.Receives receiver? args := by
  obtain ⟨args, receiver?, stack, hoperands, hlen, hreceiver, hframes, -⟩ := enter_takes h
  have hreceives := receives_entryFrame hlen hreceiver
  refine ⟨receiver?, args, stack, _, _, hoperands, hreceiver, hframes, ?_, ?_⟩
  · cases receiver? <;> rfl
  · exact ⟨hreceives.receiver, hreceives.count, hreceives.args⟩

theorem receiverMap_ok {id : Int} {entries : KeyedMap Value}
    (h : m.heap.get? id = some (.map entries)) :
    receiverMap (.ref id) m = .ok (id, entries) m := by
  have hget : m.heap.get id = .ok (.map entries) := by
    unfold Heap.get
    rw [h]
  have hentry : receiverEntry .map (.ref id) m = .ok (id, .map entries) m := by
    change EStateM.bind (check (m.heap.get id)) _ m = _
    rw [hget]
    rfl
  unfold receiverMap
  rw [bind_of_ok hentry]
  rfl

/-- A look-up in a map that is there always gives a value. -/
theorem mapGet_ok {id : Int} {entries : KeyedMap Value} (h : m.heap.get? id = some (.map entries))
    (signature : Signature) (args : List Value) :
    ∃ v, entries.Gives v ∧ mapGet ⟨signature, .ref id, args⟩ m = .ok v m := by
  refine ⟨_, entries.gives_get? (m.heap.key (args.getD 0 .null)), ?_⟩
  unfold mapGet
  rw [bind_of_ok (receiverMap_ok h)]
  rfl

theorem mapPut_ok {id : Int} {entries : KeyedMap Value} (h : m.heap.get? id = some (.map entries))
    (signature : Signature) (args : List Value) :
    ∃ v m', entries.Gives v ∧ mapPut ⟨signature, .ref id, args⟩ m = .ok v m' := by
  let key := m.heap.key (args.getD 0 .null)
  refine ⟨_, { m with heap := m.heap.setMap id (entries.put key (args.getD 1 .null)) },
    entries.gives_get? key, ?_⟩
  unfold mapPut
  rw [bind_of_ok (receiverMap_ok h)]
  rfl

theorem start_library (program : Class) (library : Library) (settings : Settings) (runId : Bytes)
    (console : Console) : (start program library settings runId console).library = library := by
  obtain ⟨document, console', -, hstart⟩ := start_eq program library settings runId console
  rw [hstart]

theorem Reaches.library {Pushable : Machine → Value → Prop} (h : Reaches Pushable m m') :
    m'.library = m.library := (Reaches.kept h).2.1

/-- With the routines of the default library, a call whose method constant was loaded has the
arguments that its routine reads. -/
theorem routine_arguments {file : ClassFile} {program : Class}
    (hload : Class.load file = .ok program) {index : UInt16} {r : MethodRef} {routine : Routine}
    (hr : program.pool.methodRef index = .ok r)
    (hroutine : Library.default.routine? r.owner.name r.nameType.name r.nameType.descriptor =
      some routine) {s s' : Stack} {args : List Value}
    (hpop : Stack.popArgs r.signature.params s = .ok args s') (receiver : Value)
    (extra : List Value) :
    routine.run ⟨r.signature, receiver, args ++ extra⟩ =
      routine.run ⟨r.signature, receiver, args⟩ := by
  have hlen := Stack.popArgs_length hpop
  have hreads := Library.default_reads hroutine ((Class.load_spelled hload).methodRef hr)
  rw [← hlen] at hreads
  exact Routine.run_append hreads hlen extra

/-- What the frames, the library and the first entry of the heap have to be like. -/
theorem inRange_of_stacked {file : ClassFile} {program : Class}
    (hload : Class.load file = .ok program) (hstacked : Frame.Stacked m.frames)
    (hlibrary : m.library = .default)
    (hfirst : ∃ fields, m.heap.get? 0 = some (.object program.name fields)) :
    m.InRange program where
  pc f hf := (hstacked.sized f hf).inside.2
  opcode f hf := ⟨_, Array.getElem?_eq_getElem (hstacked.sized f hf).inside.1⟩
  locals f hf := (hstacked.sized f hf).locals
  calls f _ mode index hfetch := by
    obtain ⟨opcode, hop, hopcode⟩ := hfetch.hasOpcode
    rw [hop, show opcode = mode.opcode from hopcode]
  loads f _ form index hfetch := by
    obtain ⟨opcode, hop, hopcode⟩ := hfetch.hasOpcode
    rw [hop, show opcode = form.opcode from hopcode]
  tables f _ fallback low high offsets hfetch key hlow hhigh := by
    obtain ⟨opcode, -, hopcode⟩ := hfetch.hasOpcode
    have hindex : (key.toInt - low.toInt).toNat < offsets.size := hopcode.literal key hlow hhigh
    exact ⟨_, Array.getElem?_eq_getElem hindex⟩
  entered _ _ _ h := enter_receives h
  arguments index r routine hr hroutine s args s' hpop receiver extra := by
    rw [hlibrary] at hroutine
    exact routine_arguments hload hr hroutine hpop receiver extra
  singleton := by
    obtain ⟨fields, hget⟩ := hfirst
    refine ⟨fields, ?_⟩
    unfold Machine.singleton Heap.object Heap.get
    rw [hget]
    rfl
  maps _ _ hget signature args := ⟨mapGet_ok hget signature args, mapPut_ok hget signature args⟩

/-- Every access is in range, in every state that the host can bring a machine to, at every moment
of a step from there, and where an operation stops halfway. -/
theorem accesses_in_range (file : ClassFile) (program : Class)
    (hload : Class.load file = .ok program) (settings : Settings) (runId : Bytes)
    (console : Console) (m : Machine)
    (hreach : Reaches (fun _ _ => True) (start program .default settings runId console) m) :
    ∀ m', m.Quiet m' ∨ m.Stops m' → m'.InRange program := by
  intro m' hm'
  have hstacked : Frame.Stacked m.frames := by
    refine hreach.stacked ?_
    rw [start_frames]
    exact Frame.stacked_nil
  have hlibrary : m.library = .default := hreach.library.trans (start_library ..)
  have hquiet : m.Quiet m' := by
    rcases hm' with hquiet | hstops
    · exact hquiet
    · exact hstops.quiet
  refine inRange_of_stacked hload (hquiet.stacked hstacked) (hquiet.library.trans hlibrary) ?_
  exact object_evolves hquiet.heap.evolves hreach.singleton

def pickCode : Bytes :=
  [0x04, 0xAA, 0, 0, 0, 0, 0, 0, 0, 0, 0, 0, 0, 0, 0, 1, 0, 0, 0, 23, 255, 255, 255, 255, 0xB1]

def pickingFile : ClassFile where
  minor := 0
  major := 52
  pool := #[none, some (.utf8 "T"), some (.classRef 1), some (.utf8 "pick"), some (.utf8 "(J)V"),
    some (.nameAndType 3 4), some (.methodRef 2 5)]
  flags := 0x21
  thisClass := 2
  superClass := 0
  interfaces := []
  fields := []
  methods := [
    ⟨⟨8, 0, 0, "main", "()V", []⟩,
      some ⟨3, 0, [0xBB, 0, 2, 0x0A, 0xB6, 0, 6, 0xB1], [], [], [], []⟩⟩,
    ⟨⟨0, 3, 4, "pick", "(J)V", []⟩, some ⟨1, 0, pickCode, [], [], [], []⟩⟩]

def pickSignature : Signature := ⟨[.primitive .long], .void⟩

def picking : Class where
  name := "T"
  super := []
  pool :=
    #[none, some (.utf8 "T"), some (.classRef ⟨"T", 1⟩), some (.utf8 "pick"), some (.utf8 "(J)V"),
    some (.nameType ⟨"pick", "(J)V", .method pickSignature⟩),
    some (.methodRef ⟨⟨"T", 1⟩, ⟨"pick", "(J)V", .method pickSignature⟩, pickSignature, false⟩)]
  fields := []
  methods := [
    { owner := "T", name := "main", descriptor := "()V", signature := ⟨[], .void⟩,
      isStatic := true, maxStack := 3, code := #[0xBB, 0, 2, 0x0A, 0xB6, 0, 6, 0xB1],
      lines := Array.replicate 8 (-1) },
    { owner := "T", name := "pick", descriptor := "(J)V", signature := pickSignature,
      isStatic := false, maxStack := 1, code := pickCode.toArray,
      lines := Array.replicate 25 (-1), paramNames := ["arg0"] }]

def pickingRun : Machine := picking.after (.byName "main") 4

/-- `pick` declares no locals, but its frame has one for the receiver and two for the long. Its
table has an offset for the key 1, and the jump by the table is next. -/
theorem accesses_in_range_picking : Class.load pickingFile = .ok picking ∧
    Reaches (fun _ _ => True) (start picking .default {} [] {}) pickingRun ∧
    pickingRun.frames.map (fun f => (f.pc, f.opPc, f.locals)) =
      [(1, 0, #[.ref 1, .long 1, .null]), (7, 4, #[])] ∧
    pickingRun.InRange picking ∧
    ∃ f ∈ pickingRun.frames, f.Fetches (.operate (.tableSwitch 0 0 1 #[23, -1])) ∧
      ∃ offset, #[(23 : Int32), -1][((1 : Int32).toInt - (0 : Int32).toInt).toNat]? =
        some offset := by
  have hload : Class.load pickingFile = .ok picking := by decide +kernel
  have hreach : Reaches (fun _ _ => True) (start picking .default {} [] {}) pickingRun :=
    picking.reaches_after _ _
  have hrange := accesses_in_range pickingFile picking hload {} [] {} pickingRun hreach pickingRun
    (Or.inl (.refl _))
  have htop : pickingRun.frames.head?.map (fun f => (f.method.code, f.pc)) =
      some (pickCode.toArray, 1) := by
    decide +kernel
  obtain ⟨f, hhead, hf⟩ := Option.map_eq_some_iff.mp htop
  obtain ⟨hcode, hpc⟩ := Prod.mk.inj hf
  have hmem : f ∈ pickingRun.frames := List.mem_of_head? hhead
  have hfetch : f.Fetches (.operate (.tableSwitch 0 0 1 #[23, -1])) := by
    refine ⟨0xAA, 24, ?_, ?_⟩
    · rw [hcode, hpc]
      rfl
    · rw [hcode, hpc]
      rfl
  refine ⟨hload, hreach, by decide +kernel, hrange, f, hmem, hfetch, ?_⟩
  exact hrange.tables f hmem 0 0 1 _ hfetch 1 (by decide) (by decide)

end Machine

end ClassTrace
