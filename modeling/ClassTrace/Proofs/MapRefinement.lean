import ClassTrace.Proofs.ArrayKinds
import ClassTrace.Proofs.MapKeys

/-!
Maps of the library are finite maps. A step puts something into a map if and only if it calls
`put` on it, and then it does so whether or not there is room for the result. So a map is made by
the puts into it, whatever else happens to the heap and to other maps, and all its methods answer
for these puts alone.
-/
namespace ClassTrace

inductive MapCall where
  | get (k : Value)
  | put (k v : Value)
  | containsKey (k : Value)
  | size

namespace MapCall

def name : MapCall → Bytes
  | .get _ => "get"
  | .put _ _ => "put"
  | .containsKey _ => "containsKey"
  | .size => "size"

def args : MapCall → List Value
  | .get k | .containsKey k => [k]
  | .put k v => [k, v]
  | .size => []

def descriptor : MapCall → Bytes
  | .get _ => "(Ljava/lang/Object;)Ljava/lang/Object;"
  | .put _ _ => "(Ljava/lang/Object;Ljava/lang/Object;)Ljava/lang/Object;"
  | .containsKey _ => "(Ljava/lang/Object;)Z"
  | .size => "()I"

def signature (call : MapCall) : Signature where
  params := call.args.map fun _ => .object "java/lang/Object"
  result := .value (match call with
    | .get _ | .put _ _ => .object "java/lang/Object"
    | .containsKey _ => .primitive .boolean
    | .size => .primitive .int)

def routine : MapCall → Routine
  | .get _ => .mapGet
  | .put _ _ => .mapPut
  | .containsKey _ => .mapContainsKey
  | .size => .mapSize

/-- What the call returns after the puts, the last one first. -/
noncomputable def answer (h : Heap) (puts : List (Value × Value)) : MapCall → Value
  | .get k | .put k _ => (h.latest? puts k).getD .null
  | .containsKey k => .bool (puts.any fun p => h.equivalent k p.1)
  | .size => .int (Int32.ofNat (h.classes (puts.map (·.1))))

def result (h : Heap) (entries : KeyedMap Value) : MapCall → Value
  | .get k | .put k _ => (entries.get? (h.key k)).getD .null
  | .containsKey k => .bool (entries.contains (h.key k))
  | .size => .int (Int32.ofNat entries.size)

theorem parse_descriptor (call : MapCall) :
    Descriptor.parse call.descriptor = .ok (.method call.signature) := by
  cases call <;> rfl

/-- The default library has the methods of maps under their names and descriptors. -/
theorem routine?_eq (call : MapCall) :
    Library.default.routine? KeyedMap.className call.name call.descriptor =
      some call.routine := by
  cases call <;> rfl

/-- No other method of the library puts into maps. -/
theorem default_mapPut {owner name descriptor : Bytes}
    (h : Library.default.routine? owner name descriptor = some .mapPut) (k v : Value) :
    owner = KeyedMap.className ∧ name = (MapCall.put k v).name ∧
    descriptor = (MapCall.put k v).descriptor := by
  have honly : ∀ p ∈ Library.default.routines, p.2 = .mapPut →
      p.1 = Library.mapKey "put" "(Ljava/lang/Object;Ljava/lang/Object;)Ljava/lang/Object;" := by
    decide +kernel
  obtain ⟨d, hd, hmem⟩ := Library.mem_of_routine? h
  cases honly _ hmem rfl
  rcases hd with rfl | hd
  · exact ⟨rfl, rfl, rfl⟩
  · cases hd

theorem popArgs_eq (call : MapCall) (hargs : ∀ v ∈ call.args, v.isReference = true)
    (below : Stack) :
    Stack.popArgs call.signature.params (call.args.reverse ++ below) = .ok call.args below := by
  refine Stack.popArgs_ok (List.forall₂_map_left_iff.mpr (List.forall₂_same.mpr fun v hv => ?_))
    below
  exact Value.kind_of_isReference (hargs v hv)

/-- The entries that the puts leave answer for them. -/
theorem result_ofPuts (call : MapCall) {h : Heap} {puts : List (Value × Value)}
    (hkeys : ∀ p ∈ puts, h.IsKey p.1) (hargs : ∀ v ∈ call.args, h.IsKey v) :
    call.result h (.ofPuts (puts.map fun p => (h.key p.1, p.2))) = call.answer h puts := by
  have hplain : ∀ p ∈ puts.map fun p => (h.key p.1, p.2), p.1.Plain :=
    List.forall_mem_map.mpr fun p hp => (hkeys p hp).plain
  have hequivalent :
      ∀ k, h.IsKey k → ∀ p ∈ puts, decide (h.key k = h.key p.1) = h.equivalent k p.1 :=
    fun k hk p hp => (Heap.equivalent_eq hk (hkeys p hp)).symm
  have hget :
      ∀ k, h.IsKey k → KeyedMap.get? (.ofPuts (puts.map fun p => (h.key p.1, p.2))) (h.key k) =
      h.latest? puts k := by
    intro k hk
    rw [KeyedMap.get?_ofPuts hplain hk.plain, List.find?_map, Option.map_map]
    exact congrArg _ (List.find?_congr (hequivalent k hk))
  cases call with
  | get k => exact congrArg (·.getD .null) (hget k (hargs k (List.mem_singleton_self k)))
  | put k v => exact congrArg (·.getD .null) (hget k (hargs k (List.mem_cons_self ..)))
  | containsKey k =>
    have hk := hargs k (List.mem_singleton_self k)
    refine congrArg Value.bool ?_
    rw [KeyedMap.contains_ofPuts hplain hk.plain, List.any_map, Bool.eq_iff_iff, List.any_eq_true,
      List.any_eq_true]
    exact exists_congr fun p => and_congr_right fun hp => by rw [← hequivalent k hk p hp]; rfl
  | size =>
    refine congrArg (Value.int <| Int32.ofNat ·) ?_
    rw [KeyedMap.size_ofPuts hplain, ← Heap.card_keys (List.forall_mem_map.mpr hkeys),
      List.map_map, List.map_map]
    rfl

end MapCall

namespace Machine

/-- The next instruction of the frame `f` calls a method on a map; `below` is what it leaves on
the stack. -/
inductive CallsMap (m : Machine) (id : Int) (call : MapCall) (f : Frame) (below : Stack) : Prop
  | intro {rest : List Frame} {mode : CallMode} {index : UInt16} {r : MethodRef}
      {entries : KeyedMap Value} (hm : m.frames = f :: rest) (hi : f.Fetches (.invoke mode index))
      (hmode : mode.isStatic = false) (hr : m.program.pool.methodRef index = .ok r)
      (hforeign : r.owner.name ≠ m.program.name) (howner : r.owner.name = KeyedMap.className)
      (hname : r.nameType.name = call.name)
      (hdescriptor : r.nameType.descriptor = call.descriptor)
      (hargs : ∀ v ∈ call.args, v.isReference = true)
      (hs : f.stack = call.args.reverse ++ .ref id :: below)
      (hget : m.heap.get? id = some (.map entries))

section Steps

variable {Pushable : Machine → Value → Prop} {m m' : Machine} {id : Int} {f : Frame}
  {below : Stack}

/-- The routine of the call gives its result, and only a put does anything else. -/
theorem run_mapCall {entries : KeyedMap Value} (hget : m.heap.get? id = some (.map entries))
    (call : MapCall) (signature : Signature) :
    ∃ m', call.routine.run ⟨signature, .ref id, call.args⟩ m =
      .ok (call.result m.heap entries) m' ∧ m'.frames = m.frames := by
  have hreceiver := receiverMap_ok hget
  cases call with
  | get k | containsKey k | size => exact ⟨m, (bind_of_ok hreceiver).trans rfl, rfl⟩
  | put k v =>
    exact ⟨{ m with heap := m.heap.setMap id (entries.put (m.heap.key k) v) },
      (bind_of_ok hreceiver).trans rfl, rfl⟩

/-- The result is pushed if there is room, whatever the routine did. -/
theorem answer_pushes {routine : Routine} {call : Invocation} {v : Value} {rest : List Frame}
    (hrun : routine.run call m = .ok v m') (hm : m'.frames = f :: rest)
    (hvoid : call.signature.isVoid = false) :
    (f.stack.length < f.method.maxStack → answer routine call m =
      .ok () { m' with frames := { f with stack := v :: f.stack } :: rest }) ∧
    (f.method.maxStack ≤ f.stack.length → answer routine call m =
      .error (.fault (.stackFull f.method.maxStack)) m') := by
  unfold answer
  rw [bind_of_ok hrun, if_pos (by rw [hvoid]; rfl)]
  refine ⟨push_ok hm, fun hfull => ?_⟩
  simp only [push, onFrame, hm, Frame.push, if_neg (Nat.not_lt.mpr hfull)]
  rw [← hm]

/-- A step that calls a library method runs its routine. -/
theorem CallsLibrary.step_eq {routine : Routine} {signature : Signature} {args : List Value}
    (h : m.CallsLibrary f routine signature id args below) :
    ∃ g rest console location, m.frames = f :: rest ∧ g.method = f.method ∧ g.stack = below ∧
      Machine.step m = located location
        (answer routine ⟨signature, .ref id, args⟩ { m with frames := g :: rest, console }) := by
  obtain @⟨rest, mode, index, r, hm, ⟨opcode, next, hop, hdec⟩, hmode, hr, hforeign, howns,
    hroutine, rfl, hargs⟩ := h
  obtain ⟨console, hstep⟩ := Machine.step_eq hm hop hdec
  refine ⟨{ f with opPc := f.pc, pc := next, stack := below }, rest, console,
    ⟨f.method.fullName, f.pc, some opcode⟩, hm, rfl, rfl, hstep.trans ?_⟩
  have hinvoke : invoke mode index
      { m with frames := { f with opPc := f.pc, pc := next } :: rest, console } = _ :=
    invoke_library hr hforeign
  have hvirtual : invokeLibrary mode r = invokeLibrary .virtual r := by
    cases mode with
    | static => cases hmode
    | _ => rfl
  have hlibrary := invokeLibrary_eq
    (m := { m with frames := { f with opPc := f.pc, pc := next } :: rest, console }) rfl howns
    hroutine hargs
    rfl rfl
  rw [show (Instruction.invoke mode index).run = invoke mode index from rfl, hinvoke,
    hvirtual, hlibrary]

section Loaded

variable {file : ClassFile} (hload : Class.load file = .ok m.program)
  (hlibrary : m.library = .default)
include hload hlibrary

/-- The descriptor of a method of maps is all that a call needs to have its routine and its
arguments. -/
theorem CallsMap.callsLibrary {call : MapCall} (h : m.CallsMap id call f below) :
    m.CallsLibrary f call.routine call.signature id call.args below := by
  obtain ⟨hm, hi, hmode, hr, hforeign, howner, hname, hdescriptor, hargs, hs, -⟩ := h
  have hparse := (Class.load_spelled hload).methodRef hr
  rw [hdescriptor, call.parse_descriptor] at hparse
  refine .intro hm hi hmode hr hforeign ?_ ?_
    (Descriptor.method.inj (Except.ok.inj hparse)).symm ?_
  · rw [howner]
    decide
  · rw [hlibrary, howner, hname, hdescriptor]
    exact call.routine?_eq
  · rw [hs]
    exact call.popArgs_eq hargs _

/-- The call gives the result if there is room for it. -/
theorem CallsMap.gives {call : MapCall} (h : m.CallsMap id call f below)
    {entries : KeyedMap Value} (hget : m.heap.get? id = some (.map entries)) :
    (below.length < f.method.maxStack → m.StepGives (call.result m.heap entries :: below)) ∧
    (f.method.maxStack ≤ below.length → ∃ e m', Machine.step m = .error e m' ∧
      e.cause = .fault (.stackFull f.method.maxStack)) := by
  obtain ⟨g, rest, console, location, hm, hmethod, rfl, hstep⟩ :=
    (h.callsLibrary hload hlibrary).step_eq
  obtain ⟨m₁, hrun, hm₁⟩ :=
    run_mapCall (m := { m with frames := g :: rest, console }) hget call call.signature
  obtain ⟨hroom, hfull⟩ := answer_pushes hrun hm₁ rfl
  rw [hmethod] at hroom hfull
  refine ⟨fun hlt => ?_, fun hle => ?_⟩
  · rw [hroom hlt] at hstep
    exact ⟨_, ⟨by rw [hm]; exact nofun, hstep⟩, rfl, by rw [hm]; rfl⟩
  · rw [hfull hle] at hstep
    exact ⟨_, _, hstep, rfl⟩

/-- Every put into a map is such a call. -/
theorem PutsIntoMap.callsMap {k v : Value} (h : m.PutsIntoMap id k v) {entries : KeyedMap Value}
    (hget : m.heap.get? id = some (.map entries)) :
    ∃ f below, m.CallsMap id (.put k v) f below := by
  obtain @⟨f, _, args, below, rest, mode, index, r, hm, hi, hmode, hr, hforeign, howns, hroutine,
    rfl, hargs⟩ := h
  rw [hlibrary] at hroutine
  obtain ⟨howner, hname, hdescriptor⟩ :=
    MapCall.default_mapPut hroutine (args.getD 0 .null) (args.getD 1 .null)
  have hparse := (Class.load_spelled hload).methodRef hr
  rw [hdescriptor, MapCall.parse_descriptor] at hparse
  rw [← Descriptor.method.inj (Except.ok.inj hparse)] at hargs
  obtain ⟨k, v, rfl⟩ := List.length_eq_two.mp (Stack.popArgs_length hargs)
  have hs : f.stack = [v, k] ++ .ref id :: below := (Stack.popArgs_pops _ _).of_ok hargs
  rw [hs] at hargs
  have hreferences : k.isReference = true ∧ v.isReference = true := by
    cases v with
    | null | string | ref =>
      cases k with
      | null | string | ref => exact ⟨rfl, rfl⟩
      | _ => cases hargs
    | _ => cases hargs
  refine ⟨f, below, .intro hm hi hmode hr hforeign howner hname hdescriptor ?_ hs hget⟩
  exact List.forall_mem_cons.mpr ⟨hreferences.1, List.forall_mem_singleton.mpr hreferences.2⟩

end Loaded

/-- A put into a map changes it. -/
theorem PutsIntoMap.change {k v : Value} (h : m.PutsIntoMap id k v) {entries : KeyedMap Value}
    (hget : m.heap.get? id = some (.map entries)) :
    m.change = .setMap id (entries.put (m.heap.key k) v) := by
  obtain ⟨hcalls⟩ := h
  rw [hcalls.change]
  simp only [Routine.change, hget, if_true]
  rfl

/-- A map after a transition is the one before it, a new one, or the one before it with something
put in. -/
theorem Transition.map (ht : Transition Pushable m m') {entries : KeyedMap Value}
    (hget : m'.heap.get? id = some (.map entries)) :
    m.heap.get? id = some (.map entries) ∨ m.heap.get? id = none ∧ entries = {} ∨
      ∃ k v old, m.PutsIntoMap id k v ∧ m.heap.get? id = some (.map old) ∧
        entries = old.put (m.heap.key k) v := by
  have hnew : ∀ e, (m.heap.alloc e).get? id = some (.map entries) →
      m.heap.get? id = some (.map entries) ∨ m.heap.get? id = none ∧ e = .map entries := by
    intro e he
    rcases Heap.get?_of_alloc he with hthere | ⟨rfl, heq⟩
    · exact .inl hthere
    · exact .inr ⟨m.heap.get?_next, heq.symm⟩
  rcases ht.changes with halike | ⟨hm, args, rfl⟩
  · have hchanged := (halike.heap id _ rfl).mp hget
    have hoccasion := m.change_occasion
    generalize m.change = c at hoccasion hchanged
    cases hoccasion with
    | nothing | remembered | printed => exact .inl hchanged
    | newArray h | opened h =>
      rcases hnew _ hchanged with hthere | ⟨-, heq⟩
      · exact .inl hthere
      · cases heq
    | @built name blueprint h =>
      rcases hnew _ hchanged with hthere | ⟨hnone, heq⟩
      · exact .inl hthere
      · cases blueprint with
        | map =>
          cases heq
          exact .inr (.inl ⟨hnone, rfl⟩)
        | _ => cases heq
    | @stored s target i v element elements h harray =>
      by_cases hid : id = target
      · subst hid
        cases (Heap.get?_setElement_self harray _ _).symm.trans hchanged
      · exact .inl ((Heap.get?_modify_of_ne harray hid).symm.trans hchanged)
    | @put target k v old h hmap =>
      by_cases hid : id = target
      · subst hid
        cases (Heap.get?_modify_self hmap).symm.trans hchanged
        exact .inr (.inr ⟨k, v, old, h, hmap, rfl⟩)
      · exact .inl ((Heap.get?_modify_of_ne hmap hid).symm.trans hchanged)
  · rcases hnew _ hget with hthere | ⟨-, heq⟩
    · exact .inl hthere
    · cases heq

end Steps

section Histories

variable {start m m' : Machine} {id : Int} {puts : List (Value × Value)}

/-- On some way from `start` to the machine, these are the puts into the map, the last one first.
A put counts also where there was no room for its result. -/
inductive PutHistory (start : Machine) (id : Int) : Machine → List (Value × Value) → Prop
  | start : PutHistory start id start []
  | put {m m' : Machine} {puts : List (Value × Value)} {k v : Value} {f : Frame} {below : Stack}
      (h : PutHistory start id m puts) (ht : Transition Designates m m')
      (hput : m.CallsMap id (.put k v) f below) : PutHistory start id m' ((k, v) :: puts)
  | other {m m' : Machine} {puts : List (Value × Value)} (h : PutHistory start id m puts)
      (ht : Transition Designates m m')
      (hother : ∀ k v f below, ¬ m.CallsMap id (.put k v) f below) :
      PutHistory start id m' puts

/-- In every state that the host can reach, each map has a history of puts. -/
theorem Reaches.putHistory (h : Reaches Designates start m) (id : Int) :
    ∃ puts, PutHistory start id m puts := by
  induction h with
  | refl => exact ⟨[], .start⟩
  | @tail m₁ m₂ _ ht ih =>
    obtain ⟨puts, hputs⟩ := ih
    by_cases hput : ∃ k v f below, m₁.CallsMap id (.put k v) f below
    · obtain ⟨k, v, f, below, hput⟩ := hput
      exact ⟨_, .put hputs ht hput⟩
    · refine ⟨puts, .other hputs ht fun k v f below h => hput ⟨k, v, f, below, h⟩⟩

theorem PutHistory.reaches (h : PutHistory start id m puts) : Reaches Designates start m := by
  induction h with
  | start => exact .refl
  | put _ ht _ ih => exact ih.tail ht
  | other _ ht _ ih => exact ih.tail ht

structure Holds (id : Int) (m : Machine) (puts : List (Value × Value)) : Prop where
  keys : ∀ p ∈ puts, m.heap.IsKey p.1
  entries : ∀ entries, m.heap.get? id = some (.map entries) →
    entries = .ofPuts (puts.map fun p => (m.heap.key p.1, p.2))
  absent : m.heap.get? id = none → puts = []

/-- Arguments of a call are keys, as the references in use designate entries. -/
theorem CallsMap.args_keys (hsound : m.Sound) {call : MapCall} {f : Frame} {below : Stack}
    (h : m.CallsMap id call f below) : ∀ v ∈ call.args, m.heap.IsKey v := by
  obtain ⟨hm, hi, hmode, hr, hforeign, howner, hname, hdescriptor, hargs, hs, -⟩ := h
  intro v hv
  have hreference := hargs v hv
  cases v with
  | null | string => trivial
  | ref id' =>
    refine hsound id' (.frame (f := f) (by rw [hm]; exact List.mem_cons_self ..) (.inl ?_))
    rw [hs]
    exact List.mem_append_left _ (List.mem_reverse.mpr hv)
  | _ => cases hreference

/-- The keys are the same after a transition. -/
theorem Holds.later (h : Holds id m puts) (ht : Transition Designates m m') :
    (∀ p ∈ puts, m'.heap.IsKey p.1) ∧
      (puts.map fun p => (m'.heap.key p.1, p.2)) = puts.map fun p => (m.heap.key p.1, p.2) := by
  have hev := Reaches.evolves (.single ht)
  refine ⟨fun p hp => (hev.key (h.keys p hp)).1, List.map_congr_left fun p hp => ?_⟩
  rw [(hev.key (h.keys p hp)).2]

section Loaded

variable {file : ClassFile} (hload : Class.load file = .ok m.program)
  (hlibrary : m.library = .default)
include hload hlibrary

/-- A put is seen in the map, whether or not its result could be pushed. -/
theorem Holds.put (h : Holds id m puts) (ht : Transition Designates m m') (hsound : m.Sound)
    {k v : Value} {f : Frame} {below : Stack} (hput : m.CallsMap id (.put k v) f below) :
    Holds id m' ((k, v) :: puts) := by
  have hk := hput.args_keys hsound k (List.mem_cons_self ..)
  have hev := Reaches.evolves (.single ht)
  have hputs : m.PutsIntoMap id k v := .intro (hput.callsLibrary hload hlibrary)
  obtain @⟨rest, _, _, _, entries, hm, -, -, -, -, -, -, -, -, -, hget⟩ := hput
  obtain ⟨hkeys, hsame⟩ := h.later ht
  have hchanged : m'.heap.get? id = some (.map (entries.put (m.heap.key k) v)) := by
    rcases ht.changes with halike | ⟨hidle, -⟩
    · refine (halike.heap _ _ rfl).mpr ?_
      rw [hputs.change hget]
      exact Heap.get?_modify_self hget
    · rw [hm] at hidle
      cases hidle
  refine ⟨List.forall_mem_cons.mpr ⟨(hev.key hk).1, hkeys⟩,
    fun entries' hget' => ?_, fun hnone => ?_⟩
  · cases hchanged.symm.trans hget'
    rw [List.map_cons, hsame, (hev.key hk).2, KeyedMap.ofPuts_cons, ← h.entries entries hget]
  · cases hchanged.symm.trans hnone

/-- What is no put into the map leaves it alone. -/
theorem Holds.other (h : Holds id m puts) (ht : Transition Designates m m')
    (hother : ∀ k v f below, ¬ m.CallsMap id (.put k v) f below) : Holds id m' puts := by
  obtain ⟨hkeys, hsame⟩ := h.later ht
  refine ⟨hkeys, fun entries hget => ?_, fun hnone => h.absent ?_⟩
  · rw [hsame]
    rcases ht.map hget with hthere | ⟨hnone, rfl⟩ | ⟨k, v, old, hput, hold, -⟩
    · exact h.entries entries hthere
    · rw [h.absent hnone]
      rfl
    · obtain ⟨f, below, hcall⟩ := hput.callsMap hload hlibrary hold
      exact absurd hcall (hother k v f below)
  · cases hget : m.heap.get? id with
    | none => rfl
    | some e =>
      obtain ⟨e', he', -⟩ := (Reaches.evolves (.single ht)).get? hget
      cases he'.symm.trans hnone

/-- What is no put into a map leaves it alone. -/
theorem Transition.map_kept (ht : Transition Designates m m') {entries : KeyedMap Value}
    (hget : m.heap.get? id = some (.map entries))
    (hother : ∀ k v f below, ¬ m.CallsMap id (.put k v) f below) :
    m'.heap.get? id = some (.map entries) := by
  obtain ⟨e, he, hee⟩ := (Reaches.evolves (.single ht)).get? hget
  cases hee with
  | map _ entries' =>
    rcases ht.map he with hthere | ⟨hnone, -⟩ | ⟨k, v, old, hput, hold, -⟩
    · cases hget.symm.trans hthere
      exact he
    · cases hget.symm.trans hnone
    · obtain ⟨f, below, hcall⟩ := hput.callsMap hload hlibrary hold
      exact absurd hcall (hother k v f below)

end Loaded

/-- In a machine with the default library, what a map holds is what was put into it. -/
theorem PutHistory.holds {file : ClassFile} {program : Class} {settings : Settings}
    {runId : Bytes} {console : Console} (hload : Class.load file = .ok program)
    (h : PutHistory (Machine.start program .default settings runId console) id m puts) :
    Holds id m puts := by
  have hkept :
      ∀ {m}, Reaches Designates (Machine.start program .default settings runId console) m →
      m.program = program ∧ m.library = .default := fun hr =>
    ⟨hr.program.trans (start_program ..), hr.library.trans (start_library ..)⟩
  induction h with
  | start =>
    refine ⟨nofun, fun entries hget => ?_, fun _ => rfl⟩
    cases eq_newObject_of_start hget
  | put h ht hput ih =>
    obtain ⟨hprogram, hlibrary⟩ := hkept h.reaches
    exact ih.put (hprogram ▸ hload) hlibrary ht (h.reaches.sound (sound_start _ _ _ _)) hput
  | other h ht hother ih =>
    obtain ⟨hprogram, hlibrary⟩ := hkept h.reaches
    exact ih.other (hprogram ▸ hload) hlibrary ht hother

end Histories

/-- Whatever else a run does, a map of the library is the finite map that the puts into it make: a
look-up and a put give the value of the latest put under an equivalent key or null, a key is
contained if there was such a put, and the size is the number of classes of the keys put. Only a
put into a map changes it. -/
theorem maps_refine_puts (file : ClassFile) (program : Class) (settings : Settings)
    (runId : Bytes) (console : Console) (m : Machine) (hload : Class.load file = .ok program)
    (hreach : Reaches Designates (start program .default settings runId console) m) (id : Int) :
    (∃ puts, PutHistory (start program .default settings runId console) id m puts) ∧
    (∀ puts, PutHistory (start program .default settings runId console) id m puts →
      ∀ call f below, m.CallsMap id call f below →
        (below.length < f.method.maxStack → m.StepGives (call.answer m.heap puts :: below)) ∧
        (f.method.maxStack ≤ below.length → ∃ e m', step m = .error e m' ∧
          e.cause = .fault (.stackFull f.method.maxStack))) ∧
    ∀ m', Transition Designates m m' → (∀ k v f below, ¬ m.CallsMap id (.put k v) f below) →
      ∀ entries, m.heap.get? id = some (.map entries) →
        m'.heap.get? id = some (.map entries) := by
  have hprogram : m.program = program := hreach.program.trans (start_program ..)
  have hlibrary : m.library = .default := hreach.library.trans (start_library ..)
  refine ⟨hreach.putHistory id,
    fun puts hputs call f below hcall => ?_, fun m' ht hother entries hget => ?_⟩
  · have hholds := hputs.holds hload
    have hargs := hcall.args_keys (hreach.sound (sound_start _ _ _ _))
    obtain ⟨entries, hget⟩ : ∃ entries, m.heap.get? id = some (.map entries) := by
      obtain ⟨-, -, -, -, -, -, -, -, -, -, hget⟩ := hcall
      exact ⟨_, hget⟩
    rw [← call.result_ofPuts hholds.keys hargs, ← hholds.entries entries hget]
    exact hcall.gives (hprogram ▸ hload) hlibrary hget
  · exact ht.map_kept (hprogram ▸ hload) hlibrary hget hother

def boxedKeyCode : List UInt8 :=
  [0xBB, 0, 4, 0x4B, 0x2A, 0x10, 7, 0xB8, 0, 10, 0x01, 0xB6, 0, 14, 0x57, 0x2A, 0x10, 7,
    0xB8, 0, 10, 0xB6, 0, 18, 0x57, 0xB1]

def boxedKeyCall : MapCall := .containsKey (.ref 3)

def boxedKeyFile : ClassFile where
  minor := 0
  major := 52
  pool := #[none, some (.utf8 "T"), some (.classRef 1), some (.utf8 KeyedMap.className),
    some (.classRef 3), some (.utf8 boxClass), some (.classRef 5), some (.utf8 "valueOf"),
    some (.utf8 "(I)Ljava/lang/Integer;"), some (.nameAndType 7 8), some (.methodRef 6 9),
    some (.utf8 "put"), some (.utf8 "(Ljava/lang/Object;Ljava/lang/Object;)Ljava/lang/Object;"),
    some (.nameAndType 11 12), some (.methodRef 4 13), some (.utf8 "containsKey"),
    some (.utf8 "(Ljava/lang/Object;)Z"), some (.nameAndType 15 16), some (.methodRef 4 17)]
  flags := 0x21
  thisClass := 2
  superClass := 0
  interfaces := []
  fields := []
  methods := [⟨⟨8, 0, 0, "main", "()V", []⟩, some ⟨3, 1, boxedKeyCode, [], [], [], []⟩⟩]

def boxMethod : MethodRef where
  owner := ⟨boxClass, 5⟩
  nameType :=
    ⟨"valueOf", "(I)Ljava/lang/Integer;", .method ⟨[.primitive .int], .value (.object boxClass)⟩⟩
  signature := ⟨[.primitive .int], .value (.object boxClass)⟩
  isInterface := false

def mapMethod (call : MapCall) : MethodRef where
  owner := ⟨KeyedMap.className, 3⟩
  nameType := ⟨call.name, call.descriptor, .method call.signature⟩
  signature := call.signature
  isInterface := false

def boxedKey : Class where
  name := "T"
  super := []
  pool := #[none, some (.utf8 "T"), some (.classRef ⟨"T", 1⟩), some (.utf8 KeyedMap.className),
    some (.classRef ⟨KeyedMap.className, 3⟩), some (.utf8 boxClass),
    some (.classRef ⟨boxClass, 5⟩), some (.utf8 "valueOf"), some (.utf8 "(I)Ljava/lang/Integer;"),
    some (.nameType boxMethod.nameType), some (.methodRef boxMethod), some (.utf8 "put"),
    some (.utf8 (MapCall.put .null .null).descriptor),
    some (.nameType (mapMethod (.put .null .null)).nameType),
    some (.methodRef (mapMethod (.put .null .null))), some (.utf8 "containsKey"),
    some (.utf8 boxedKeyCall.descriptor), some (.nameType (mapMethod boxedKeyCall).nameType),
    some (.methodRef (mapMethod boxedKeyCall))]
  fields := []
  methods := [
    { owner := "T", name := "main", descriptor := "()V", signature := ⟨[], .void⟩,
      isStatic := true, maxStack := 3, maxLocals := 1, code := boxedKeyCode.toArray,
      lines := Array.replicate 26 (-1) }]

def boxedKeyRun : Machine := boxedKey.after (.byName "main") 11

/-- Null is put under a box of 7. The call that asks for another box of 7 gives true. -/
theorem maps_refine_puts_boxed : Class.load boxedKeyFile = .ok boxedKey ∧
    Reaches Designates (start boxedKey .default {} [] {}) boxedKeyRun ∧
    ∃ f puts m', PutHistory (start boxedKey .default {} [] {}) 1 boxedKeyRun puts ∧
      boxedKeyRun.CallsMap 1 boxedKeyCall f [] ∧ StepsTo boxedKeyRun m' ∧
      m'.operands = [.bool true] ∧
      m'.operands = [boxedKeyCall.answer boxedKeyRun.heap puts] := by
  have hload : Class.load boxedKeyFile = .ok boxedKey := by decide +kernel
  have hreach : Reaches Designates (start boxedKey .default {} [] {}) boxedKeyRun :=
    boxedKey.reaches_after _ _
  have htop :
      boxedKeyRun.frames.map (fun f => (f.method.code, f.method.maxStack, f.pc, f.stack)) =
      [(boxedKeyCode.toArray, 3, 21, [.ref 3, .ref 1])] := by
    decide +kernel
  have hstep : boxedKeyRun.stepped?.map (·.operands) = some [.bool true] := by decide +kernel
  have hsort : (boxedKeyRun.heap.get? 1).map Entry.sort = some .map := by decide +kernel
  obtain ⟨entries, hmap⟩ : ∃ entries, boxedKeyRun.heap.get? 1 = some (.map entries) := by
    obtain ⟨e, he, hsort⟩ := Option.map_eq_some_iff.mp hsort
    cases e with
    | map entries => exact ⟨entries, he⟩
    | _ => cases hsort
  have hprogram : boxedKeyRun.program = boxedKey := hreach.program.trans (start_program ..)
  obtain ⟨f, rest, hm, hf, -⟩ := List.map_eq_cons_iff.mp htop
  simp only [Prod.mk.injEq] at hf
  obtain ⟨hcode, hmax, hpc, hstack⟩ := hf
  obtain ⟨m', hstepped, hoperands⟩ := Option.map_eq_some_iff.mp hstep
  have hsteps : StepsTo boxedKeyRun m' :=
    stepsTo_of_stepped? (by rw [hm]; exact List.cons_ne_nil _ _) hstepped
  have hi : f.Fetches (.invoke .virtual 18) := by
    refine ⟨0xB6, 24, ?_, ?_⟩
    · rw [hcode, hpc]
      rfl
    · rw [hcode, hpc]
      rfl
  have hcalls : boxedKeyRun.CallsMap 1 boxedKeyCall f [] := by
    refine .intro (r := mapMethod boxedKeyCall) hm hi rfl ?_ ?_ rfl rfl rfl
      (by decide) hstack hmap
    · rw [hprogram]
      rfl
    · rw [hprogram]
      decide
  obtain ⟨⟨puts, hputs⟩, hanswer, -⟩ :=
    maps_refine_puts boxedKeyFile boxedKey {} [] {} boxedKeyRun hload hreach 1
  obtain ⟨m₁, ⟨-, hstep₁⟩, hoperands₁, -⟩ :=
    (hanswer puts hputs boxedKeyCall f [] hcalls).1 (by rw [hmax]; decide)
  cases hsteps.2.symm.trans hstep₁
  exact ⟨hload, hreach, f, puts, m', hputs, hcalls, hsteps, hoperands, hoperands₁⟩

end Machine

end ClassTrace
