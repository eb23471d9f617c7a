import ClassTrace.Proofs.VariableScopes

/-!
The names of stored locals. A store into a local is reported under the name that its slot has
after the instruction, where the scope of a new variable begins, else at the instruction, else
under one made of the number of the slot. Stores have one, two or three bytes, and the address
after them is the one after all of their operands.
-/
namespace ClassTrace

/-- At the address stands a store into the slot, of the given length. Stores of the first kind
have the slot in their operand, those of the second in their opcode; the third adds its last byte
to the local. -/
inductive StoreAt (code : Array UInt8) (pc : Nat) : (slot length : Nat) → Prop
  | operand {opcode slot : UInt8} (hop : code[pc]? = some opcode) (hlow : 0x36 ≤ opcode.toNat)
      (hhigh : opcode.toNat ≤ 0x3A) (hslot : code[pc + 1]? = some slot) :
      StoreAt code pc slot.toNat 2
  | opcode {opcode : UInt8} (hop : code[pc]? = some opcode) (hlow : 0x3B ≤ opcode.toNat)
      (hhigh : opcode.toNat ≤ 0x4E) : StoreAt code pc ((opcode.toNat - 0x3B) % 4) 1
  | increment {slot delta : UInt8} (hop : code[pc]? = some 0x84)
      (hslot : code[pc + 1]? = some slot) (hdelta : code[pc + 2]? = some delta) :
      StoreAt code pc slot.toNat 3

namespace Fetch

variable {code : Array UInt8} {pc next : Nat}

theorem bind_ok {α β : Type} {x : Fetch α} {g : α → Fetch β} {b : β} :
    (x >>= g) code pc = .ok b next ↔ ∃ a mid, x code pc = .ok a mid ∧
    g a code mid = .ok b next := bind_ok_iff

theorem pure_ok {α : Type} {a b : α} :
    (pure a : Fetch α) code pc = .ok b next ↔ b = a ∧ next = pc := by
  constructor
  · intro h
    cases h
    exact ⟨rfl, rfl⟩
  · rintro ⟨rfl, rfl⟩
    rfl

/-- What is read of one byte. -/
theorem byte_ok {α : Type} {g : Nat → α} {a : α} :
    (bytes 1 >>= fun n => pure (g n) : Fetch α) code pc = .ok a next ↔
    ∃ b, code[pc]? = some b ∧ a = g b.toNat ∧ next = pc + 1 := by
  simp only [bind_ok, pure_ok, bytes]
  cases hb : code[pc]? with
  | none =>
    have hsize := Array.getElem?_eq_none_iff.mp hb
    rw [if_neg (by omega)]
    exact iff_of_false nofun nofun
  | some b =>
    obtain ⟨hlt, hget⟩ := Array.getElem?_eq_some_iff.mp hb
    have hread : (code.extract pc (pc + 1)).toList = [b] := by
      rw [Array.toList_extract, List.extract_eq_take_drop, Nat.add_sub_cancel_left,
        List.drop_eq_getElem_cons hlt]
      simpa using hget
    have hvalue : Bytes.toNat [b] = b.toNat := by simp [Bytes.toNat]
    rw [if_pos (by omega), hread, hvalue]
    constructor
    · rintro ⟨_, _, hok, rfl, rfl⟩
      cases hok
      exact ⟨b, rfl, rfl, rfl⟩
    · rintro ⟨_, hb, rfl, rfl⟩
      cases hb
      exact ⟨_, _, rfl, rfl, rfl⟩

theorem slot_ok {n : Nat} :
    slot code pc = .ok n next ↔ ∃ b, code[pc]? = some b ∧ n = b.toNat ∧ next = pc + 1 := by
  unfold slot u1
  rw [bind_ok]
  simp only [byte_ok, pure_ok]
  constructor
  · rintro ⟨_, _, ⟨b, hb, rfl, rfl⟩, rfl, rfl⟩
    exact ⟨b, hb, by simp, rfl⟩
  · rintro ⟨b, hb, rfl, rfl⟩
    exact ⟨b, _, ⟨b, hb, by simp, rfl⟩, rfl, rfl⟩

end Fetch

namespace Instruction

open Fetch

variable {opcode : UInt8} {code : Array UInt8} {pc next slot length : Nat} {i : Instruction}

theorem decode_slotStore (hlow : 0x36 ≤ opcode.toNat) (hhigh : opcode.toNat ≤ 0x3A) :
    decode opcode = do return .store (family (opcode.toNat - 0x36)) (← Fetch.slot) := by
  unfold decode decodeSlot
  dsimp only
  rw [if_neg (by omega), if_neg (by omega), if_neg (by omega), if_pos (by omega),
    if_pos (by omega)]

theorem decode_fixedStore (hlow : 0x3B ≤ opcode.toNat) (hhigh : opcode.toNat ≤ 0x4E) :
    decode opcode =
      return .store (family ((opcode.toNat - 0x3B) / 4)) ((opcode.toNat - 0x3B) % 4) := by
  unfold decode decodeSlot
  dsimp only
  rw [if_neg (by omega), if_neg (by omega), if_neg (by omega), if_pos (by omega),
    if_neg (by omega), show opcode.toNat - 0x36 - 5 = opcode.toNat - 0x3B by omega]

theorem decode_increment : decode 0x84 = do
    let target ← Fetch.slot
    return .increment target (← i1).toInt32 := rfl

/-- A store is decoded with its slot, and the address is then the one after it. -/
theorem decode_storeAt (h : StoreAt code pc slot length) : ∃ opcode i, code[pc]? = some opcode ∧
    decode opcode code (pc + 1) = .ok i (pc + length) ∧ i.localSlot? = some slot := by
  cases h with
  | @operand opcode slot hop hlow hhigh hslot =>
    refine ⟨opcode, .store (family (opcode.toNat - 0x36)) slot.toNat, hop, ?_, rfl⟩
    rw [decode_slotStore hlow hhigh]
    exact bind_ok.mpr ⟨_, _, slot_ok.mpr ⟨slot, hslot, rfl, rfl⟩, rfl⟩
  | @opcode opcode hop hlow hhigh =>
    refine ⟨opcode, .store (family ((opcode.toNat - 0x3B) / 4)) ((opcode.toNat - 0x3B) % 4),
      hop, ?_, rfl⟩
    rw [decode_fixedStore hlow hhigh]
    rfl
  | @increment slot delta hop hslot hdelta =>
    refine ⟨0x84, .increment slot.toNat delta.toNat.toUInt8.toInt8.toInt32, hop, ?_, rfl⟩
    rw [decode_increment]
    refine bind_ok.mpr ⟨_, _, slot_ok.mpr ⟨slot, hslot, rfl, rfl⟩, ?_⟩
    exact bind_ok.mpr ⟨_, _, byte_ok.mpr ⟨delta, hdelta, rfl, rfl⟩, rfl⟩

/-- Only stores are decoded as such. -/
theorem storeAt_of_decode (hop : code[pc]? = some opcode)
    (hdec : decode opcode code (pc + 1) = .ok i next) (hi : i.localSlot? = some slot) :
    ∃ length, StoreAt code pc slot length ∧ next = pc + length := by
  have hopcode := ((decode_yields opcode code (pc + 1)).of_ok hdec).1
  cases i with
  | store k target =>
    cases hi
    obtain ⟨hlow, hhigh⟩ : 0x36 ≤ opcode.toNat ∧ opcode.toNat ≤ 0x4E := hopcode
    by_cases hoperand : opcode.toNat ≤ 0x3A
    · rw [decode_slotStore hlow hoperand] at hdec
      obtain ⟨n, mid, hslot, hpure⟩ := bind_ok.mp hdec
      obtain ⟨b, hb, rfl, rfl⟩ := slot_ok.mp hslot
      cases hpure
      exact ⟨2, .operand hop hlow hoperand hb, rfl⟩
    · rw [decode_fixedStore (by omega) hhigh] at hdec
      cases hdec
      exact ⟨1, .opcode hop (by omega) hhigh, rfl⟩
  | increment target delta =>
    cases hi
    obtain rfl : opcode = 0x84 := hopcode
    rw [decode_increment] at hdec
    obtain ⟨n, mid, hslot, hdec⟩ := bind_ok.mp hdec
    obtain ⟨b, hb, rfl, rfl⟩ := slot_ok.mp hslot
    obtain ⟨d, mid, hdelta, hpure⟩ := bind_ok.mp hdec
    obtain ⟨c, hc, rfl, rfl⟩ := byte_ok.mp hdelta
    cases hpure
    exact ⟨3, .increment hop hb hc, rfl⟩
  | _ => cases hi

end Instruction

/-- What a store into the slot is reported under: the name that the slot has at the address after
the store, else the one that it has at the store, else one made of its number. -/
inductive StoreName (rows : List Variable) (pc next slot : Nat) : Bytes → Prop
  | later {v : Variable} (h : LastWith (·.Covers next slot) rows v) :
      StoreName rows pc next slot v.name
  | here {v : Variable} (hlater : ∀ v ∈ rows, ¬ v.Covers next slot)
      (h : LastWith (·.Covers pc slot) rows v) :
      StoreName rows pc next slot v.name
  | number (hlater : ∀ v ∈ rows, ¬ v.Covers next slot) (hhere : ∀ v ∈ rows, ¬ v.Covers pc slot) :
      StoreName rows pc next slot ("local" ++ Bytes.decimal slot)

namespace Frame

/-- A frame gives a local the name that its stores are reported under. -/
theorem storeName_localName (f : Frame) (slot : Nat) :
    StoreName f.method.localVariables f.opPc f.pc slot (f.localName slot) := by
  unfold localName
  split
  · rename_i v hlater
    exact .later (Method.variableAt?_eq_some.mp hlater)
  · rename_i hlater
    split
    · rename_i v hhere
      exact .here (Method.variableAt?_eq_none.mp hlater) (Method.variableAt?_eq_some.mp hhere)
    · rename_i hhere
      exact .number (Method.variableAt?_eq_none.mp hlater) (Method.variableAt?_eq_none.mp hhere)

theorem localName_setLocal {f f' : Frame} {i : Int} {v : Value} (h : setLocal i v f = .ok () f')
    (slot : Nat) :
    f'.localName slot = f.localName slot := by
  unfold setLocal at h
  split at h
  · cases h
    rfl
  · cases h

end Frame

namespace Machine

section Steps

variable {m m' : Machine} {f : Frame} {rest : List Frame} {slot length : Nat} {v : Value}

/-- A store is reported under the name that the slot has in the current frame. -/
theorem events_store (h : store slot v m = .ok () m') (hm : m.frames = f :: rest)
    (hr : m.settings.recording = true) :
    ∃ line old new, m'.events = m.events ++ [.assign line (f.localName slot) old new []] := by
  have hends : Ends m.Quiet (store slot v) m fun _ m' =>
      ∃ line old new, m'.events = m.events ++ [.assign line (f.localName slot) old new []] := by
    refine (ends_getLocal (Quiet.refl m)).bind ?_
    rintro old m ⟨rfl, -, -⟩
    refine (ends_setLocal (.refl m) hm).bind ?_
    rintro _ _ ⟨f', hset, rfl⟩
    rw [← Frame.localName_setLocal hset slot]
    exact ⟨_, _, _, (announces_report _ _).events hr⟩
  exact hends.of_ok h

/-- A store into a local has one event, with the name that the frame gives it. -/
theorem events_run {i : Instruction} (hi : i.localSlot? = some slot) (h : i.run m = .ok () m')
    (hm : m.frames = f :: rest) (hr : m.settings.recording = true) :
    ∃ line old new, m'.events = m.events ++ [.assign line (f.localName slot) old new []] := by
  cases i with
  | store k target =>
    cases hi
    obtain ⟨v, m₁, hpop, hstore⟩ := bind_ok_iff.mp h
    obtain ⟨stack, -, rfl⟩ := onStack_ok hpop
    rw [setOperands_cons hm] at hstore
    exact (events_store hstore rfl hr :)
  | increment target delta =>
    cases hi
    obtain ⟨v, m₁, hget, hstore⟩ := bind_ok_iff.mp h
    obtain ⟨rfl, -⟩ := (ends_getLocal (Quiet.refl m)).of_ok hget
    cases v with
    | int n => exact events_store hstore hm hr
    | _ => cases hstore
  | _ => cases hi

/-- A step that stores into a local is reported under the name of the slot. -/
theorem step_store (hr : m.settings.recording = true) (hm : m.frames = f :: rest)
    (hs : StoreAt f.method.code f.pc slot length) (h : step m = .ok () m') :
    ∃ line name old new, m'.events = m.events ++ [.assign line name old new []] ∧
      StoreName f.method.localVariables f.pc (f.pc + length) slot name := by
  obtain ⟨opcode, i, hop, hdec, hi⟩ := Instruction.decode_storeAt hs
  obtain ⟨console, hstep⟩ := step_eq hm hop hdec
  rw [hstep, located_eq_ok] at h
  obtain ⟨line, old, new, hev⟩ := events_run hi h rfl hr
  exact ⟨line, _, old, new, hev,
    Frame.storeName_localName { f with opPc := f.pc, pc := f.pc + length } slot⟩

/-- Only stores into locals are reported as such. -/
theorem storeAt_of_assign {e : Event} (hr : m.settings.recording = true)
    (hm : m.frames = f :: rest) (h : step m = .ok () m') (hev : m'.events = m.events ++ [e])
    (he : e.sort = .assign) :
    ∃ slot length, StoreAt f.method.code f.pc slot length := by
  obtain ⟨i, ⟨opcode, next, hop, hdec⟩, hfinishes⟩ := step_ok hm h
  obtain ⟨es, hes⟩ := hfinishes.explains hr
  obtain rfl : es = [e] := (List.append_cancel_left (hev.symm.trans hes.events)).symm
  have hsort : i.eventSort? m.program = some .assign := by
    have hsorts := hes.sorts
    rw [List.map_singleton, he] at hsorts
    exact Option.toList_eq_singleton_iff.mp hsorts.symm
  obtain ⟨slot, hi⟩ : ∃ slot, i.localSlot? = some slot := by
    cases i with
    | store k slot | increment slot delta => exact ⟨slot, rfl⟩
    | invoke mode index =>
      simp only [Instruction.eventSort?] at hsort
      split at hsort
      · split at hsort <;> cases hsort
      · cases hsort
    | _ => cases hsort
  obtain ⟨length, hs, -⟩ := Instruction.storeAt_of_decode hop hdec hi
  exact ⟨slot, length, hs⟩

end Steps

section Runs

variable {Pushable : Machine → Value → Prop} {start m m' : Machine}

/-- A transition adds one event at most, and that of a store only if it is a step. -/
theorem Transition.assigns (hr : m.settings.recording = true) (ht : Transition Pushable m m') :
    m'.events = m.events ∨ ∃ e, m'.events = m.events ++ [e] ∧
    (e.sort = .assign → StepsTo m m') := by
  cases ht with
  | push | configure | texts => exact .inl rfl
  | pop hm h =>
    unfold hostPop at h
    split at h
    · cases h
    · cases h
      exact .inl rfl
  | enter hm h =>
    obtain ⟨m₁, hq, -, _, _, _, _, _, _, ha⟩ := (ends_enter (Quiet.refl m)).of_ok h
    exact .inr ⟨_, (ha.appends hq hr rfl rfl).2.1, nofun⟩
  | refuse hm h => exact .inl ((ends_enter (Quiet.refl m)).of_error h).events
  | step h =>
    obtain ⟨f, rest, hm⟩ := List.exists_cons_of_ne_nil h.1
    obtain ⟨i, -, hfinishes⟩ := step_ok hm h.2
    obtain ⟨es, hes⟩ := hfinishes.explains hr
    have hsorts := hes.sorts
    cases hsort : i.eventSort? m.program with
    | none =>
      rw [hsort, Option.toList_none, List.map_eq_nil_iff] at hsorts
      exact .inl (by rw [hes.events, hsorts, List.append_nil])
    | some s =>
      rw [hsort, Option.toList_some, List.map_eq_singleton_iff] at hsorts
      obtain ⟨e, rfl, -⟩ := hsorts
      exact .inr ⟨e, hes.events, fun _ => h⟩
  | fault hm h => exact .inl (step_error h).events

/-- The next step adds the event, and `m` is reached after it. -/
def AddsOnWay (Pushable : Machine → Value → Prop) (before : Machine) (e : Event)
    (m : Machine) : Prop :=
  ∃ after, StepsTo before after ∧ after.events = before.events ++ [e] ∧ Reaches Pushable after m

theorem AddsOnWay.tail {before : Machine} {e : Event} (h : AddsOnWay Pushable before e m)
    (ht : Transition Pushable m m') : AddsOnWay Pushable before e m' := by
  obtain ⟨after, hstep, hev, hreach⟩ := h
  exact ⟨after, hstep, hev, hreach.tail ht⟩

/-- Stores are reported by steps, whatever the host does in between. -/
theorem Reaches.assign_added (hr : start.settings.recording = true) (hstart : start.events = [])
    (h : Reaches Pushable start m) {es es' : List Event} {e : Event}
    (hev : m.events = es ++ e :: es') (he : e.sort = .assign) :
    ∃ before, Reaches Pushable start before ∧ before.events = es ∧
      AddsOnWay Pushable before e m := by
  induction h generalizing es' with
  | refl =>
    rw [hstart] at hev
    simp at hev
  | @tail m m' hreach ht ih =>
    have hearlier : ∀ {es'}, m.events = es ++ e :: es' →
        ∃ before, Reaches Pushable start before ∧ before.events = es ∧
          AddsOnWay Pushable before e m' := by
      intro es' hev
      obtain ⟨before, hbefore, hes, hadds⟩ := ih hev
      exact ⟨before, hbefore, hes, hadds.tail ht⟩
    rcases ht.assigns ((Reaches.kept hreach).2.2.trans hr) with hsame | ⟨last, hadded, hstep⟩
    · exact hearlier (hsame.symm.trans hev)
    · rw [hadded] at hev
      -- The event is the one that the transition has added, or it was there before.
      rcases List.eq_nil_or_concat es' with rfl | ⟨later, last', rfl⟩
      · obtain ⟨hes, hlast⟩ := List.append_inj' hev rfl
        cases hlast
        exact ⟨m, hreach, hes, m', hstep he, hadded, .refl⟩
      · rw [List.concat_eq_append, ← List.cons_append, ← List.append_assoc] at hev
        exact hearlier (List.append_inj' hev rfl).1

end Runs

end Machine

namespace Method

/-- The variable of a slot at an address is the last row that covers it. The rows may as well be
written into a table, each over what is there. -/
structure FollowsRows (method : Method) : Prop where
  found : ∀ pc slot v, method.variableAt? pc slot = some v ↔
    LastWith (·.Covers pc slot) method.localVariables v
  absent :
    ∀ pc slot, method.variableAt? pc slot = none ↔ ∀ v ∈ method.localVariables, ¬ v.Covers pc slot
  tabulated :
    ∀ pc slot, method.variableAt? pc slot = (ScopeTable.ofRows method.localVariables)[(pc, slot)]?

/-- The method has the rows of the declaration, and its parameters are named by them. -/
structure NamedFrom (info : MethodMember) (method : Method) : Prop where
  rows : method.localVariables = info.variableRows.map ofRow
  paramCount : method.paramNames.length = method.signature.params.length
  params : ∀ i < method.signature.params.length, ∃ name, method.paramNames[i]? = some name ∧
    ParamName method.localVariables (method.argSlot i) i name

/-- Every method looks its variables up by the last row. -/
theorem followsRows (method : Method) : method.FollowsRows where
  found _ _ _ := variableAt?_eq_some
  absent _ _ := variableAt?_eq_none
  tabulated _ _ := (ScopeTable.getElem?_ofRows ..).symm

theorem namedFrom {owner : Bytes} {info : MethodMember} {method : Method}
    (h : load owner info = .ok method) :
    NamedFrom info method := by
  obtain ⟨hrows, hnames⟩ := load_variables h
  refine ⟨hrows, ?_, fun i hi => ?_⟩
  · rw [hnames]
    simp [nameParams, paramSlots, Signature.length_slotsFrom]
  · rw [hnames]
    exact nameParams_getElem? hi

end Method

namespace Machine

/-- Variables are looked up by the last row that covers them, parameters are named by their slots
at the first address, and stores into locals by their slots after the store or at it. Every report
of a store comes from such a step. -/
theorem variables_named :
    (∀ method : Method, method.FollowsRows) ∧
    (∀ owner info method, Method.load owner info = .ok method → method.NamedFrom info) ∧
    (∀ m m' f rest slot length, m.settings.recording = true → m.frames = f :: rest →
      StoreAt f.method.code f.pc slot length → step m = .ok () m' →
      ∃ line name old new, m'.events = m.events ++ [.assign line name old new []] ∧
        StoreName f.method.localVariables f.pc (f.pc + length) slot name) ∧
    ∀ program library settings runId console Pushable m, settings.recording = true →
      Reaches Pushable (start program library settings runId console) m →
      ∀ es es' line name old new tag, m.events = es ++ .assign line name old new tag :: es' →
        ∃ before f rest slot length, Reaches Pushable
          (start program library settings runId console) before ∧
          before.events = es ∧ AddsOnWay Pushable before (.assign line name old new tag) m ∧
          before.frames = f :: rest ∧ StoreAt f.method.code f.pc slot length ∧
          StoreName f.method.localVariables f.pc (f.pc + length) slot name := by
  refine ⟨Method.followsRows, fun _ _ _ => Method.namedFrom, fun _ _ _ _ _ _ => step_store, ?_⟩
  intro program library settings runId console Pushable m hr hreach es es' line name old
    new tag hev
  obtain ⟨document, console', htrace, hstart⟩ := start_eq program library settings runId console
  rw [hstart] at hreach ⊢
  obtain ⟨before, hbefore, hes, after, hstep, hadded, hafter⟩ :=
    Reaches.assign_added hr (congrArg Array.toList htrace) hreach hev rfl
  obtain ⟨f, rest, hm⟩ := List.exists_cons_of_ne_nil hstep.1
  have hr' : before.settings.recording = true := (Reaches.kept hbefore).2.2.trans hr
  obtain ⟨slot, length, hs⟩ := storeAt_of_assign hr' hm hstep.2 hadded rfl
  obtain ⟨line', name', old', new', hnamed, hname⟩ := step_store hr' hm hs hstep.2
  cases List.append_cancel_left (hadded.symm.trans hnamed)
  exact ⟨before, f, rest, slot, length, hbefore, hes, ⟨after, hstep, hadded, hafter⟩, hm,
    hs, hname⟩

def shadowingMember : MethodMember where
  flags := 8
  nameIndex := 0
  descriptorIndex := 0
  name := "run"
  descriptor := "(IJ)V"
  attributes := []
  code := some ⟨2, 5, [0x08, 0x36, 3, 0x84, 3, 2, 0x0A, 0x40, 0xB1], [], [], [⟨0, 7⟩],
    [⟨3, 3, 3, "x", "I"⟩, ⟨0, 40, 0, "n", "I"⟩, ⟨3, 1, 3, "y", "I"⟩, ⟨3, 0, 3, "z", "I"⟩]⟩

def shadowingMethod : Method where
  owner := "T"
  name := "run"
  descriptor := "(IJ)V"
  signature := ⟨[.primitive .int, .primitive .long], .void⟩
  isStatic := true
  maxStack := 2
  maxLocals := 5
  code := #[0x08, 0x36, 3, 0x84, 3, 2, 0x0A, 0x40, 0xB1]
  lines := #[7, 7, 7, 7, 7, 7, 7, 7, 7]
  localVariables :=
    [⟨"x", "I", 3, 3, 3⟩, ⟨"n", "I", 0, 40, 0⟩, ⟨"y", "I", 3, 1, 3⟩, ⟨"z", "I", 3, 0, 3⟩]
  paramNames := ["n", "arg1"]

def shadowing : Class := ⟨"T", [], #[none], [], [shadowingMethod]⟩

def shadowingReady : Machine :=
  hostPush (.long 2) (hostPush (.int 1) (start shadowing .default {} [] {}))

def shadowingRun (fuel : Nat) : Machine :=
  ((HostCall.byName "run").perform fuel shadowingReady).machine

theorem reaches_shadowingRun (fuel : Nat) :
    Reaches (fun _ _ => True) (start shadowing .default {} [] {}) (shadowingRun fuel) := by
  have hstart : (start shadowing .default {} [] {}).frames = [] := start_frames ..
  have hready : Reaches (fun _ _ => True) (start shadowing .default {} [] {}) shadowingReady :=
    (Relation.ReflTransGen.single (.push hstart trivial)).tail (.push hstart trivial)
  exact hready.trans (HostCall.reaches_perform (.byName "run") fuel hstart)

/-- Two rows for slot 3 overlap. The increment is reported under the last name at its own address,
and the store of the long under the number of its slot. -/
theorem variables_named_shadowing :
    Method.load "T" shadowingMember = .ok shadowingMethod ∧
    shadowingMethod.NamedFrom shadowingMember ∧
    (∃ f m', (shadowingRun 2).frames = [f] ∧ f.method = shadowingMethod ∧ f.pc = 3 ∧
      StoreAt shadowingMethod.code 3 3 3 ∧ step (shadowingRun 2) = .ok () m' ∧
      m'.events = (shadowingRun 2).events ++ [.assign 7 "y" "5" "7" []] ∧
      StoreName shadowingMethod.localVariables 3 6 3 "y") ∧
    ∃ before f rest slot length es', Reaches (fun _ _ => True)
      (start shadowing .default {} [] {}) before ∧
      (shadowingRun 10).events = before.events ++ .assign 7 "local1" "2" "1" [] :: es' ∧
      AddsOnWay (fun _ _ => True) before (.assign 7 "local1" "2" "1" []) (shadowingRun 10) ∧
      before.frames = f :: rest ∧ StoreAt f.method.code f.pc slot length ∧
      StoreName f.method.localVariables f.pc (f.pc + length) slot "local1" := by
  have hload : Method.load "T" shadowingMember = .ok shadowingMethod := by decide +kernel
  refine ⟨hload, variables_named.2.1 _ _ _ hload, ?_, ?_⟩
  · have htop : (shadowingRun 2).frames.map (fun f => (f.method, f.pc)) =
      [(shadowingMethod, 3)] := by decide +kernel
    have hstep :
        (shadowingRun 2).stepped?.map (fun m' => m'.events.drop (shadowingRun 2).events.length) =
        some [.assign 7 "y" "5" "7" []] := by decide +kernel
    have hrecording : (shadowingRun 2).settings.recording = true := by decide +kernel
    have hs : StoreAt shadowingMethod.code 3 (3 : UInt8).toNat 3 := .increment rfl rfl rfl
    obtain ⟨f, hm, hf⟩ := List.map_eq_singleton_iff.mp htop
    obtain ⟨hmethod, hpc⟩ := Prod.mk.inj hf
    obtain ⟨m', hstepped, hlast⟩ := Option.map_eq_some_iff.mp hstep
    obtain ⟨-, hok⟩ := stepsTo_of_stepped? (by rw [hm]; exact List.cons_ne_nil _ _) hstepped
    obtain ⟨line, name, old, new, hev, hname⟩ :=
      variables_named.2.2.1 (shadowingRun 2) m' f [] 3 3
      hrecording hm (by rw [hmethod, hpc]; exact hs) hok
    rw [hev, List.drop_left] at hlast
    cases hlast
    rw [hmethod, hpc] at hname
    exact ⟨f, m', hm, hmethod, hpc, hs, hok, hev, hname⟩
  · obtain ⟨es, es', hev⟩ :
        ∃ es es', (shadowingRun 10).events = es ++ .assign 7 "local1" "2" "1" [] :: es' :=
      ⟨(shadowingRun 10).events.take 3, (shadowingRun 10).events.drop 4, by decide +kernel⟩
    obtain ⟨before, f, rest, slot, length, hbefore, rfl, hadds, hm, hs, hname⟩ :=
      variables_named.2.2.2 shadowing .default {} [] {} (fun _ _ => True) (shadowingRun 10) rfl
        (reaches_shadowingRun 10) es es' 7 "local1" "2" "1" [] hev
    exact ⟨before, f, rest, slot, length, es', hbefore, hev, hadds, hm, hs, hname⟩

end Machine

end ClassTrace
