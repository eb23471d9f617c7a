import Mathlib.Algebra.GroupWithZero.Nat
import ClassTrace.Proofs.Arguments
import ClassTrace.Proofs.FieldTypes
import ClassTrace.Proofs.Steady

/-!
How a call passes its arguments. They are taken off the caller's stack from the last to the first
and put into the locals from the first to the last, where a long or a double takes two slots. If
they are of the kinds that the parameters prescribe, each of them is in the slots of its own
parameter and nothing else is in the new frame; if one of them is not, there is no new frame.
-/
namespace ClassTrace

namespace Stack

variable {types : List FieldType} {values : List Value}

/-- If one of the values is not of the kind that its type prescribes, it is a type error to pop
them. -/
theorem mapM_popTyped_error (hlength : types.length = values.length)
    (h : ¬ List.Forall₂ (fun t v => v.kind ∈ FieldType.kinds t) types values) (below : Stack) :
    ∃ e rest, types.mapM popTyped (values ++ below) = .error e rest ∧ e.kind = .type := by
  induction types generalizing values with
  | nil =>
    rw [List.eq_nil_of_length_eq_zero hlength.symm] at h
    exact absurd .nil h
  | cons t types ih =>
    cases values with
    | nil => cases hlength
    | cons v values =>
      have hpop := popTyped_cons t v (values ++ below)
      rw [List.mapM_cons, List.cons_append]
      by_cases hv : v.kind ∈ t.kinds
      · rw [if_pos hv] at hpop
        obtain ⟨e, rest, he, hkind⟩ := ih (Nat.succ.inj hlength) fun hall => h (.cons hv hall)
        exact ⟨e, rest, (bind_of_ok hpop).trans (bind_of_error he), hkind⟩
      · rw [if_neg hv] at hpop
        exact ⟨_, _, bind_of_error hpop, t.mismatch_kind v.kind⟩

/-- So it is for the arguments of a call. -/
theorem popArgs_error {params : List FieldType} {args : List Value}
    (hlength : params.length = args.length)
    (h : ¬ List.Forall₂ (fun t v => v.kind ∈ FieldType.kinds t) params args) (below : Stack) :
    ∃ e rest, popArgs params (args.reverse ++ below) = .error e rest ∧ e.kind = .type := by
  unfold popArgs
  have hreversed : params.reverse.length = args.reverse.length := by simpa using hlength
  obtain ⟨e, rest, he, hkind⟩ :=
    mapM_popTyped_error hreversed (mt List.forall₂_reverse_iff.mp h) below
  exact ⟨e, rest, bind_of_error he, hkind⟩

end Stack

namespace Method

variable {method : Method} {i j : Nat} {t : FieldType}

/-- The first slot of a parameter: the slots of the receiver and of the parameters before it come
first. -/
def argSlot (method : Method) (i : Nat) : Nat :=
  (if method.isStatic then 0 else 1) + ((method.signature.params.take i).map FieldType.slots).sum

theorem argSlot_succ (h : method.signature.params[i]? = some t) :
    method.argSlot (i + 1) = method.argSlot i + t.slots := by
  unfold argSlot
  rw [List.take_add_one, h, List.map_append, List.sum_append]
  simp [Nat.add_assoc]

theorem argSlot_mono (h : i ≤ j) : method.argSlot i ≤ method.argSlot j := by
  obtain ⟨rest, hrest⟩ := List.take_prefix_take_left (l := method.signature.params) h
  unfold argSlot
  rw [← hrest, List.map_append, List.sum_append]
  omega

/-- No parameter has a slot beyond the locals of the method. -/
theorem argSlot_le_localSize (method : Method) (i : Nat) :
    method.argSlot i ≤ method.localSize := by
  have hsum : method.signature.argSlots = (method.signature.params.map FieldType.slots).sum := by
    unfold Signature.argSlots List.sum
    rw [List.foldr_map]
  have hslots := method.argSlots_le_localSize
  rw [hsum, ← List.take_append_drop i method.signature.params, List.map_append,
    List.sum_append] at hslots
  unfold argSlot
  omega

/-- A parameter ends before the next one begins. -/
theorem argSlot_add_le (h : method.signature.params[i]? = some t) (hij : i < j) :
    method.argSlot i + t.slots ≤ method.argSlot j := by
  rw [← argSlot_succ h]
  exact argSlot_mono hij

/-- All slots of a parameter are among the locals, whatever number of them is declared. -/
theorem argSlot_add_le_localSize (h : method.signature.params[i]? = some t) :
    method.argSlot i + t.slots ≤ method.localSize := by
  rw [← argSlot_succ h]
  exact method.argSlot_le_localSize (i + 1)

end Method

/-- The slots of the parameters are the sums of the sizes before them. -/
theorem Signature.getElem?_slotsFrom {params : List FieldType} {i : Nat} (hi : i < params.length)
    (base : Nat) :
    (slotsFrom base params)[i]? = some (base + ((params.take i).map FieldType.slots).sum) := by
  induction params generalizing base i with
  | nil => cases hi
  | cons t rest ih =>
    cases i with
    | zero => rfl
    | succ i =>
      unfold slotsFrom
      rw [List.getElem?_cons_succ, ih (Nat.lt_of_succ_lt_succ hi), List.take_succ_cons,
        List.map_cons, List.sum_cons, Nat.add_assoc]

/-- The parameters are placed in the slots that are counted for them. -/
theorem Method.getElem?_paramSlots {method : Method} {i : Nat}
    (hi : i < method.signature.params.length) :
    method.paramSlots[i]? = some (method.argSlot i) :=
  Signature.getElem?_slotsFrom hi _

namespace Frame

/-- The slots that no parameter begins with are left alone. -/
theorem placeArgs_of_not_mem {base slot : Nat} {params : List FieldType}
    (h : slot ∉ Signature.slotsFrom base params) (args : List Value) (locals : Array Value) :
    (placeArgs base params args locals)[slot]? = locals[slot]? := by
  induction params generalizing base args locals with
  | nil => rfl
  | cons t rest ih =>
    cases args with
    | nil => rfl
    | cons v args =>
      unfold Signature.slotsFrom at h
      obtain ⟨hne, hrest⟩ := not_or.mp (mt List.mem_cons.mpr h)
      rw [placeArgs_cons, ih hrest, Array.getElem?_setIfInBounds_ne (Ne.symm hne)]

/-- A frame at the start of the method that has the receiver and the arguments in their slots and
nothing else. -/
structure StartsWith (f : Frame) (method : Method) (receiver? : Option Value)
    (args : List Value) : Prop where
  ofMethod : f.method = method
  pc : f.pc = 0
  stack : f.stack = []
  size : f.locals.size = method.localSize
  receiver : ∀ v, receiver? = some v → f.locals[0]? = some v
  arguments : ∀ i v, args[i]? = some v → f.locals[method.argSlot i]? = some v
  others : ∀ slot, slot < f.locals.size → (receiver?.isSome = true → slot ≠ 0) →
    (∀ i < args.length, slot ≠ method.argSlot i) → f.locals[slot]? = some .null

end Frame

structure Method.Accepts (method : Method) (receiver? : Option Value) (args : List Value) :
    Prop where
  receiver : receiver?.isSome = !method.isStatic
  reference : ∀ v, receiver? = some v → v.isReference = true ∧ v.isNull = false
  args : List.Forall₂ (fun t v => v.kind ∈ FieldType.kinds t) method.signature.params args

namespace Machine

variable {m : Machine} {method : Method} {receiver? : Option Value} {args : List Value}
  {below : Stack}

/-- What is in none of the slots of the receiver and the arguments is as in a fresh frame. -/
theorem entryFrame_others {slot : Nat} (hslot : slot < method.localSize)
    (hreceiver : receiver?.isSome = true → slot ≠ 0) (hargs : slot ∉ method.paramSlots) :
    (entryFrame method receiver? args).locals[slot]? = some .null := by
  have hfresh : (Frame.fresh method).locals[slot]? = some .null := by
    unfold Frame.fresh
    rw [Array.getElem?_replicate, if_pos hslot]
  cases receiver? with
  | none =>
    refine (Frame.placeArgs_of_not_mem hargs args _).trans ?_
    exact hfresh
  | some receiver =>
    refine (Frame.placeArgs_of_not_mem hargs args _).trans ?_
    exact (Array.getElem?_setIfInBounds_ne (Ne.symm (hreceiver rfl))).trans hfresh

/-- The frame of a call starts with the receiver and the arguments in their slots. -/
theorem startsWith_entryFrame (h : method.Accepts receiver? args) (returnPc : Option Nat) :
    ({ entryFrame method receiver? args with returnPc } : Frame).StartsWith method receiver?
      args := by
  have hlength : args.length = method.signature.params.length := h.args.length_eq.symm
  have hreceives := receives_entryFrame hlength h.receiver
  have hbegins : Begins { entryFrame method receiver? args with returnPc } method := by
    cases receiver? with
    | none => exact begins_setArgs (begins_fresh method) args returnPc
    | some receiver =>
      exact begins_setArgs (begins_setReceiver (begins_fresh method) receiver) args returnPc
  have hmethod : (entryFrame method receiver? args).method = method := hbegins.method
  have hsize : (entryFrame method receiver? args).locals.size = method.localSize :=
    hbegins.locals.trans (congrArg Method.localSize hmethod)
  refine ⟨hmethod, hbegins.pc, ?_, hsize, hreceives.receiver, ?_, ?_⟩
  · cases receiver? with
    | none => rfl
    | some receiver => rfl
  · intro i v hv
    have hi : i < method.signature.params.length := hlength ▸ (List.getElem?_eq_some_iff.mp hv).1
    refine hreceives.args i _ v ?_ hv
    rw [hmethod]
    exact Method.getElem?_paramSlots hi
  · intro slot hslot hreceiver hargs
    refine entryFrame_others (hsize ▸ hslot) hreceiver fun hmem => ?_
    obtain ⟨i, hi⟩ := List.mem_iff_getElem?.mp hmem
    have hlt : i < method.signature.params.length := by
      rw [← Signature.length_slotsFrom (if method.isStatic then 0 else 1)]
      exact (List.getElem?_eq_some_iff.mp hi).1
    rw [Method.getElem?_paramSlots hlt] at hi
    exact hargs i (hlength ▸ hlt) (Option.some.inj hi).symm

theorem line_setOperands (m : Machine) (stack : Stack) : (m.setOperands stack).line = m.line := by
  unfold line
  cases hm : m.frames with
  | nil => rw [setOperands_nil hm, hm]
  | cons f rest =>
    rw [setOperands_cons hm]
    rfl

/-- A call that is placed is reported with its arguments as they display, in their order. -/
theorem announces_placed (f : Frame) (kind : CallKind) (args : List Value) (m : Machine) :
    Announces (.call m.line f.method.name kind.name (args.map m.heap.display))
      { m with frames := { f.setArgs args with returnPc := m.resumeAt } :: m.frames }
      (placed f kind args m) :=
  (announces_report _ _).log _

/-- A receiver and arguments that the method accepts are taken off the stack and are all in the
new frame. -/
theorem takeArgs_accepts (kind : CallKind) (h : method.Accepts receiver? args)
    (hs : m.operands = args.reverse ++ (receiver?.toList ++ below)) :
    ∃ m', takeArgs method kind m = .ok () m' ∧
      Announces (.call m.line method.name kind.name (args.map m.heap.display))
        { m.setOperands below with
          frames := { entryFrame method receiver? args with returnPc := m.resumeAt } ::
            (m.setOperands below).frames } m' := by
  -- line, return address and heap are read after the pops, which change none of them
  rw [← line_setOperands m below, ← resumeAt_setOperands m below, ← (heap_setOperands m below).1]
  have hargs :
      Stack.popArgs method.signature.params m.operands = .ok args (receiver?.toList ++ below) :=
    hs ▸ Stack.popArgs_ok h.args _
  unfold takeArgs
  rw [bind_of_ok (onStack_of_ok hargs)]
  cases receiver? with
  | none =>
    have hstatic : method.isStatic = true := by simpa using h.receiver
    rw [if_pos hstatic]
    exact ⟨_, rfl, announces_placed (Frame.fresh method) kind args (m.setOperands below)⟩
  | some receiver =>
    have hinstance : ¬ method.isStatic = true := by simpa using h.receiver
    obtain ⟨href, hnull⟩ := h.reference receiver rfl
    have hreceiver :
        Stack.popReference (m.setOperands (receiver :: below)).operands = .ok receiver below := by
      rw [operands_setOperands]
      exact congrArg (fun x : StackM Value => x below) (if_pos href)
    have hfirst : (some receiver).toList ++ below = receiver :: below := rfl
    rw [if_neg hinstance, hfirst, bind_of_ok (onStack_of_ok hreceiver), setOperands_setOperands,
      if_neg (ne_true_of_eq_false hnull)]
    exact ⟨_, rfl, announces_placed ((Frame.fresh method).setReceiver receiver) kind args
      (m.setOperands below)⟩

/-- An argument of the wrong kind ends the call before there is a frame for it. -/
theorem takeArgs_mismatch (kind : CallKind)
    (hlength : method.signature.params.length = args.length)
    (h : ¬ List.Forall₂ (fun t v => v.kind ∈ FieldType.kinds t) method.signature.params args)
    (hs : m.operands = args.reverse ++ below) : ∃ fault stack,
      takeArgs method kind m = .error (.fault fault) (m.setOperands stack) ∧
      fault.kind = .type := by
  obtain ⟨fault, stack, hpop, hkind⟩ := Stack.popArgs_error hlength h below
  exact ⟨fault, stack, bind_of_error (onStack_of_error (hs ▸ hpop)), hkind⟩

/-- If the method has code and the depth allows the call, entering it is taking its arguments. -/
theorem enter_of_coded {kind : CallKind} (hcode : method.hasCode = true)
    (hdepth : m.frames.length < m.settings.maxDepth) :
    enter method kind m = takeArgs method kind m := by
  rw [enter_eq, hcode, if_neg (by decide), if_neg (Int.not_le.mpr hdepth)]

/-- A call takes a receiver and arguments that the method accepts off the caller's stack, the last
argument from the top, and goes on in a new frame that holds each of them in its own slots,
whatever number of locals is declared; the event shows the arguments in the order of the
parameters. With an argument of another kind it is a type fault, and there is no new frame. -/
theorem arguments_passed (m : Machine) (method : Method) (kind : CallKind)
    (hcode : method.hasCode = true) (hdepth : m.frames.length < m.settings.maxDepth) :
    (∀ receiver? args below, m.operands = args.reverse ++ (receiver?.toList ++ below) →
      method.Accepts receiver? args → ∃ callee m', enter method kind m = .ok () m' ∧
        callee.StartsWith method receiver? args ∧ callee.returnPc = m.resumeAt ∧
        Announces (.call m.line method.name kind.name (args.map m.heap.display))
          { m.setOperands below with frames := callee :: (m.setOperands below).frames } m') ∧
    (∀ i j t, method.signature.params[i]? = some t → i < j →
      method.argSlot i + t.slots ≤ method.argSlot j) ∧
    (∀ i t, method.signature.params[i]? = some t →
      (if method.isStatic then 0 else 1) ≤ method.argSlot i ∧
      method.argSlot i + t.slots ≤ method.localSize) ∧
    ∀ args below, m.operands = args.reverse ++ below →
      args.length = method.signature.params.length →
      ¬ List.Forall₂ (fun t v => v.kind ∈ FieldType.kinds t) method.signature.params args →
      ∃ fault stack, enter method kind m = .error (.fault fault) (m.setOperands stack) ∧
        fault.kind = .type := by
  refine ⟨?_, fun i j t hi hij => Method.argSlot_add_le hi hij, ?_, ?_⟩
  · intro receiver? args below hs haccepts
    obtain ⟨m', htake, hannounces⟩ := takeArgs_accepts kind haccepts hs
    exact ⟨_, m', (enter_of_coded hcode hdepth).trans htake,
      startsWith_entryFrame haccepts m.resumeAt, rfl, hannounces⟩
  · intro i t hi
    exact ⟨Nat.le_add_right .., Method.argSlot_add_le_localSize hi⟩
  · intro args below hs hlength hkinds
    obtain ⟨fault, stack, htake, hkind⟩ := takeArgs_mismatch kind hlength.symm hkinds hs
    exact ⟨fault, stack, (enter_of_coded hcode hdepth).trans htake, hkind⟩

def mixedMethod : Method where
  owner := "T"
  name := "mixed"
  descriptor := "(IJLjava/lang/Object;D)V"
  signature :=
    ⟨[.primitive .int, .primitive .long, .object "java/lang/Object", .primitive .double], .void⟩
  isStatic := false
  code := #[0xB1]

def swappedMethod : Method where
  owner := "T"
  name := "swapped"
  descriptor := "(JILjava/lang/Object;D)V"
  signature :=
    ⟨[.primitive .long, .primitive .int, .object "java/lang/Object", .primitive .double], .void⟩
  isStatic := false
  code := #[0xB1]

def mixedClass : Class where
  name := "T"
  super := []
  pool := #[none, some (.string "s" 0)]
  fields := []
  methods := [{ owner := "T", name := "main", descriptor := "()V", signature := ⟨[], .void⟩,
                isStatic := true, maxStack := 7,
                code := #[0x12, 0x01, 0x04, 0x0A, 0x01, 0x0F, 0xB6, 0x00, 0x02] }]

def mixedCaller : Machine := mixedClass.after (.byName "main") 5

/-- Wide parameters stand between narrow ones, and no locals are declared. The method that asks
for the long before the int is not entered. -/
theorem arguments_passed_mixed :
    mixedCaller.operands = [.double 1, .null, .long 1, .int 1, .string "s"] ∧
    (∃ callee m', enter mixedMethod .method mixedCaller = .ok () m' ∧
      callee.StartsWith mixedMethod (some (.string "s")) [.int 1, .long 1, .null, .double 1] ∧
      (List.range 4).map mixedMethod.argSlot = [1, 2, 4, 5] ∧ mixedMethod.localSize = 7 ∧
      m'.frames = callee :: (mixedCaller.setOperands []).frames) ∧
    ∃ fault stack, enter swappedMethod .method mixedCaller =
      .error (.fault fault) (mixedCaller.setOperands stack) ∧ fault.kind = .type := by
  have hoperands : mixedCaller.operands = [.double 1, .null, .long 1, .int 1, .string "s"] := by
    decide +kernel
  have hdepth : mixedCaller.frames.length < mixedCaller.settings.maxDepth := by decide +kernel
  refine ⟨hoperands, ?_, ?_⟩
  · have haccepts :
        mixedMethod.Accepts (some (.string "s")) [.int 1, .long 1, .null, .double 1] :=
      ⟨rfl, by rintro v ⟨⟩; exact ⟨rfl, rfl⟩, by decide⟩
    obtain ⟨callee, m', henter, hstarts, -, console, rfl⟩ :=
      (arguments_passed mixedCaller mixedMethod .method rfl hdepth).1 (some (.string "s"))
        [.int 1, .long 1, .null, .double 1] [] hoperands haccepts
    exact ⟨callee, _, henter, hstarts, by decide, by decide, rfl⟩
  · exact (arguments_passed mixedCaller swappedMethod .method rfl hdepth).2.2.2
      [.int 1, .long 1, .null, .double 1] [.string "s"] hoperands rfl (by decide)

end Machine

end ClassTrace
