import ClassTrace.Proofs.StringLiteral

/-!
What becomes of the arguments of a call. A method of the class gets its receiver and each argument
in a local of its own: the parameters take up side by side as many slots as are counted for them,
so none of them lies outside of the locals. A library method is run with as many arguments as its
descriptor has parameters, and looks at no others.
-/
namespace ClassTrace

theorem FieldType.slots_pos (t : FieldType) : 0 < t.slots := by
  unfold slots
  split
  · split <;> decide
  · decide

namespace Signature

theorem length_slotsFrom (base : Nat) (params : List FieldType) :
    (slotsFrom base params).length = params.length := by
  induction params generalizing base with
  | nil => rfl
  | cons t rest ih =>
    unfold slotsFrom
    rw [List.length_cons, List.length_cons, ih]

end Signature

namespace Method

/-- A frame has a local for each slot of the receiver and the parameters. -/
theorem argSlots_le_localSize (method : Method) :
    method.signature.argSlots + (if method.isStatic then 0 else 1) ≤ method.localSize :=
  Nat.le_max_right ..

theorem localSize_pos {method : Method} (h : method.isStatic = false) : 0 < method.localSize := by
  have hslots := method.argSlots_le_localSize
  simp only [h, Bool.false_eq_true, if_false] at hslots
  omega

end Method

namespace Frame

def placeArgs (base : Nat) (params : List FieldType) (args : List Value) (locals : Array Value) :
    Array Value :=
  ((Signature.slotsFrom base params).zip args).foldl (fun ls p => ls.setIfInBounds p.1 p.2) locals

theorem placeArgs_cons (base : Nat) (t : FieldType) (rest : List FieldType) (v : Value)
    (args : List Value) (locals : Array Value) :
    placeArgs base (t :: rest) (v :: args) locals =
      placeArgs (base + t.slots) rest args (locals.setIfInBounds base v) := rfl

/-- The slots before the first one are left alone. -/
theorem placeArgs_below {base i : Nat} (hi : i < base) (params : List FieldType)
    (args : List Value) (locals : Array Value) :
    (placeArgs base params args locals)[i]? = locals[i]? := by
  induction params generalizing base args locals with
  | nil => rfl
  | cons t rest ih =>
    cases args with
    | nil => rfl
    | cons v args =>
      rw [placeArgs_cons, ih (by omega), Array.getElem?_setIfInBounds_ne (by omega)]

/-- Where the parameters fit, each argument is in its slot afterwards. -/
theorem placeArgs_at {base i slot : Nat} {params : List FieldType} {args : List Value} {v : Value}
    {locals : Array Value} (hfits : base + params.foldr (fun t n => t.slots + n) 0 ≤ locals.size)
    (hslot : (Signature.slotsFrom base params)[i]? = some slot) (hv : args[i]? = some v) :
    (placeArgs base params args locals)[slot]? = some v := by
  induction params generalizing base i args locals with
  | nil => cases hslot
  | cons t rest ih =>
    have hpos := t.slots_pos
    rw [List.foldr_cons] at hfits
    cases args with
    | nil => cases hv
    | cons w args =>
      rw [placeArgs_cons]
      cases i with
      | zero =>
        cases hslot
        cases hv
        rw [placeArgs_below (by omega), Array.getElem?_setIfInBounds_self_of_lt (by omega)]
      | succ i =>
        refine ih ?_ hslot hv
        rw [Array.size_setIfInBounds]
        omega

variable {f : Frame} {args : List Value}

/-- A frame with the locals that its method needs takes in every argument. -/
theorem setArgs_at {i slot : Nat} {v : Value} (hsize : f.locals.size = f.method.localSize)
    (hslot : f.method.paramSlots[i]? = some slot) (hv : args[i]? = some v) :
    (f.setArgs args).locals[slot]? = some v := by
  have hslots := f.method.argSlots_le_localSize
  unfold Signature.argSlots at hslots
  refine placeArgs_at ?_ hslot hv
  rw [hsize]
  omega

/-- The parameters of an instance method start at slot 1, so its receiver stays. -/
theorem setArgs_zero (hinstance : f.method.isStatic = false) :
    (f.setArgs args).locals[0]? = f.locals[0]? := by
  refine placeArgs_below ?_ f.method.signature.params args f.locals
  rw [hinstance]
  exact Nat.one_pos

structure Receives (f : Frame) (receiver? : Option Value) (args : List Value) : Prop where
  receiver : ∀ v, receiver? = some v → f.locals[0]? = some v
  count : f.method.paramSlots.length = args.length
  args : ∀ (i slot : Nat) v, f.method.paramSlots[i]? = some slot → args[i]? = some v →
    f.locals[slot]? = some v

end Frame

namespace Machine

/-- Nothing that is written into the locals of a new frame is lost. -/
theorem receives_entryFrame {method : Method} {receiver? : Option Value} {args : List Value}
    (hlen : args.length = method.signature.params.length)
    (hreceiver : receiver?.isSome = !method.isStatic) :
    (entryFrame method receiver? args).Receives receiver? args := by
  have hcount : method.paramSlots.length = args.length := by
    rw [hlen]
    exact Signature.length_slotsFrom ..
  have hfresh := begins_fresh method
  cases receiver? with
  | none =>
    refine ⟨nofun, hcount, fun i slot v hslot hv => ?_⟩
    exact Frame.setArgs_at hfresh.locals hslot hv
  | some receiver =>
    have hinstance : method.isStatic = false := by simpa using hreceiver
    refine ⟨?_, hcount, fun i slot v hslot hv => ?_⟩
    · rintro v ⟨⟩
      have hsize : 0 < (Frame.fresh method).locals.size := by
        rw [hfresh.locals]
        exact Method.localSize_pos hinstance
      change (((Frame.fresh method).setReceiver receiver).setArgs args).locals[0]? = some receiver
      rw [Frame.setArgs_zero hinstance]
      exact Array.getElem?_setIfInBounds_self_of_lt hsize
    · exact Frame.setArgs_at (begins_setReceiver hfresh receiver).locals hslot hv

end Machine

namespace Routine

/-- How many arguments the routine looks at, whatever it is called with. -/
def reads : Routine → Nat
  | .minInt | .maxInt | .minLong | .maxLong | .minFloat | .maxFloat | .minDouble |
      .maxDouble | .power
  | .mapPut => 2
  | .absInt | .absLong | .absFloat | .absDouble | .squareRoot | .box | .stringCharAt | .mapGet
  | .mapContainsKey => 1
  | _ => 0

/-- An argument is the same whatever is appended to the arguments. -/
theorem arg_append {signature : Signature} {receiver : Value} {args : List Value} {i : Nat}
    (hi : i < args.length) (extra : List Value) :
    (⟨signature, receiver, args ++ extra⟩ : Invocation).arg i =
      (⟨signature, receiver, args⟩ : Invocation).arg i := by
  unfold Invocation.arg
  rw [List.getD_eq_getElem?_getD, List.getD_eq_getElem?_getD, List.getElem?_append_left hi]

/-- The text of a print depends on its parameters only. -/
theorem printText_append {signature : Signature} {receiver : Value} {args : List Value}
    (hlen : args.length = signature.params.length) (extra : List Value) (h : Heap) :
    Machine.printText h ⟨signature, receiver, args ++ extra⟩ =
      Machine.printText h ⟨signature, receiver, args⟩ := by
  unfold Machine.printText
  cases args with
  | nil =>
    have hnil : signature.params = [] := List.length_eq_zero_iff.mp hlen.symm
    rw [hnil]
    cases extra <;> rfl
  | cons v args => cases signature.params <;> rfl

/-- A routine that has the arguments it reads looks at no others. -/
theorem run_append {routine : Routine} {signature : Signature} {receiver : Value}
    {args : List Value} (hreads : routine.reads ≤ args.length)
    (hlen : args.length = signature.params.length) (extra : List Value) :
    routine.run ⟨signature, receiver, args ++ extra⟩ =
      routine.run ⟨signature, receiver, args⟩ := by
  have harg : ∀ i, i < routine.reads → (⟨signature, receiver, args ++ extra⟩ : Invocation).arg i =
      (⟨signature, receiver, args⟩ : Invocation).arg i :=
    fun i hi => arg_append (Nat.lt_of_lt_of_le hi hreads) extra
  cases routine with
  | print | println => simp only [run, printText_append hlen]
  | minInt | maxInt | minLong | maxLong =>
    simp only [run, harg 0 (by decide), harg 1 (by decide)]
  | minFloat | maxFloat =>
    simp only [run, Machine.onSingles, harg 0 (by decide), harg 1 (by decide)]
  | minDouble | maxDouble | power =>
    simp only [run, Machine.onDoubles, harg 0 (by decide), harg 1 (by decide)]
  | absInt | absLong | absFloat | absDouble | squareRoot | box =>
    simp only [run, harg 0 (by decide)]
  | stringCharAt => simp only [run, Machine.stringCharAt, harg 0 (by decide)]
  | mapGet => simp only [run, Machine.mapGet, harg 0 (by decide)]
  | mapPut => simp only [run, Machine.mapPut, harg 0 (by decide), harg 1 (by decide)]
  | mapContainsKey => simp only [run, Machine.mapContainsKey, harg 0 (by decide)]
  | nothing | unbox | stringLength | mapSize | constant | failing => rfl

def fitsDescriptor (routine : Routine) (descriptor : Bytes) : Bool :=
  match Descriptor.parse descriptor with
  | .ok (.method signature) => routine.reads ≤ signature.params.length
  | _ => routine.reads = 0

end Routine

/-- Every routine of the library is registered under a descriptor that fits it. -/
theorem Library.default_fits :
    ∀ entry ∈ Library.default.routines, entry.2.fitsDescriptor entry.1.descriptor := by
  decide +kernel

/-- A call of a library method has the arguments that its routine reads. -/
theorem Library.default_reads {owner name descriptor : Bytes} {routine : Routine}
    {signature : Signature} (h : Library.default.routine? owner name descriptor = some routine)
    (hparse : Descriptor.parse descriptor = .ok (.method signature)) :
    routine.reads ≤ signature.params.length := by
  obtain ⟨d, hd, hmem⟩ := Library.mem_of_routine? h
  have hfits := Library.default_fits _ hmem
  rcases hd with rfl | rfl
  · unfold Routine.fitsDescriptor at hfits
    rw [hparse] at hfits
    exact of_decide_eq_true hfits
  · have hzero : routine.reads = 0 := of_decide_eq_true hfits
    rw [hzero]
    exact Nat.zero_le _

end ClassTrace
