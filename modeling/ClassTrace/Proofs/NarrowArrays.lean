import ClassTrace.Program.Load
import ClassTrace.Proofs.ArrayKinds

/-!
Arrays of the types narrower than int. An array takes an int from every opcode that stores ints,
and what is cut off depends on the opcode alone. So an element is in the range of its type if the
opcode that wrote it last suits the type, and each of the other opcodes can put it out of range.
-/
namespace ClassTrace

def Primitive.bounds? : Primitive → Option (Int × Int)
  | .boolean => some (0, 1)
  | .byte => some (-128, 127)
  | .short => some (-32768, 32767)
  | .char => some (0, 65535)
  | _ => none

def Value.Between (bounds : Int × Int) : Value → Prop
  | .int n => bounds.1 ≤ n.toInt ∧ n.toInt ≤ bounds.2
  | _ => False

instance (bounds : Int × Int) : (v : Value) → Decidable (v.Between bounds)
  | .int _ => inferInstanceAs (Decidable (_ ≤ _ ∧ _ ≤ _))
  | .null | .long _ | .float _ | .double _ | .string _ | .ref _ | .other _ =>
    inferInstanceAs (Decidable False)

/-- What the opcode leaves of an int is a number of the type. -/
def ElementStore.suits : ElementStore → Primitive → Bool
  | .byte, .boolean | .byte, .byte | .byte, .short | .char, .char | .short, .short => true
  | _, _ => false

section Ranges

variable {p : Primitive} {bounds : Int × Int} {s : ElementStore}

/-- What a mask leaves is not negative and not more than the mask. -/
theorem toInt_and_mask (n : Int32) {mask : Int32} (hmask : mask.toBitVec.toNat ≤ 65535) :
    0 ≤ (n &&& mask).toInt ∧ (n &&& mask).toInt ≤ mask.toBitVec.toNat := by
  have hle : (n &&& mask).toBitVec.toNat ≤ mask.toBitVec.toNat := by
    rw [Int32.toBitVec_and, BitVec.toNat_and]
    exact Nat.and_le_right
  have hint : (n &&& mask).toInt = (n &&& mask).toBitVec.toNat :=
    BitVec.toInt_eq_toNat_of_lt (by omega)
  omega

/-- An opcode that suits the type leaves a number of the type, whatever it is given. -/
theorem narrow_between (hbounds : p.bounds? = some bounds) (hs : s.suits p = true) (v : Value) :
    (Machine.narrow (.primitive p) v s).Between bounds := by
  have hbyte : -128 ≤ (toByte v.asInt).toInt ∧ (toByte v.asInt).toInt ≤ 127 := by
    have hlow := v.asInt.toInt8.le_toInt
    have hhigh := v.asInt.toInt8.toInt_lt
    unfold toByte
    rw [Int8.toInt_toInt32]
    omega
  have hshort : -32768 ≤ (toShort v.asInt).toInt ∧ (toShort v.asInt).toInt ≤ 32767 := by
    have hlow := v.asInt.toInt16.le_toInt
    have hhigh := v.asInt.toInt16.toInt_lt
    unfold toShort
    rw [Int16.toInt_toInt32]
    omega
  cases p with
  | boolean =>
    cases hbounds
    cases s with
    | byte => exact toInt_and_mask _ (by decide)
    | _ => cases hs
  | byte =>
    cases hbounds
    cases s with
    | byte => exact hbyte
    | _ => cases hs
  | short =>
    cases hbounds
    cases s with
    | byte => exact ⟨Int.le_trans (by decide) hbyte.1, Int.le_trans hbyte.2 (by decide)⟩
    | short => exact hshort
    | _ => cases hs
  | char =>
    cases hbounds
    cases s with
    | char => exact toInt_and_mask _ (by decide)
    | _ => cases hs
  | _ => cases hbounds

def ElementStore.misfit : ElementStore → Int32
  | .plain _ => 65536
  | .byte | .char => -1
  | .short => -32768

/-- An opcode that does not suit the type leaves more of some ints than the type has room for. -/
theorem narrow_misfit (hbounds : p.bounds? = some bounds) (hfamily : Machine.storeFamily s = .int)
    (hs : s.suits p = false) :
    ¬ (Machine.narrow (.primitive p) (.int s.misfit) s).Between bounds := by
  cases s with
  | plain family =>
    obtain rfl : family = .int := hfamily
    cases p <;> cases hbounds <;> decide
  | byte | char | short => cases p <;> cases hbounds <;> cases hs <;> decide

/-- The opcodes that suit a type are those that leave nothing out of range. -/
theorem suits_iff (hbounds : p.bounds? = some bounds) (hfamily : Machine.storeFamily s = .int) :
    s.suits p = true ↔ ∀ n, (Machine.narrow (.primitive p) (.int n) s).Between bounds := by
  refine ⟨fun hs n => narrow_between hbounds hs _, fun h => ?_⟩
  by_contra hs
  exact narrow_misfit hbounds hfamily (Bool.eq_false_iff.mpr hs) (h _)

end Ranges

theorem kinds_of_bounds {p : Primitive} {bounds : Int × Int} (hbounds : p.bounds? = some bounds) :
    (FieldType.primitive p).kinds = [.int] := by
  cases p <;> cases hbounds <;> rfl

/-- An array of a type narrower than int can hold whatever is left of an int. -/
theorem storable_narrow {p : Primitive} {bounds : Int × Int} {s : ElementStore} (n : Int32)
    (hbounds : p.bounds? = some bounds) :
    Machine.storable (.primitive p) (Machine.narrow (.primitive p) (.int n) s) = true := by
  have hint : ∀ k, Machine.storable (.primitive p) (.int k) = true := by
    intro k
    cases p <;> cases hbounds <;> rfl
  cases s with
  | plain family => exact hint n
  | byte =>
    unfold Machine.narrow
    dsimp only
    split <;> exact hint _
  | char | short => exact hint _

/-- The ints are what the family of ints takes. -/
theorem Family.eq_int_iff {family : Family} {v : Value} {stack below : Stack}
    (h : family.pop stack = .ok v below) : family = .int ↔ ∃ n, v = .int n := by
  cases family with
  | int =>
    obtain ⟨n, _, -, hpure⟩ := bind_ok_iff.mp h
    cases hpure
    exact ⟨fun _ => ⟨n, rfl⟩, fun _ => rfl⟩
  | long | float | double =>
    obtain ⟨n, _, -, hpure⟩ := bind_ok_iff.mp h
    cases hpure
    exact ⟨nofun, nofun⟩
  | reference =>
    have hkind := (Stack.popReference_kind stack).of_ok h
    refine ⟨nofun, ?_⟩
    rintro ⟨n, rfl⟩
    simp [Value.kind] at hkind

namespace Machine

section Stores

variable {Pushable : Machine → Value → Prop} {start m m' : Machine} {id : Int} {index : Nat}
  {p : Primitive} {bounds : Int × Int} {s : ElementStore} {i : Int32} {v : Value}
  {elements : Array Value}

/-- A store that succeeds has taken its value from the stack. -/
theorem StepsTo.takesValue (h : StepsTo m m') (hs : m.StoresElement s id i v) :
    ∃ stack below, (storeFamily s).pop stack = .ok v below := by
  obtain @⟨f, rest, below, hm, hi, hstack⟩ := hs
  obtain ⟨opcode, next, console, -, -, hrun⟩ := step_runs hm hi h.2
  obtain ⟨v', m₁, htaken, -⟩ := bind_ok_iff.mp hrun
  obtain ⟨stack, hpop, -⟩ := onStack_ok htaken
  have hoperands : f.stack = [v'] ++ stack := ((storeFamily s).pop_pops f.stack).of_ok hpop
  cases hstack.symm.trans hoperands
  exact ⟨_, _, hpop⟩

/-- A store of what the array can hold, at the index of an element, succeeds. -/
theorem storeAt_inside {a : ArrayRef} (hi : 0 ≤ i) (hlt : i.toInt.toNat < a.elements.size)
    (hstorable : storable a.element (narrow a.element v s) = true) :
    ∃ m', storeAt s v i a m = .ok () m' := by
  unfold storeAt
  rw [elementAt_inside hi (Array.getElem?_eq_getElem hlt), pure_bind]
  simp only [hstorable]
  exact ⟨_, rfl⟩

/-- The store of an int within the array succeeds. -/
theorem StoresElement.succeeds {n : Int32} (hs : m.StoresElement s id i (.int n))
    (hbounds : p.bounds? = some bounds)
    (hget : m.heap.get? id = some (.array (.primitive p) elements))
    (hfamily : storeFamily s = .int) (hi : 0 ≤ i) (hlt : i.toInt.toNat < elements.size) :
    ∃ m', StepsTo m m' := by
  obtain @⟨f, rest, below, hm, ⟨opcode, next, hop, hdec⟩, hstack⟩ := hs
  obtain ⟨console, hstep⟩ := step_eq hm hop hdec
  have hpop : Stack.popStore s f.stack = .ok (.int n, i, .ref id) below := by
    unfold Stack.popStore
    rw [hstack, hfamily]
    rfl
  obtain ⟨m₁, htaken, hheap⟩ : ∃ m₁, onStack (Stack.popStore s)
      { m with frames := { f with opPc := f.pc, pc := next } :: rest, console } =
        .ok (.int n, i, .ref id) m₁ ∧ m₁.heap = m.heap := by
    simp only [onStack, Frame.onStack, hpop]
    exact ⟨_, rfl, rfl⟩
  have harray : m₁.heap.array id = .ok (.primitive p, elements) := by
    simp only [Heap.array, Heap.get, hheap, hget]
    rfl
  have hinto : storeInto s (.int n) i (.ref id) m₁ =
      storeAt s (.int n) i ⟨id, .primitive p, elements⟩ m₁ := by
    change (check (m₁.heap.array id) >>= _) m₁ = _
    rw [harray]
    rfl
  obtain ⟨m', hm'⟩ := storeAt_inside (m := m₁) (a := ⟨id, .primitive p, elements⟩) hi hlt
    (storable_narrow n hbounds)
  have hrun :
      arrayStore s { m with frames := { f with opPc := f.pc, pc := next } :: rest, console } =
      .ok () m' := by
    rw [arrayStore_eq]
    exact (bind_of_ok htaken).trans (hinto.trans hm')
  refine ⟨m', by rw [hm]; exact List.cons_ne_nil _ _, ?_⟩
  rw [hstep]
  exact located_eq_ok.mpr hrun

/-- A store into an array of a type narrower than int succeeds if its opcode takes an int, it gets
one and the index is that of an element. -/
theorem StoresElement.succeeds_iff (hs : m.StoresElement s id i v)
    (hbounds : p.bounds? = some bounds)
    (hget : m.heap.get? id = some (.array (.primitive p) elements)) :
    (∃ m', StepsTo m m') ↔
      storeFamily s = .int ∧ (∃ n, v = .int n) ∧ 0 ≤ i ∧ i.toInt.toNat < elements.size := by
  constructor
  · rintro ⟨m', h⟩
    obtain ⟨hi, hlt, hstorable, -⟩ := h.storesElement hs hget
    obtain ⟨stack, below, hpop⟩ := h.takesValue hs
    have hint := Family.eq_int_iff hpop
    have hfamily : storeFamily s = .int := by
      cases s with
      | plain family =>
        have hkind : v.kind ∈ (FieldType.primitive p).kinds := storable_kind hstorable
        rw [kinds_of_bounds hbounds, List.mem_singleton] at hkind
        cases v with
        | int n => exact hint.mpr ⟨n, rfl⟩
        | _ => cases hkind
      | _ => rfl
    exact ⟨hfamily, hint.mp hfamily, hi, hlt⟩
  · rintro ⟨hfamily, ⟨n, rfl⟩, hi, hlt⟩
    exact hs.succeeds hbounds hget hfamily hi hlt

/-- On some way from `start` to the machine, this is the opcode and the int of the last store into
one element of the array. -/
inductive LastStore (Pushable : Machine → Value → Prop) (start : Machine) (id : Int)
    (index : Nat) :
    Machine → ElementStore → Int32 → Prop
  | stored {m m' : Machine} {s : ElementStore} {i n : Int32} (hr : Reaches Pushable start m)
      (hstep : StepsTo m m') (hs : m.StoresElement s id i (.int n)) (hi : i.toInt = index) :
      LastStore Pushable start id index m' s n
  | later {m m' : Machine} {s : ElementStore} {n : Int32}
      (h : LastStore Pushable start id index m s n) (ht : Transition Pushable m m')
      (hother : ∀ s i v, StepsTo m m' → m.StoresElement s id i v → i.toInt ≠ index) :
      LastStore Pushable start id index m' s n

theorem ElementHistory.reaches {e : ElementRecord}
    (h : ElementHistory Pushable start id index m e) :
    Reaches Pushable start m := by
  induction h with
  | created hr ht => exact hr.tail ht
  | stored _ hstep _ _ ih => exact ih.tail (.step hstep)
  | other _ ht _ ih => exact ih.tail ht

/-- What is in an element of an array of a type narrower than int comes from the last store into
it. -/
theorem ElementHistory.lastStore {e : ElementRecord}
    (h : ElementHistory Pushable start id index m e) (hbounds : p.bounds? = some bounds)
    (htype : e.type = .primitive p) :
    e.content? = none ∨ ∃ s n, LastStore Pushable start id index m s n ∧ storeFamily s = .int ∧
      e.content? = some (narrow (.primitive p) (.int n) s) := by
  induction h with
  | created hr ht hc =>
    cases hc with
    | instruction => exact .inl rfl
    | texts => cases htype
  | @stored m₁ m₂ e s i v h hstep hs hi ih =>
    obtain ⟨elements, hget, -⟩ := h.recorded.array
    have htype' : e.type = .primitive p := htype
    rw [htype'] at hget ⊢
    obtain ⟨hfamily, ⟨n, rfl⟩, -⟩ := (hs.succeeds_iff hbounds hget).mp ⟨_, hstep⟩
    exact .inr ⟨s, n, .stored h.reaches hstep hs hi, hfamily, rfl⟩
  | other h ht hother ih =>
    rcases ih htype with hnone | ⟨s, n, hlast, hfamily, hcontent⟩
    · exact .inl hnone
    · exact .inr ⟨s, n, .later hlast ht hother, hfamily, hcontent⟩

end Stores

/-- Each element of an array of a type narrower than int is null or what the opcode of the last
store into it has left of an int, and so in the range of the type if that opcode suits it. A store
succeeds whether or not its opcode suits the type, and the opcodes that do not suit it leave some
ints out of range. -/
theorem narrow_elements_as_stored (program : Class) (library : Library) (settings : Settings)
    (runId : Bytes) (console : Console) (Pushable : Machine → Value → Prop) (m : Machine)
    (id : Int) (p : Primitive) (bounds : Int × Int) (hbounds : p.bounds? = some bounds)
    (hcreated : Created Pushable (start program library settings runId console) id
      (.primitive p) m) :
    (∀ s, storeFamily s = .int →
      (s.suits p = true ↔ ∀ n, (narrow (.primitive p) (.int n) s).Between bounds)) ∧
    ∃ elements, m.heap.get? id = some (.array (.primitive p) elements) ∧
      (∀ (index : Nat) v, elements[index]? = some v → v = .null ∨
        ∃ s n, LastStore Pushable (start program library settings runId console) id index m s n ∧
          storeFamily s = .int ∧ v = narrow (.primitive p) (.int n) s ∧
          (s.suits p = true → v.Between bounds)) ∧
      ∀ s i v, m.StoresElement s id i v →
        ((∃ m', StepsTo m m') ↔
          storeFamily s = .int ∧ (∃ n, v = .int n) ∧ 0 ≤ i ∧ i.toInt.toNat < elements.size) ∧
        ∀ m', StepsTo m m' → m'.heap.get? id =
          some (.array (.primitive p)
            (elements.setIfInBounds i.toInt.toNat (narrow (.primitive p) v s))) := by
  obtain ⟨e₀, he₀, htype₀⟩ := hcreated.history 0
  obtain ⟨elements, hget, -⟩ := he₀.recorded.array
  rw [htype₀] at hget
  refine ⟨fun s hfamily => suits_iff hbounds hfamily, elements, hget,
    fun index v hv => ?_, fun s i v hs => ?_⟩
  · obtain ⟨e, he, htype⟩ := hcreated.history index
    obtain ⟨elements', hget', hcontent⟩ := he.recorded.array
    rw [htype] at hget'
    cases hget.symm.trans hget'
    have hv := hcontent v hv
    rcases he.lastStore hbounds htype with hnone | ⟨s, n, hlast, hfamily, hsome⟩
    · rw [hnone] at hv
      exact .inl hv
    · rw [hsome] at hv
      obtain rfl : v = narrow (.primitive p) (.int n) s := hv
      exact .inr ⟨s, n, hlast, hfamily, rfl, fun hsuits => narrow_between hbounds hsuits _⟩
  · refine ⟨hs.succeeds_iff hbounds hget, fun m' hstep => ?_⟩
    obtain ⟨-, -, -, hstored⟩ := hstep.storesElement hs hget
    exact hstored

def wideningCode : Bytes :=
  [0x05, 0xBC, 8, 0x59, 0x03, 0x11, 0x01, 0x2C, 0x4F, 0x59, 0x04, 0x11, 0x01, 0x2C, 0x54, 0xB1]

def wideningFile : ClassFile where
  minor := 0
  major := 52
  pool := #[none, some (.utf8 "T"), some (.classRef 1), some (.utf8 "main"), some (.utf8 "()V")]
  flags := 0x21
  thisClass := 2
  superClass := 0
  interfaces := []
  fields := []
  methods := [⟨⟨8, 3, 4, "main", "()V", []⟩, some ⟨4, 0, wideningCode, [], [], [], []⟩⟩]

def widening : Class where
  name := "T"
  super := []
  pool :=
    #[none, some (.utf8 "T"), some (.classRef ⟨"T", 1⟩), some (.utf8 "main"), some (.utf8 "()V")]
  fields := []
  methods := [
    { owner := "T", name := "main", descriptor := "()V", signature := ⟨[], .void⟩,
      isStatic := true, maxStack := 4, code := wideningCode.toArray,
      lines := Array.replicate 16 (-1) }]

def wideningRun : Machine := widening.after (.byName "main") 10

/-- The array of bytes holds 300. -/
theorem widening_created :
    Created (fun _ _ => True) (start widening .default {} [] {}) 1
      (.primitive .byte) wideningRun ∧
      wideningRun.heap.get? 1 = some (.array (.primitive .byte) #[.int 300, .int 44]) := by
  have hreach : Reaches (fun _ _ => True) (start widening .default {} [] {}) wideningRun :=
    widening.reaches_after _ _
  have harray : wideningRun.heap.array 1 = .ok (.primitive .byte, #[.int 300, .int 44]) := by
    decide +kernel
  exact ⟨hreach.created (Heap.array_eq_ok harray), Heap.array_eq_ok harray⟩

/-- The byte that was stored as a byte is what is left of 300. -/
theorem narrow_elements_as_stored_widening :
    Primitive.byte.bounds? = some (-128, 127) ∧
    Created (fun _ _ => True) (start widening .default {} [] {}) 1
      (.primitive .byte) wideningRun ∧
    wideningRun.heap.get? 1 = some (.array (.primitive .byte) #[.int 300, .int 44]) ∧
    ∃ s n, LastStore (fun _ _ => True) (start widening .default {} [] {}) 1 1 wideningRun s n ∧
      .int 44 = narrow (.primitive .byte) (.int n) s := by
  obtain ⟨hcreated, hget⟩ := widening_created
  obtain ⟨-, elements, hget', hlast, -⟩ :=
    narrow_elements_as_stored widening .default {} [] {} (fun _ _ => True)
    wideningRun 1 .byte (-128, 127) rfl hcreated
  cases hget.symm.trans hget'
  rcases hlast 1 (.int 44) rfl with hnull | ⟨s, n, hlast, -, hv, -⟩
  · cases hnull
  · exact ⟨rfl, hcreated, hget, s, n, hlast, hv⟩

/-- The byte that was stored as an int is 300. -/
theorem byte_holds_300 : Class.load wideningFile = .ok widening ∧
    Created (fun _ _ => True) (start widening .default {} [] {}) 1
      (.primitive .byte) wideningRun ∧
    Primitive.byte.bounds? = some (-128, 127) ∧
    ∃ elements, wideningRun.heap.get? 1 = some (.array (.primitive .byte) elements) ∧
      ∃ v ∈ elements, v ≠ .null ∧ ¬ v.Between (-128, 127) := by
  obtain ⟨hcreated, hget⟩ := widening_created
  exact ⟨by decide +kernel, hcreated, rfl, _, hget, .int 300, by simp, nofun, by decide⟩

end Machine

end ClassTrace
