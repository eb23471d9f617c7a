import ClassTrace.Proofs.ModifiedUtf8
import ClassTrace.Proofs.ParseInverse
import ClassTrace.Proofs.PoolResolution
import ClassTrace.Proofs.Transfer

/-!
String constants from the class file to the methods of strings. The bytes of a text go unchanged
through parsing, loading and the instruction that pushes the constant; the methods of strings read
them as UTF-8. So a text without zeros and surrogates has its length and its characters, and no
other text has its length.
-/
namespace ClassTrace

namespace ConstantPool

variable {raw : Array (Option PoolEntry)}

/-- A string constant is loaded as the bytes of its text. -/
theorem loadable_string {pool : ConstantPool} (hpool : resolve raw = .ok pool)
    (hsize : raw.size ≤ 65536) {index textIndex : UInt16} {text : Bytes}
    (hstring : entryAt? raw index = some (.string textIndex))
    (htext : entryAt? raw textIndex = some (.utf8 text)) :
    pool.loadable index = .ok (.string text) := by
  have hget : pool.get index = .ok (.string text textIndex) := by
    rw [get_resolved hpool (alone_index hsize index) (by simp [OfMember])]
    exact ⟨_, hstring, by simp [meaning?, text?_eq_some.mpr htext]⟩
  unfold loadable
  rw [hget]
  rfl

theorem entryAt?_extract {pool : Array (Option PoolEntry)} (hfirst : pool[0]? = some none)
    {index : UInt16} {e : PoolEntry} (h : pool[index.toNat]? = some (some e)) :
    entryAt? (pool.extract 1 pool.size) index = some e := by
  have hpos : index.toNat ≠ 0 := by
    intro hzero
    rw [hzero, hfirst] at h
    cases h
  unfold entryAt?
  rw [if_neg fun hzero => hpos (congrArg UInt16.toNat hzero)]
  have hlt : index.toNat < pool.size := (Array.getElem?_eq_some_iff.mp h).1
  have hslot : (pool.extract 1 pool.size)[index.toNat - 1]? = pool[index.toNat]? := by
    rw [Array.getElem?_extract, if_pos (by omega),
      show 1 + (index.toNat - 1) = index.toNat by omega]
  rw [hslot, h]
  rfl

end ConstantPool

def Frame.Loads (f : Frame) (index : UInt16) : Prop :=
  ∃ form, form ≠ .wide ∧ f.Fetches (.loadConstant form index)

def Frame.CallsString (f : Frame) (program : Class) (name descriptor : Bytes) : Prop :=
  ∃ index r, f.Fetches (.invoke .virtual index) ∧ program.pool.methodRef index = .ok r ∧
    r.owner.name = "java/lang/String" ∧ r.nameType.name = name ∧
    r.nameType.descriptor = descriptor

namespace Machine

def StepGives (m : Machine) (stack : Stack) : Prop :=
  ∃ m', StepsTo m m' ∧ m'.operands = stack ∧ m'.frames.tail = m.frames.tail

theorem push_ok {m : Machine} {f : Frame} {rest : List Frame} {v : Value}
    (hm : m.frames = f :: rest) (hroom : f.stack.length < f.method.maxStack) :
    push v m = .ok () { m with frames := { f with stack := v :: f.stack } :: rest } := by
  simp only [push, onFrame, hm, Frame.push, if_pos hroom]

theorem loadConstant_ok {m : Machine} {f : Frame} {rest : List Frame} {form : ConstantLoad}
    {index : UInt16} {text : Bytes} (hm : m.frames = f :: rest)
    (hload : m.program.pool.loadable index = .ok (.string text)) (hform : form ≠ .wide)
    (hroom : f.stack.length < f.method.maxStack) :
    loadConstant form index m =
      .ok () { m with frames := { f with stack := .string text :: f.stack } :: rest } := by
  change EStateM.bind (check (m.program.pool.loadable index)) _ m = _
  rw [hload]
  change (if ((Value.string text).isWide = true) ≠ (form = .wide) then (_ : Exec Unit)
    else _) m = _
  rw [if_neg (by simp [Value.isWide, hform])]
  exact push_ok hm hroom

/-- Loading a string constant pushes its text. -/
theorem step_loads {m : Machine} {f : Frame} {rest : List Frame} {index : UInt16} {text : Bytes}
    (hm : m.frames = f :: rest) (hloads : f.Loads index)
    (hload : m.program.pool.loadable index = .ok (.string text))
    (hroom : f.stack.length < f.method.maxStack) : m.StepGives (.string text :: f.stack) := by
  obtain ⟨form, hform, opcode, next, hop, hdec⟩ := hloads
  obtain ⟨console, hstep⟩ := step_eq hm hop hdec
  have hrun := loadConstant_ok
    (m := { m with frames := { f with opPc := f.pc, pc := next } :: rest, console }) rfl hload
    hform hroom
  simp only [Instruction.run, hrun] at hstep
  exact ⟨_, ⟨by rw [hm]; exact nofun, hstep⟩, rfl, by rw [hm]; rfl⟩

theorem invoke_library {mode : CallMode} {index : UInt16} {r : MethodRef} {m : Machine}
    (href : m.program.pool.methodRef index = .ok r) (hother : r.owner.name ≠ m.program.name) :
    invoke mode index m = invokeLibrary mode r m := by
  change EStateM.bind (check (m.program.pool.methodRef index)) _ m = _
  rw [href]
  change (if r.owner.name = m.program.name then (_ : Exec Unit) else _) m = _
  rw [if_neg hother]

def answer (routine : Routine) (call : Invocation) : Exec Unit := do
  let v ← routine.run call
  if !call.signature.isVoid then push v

/-- A library method that gives a value pushes it if there is room. -/
theorem answer_ok {m : Machine} {f : Frame} {rest : List Frame} {routine : Routine}
    {call : Invocation} {v : Value} (hm : m.frames = f :: rest)
    (hvalue : routine.run call m = .ok v m) (hvoid : call.signature.isVoid = false)
    (hroom : f.stack.length < f.method.maxStack) :
    answer routine call m = .ok ()
      { m with frames := { f with stack := v :: f.stack } :: rest } := by
  unfold answer
  rw [bind_of_ok hvalue, if_pos (by rw [hvoid]; rfl)]
  exact push_ok hm hroom

theorem answer_error {m m' : Machine} {routine : Routine} {call : Invocation} {cause : Cause}
    (hfault : routine.run call m = .error cause m') : answer routine call m = .error cause m' :=
  bind_of_error hfault

/-- A library method with a receiver answers for what it has popped. -/
theorem invokeLibrary_eq {m : Machine} {f : Frame} {rest : List Frame} {r : MethodRef}
    {routine : Routine} {args : List Value} {receiver : Value} {s s' : Stack}
    (hm : m.frames = f :: rest) (howns : Library.owns r.owner.name = true)
    (hroutine : m.library.routine? r.owner.name r.nameType.name r.nameType.descriptor =
      some routine)
    (hargs : Stack.popArgs r.signature.params f.stack = .ok args s')
    (hreceiver : Stack.popReference s' = .ok receiver s) (hnull : receiver.isNull = false) :
    invokeLibrary .virtual r m =
      answer routine ⟨r.signature, receiver, args⟩
        { m with frames := { f with stack := s } :: rest } := by
  have hpopArgs : onStack (Stack.popArgs r.signature.params) m =
      .ok args { m with frames := { f with stack := s' } :: rest } := by
    simp only [onStack, hm, Frame.onStack, hargs]
  have hpopReceiver :
      onStack Stack.popReference { m with frames := { f with stack := s' } :: rest } =
      .ok receiver { m with frames := { f with stack := s } :: rest } := by
    simp only [onStack, Frame.onStack, hreceiver]
  unfold invokeLibrary
  simp only [howns, Bool.not_true, Bool.false_eq_true, if_false, CallMode.isStatic,
    Bool.not_false, Bool.true_and]
  have hget : (get : Exec Machine) m = .ok m m := rfl
  rw [bind_of_ok hget]
  simp only [hroutine]
  rw [bind_of_ok hpopArgs, bind_of_ok hpopReceiver, hnull]
  rfl

/-- A step that calls a method of strings runs its routine. -/
theorem step_callsString {m : Machine} {f : Frame} {rest : List Frame} {name descriptor : Bytes}
    {signature : Signature} {routine : Routine} {args : List Value} {receiver : Value}
    {s s' : Stack} (hm : m.frames = f :: rest) (hcalls : f.CallsString m.program name descriptor)
    (hpool : m.program.pool.Spelled)
    (hother : m.program.name ≠ "java/lang/String")
    (hsignature : Descriptor.parse descriptor = .ok (.method signature))
    (hroutine : m.library.routine? "java/lang/String" name descriptor = some routine)
    (hargs : Stack.popArgs signature.params f.stack = .ok args s')
    (hreceiver : Stack.popReference s' = .ok receiver s) (hnull : receiver.isNull = false) :
    ∃ g console location, g.method = f.method ∧ g.stack = s ∧
      step m = located location
        (answer routine ⟨signature, receiver, args⟩ { m with frames := g :: rest, console }) := by
  obtain ⟨index, r, ⟨opcode, next, hop, hdec⟩, href, howner, rfl, rfl⟩ := hcalls
  obtain ⟨console, hstep⟩ := step_eq hm hop hdec
  have hr : r.signature = signature := by
    have hparse := hpool.methodRef href
    rw [hsignature] at hparse
    cases hparse
    rfl
  subst hr
  refine ⟨{ f with opPc := f.pc, pc := next, stack := s }, console,
    ⟨f.method.fullName, f.pc, some opcode⟩, rfl, rfl, hstep.trans ?_⟩
  have howns : Library.owns r.owner.name = true := by
    rw [howner]
    decide
  have hclass : r.owner.name ≠ m.program.name := by
    rw [howner]
    exact hother.symm
  have hinvoke : invoke .virtual index
      { m with frames := { f with opPc := f.pc, pc := next } :: rest, console } = _ :=
    invoke_library href hclass
  have hlibrary := invokeLibrary_eq
    (m := { m with frames := { f with opPc := f.pc, pc := next } :: rest, console }) rfl howns
    (howner ▸ hroutine) hargs hreceiver hnull
  rw [show (Instruction.invoke .virtual index).run = invoke .virtual index from rfl,
    hinvoke, hlibrary]

section Strings

variable {m : Machine} {f : Frame} {rest : List Frame} {text : Bytes} {s : Stack}

/-- The length is that of the code units read. -/
theorem step_length (hm : m.frames = f :: rest) (hcalls : f.CallsString m.program "length" "()I")
    (hpool : m.program.pool.Spelled)
    (hother : m.program.name ≠ "java/lang/String") (hlibrary : m.library = .default)
    (hstack : f.stack = .string text :: s) (hroom : s.length < f.method.maxStack) :
    m.StepGives (.int (Int32.ofNat (Utf16.units text).length) :: s) := by
  have hroutine : m.library.routine? "java/lang/String" "length" "()I" = some .stringLength := by
    rw [hlibrary]
    rfl
  obtain ⟨g, console, location, hmethod, rfl, hstep⟩ :=
    step_callsString hm hcalls hpool hother rfl hroutine (by rw [hstack]; rfl) rfl rfl
  rw [answer_ok rfl rfl rfl (hmethod ▸ hroom)] at hstep
  exact ⟨_, ⟨by rw [hm]; exact nofun, hstep⟩, rfl, by rw [hm]; rfl⟩

/-- A character is the code unit at its index. -/
theorem stringCharAt_ok {call : Invocation} {i : Int32} {k : Nat} {u : UInt16}
    (hreceiver : call.receiver = .string text) (harg : call.arg 0 = .int i) (hk : i.toInt = k)
    (hu : (Utf16.units text)[k]? = some u) (m : Machine) :
    Routine.stringCharAt.run call m = .ok (.int u.toUInt32.toInt32) m := by
  have hi : (call.arg 0).asInt = i := by simp [harg, Value.asInt, Value.payload]
  have hneg : ¬ i < 0 := by
    rw [Int32.lt_iff_toInt_lt, hk]
    simp
  have htext : receiverText call.receiver m = .ok text m := by
    rw [hreceiver]
    rfl
  change stringCharAt call m = _
  unfold stringCharAt
  rw [bind_of_ok htext]
  simp only [hi, if_neg hneg, hk, Int.toNat_natCast, hu]
  rfl

/-- Another index is a fault. -/
theorem stringCharAt_error {call : Invocation} {i : Int32}
    (hreceiver : call.receiver = .string text) (harg : call.arg 0 = .int i)
    (hi : i.toInt < 0 ∨ (Utf16.units text).length ≤ i.toInt) (m : Machine) :
    Routine.stringCharAt.run call m =
      .error (.fault (.badStringIndex i (Utf16.units text).length)) m := by
  have harg : (call.arg 0).asInt = i := by simp [harg, Value.asInt, Value.payload]
  have htext : receiverText call.receiver m = .ok text m := by
    rw [hreceiver]
    rfl
  change stringCharAt call m = _
  unfold stringCharAt
  rw [bind_of_ok htext]
  simp only [harg]
  by_cases hneg : i < 0
  · rw [if_pos hneg]
    rfl
  · have hpos : ¬ i.toInt < 0 := fun h => hneg (Int32.lt_iff_toInt_lt.mpr h)
    have hnone : (Utf16.units text)[i.toInt.toNat]? = none := by
      rw [List.getElem?_eq_none_iff]
      omega
    simp only [if_neg hneg, hnone]
    rfl

/-- A character is the code unit at its index; other indices are faults. -/
theorem step_charAt {i : Int32} (hm : m.frames = f :: rest)
    (hcalls : f.CallsString m.program "charAt" "(I)C")
    (hpool : m.program.pool.Spelled)
    (hother : m.program.name ≠ "java/lang/String") (hlibrary : m.library = .default)
    (hstack : f.stack = .int i :: .string text :: s) (hroom : s.length < f.method.maxStack) :
    (∀ k u, i.toInt = (k : Nat) → (Utf16.units text)[k]? = some u →
      m.StepGives (.int u.toUInt32.toInt32 :: s)) ∧
    (i.toInt < 0 ∨ (Utf16.units text).length ≤ i.toInt → ∃ e m' fault, step m = .error e m' ∧
      e.cause = .fault fault ∧ fault.kind = .heapAccess) := by
  have hroutine : m.library.routine? "java/lang/String" "charAt" "(I)C" = some .stringCharAt := by
    rw [hlibrary]
    rfl
  obtain ⟨g, console, location, hmethod, rfl, hstep⟩ :=
    step_callsString hm hcalls hpool hother rfl hroutine (by rw [hstack]; rfl) rfl rfl
  constructor
  · intro k u hk hu
    rw [answer_ok rfl (stringCharAt_ok rfl rfl hk hu _) rfl (hmethod ▸ hroom)] at hstep
    exact ⟨_, ⟨by rw [hm]; exact nofun, hstep⟩, rfl, by rw [hm]; rfl⟩
  · intro hi
    rw [answer_error (stringCharAt_error rfl rfl hi _)] at hstep
    exact ⟨_, _, _, hstep, rfl, rfl⟩

end Strings

theorem toInt_unit (u : UInt16) : u.toUInt32.toInt32.toInt = u.toNat := by
  have hmax := u.toNat_lt
  rw [show u.toUInt32.toInt32.toInt = u.toUInt32.toBitVec.toInt from rfl,
    BitVec.toInt_eq_toNat_of_lt]
  · simp
  · simp only [UInt32.toNat_toBitVec, UInt16.toNat_toUInt32]
    omega

end Machine

namespace Layout

/-- A text in the pool is one of the constants, so its length can be written. -/
theorem ClassLayout.Fits.text_length {c : ClassLayout} (hfits : c.Fits) {index : UInt16}
    {text : Bytes} (h : (pool c.constants)[index.toNat]? = some (some (.utf8 text))) :
    text.length < 65536 := by
  have hmem : some (.utf8 text) ∈ none :: c.constants.flatMap Constant.slots := by
    unfold pool at h
    rw [List.getElem?_toArray] at h
    exact List.mem_of_getElem? h
  rcases List.mem_cons.mp hmem with heq | hslots
  · cases heq
  · obtain ⟨k, hk, hslot⟩ := List.mem_flatMap.mp hslots
    cases k with
    | utf8 t =>
      have hconstant := hfits.constants _ hk
      obtain rfl : t = text := by simpa [Constant.slots, Constant.entry, eq_comm] using hslot
      exact hconstant
    | _ => simp [Constant.slots, Constant.entry] at hslot

end Layout

namespace Machine

open Layout Utf16

/-- What a text that a class file holds as a string constant comes to. The file is parsed, and
where its class is loaded, loading the constant pushes the bytes of the text. The methods of
strings then know the code units `readBack us`: their number is the length, the code unit at an
index is the character there, and any other index is a fault. These are the code units of the text
if it is plain; if not, there are more. -/
theorem literal_units (c : ClassLayout) (hfits : c.Fits) (trailing : Bytes) (us : List UInt16)
    (index textIndex : UInt16)
    (hstring : (pool c.constants)[index.toNat]? = some (some (.string textIndex)))
    (htext : (pool c.constants)[textIndex.toNat]? = some (some (.utf8 (encode us)))) :
    ClassFile.parse (c.encode ++ trailing) = .ok c.resolve ∧
    (∀ program, Class.load c.resolve = .ok program → program.name ≠ "java/lang/String" →
      ∀ (m : Machine) (f : Frame) (rest : List Frame) (s : Stack), m.program = program →
        m.library = .default → m.frames = f :: rest → s.length < f.method.maxStack →
        (f.Loads index → f.stack = s → m.StepGives (.string (encode us) :: s)) ∧
        (f.CallsString program "length" "()I" → f.stack = .string (encode us) :: s →
          ∃ v : Int32, v.toInt = (readBack us).length ∧ m.StepGives (.int v :: s)) ∧
        ∀ i, f.CallsString program "charAt" "(I)C" →
          f.stack = .int i :: .string (encode us) :: s →
          (∀ k u, i.toInt = (k : Nat) → (readBack us)[k]? = some u →
            ∃ v : Int32, v.toInt = u.toNat ∧ m.StepGives (.int v :: s)) ∧
          (i.toInt < 0 ∨ (readBack us).length ≤ i.toInt → ∃ e m' fault, step m = .error e m' ∧
            e.cause = .fault fault ∧ fault.kind = .heapAccess)) ∧
    ((readBack us).length = us.length ↔ Plain us) ∧ (Plain us → readBack us = us) := by
  have hparse : ClassFile.parse (c.encode ++ trailing) = .ok c.resolve := by
    have hread := ClassFile.read_parses hfits 0 trailing
    simp only [StreamReader.view] at hread
    simp only [ClassFile.parse, hread]
  have hlength : (readBack us).length < 65536 :=
    Nat.lt_of_le_of_lt (length_readBack_le us) (hfits.text_length htext)
  refine ⟨hparse, ?_, length_readBack_eq_iff us, readBack_of_plain⟩
  rintro program hload hother m f rest s rfl hlibrary hm hroom
  have hpool := Class.load_spelled hload
  refine ⟨?_, ?_, ?_⟩
  · rintro hloads rfl
    have hsize : (c.resolve.pool.extract 1 c.resolve.pool.size).size ≤ 65536 := by
      have hmost : c.resolve.pool.size ≤ 65535 := hfits.poolSize
      rw [Array.size_extract]
      omega
    have hloadable : m.program.pool.loadable index = .ok (.string (encode us)) :=
      ConstantPool.loadable_string (Class.load_resolved hload) hsize
        (ConstantPool.entryAt?_extract rfl hstring) (ConstantPool.entryAt?_extract rfl htext)
    exact step_loads hm hloads hloadable hroom
  · intro hcalls hstack
    refine ⟨Int32.ofNat (readBack us).length, Int32.toInt_ofNat_of_lt (by omega), ?_⟩
    rw [← units_encode]
    exact step_length hm hcalls hpool hother hlibrary hstack hroom
  · intro i hcalls hstack
    obtain ⟨hinside, houtside⟩ := step_charAt hm hcalls hpool hother hlibrary hstack hroom
    rw [units_encode] at hinside houtside
    exact ⟨fun k u hk hu => ⟨_, toInt_unit u, hinside k u hk hu⟩, houtside⟩

def greetingUnits : List UInt16 := [0x68, 0xE9, 0x6C, 0x6C, 0x6F, 0xD83D, 0xDE00]

def greeting : ClassLayout where
  minor := 0
  major := 52
  constants :=
    [.utf8 "T", .classRef 1, .utf8 "len", .utf8 "()I", .utf8 "Code", .utf8 (encode greetingUnits),
    .string 6, .utf8 "java/lang/String", .classRef 8, .utf8 "length", .nameAndType 10 4,
    .methodRef 9 11]
  flags := 0x21
  thisClass := 2
  superClass := 0
  interfaces := []
  fields := []
  methods := [⟨8, 3, 4, [⟨5, .code
    { maxStack := 1, maxLocals := 0, code := [0x12, 7, 0xB6, 0, 12, 0xAC], handlers := [],
      nested := [] }⟩]⟩]
  attributes := []

def greetingEntered : Option (List (Array UInt8 × Nat × Stack × Nat)) :=
  match Class.load greeting.resolve with
  | .ok program => match program.methodByName? "len" with
    | some method => match enter method .static (start program .default {} [] {}) with
      | .ok _ m => some (m.frames.map fun f => (f.method.code, f.pc, f.stack, f.method.maxStack))
      | .error _ _ => none
    | none => none
  | .error _ => none

/-- The text héllo😀 has a pair of surrogates, so it does not come back from the class file as it
was. -/
theorem literal_units_greeting : greeting.Fits ∧
    ClassFile.parse (greeting.encode ++ [0]) = .ok greeting.resolve ∧
    (∃ (program : Class) (m : Machine) (f : Frame), Class.load greeting.resolve = .ok program ∧
      program.name ≠ "java/lang/String" ∧ m.program = program ∧ m.library = .default ∧
      m.frames = [f] ∧ f.Loads 7 ∧ m.StepGives [.string (encode greetingUnits)]) ∧
    ((readBack greetingUnits).length = 7 ↔ Plain greetingUnits) ∧ ¬ Plain greetingUnits := by
  have hfits : greeting.Fits := by
    constructor <;> decide +kernel
  obtain ⟨hparse, hsteps, hiff, -⟩ := literal_units greeting hfits [0] greetingUnits 7 6
    (by decide +kernel) (by decide +kernel)
  have hplain : ¬ Plain greetingUnits := fun h => absurd (h 0xD83D (by decide)).2 (by decide)
  refine ⟨hfits, hparse, ?_, hiff, hplain⟩
  have hnamed : (Class.load greeting.resolve).toOption.map (·.name) = some "T" := by
    decide +kernel
  have hentered : greetingEntered = some [(#[0x12, 7, 0xB6, 0, 12, 0xAC], 0, [], 1)] := by
    decide +kernel
  unfold greetingEntered at hentered
  split at hentered
  · rename_i program hload
    split at hentered
    · split at hentered
      · rename_i m henter
        have hname : program.name = "T" := by
          rw [hload] at hnamed
          exact Option.some.inj hnamed
        obtain ⟨_, _, -, hstart⟩ := start_eq program .default {} [] {}
        have hentry : Transition (fun _ _ => True) (start program .default {} [] {}) m :=
          .enter (start_frames program .default {} [] {}) henter
        obtain ⟨hprogram, hlibrary, -⟩ := hentry.kept
        rw [hstart] at hprogram hlibrary
        obtain ⟨f, rest, hm, hf, hrest⟩ := List.map_eq_cons_iff.mp (Option.some.inj hentered)
        obtain rfl := List.map_eq_nil_iff.mp hrest
        simp only [Prod.mk.injEq] at hf
        obtain ⟨hcode, hpc, hstack, hmax⟩ := hf
        have hloads : f.Loads 7 := by
          refine ⟨.short, nofun, 0x12, 2, ?_, ?_⟩
          · rw [hcode, hpc]
            rfl
          · rw [hcode, hpc]
            rfl
        have hother : program.name ≠ "java/lang/String" := by
          rw [hname]
          decide
        refine ⟨program, m, f, hload, hother, hprogram, hlibrary, hm, hloads, ?_⟩
        exact (hsteps program hload hother m f [] [] hprogram hlibrary hm (by simp [hmax])).1
          hloads hstack
      · cases hentered
    · cases hentered
  · cases hentered

def lengthOf (bytes : Bytes) : Option Stack :=
  match ClassFile.parse bytes with
  | .ok file => match Class.load file with
    | .ok program =>
      match (HostCall.byName "len").perform 10 (start program .default {} [] {}) with
      | .finished m => some m.host
      | _ => none
    | .error _ => none
  | .error _ => none

/-- The text has seven code units, and the method of strings counts eleven. -/
theorem greeting_miscounted :
    greetingUnits.length = 7 ∧ lengthOf greeting.encode = some [.int 11] := by
  decide +kernel

end Machine

end ClassTrace
