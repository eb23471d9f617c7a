import ClassTrace.Proofs.OperandWords
import ClassTrace.Proofs.Run

/-!
Switches. The operands of a switch are words, from the first multiple of four after the opcode on:
those of a table are an offset for each key from the lowest to the highest, those of a lookup a
number of pairs of a key and an offset. Both go to the offset that they list for the key. Where
the words of no switch stand, the step is a fault, and it has read nothing past the end of the
code.
-/
namespace ClassTrace

namespace Fetch

variable {code : Array UInt8} {pc : Nat}

/-- Decoding a switch breaks off: with a fault, or with a lookup that has not all of its pairs. -/
inductive Breaks : EStateM.Result Fault Nat Instruction → Prop
  | fault {e : Fault} (hkind : e.kind = .badCode) (next : Nat) : Breaks (.error e next)
  | cut (fallback : Int32) (ps : List (Int32 × Int32)) (address next : Nat) :
      Breaks (.ok (.operate (.lookupSwitch fallback ps (some address))) next)

theorem breaks_i4 {g : Int32 → Fetch Instruction}
    (h : ∀ w, i4 code pc = .ok w (pc + 4) → Breaks (g w code (pc + 4))) :
    Breaks ((i4 >>= g) code pc) := by
  rcases i4_cases code pc with ⟨-, w, hw⟩ | hcut
  · rw [bind_fetched hw]
    exact h w hw
  · rw [bind_unfetched hcut]
    exact .fault rfl pc

theorem confined_tableSwitch : Confined Instruction.decodeTableSwitch := by
  refine confined_bind confined_padding fun _ => confined_bind confined_i4 fun fallback =>
    confined_bind confined_i4 fun low => confined_bind confined_i4 fun high => confined_unless ?_
  refine confined_read (fun code => confined_bind confined_get fun pc => confined_unless ?_)
    fun code code₂ h => ?_
  · exact confined_bind (confined_mapM _) fun offsets => confined_pure _
  · simp only [h]

theorem confined_lookupSwitch : Confined Instruction.decodeLookupSwitch := by
  refine confined_bind confined_padding fun _ => confined_bind confined_i4 fun fallback =>
    confined_bind confined_i4 fun count => confined_unless ?_
  exact confined_bind (confined_pairs _) fun p => confined_pure _

end Fetch

namespace Frame

variable {f : Frame} {offset : Int}

theorem popInt_ok {key : Int32} {below : Stack} (hstack : f.stack = .int key :: below) :
    popInt f = .ok key { f with stack := below } := by
  unfold popInt onStack
  rw [hstack]
  rfl

/-- A jump to an address of the code goes there. -/
theorem jump_inside {target : Nat} (h : target = f.opPc + offset)
    (hlt : target < f.method.code.size) :
    jump offset f = .ok () { f with pc := target } := by
  unfold jump
  dsimp only
  rw [← h, if_pos ⟨Int.natCast_nonneg _, Int.ofNat_lt.mpr hlt⟩, Int.toNat_natCast]

/-- Any other jump is a fault. -/
theorem jump_outside (h : ∀ target < f.method.code.size, (target : Int) ≠ f.opPc + offset) :
    jump offset f = .error (.branchOutside (f.opPc + offset) f.method.code.size) f := by
  refine if_neg fun hinside => h (f.opPc + offset).toNat ?_ ?_
  · omega
  · exact Int.toNat_of_nonneg hinside.1

end Frame

structure TableSwitch where
  fallback : Int32
  low : Int32
  high : Int32
  offsets : List Int32
  low_le_high : low ≤ high
  length_offsets : (offsets.length : Int) = high.toInt - low.toInt + 1

structure LookupSwitch where
  fallback : Int32
  pairs : List (Int32 × Int32)
  length_pairs : pairs.length < 0x80000000

inductive Switch where
  | table (t : TableSwitch)
  | lookup (l : LookupSwitch)

theorem TableSwitch.inside (t : TableSwitch) {key : Int32} (h : t.low ≤ key ∧ key ≤ t.high) :
    (key.toInt - t.low.toInt).toNat < t.offsets.length := by
  have hlow := Int32.le_iff_toInt_le.mp h.1
  have hhigh := Int32.le_iff_toInt_le.mp h.2
  have hlength := t.length_offsets
  omega

namespace Switch

def opcode : Switch → UInt8
  | .table _ => 0xAA
  | .lookup _ => 0xAB

def fallback : Switch → Int32
  | .table t => t.fallback
  | .lookup l => l.fallback

def words : Switch → List Int32
  | .table t => t.fallback :: t.low :: t.high :: t.offsets
  | .lookup l => l.fallback :: Int32.ofNat l.pairs.length :: Fetch.pairWords l.pairs

/-- The switch stands in the code at the address, with all its operands. -/
def StandsAt (s : Switch) (code : Array UInt8) (pc : Nat) : Prop :=
  code[pc]? = some s.opcode ∧
    ∃ start, pc < start ∧ start ≤ pc + 4 ∧ 4 ∣ start ∧ Fetch.Holds code start s.words

def Lists (key offset : Int32) : Switch → Prop
  | .table t => ∃ i : Nat, key.toInt = t.low.toInt + i ∧ t.offsets[i]? = some offset
  | .lookup l => (key, offset) ∈ l.pairs

def Distinct : Switch → Prop
  | .table _ => True
  | .lookup l => (l.pairs.map Prod.fst).Nodup

def offset (key : Int32) : Switch → Int32
  | .table t =>
    if h :
      t.low ≤ key ∧ key ≤ t.high then t.offsets.get ⟨(key.toInt - t.low.toInt).toNat, t.inside h⟩
    else t.fallback
  | .lookup l => (l.pairs.lookup key).getD l.fallback

variable {s : Switch} {code : Array UInt8} {pc : Nat} {key o : Int32}

/-- Where no key is listed twice, there is one pair at most for a key. -/
theorem filter_key {pairs : List (Int32 × Int32)} (h : (pairs.map Prod.fst).Nodup) :
    pairs.filter (·.1 = key) = ((pairs.lookup key).map (key, ·)).toList := by
  induction pairs with
  | nil => rfl
  | cons p pairs ih =>
    obtain ⟨k, o⟩ := p
    rw [List.map_cons, List.nodup_cons] at h
    by_cases hk : k = key
    · subst hk
      have hrest : pairs.filter (·.1 = k) = [] := by
        refine List.filter_eq_nil_iff.mpr fun p hp heq => h.1 ?_
        obtain rfl : p.1 = k := of_decide_eq_true heq
        exact List.mem_map.mpr ⟨p, hp, rfl⟩
      rw [List.filter_cons_of_pos (by simp), hrest, List.lookup_cons_self]
      rfl
    · have hne : (key == k) = false := beq_false_of_ne (Ne.symm hk)
      rw [List.filter_cons_of_neg (by simpa using hk), ih h.2, List.lookup_cons, hne]

/-- A key that is listed once has its offset. -/
theorem offset_of_lists (hs : s.Distinct) (h : s.Lists key o) : s.offset key = o := by
  cases s with
  | table t =>
    obtain ⟨i, hkey, hi⟩ := h
    have hlt := (List.getElem?_eq_some_iff.mp hi).1
    have hlength := t.length_offsets
    have hrange : t.low ≤ key ∧ key ≤ t.high := by
      rw [Int32.le_iff_toInt_le, Int32.le_iff_toInt_le]
      omega
    have hindex : (key.toInt - t.low.toInt).toNat = i := by omega
    refine (dif_pos hrange).trans (Option.some.inj ?_)
    rw [← hi, ← hindex]
    exact (List.getElem?_eq_getElem _).symm
  | lookup l =>
    have hmem : (key, o) ∈ l.pairs.filter (·.1 = key) :=
      List.mem_filter.mpr ⟨h, decide_eq_true rfl⟩
    rw [filter_key hs, Option.mem_toList, Option.map_eq_some_iff] at hmem
    obtain ⟨o', hlookup, heq⟩ := hmem
    cases heq
    exact congrArg (·.getD l.fallback) hlookup

theorem offset_of_not_lists (h : ∀ o, ¬ s.Lists key o) : s.offset key = s.fallback := by
  cases s with
  | table t =>
    refine dif_neg fun hrange => h (t.offsets.get ⟨_, t.inside hrange⟩) ?_
    have hlow := Int32.le_iff_toInt_le.mp hrange.1
    exact ⟨_, by omega, List.getElem?_eq_getElem (t.inside hrange)⟩
  | lookup l =>
    cases hlookup : l.pairs.lookup key with
    | none => exact congrArg (·.getD l.fallback) hlookup
    | some o => exact absurd (mem_of_lookup hlookup) (h o)

/-- The offsets depend only on what is listed. -/
theorem offset_congr {s₂ : Switch} (hs : s.Distinct) (hs₂ : s₂.Distinct)
    (hlists : ∀ k o, s.Lists k o ↔ s₂.Lists k o) (hfallback : s.fallback = s₂.fallback) :
    s.offset key = s₂.offset key := by
  by_cases h : ∃ o, s.Lists key o
  · obtain ⟨o, ho⟩ := h
    rw [offset_of_lists hs ho, offset_of_lists hs₂ ((hlists key o).mp ho)]
  · have hnone : ∀ o, ¬ s.Lists key o := fun o ho => h ⟨o, ho⟩
    rw [offset_of_not_lists hnone, hfallback,
      offset_of_not_lists fun o ho => hnone o ((hlists key o).mpr ho)]

def operation : Switch → Operation
  | .table t => .tableSwitch t.fallback t.low t.high t.offsets.toArray
  | .lookup l => .lookupSwitch l.fallback l.pairs none

/-- What a switch does with a key. -/
theorem operation_run {f : Frame} {below : Stack} (legacy : Bool) (hs : s.Distinct)
    (hstack : f.stack = .int key :: below) :
    s.operation.run legacy f = Frame.jump (s.offset key).toInt { f with stack := below } := by
  cases s with
  | table t =>
    refine (bind_of_ok (Frame.popInt_ok hstack)).trans ?_
    by_cases h : t.low ≤ key ∧ key ≤ t.high
    · have hoffset : (table t).offset key = t.offsets.get ⟨_, t.inside h⟩ := dif_pos h
      rw [if_pos h, hoffset, List.getElem?_toArray, List.getElem?_eq_getElem (t.inside h)]
      rfl
    · have hoffset : (table t).offset key = t.fallback := dif_neg h
      rw [if_neg h, hoffset]
  | lookup l =>
    refine (bind_of_ok (Frame.popInt_ok hstack)).trans ?_
    dsimp only
    rw [filter_key hs]
    cases hlookup : l.pairs.lookup key with
    | none =>
      have hoffset : (lookup l).offset key = l.fallback := congrArg (·.getD l.fallback) hlookup
      rw [hoffset]
      rfl
    | some o =>
      have hoffset : (lookup l).offset key = o := congrArg (·.getD l.fallback) hlookup
      rw [hoffset]
      rfl

section Decoding

variable {start : Nat}

/-- A table that stands in the code is decoded. -/
theorem decodeTable_ok {t : TableSwitch} (hpad : Fetch.padding code pc = .ok () start)
    (h : Fetch.Holds code start (table t).words) :
    ∃ next, Instruction.decodeTableSwitch code pc = .ok (.operate (table t).operation) next := by
  obtain ⟨hfallback, h⟩ := Fetch.holds_cons_iff.mp h
  obtain ⟨hlow, h⟩ := Fetch.holds_cons_iff.mp h
  obtain ⟨hhigh, h⟩ := Fetch.holds_cons_iff.mp h
  have horder := Int32.le_iff_toInt_le.mp t.low_le_high
  have hlength := t.length_offsets
  have hcount : (t.high.toInt - t.low.toInt + 1).toNat = t.offsets.length := by omega
  have hroom := h.room (Fetch.i4_ok hhigh)
  unfold Instruction.decodeTableSwitch
  rw [Fetch.bind_fetched hpad, Fetch.bind_fetched hfallback, Fetch.bind_fetched hlow,
    Fetch.bind_fetched hhigh, if_neg (by rw [Int32.lt_iff_toInt_lt]; omega)]
  dsimp only
  rw [hcount, Fetch.bind_read, Fetch.bind_get, if_neg (by omega),
    Fetch.bind_fetched (h.mapM_i4 List.length_range)]
  exact ⟨_, rfl⟩

theorem decodeLookup_ok {l : LookupSwitch} (hpad : Fetch.padding code pc = .ok () start)
    (h : Fetch.Holds code start (lookup l).words) :
    ∃ next, Instruction.decodeLookupSwitch code pc =
      .ok (.operate (lookup l).operation) next := by
  obtain ⟨hfallback, h⟩ := Fetch.holds_cons_iff.mp h
  obtain ⟨hcount, h⟩ := Fetch.holds_cons_iff.mp h
  have htoInt : (Int32.ofNat l.pairs.length).toInt = l.pairs.length :=
    Int32.toInt_ofNat_of_lt l.length_pairs
  have hpositive : ¬ Int32.ofNat l.pairs.length < 0 := by
    rw [Int32.lt_iff_toInt_lt, htoInt]
    exact Int.not_lt.mpr (Int.natCast_nonneg _)
  obtain ⟨next, hpairs⟩ := h.pairs_eq
  unfold Instruction.decodeLookupSwitch
  rw [Fetch.bind_fetched hpad, Fetch.bind_fetched hfallback, Fetch.bind_fetched hcount,
    if_neg hpositive]
  dsimp only
  rw [htoInt, Int.toNat_natCast, Fetch.bind_fetched hpairs]
  exact ⟨next, rfl⟩

/-- Where no table stands, decoding one breaks off. -/
theorem decodeTable_breaks (hpad : Fetch.padding code pc = .ok () start)
    (h : ∀ t, ¬ Fetch.Holds code start (table t).words) :
    Fetch.Breaks (Instruction.decodeTableSwitch code pc) := by
  unfold Instruction.decodeTableSwitch
  rw [Fetch.bind_fetched hpad]
  refine Fetch.breaks_i4 fun fallback hfallback => Fetch.breaks_i4 fun low hlow =>
    Fetch.breaks_i4 fun high hhigh => ?_
  by_cases horder : high < low
  · rw [if_pos horder]
    exact .fault rfl _
  · rw [if_neg horder]
    dsimp only
    rw [Fetch.bind_read, Fetch.bind_get]
    by_cases hlong : (code.size - (start + 4 + 4 + 4)) / 4 < (high.toInt - low.toInt + 1).toNat
    · rw [if_pos hlong]
      exact .fault rfl _
    · -- The offsets are in the code, so a table stands here.
      have hroom := Fetch.i4_ok hhigh
      rw [Int32.lt_iff_toInt_lt] at horder
      have hfits :
        start + 4 + 4 + 4 + 4 * (high.toInt - low.toInt + 1).toNat ≤ code.size := by omega
      obtain ⟨offsets, hlength, hoffsets⟩ := Fetch.exists_holds _ hfits
      refine absurd ?_ (h ⟨fallback, low, high, offsets,
        Int32.le_iff_toInt_le.mpr (by omega), by omega⟩)
      exact Fetch.holds_cons_iff.mpr ⟨hfallback, Fetch.holds_cons_iff.mpr ⟨hlow,
        Fetch.holds_cons_iff.mpr ⟨hhigh, hoffsets⟩⟩⟩

theorem decodeLookup_breaks (hpad : Fetch.padding code pc = .ok () start)
    (h : ∀ l, ¬ Fetch.Holds code start (lookup l).words) :
    Fetch.Breaks (Instruction.decodeLookupSwitch code pc) := by
  unfold Instruction.decodeLookupSwitch
  rw [Fetch.bind_fetched hpad]
  refine Fetch.breaks_i4 fun fallback hfallback => Fetch.breaks_i4 fun count hcount => ?_
  by_cases hnegative : count < 0
  · rw [if_pos hnegative]
    exact .fault rfl _
  · rw [if_neg hnegative]
    have hlt := count.toInt_lt
    rw [Int32.lt_iff_toInt_lt, Int32.toInt_zero] at hnegative
    have hpairs : ∀ ps, ps.length = count.toInt.toNat →
        ¬ Fetch.Holds code (start + 4 + 4) (Fetch.pairWords ps) := by
      intro ps hlength hps
      have hword : Int32.ofNat ps.length = count := by
        refine Int32.toInt_inj.mp ?_
        rw [Int32.toInt_ofNat_of_lt (by omega)]
        omega
      refine h ⟨fallback, ps, by omega⟩ (Fetch.holds_cons_iff.mpr ⟨hfallback, ?_⟩)
      exact Fetch.holds_cons_iff.mpr ⟨hword ▸ hcount, hps⟩
    obtain ⟨ps, address, next, hcut⟩ := Fetch.pairs_cut hpairs
    dsimp only
    rw [Fetch.bind_fetched hcut]
    exact .cut fallback ps address next

end Decoding

theorem start_of_holds {start : Nat} (h : Fetch.Holds code start s.words) :
    start + 4 ≤ code.size := by
  have hfirst : Fetch.i4 code start = .ok s.fallback (start + 4) := by
    cases s <;> exact (Fetch.holds_cons_iff.mp h).1
  exact Fetch.i4_ok hfirst

/-- A switch that stands in the code is decoded to its operation. -/
theorem StandsAt.decode (h : s.StandsAt code pc) :
    ∃ next, Instruction.decode s.opcode code (pc + 1) = .ok (.operate s.operation) next := by
  obtain ⟨-, start, hlow, hhigh, hdvd, hwords⟩ := h
  have hstart : start ≤ code.size := Nat.le_of_add_right_le (start_of_holds hwords)
  have hpad := Fetch.padding_eq code hlow hhigh hdvd
  rw [if_pos hstart] at hpad
  cases s with
  | table t => exact decodeTable_ok hpad hwords
  | lookup l => exact decodeLookup_ok hpad hwords

/-- Decoding breaks off wherever no switch stands behind its opcode. -/
theorem breaks_of_not_standsAt {opcode : UInt8} (hop : code[pc]? = some opcode)
    (hswitch : opcode = 0xAA ∨ opcode = 0xAB) (h : ∀ s : Switch, ¬ s.StandsAt code pc) :
    Fetch.Breaks (Instruction.decode opcode code (pc + 1)) := by
  have hlow : pc < (pc + 4) / 4 * 4 := by omega
  have hhigh : (pc + 4) / 4 * 4 ≤ pc + 4 := by omega
  have hdvd : 4 ∣ (pc + 4) / 4 * 4 := Nat.dvd_mul_left ..
  have hpad := Fetch.padding_eq code hlow hhigh hdvd
  by_cases hstart : (pc + 4) / 4 * 4 ≤ code.size
  · rw [if_pos hstart] at hpad
    rcases hswitch with rfl | rfl
    · exact decodeTable_breaks hpad fun t ht => h (.table t) ⟨hop, _, hlow, hhigh, hdvd, ht⟩
    · exact decodeLookup_breaks hpad fun l hl => h (.lookup l) ⟨hop, _, hlow, hhigh, hdvd, hl⟩
  · rw [if_neg hstart] at hpad
    have hcut :
        Instruction.decode opcode code (pc + 1) = .error (.cutOperand code.size) code.size := by
      rcases hswitch with rfl | rfl
      · exact Fetch.bind_unfetched hpad
      · exact Fetch.bind_unfetched hpad
    rw [hcut]
    exact .fault rfl _

end Switch

namespace Machine

section Steps

variable {m : Machine} {f : Frame} {rest : List Frame} {s : Switch} {key : Int32} {below : Stack}

/-- A step with a switch is a jump by the offset for the key. -/
theorem step_switch (hm : m.frames = f :: rest) (hstack : f.stack = .int key :: below)
    (h : s.StandsAt f.method.code f.pc) (hs : s.Distinct) :
    ∃ next, step m = m.concluded f s.opcode rest
      (Frame.jump (s.offset key).toInt { f with opPc := f.pc, pc := next, stack := below }) := by
  obtain ⟨next, hdec⟩ := h.decode
  exact ⟨next, (step_operate hm h.1 hdec).trans
    (congrArg (m.concluded f s.opcode rest) (Switch.operation_run _ hs hstack))⟩

/-- A switch jumps to the target that is listed for the key. -/
theorem step_switch_inside {target : Nat} (hm : m.frames = f :: rest)
    (hstack : f.stack = .int key :: below) (h : s.StandsAt f.method.code f.pc) (hs : s.Distinct)
    (htarget : target = f.pc + (s.offset key).toInt) (hlt : target < f.method.code.size) :
    step m =
      .ok () (m.moved f s.opcode
        ({ f with opPc := f.pc, pc := target, stack := below } :: rest)) := by
  obtain ⟨next, hstep⟩ := step_switch hm hstack h hs
  have hjump :
      Frame.jump (s.offset key).toInt { f with opPc := f.pc, pc := next, stack := below } =
        .ok () { f with opPc := f.pc, pc := target, stack := below } :=
    Frame.jump_inside htarget hlt
  exact hstep.trans (congrArg (m.concluded f s.opcode rest) hjump)

end Steps

/-- A switch goes to the offset that it has for the key, if that is an address of the code.
Switches that list the same go to the same address. Where a switch is broken off or is none, the
step is a fault: the frame is then at an address of the code or at its end, and no byte from there
on has been looked at. -/
theorem switches_follow_listing (m : Machine) (f : Frame) (rest : List Frame) (key : Int32)
    (below : Stack) (hm : m.frames = f :: rest) (hstack : f.stack = .int key :: below) :
    (∀ s : Switch, s.StandsAt f.method.code f.pc → s.Distinct →
      (∀ target < f.method.code.size, (target : Int) = f.pc + (s.offset key).toInt →
        step m = .ok ()
        (m.moved f s.opcode ({ f with opPc := f.pc, pc := target, stack := below } :: rest))) ∧
      ((∀ target < f.method.code.size, (target : Int) ≠ f.pc + (s.offset key).toInt) →
        m.Faults .badCode) ∧
      ∀ (s₂ : Switch) (m₂ : Machine) (f₂ : Frame) (rest₂ : List Frame) (below₂ : Stack),
        m₂.frames = f₂ :: rest₂ → f₂.stack = .int key :: below₂ → f₂.pc = f.pc →
        s₂.StandsAt f₂.method.code f₂.pc → s₂.Distinct → (∀ k o, s.Lists k o ↔ s₂.Lists k o) →
        s.fallback = s₂.fallback → ∀ target < f.method.code.size, target < f₂.method.code.size →
        (target : Int) = f.pc + (s.offset key).toInt → step m₂ = .ok ()
          (m₂.moved f₂ s₂.opcode ({ f₂ with opPc := f₂.pc, pc := target, stack := below₂ } ::
            rest₂))) ∧
    ∀ opcode, f.method.code[f.pc]? = some opcode → opcode = 0xAA ∨ opcode = 0xAB →
      (∀ s : Switch, ¬ s.StandsAt f.method.code f.pc) →
      ∃ e m' fault f', step m = .error e m' ∧ e.cause = .fault fault ∧ fault.kind = .badCode ∧
        m'.frames = f' :: rest ∧ f'.pc ≤ f.method.code.size ∧
        ∀ code : Array UInt8, code.size = f.method.code.size →
          (∀ i < f'.pc, code[i]? = f.method.code[i]?) →
          Instruction.decode opcode code (f.pc + 1) =
            Instruction.decode opcode f.method.code (f.pc + 1) := by
  refine ⟨fun s h hs => ⟨?_, ?_, ?_⟩, ?_⟩
  · intro target hlt htarget
    exact step_switch_inside hm hstack h hs htarget hlt
  · intro houtside
    obtain ⟨next, hstep⟩ := step_switch hm hstack h hs
    exact faults_of_concluded (hstep.trans (congrArg (m.concluded f s.opcode rest)
      (Frame.jump_outside houtside)))
  · intro s₂ m₂ f₂ rest₂ below₂ hm₂ hstack₂ hpc h₂ hs₂ hlists hfallback target _ hlt htarget
    rw [← hpc, Switch.offset_congr hs hs₂ hlists hfallback] at htarget
    exact step_switch_inside hm₂ hstack₂ h₂ hs₂ htarget hlt
  · intro opcode hop hswitch hnone
    have hpc : f.pc + 1 ≤ f.method.code.size := (Array.getElem?_eq_some_iff.mp hop).1
    have hconfined : Fetch.Confined (Instruction.decode opcode) := by
      rcases hswitch with rfl | rfl
      · exact Fetch.confined_tableSwitch
      · exact Fetch.confined_lookupSwitch
    obtain ⟨-, hinside, hsame⟩ := hconfined f.method.code (f.pc + 1) hpc
    have hbreaks := Switch.breaks_of_not_standsAt hop hswitch hnone
    generalize hdec : Instruction.decode opcode f.method.code (f.pc + 1) = result at hbreaks
    cases hbreaks with
    | @fault e hkind next =>
      rw [Fetch.stop_of_error hdec] at hinside hsame
      exact ⟨_, _, e, _, step_undecoded hm hop hdec, rfl, hkind, rfl, hinside, hdec ▸ hsame⟩
    | cut fallback ps address next =>
      -- The key is popped before the break is noticed.
      have hrun :
          Operation.run m.settings.legacyBranches (.lookupSwitch fallback ps (some address))
          { f with opPc := f.pc, pc := next } =
          .error (.cutOperand address) { f with opPc := f.pc, pc := next, stack := below } :=
        bind_of_ok (Frame.popInt_ok hstack)
      have hstep := (step_operate hm hop hdec).trans (congrArg (m.concluded f opcode rest) hrun)
      rw [Fetch.stop_of_ok hdec] at hinside hsame
      exact ⟨_, _, _, _, hstep, rfl, rfl, rfl, hinside, hdec ▸ hsame⟩

def twinTable : TableSwitch where
  fallback := 100
  low := -1
  high := 0
  offsets := [27, -1]
  low_le_high := by decide
  length_offsets := by decide

def twinLookup : LookupSwitch where
  fallback := 100
  pairs := [(0, -1), (-1, 27)]
  length_pairs := by decide

def twinTableCode : Array UInt8 :=
  ([0x02, 0xAA, 0, 0] ++ Bytes.ofWords (Switch.table twinTable).words ++
    [0, 0, 0, 0, 0xB1]).toArray

def twinLookupCode : Array UInt8 :=
  ([0x02, 0xAB, 0, 0] ++ Bytes.ofWords (Switch.lookup twinLookup).words ++ [0xB1]).toArray

def twins : Class where
  name := "T"
  super := []
  pool := #[none]
  fields := []
  methods := [
    { owner := "T", name := "table", descriptor := "()V", signature := ⟨[], .void⟩,
      isStatic := true, maxStack := 1, code := twinTableCode },
    { owner := "T", name := "lookup", descriptor := "()V", signature := ⟨[], .void⟩,
      isStatic := true, maxStack := 1, code := twinLookupCode },
    { owner := "T", name := "broken", descriptor := "()V", signature := ⟨[], .void⟩,
      isStatic := true, maxStack := 1, code := #[0x02, 0xAB] }]

def twinsRun (name : String) : Machine := twins.after (.byName name) 1

theorem lists_twins (key o : Int32) :
    (Switch.table twinTable).Lists key o ↔ (Switch.lookup twinLookup).Lists key o := by
  constructor
  · rintro ⟨i, hkey, ho⟩
    rcases i with _ | _ | i
    · obtain rfl : key = -1 := Int32.toInt_inj.mp hkey
      cases ho
      exact List.mem_cons_of_mem _ (List.mem_singleton_self _)
    · obtain rfl : key = 0 := Int32.toInt_inj.mp hkey
      cases ho
      exact List.mem_cons_self
    · cases ho
  · intro h
    rcases List.mem_cons.mp h with h | h
    · cases h
      exact ⟨1, by decide, rfl⟩
    · cases List.mem_singleton.mp h
      exact ⟨0, by decide, rfl⟩

/-- The table and the list have the same offsets: both jump to 28 for the key -1. The third method
has an opcode without operands. -/
theorem switches_follow_listing_twins : ∃ f f₂ f₃,
    (twinsRun "table").frames = [f] ∧ (twinsRun "lookup").frames = [f₂] ∧
    (twinsRun "broken").frames = [f₃] ∧
    (Switch.table twinTable).StandsAt f.method.code f.pc ∧
    (Switch.lookup twinLookup).StandsAt f₂.method.code f₂.pc ∧
    step (twinsRun "table") = .ok () ((twinsRun "table").moved f 0xAA
      [{ f with opPc := f.pc, pc := 28, stack := [] }]) ∧
    step (twinsRun "lookup") = .ok () ((twinsRun "lookup").moved f₂ 0xAB
      [{ f₂ with opPc := f₂.pc, pc := 28, stack := [] }]) ∧
    ∃ e m', step (twinsRun "broken") = .error e m' := by
  have htable : (twinsRun "table").frames.map (fun f => (f.method.code, f.pc, f.stack)) =
      [(twinTableCode, 1, [.int (-1)])] := by decide +kernel
  have hlookup : (twinsRun "lookup").frames.map (fun f => (f.method.code, f.pc, f.stack)) =
      [(twinLookupCode, 1, [.int (-1)])] := by decide +kernel
  have hbroken : (twinsRun "broken").frames.map (fun f => (f.method.code, f.pc, f.stack)) =
      [(#[0x02, 0xAB], 1, [.int (-1)])] := by decide +kernel
  obtain ⟨f, hm, hf⟩ := List.map_eq_singleton_iff.mp htable
  obtain ⟨f₂, hm₂, hf₂⟩ := List.map_eq_singleton_iff.mp hlookup
  obtain ⟨f₃, hm₃, hf₃⟩ := List.map_eq_singleton_iff.mp hbroken
  simp only [Prod.mk.injEq] at hf hf₂ hf₃
  obtain ⟨hcode, hpc, hstack⟩ := hf
  obtain ⟨hcode₂, hpc₂, hstack₂⟩ := hf₂
  obtain ⟨hcode₃, hpc₃, hstack₃⟩ := hf₃
  have hstands : (Switch.table twinTable).StandsAt f.method.code f.pc := by
    rw [hcode, hpc]
    exact ⟨by decide, 4, by decide, by decide, by decide, by decide⟩
  have hstands₂ : (Switch.lookup twinLookup).StandsAt f₂.method.code f₂.pc := by
    rw [hcode₂, hpc₂]
    exact ⟨by decide, 4, by decide, by decide, by decide, by decide⟩
  have hnone : ∀ s : Switch, ¬ s.StandsAt f₃.method.code f₃.pc := by
    rintro s ⟨-, start, hlow, -, -, hwords⟩
    have hstart := Switch.start_of_holds hwords
    rw [hcode₃] at hstart
    exact absurd hstart (by simp)
  have hdistinct : (Switch.lookup twinLookup).Distinct := by
    unfold Switch.Distinct
    decide
  obtain ⟨hinside, -, htwin⟩ :=
    (switches_follow_listing _ f [] (-1) [] hm hstack).1 (.table twinTable) hstands trivial
  obtain ⟨e, m', -, -, hfault, -⟩ := (switches_follow_listing _ f₃ [] (-1) [] hm₃ hstack₃).2 0xAB
    (by rw [hcode₃, hpc₃]; rfl) (.inr rfl) hnone
  have hsize : 28 < f.method.code.size := by
    rw [hcode]
    decide
  have hsize₂ : 28 < f₂.method.code.size := by
    rw [hcode₂]
    decide
  have htarget : ((28 : Nat) : Int) = f.pc + ((Switch.table twinTable).offset (-1)).toInt := by
    rw [hpc]
    decide
  exact ⟨f, f₂, f₃, hm, hm₂, hm₃, hstands, hstands₂, hinside 28 hsize htarget,
    htwin (.lookup twinLookup) _ f₂ [] [] hm₂ hstack₂ (hpc₂.trans hpc.symm) hstands₂ hdistinct
      lists_twins rfl 28 hsize hsize₂ htarget, e, m', hfault⟩

end Machine

end ClassTrace
