import Mathlib.Tactic.Positivity
import Mathlib.Tactic.Ring
import ClassTrace.Proofs.Shuffles

/-!
The arithmetic of ints and longs. Seen as numbers, the operands and the result of an instruction
are integers of its width; each instruction is given by what it does with such integers, with no
word in between. The instructions of both widths are the same operations on words, so one proof
about words serves both.
-/
namespace ClassTrace

inductive Width where
  | int
  | long
deriving DecidableEq, Repr

namespace Width

variable {w : Width} {a : Int}

def bits : Width → Nat
  | .int => 32
  | .long => 64

/-- The number is one of the width, in two's complement. -/
def Holds (w : Width) (a : Int) : Prop := -2 ^ (w.bits - 1) ≤ a ∧ a < 2 ^ (w.bits - 1)

instance (w : Width) (a : Int) : Decidable (w.Holds a) := inferInstanceAs (Decidable (_ ∧ _))

/-- The number of the width that differs from the given one by a multiple of the number of
words. -/
def wrap (w : Width) (a : Int) : Int := a.bmod (2 ^ w.bits)

def value : Width → Int → Value
  | .int, a => .int (Int32.ofInt a)
  | .long, a => .long (Int64.ofInt a)

theorem holds_toInt (x : BitVec w.bits) : w.Holds x.toInt := ⟨x.le_toInt, x.toInt_lt⟩

theorem two_pow_bits (w : Width) : ((2 ^ w.bits : Nat) : Int) = 2 * 2 ^ (w.bits - 1) := by
  cases w <;> rfl

theorem wrap_eq_self (h : w.Holds a) : w.wrap a = a := by
  obtain ⟨hlow, hhigh⟩ := h
  have hbits := w.two_pow_bits
  exact Int.bmod_eq_of_le_mul_two (by omega) (by omega)

theorem toInt_ofInt (h : w.Holds a) : (BitVec.ofInt w.bits a).toInt = a :=
  (BitVec.toInt_ofInt a).trans (wrap_eq_self h)

/-- An int is also a number of the other width. -/
theorem Holds.of_int (h : Width.int.Holds a) (w : Width) : w.Holds a := by
  cases w with
  | int => exact h
  | long =>
    have hpow : (2 : Int) ^ (Width.int.bits - 1) ≤ 2 ^ (Width.long.bits - 1) := by decide
    obtain ⟨hlow, hhigh⟩ := h
    exact ⟨by omega, by omega⟩

end Width

def bitAt (a : Int) (i : Nat) : Bool := a / 2 ^ i % 2 = 1

section Words

variable {n : Nat} (x : BitVec n)

/-- Signed or not, a word leaves the same remainder by a divisor of the number of words. -/
theorem toInt_emod_of_dvd {d : Nat} (h : d ∣ 2 ^ n) : x.toInt % d = (x.toNat % d : Nat) := by
  rw [x.toInt_eq_toNat_bmod, ← Int.emod_emod_of_dvd _ (Int.natCast_dvd_natCast.mpr h),
    Int.bmod_emod, Int.emod_emod_of_dvd _ (Int.natCast_dvd_natCast.mpr h), Int.natCast_emod]

theorem ediv_emod_two (a : Int) (i : Nat) : a / 2 ^ i % 2 = a % (2 ^ (i + 1) : Nat) / 2 ^ i := by
  have hpos : (0 : Int) < 2 ^ i := Int.pow_pos (by decide)
  have hsplit : a % (2 ^ (i + 1) : Nat) = a - (2 * (a / 2 ^ i / 2)) * 2 ^ i := by
    rw [Int.emod_def, Int.ediv_ediv_of_nonneg hpos.le]
    push_cast [pow_succ]
    ring
  rw [hsplit, Int.sub_mul_ediv_right _ _ hpos.ne', Int.emod_def]

/-- The bits of a word are those of its signed value. -/
theorem bitAt_toInt {i : Nat} (hi : i < n) : bitAt x.toInt i = x.getLsbD i := by
  -- a bit depends only on the remainder by the next power of two
  have hbit : x.toInt / 2 ^ i % 2 = (x.toNat / 2 ^ i % 2 : Nat) := by
    rw [ediv_emod_two, toInt_emod_of_dvd x (Nat.pow_dvd_pow 2 hi), ← Nat.mod_mul_right_div_self,
      Nat.pow_succ]
    push_cast
    rfl
  unfold bitAt
  rw [← BitVec.testBit_toNat, Nat.testBit_eq_decide_div_mod_eq, hbit]
  simp only [Nat.cast_eq_one]

end Words

namespace IntOp

/-- What the operation stands for: the result is `r` for the operands `a` and `b`, or, if it is a
shift, for the operand `a` and the count `b`. -/
def Yields (w : Width) (op : IntOp) (a b r : Int) : Prop :=
  match op with
  | .add => r = w.wrap (a + b)
  | .sub => r = w.wrap (a - b)
  | .mul => r = w.wrap (a * b)
  | .div => r = w.wrap (a.tdiv b)
  | .rem => r = a.tmod b
  | .shl => r = w.wrap (a * 2 ^ (b % w.bits).toNat)
  | .shr => r = a.fdiv (2 ^ (b % w.bits).toNat)
  | .ushr => r = w.wrap ((a % 2 ^ w.bits).fdiv (2 ^ (b % w.bits).toNat))
  | .and => ∀ i < w.bits, bitAt r i = (bitAt a i && bitAt b i)
  | .or => ∀ i < w.bits, bitAt r i = (bitAt a i || bitAt b i)
  | .xor => ∀ i < w.bits, bitAt r i = (bitAt a i ^^ bitAt b i)

def word {n : Nat} (op : IntOp) (x y : BitVec n) : BitVec n :=
  match op with
  | .add => x + y
  | .sub => x - y
  | .mul => x * y
  | .div => x.sdiv y
  | .rem => x.srem y
  | .shl => x <<< (y.toInt % n).toNat
  | .shr => x.sshiftRight (y.toInt % n).toNat
  | .ushr => x >>> (y.toInt % n).toNat
  | .and => x &&& y
  | .or => x ||| y
  | .xor => x ^^^ y

theorem toInt_shl {n : Nat} (x : BitVec n) (s : Nat) :
    (x <<< s).toInt = (x.toInt * 2 ^ s).bmod (2 ^ n) := by
  rw [BitVec.toInt_shiftLeft, Nat.shiftLeft_eq, x.toInt_eq_toNat_bmod, Int.bmod_mul_bmod]
  push_cast
  rfl

/-- An arithmetic shift is a division that rounds down. -/
theorem toInt_shr {n : Nat} (x : BitVec n) (s : Nat) :
    (x.sshiftRight s).toInt = x.toInt.fdiv (2 ^ s) := by
  rw [BitVec.toInt_sshiftRight, Int.shiftRight_eq_div_pow,
    Int.fdiv_eq_ediv_of_nonneg _ (by positivity)]
  push_cast
  rfl

/-- An unsigned shift divides the unsigned value. -/
theorem toInt_ushr {n : Nat} (x : BitVec n) (s : Nat) :
    (x >>> s).toInt = ((x.toInt % 2 ^ n).fdiv (2 ^ s)).bmod (2 ^ n) := by
  have hunsigned : x.toInt % 2 ^ n = x.toNat := by
    have h := toInt_emod_of_dvd x (dvd_refl (2 ^ n))
    rw [Nat.mod_eq_of_lt x.isLt] at h
    exact_mod_cast h
  rw [BitVec.toInt_eq_toNat_bmod, BitVec.toNat_ushiftRight, Nat.shiftRight_eq_div_pow, hunsigned,
    Int.fdiv_eq_ediv_of_nonneg _ (by positivity)]
  push_cast
  rfl

/-- On words, each operation gives the number that it stands for. -/
theorem word_yields (w : Width) (op : IntOp) (x y : BitVec w.bits) :
    op.Yields w x.toInt y.toInt (op.word x y).toInt := by
  cases op with
  | add => exact BitVec.toInt_add x y
  | sub => exact BitVec.toInt_sub
  | mul => exact BitVec.toInt_mul x y
  | div => exact BitVec.toInt_sdiv x y
  | rem => exact BitVec.toInt_srem x y
  | shl => exact toInt_shl x _
  | shr => exact toInt_shr x _
  | ushr => exact toInt_ushr x _
  | and =>
    intro i hi
    simp only [word, bitAt_toInt _ hi, BitVec.getLsbD_and]
  | or =>
    intro i hi
    simp only [word, bitAt_toInt _ hi, BitVec.getLsbD_or]
  | xor =>
    intro i hi
    simp only [word, bitAt_toInt _ hi, BitVec.getLsbD_xor]

/-- A mask takes the count of a shift to its remainder by the number of bits, which is a power of
two; no remainder that is taken afterwards changes it. -/
theorem toNat_count {n : Nat} (k : Nat) (hn : 2 ^ k = n) (hk : k + 1 < n) (y : BitVec n) :
    ((y &&& BitVec.ofNat n (n - 1)).smod (BitVec.ofNat n n)).toNat = (y.toInt % n).toNat ∧
      ((y &&& BitVec.ofNat n (n - 1)) % BitVec.ofNat n n).toNat = (y.toInt % n).toNat := by
  have hwords : 2 * n < 2 ^ n := by
    rw [← hn, ← Nat.pow_succ']
    exact Nat.pow_lt_pow_right Nat.one_lt_two (hn.symm ▸ hk)
  have hbits : (BitVec.ofNat n n).toNat = n := by
    rw [BitVec.toNat_ofNat, Nat.mod_eq_of_lt (by omega)]
  have hmask : (BitVec.ofNat n (n - 1)).toNat = 2 ^ k - 1 := by
    rw [BitVec.toNat_ofNat, Nat.mod_eq_of_lt (by omega), hn]
  have hcount : (y &&& BitVec.ofNat n (n - 1)).toNat = (y.toInt % n).toNat := by
    have hdvd : n ∣ 2 ^ n := by
      nth_rewrite 1 [← hn]
      exact Nat.pow_dvd_pow 2 (by omega)
    rw [BitVec.toNat_and, hmask, Nat.and_two_pow_sub_one_eq_mod, hn, toInt_emod_of_dvd y hdvd,
      Int.toNat_natCast]
  have hlt : (y &&& BitVec.ofNat n (n - 1)).toNat < n := by
    rw [BitVec.toNat_and, hmask, Nat.and_two_pow_sub_one_eq_mod, hn]
    exact Nat.mod_lt _ (by omega)
  have hmod : ((y &&& BitVec.ofNat n (n - 1)) % BitVec.ofNat n n).toNat =
      (y &&& BitVec.ofNat n (n - 1)).toNat := by
    rw [BitVec.toNat_umod, hbits, Nat.mod_eq_of_lt hlt]
  refine ⟨?_, hmod.trans hcount⟩
  -- both the masked count and the number of bits are positive as signed words
  rw [BitVec.toNat_smod, BitVec.msb_eq_false_iff_two_mul_lt.mpr (by omega),
    BitVec.msb_eq_false_iff_two_mul_lt.mpr (by omega)]
  exact hmod.trans hcount

def divides : IntOp → Bool
  | .div | .rem => true
  | _ => false

/-- On ints an operation is the one on words, unless it divides by zero. -/
theorem apply32_eq (op : IntOp) (a b : Int32) : op.apply32 a b =
    if op.divides = true ∧ b = 0 then .error .divisionByZero
    else .ok (Int32.ofBitVec (op.word a.toBitVec b.toBitVec)) := by
  have hcount := toNat_count 5 rfl (by decide) b.toBitVec
  cases op with
  | add | sub | mul | and | or | xor => rfl
  | div | rem =>
    unfold apply32
    simp only [divides, true_and]
    rfl
  | shl => exact congrArg (fun s => Except.ok (Int32.ofBitVec (a.toBitVec <<< s))) hcount.1
  | shr =>
    exact congrArg (fun s => Except.ok (Int32.ofBitVec (a.toBitVec.sshiftRight s))) hcount.1
  | ushr => exact congrArg (fun s => Except.ok (Int32.ofBitVec (a.toBitVec >>> s))) hcount.2

/-- So it is on longs. -/
theorem apply64_eq (op : IntOp) (a b : Int64) : op.apply64 a b =
    if op.divides = true ∧ b = 0 then .error .divisionByZero
    else .ok (Int64.ofBitVec (op.word a.toBitVec b.toBitVec)) := by
  have hcount := toNat_count 6 rfl (by decide) b.toBitVec
  cases op with
  | add | sub | mul | and | or | xor => rfl
  | div | rem =>
    unfold apply64
    simp only [divides, true_and]
    rfl
  | shl => exact congrArg (fun s => Except.ok (Int64.ofBitVec (a.toBitVec <<< s))) hcount.1
  | shr =>
    exact congrArg (fun s => Except.ok (Int64.ofBitVec (a.toBitVec.sshiftRight s))) hcount.1
  | ushr => exact congrArg (fun s => Except.ok (Int64.ofBitVec (a.toBitVec >>> s))) hcount.2

def second (w : Width) (op : IntOp) : Width := if op.isShift then .int else w

/-- The opcode for ints; the one for longs is the next. -/
def opcode (w : Width) (op : IntOp) : UInt8 :=
  let forInts : UInt8 := match op with
    | .add => 0x60
    | .sub => 0x64
    | .mul => 0x68
    | .div => 0x6C
    | .rem => 0x70
    | .shl => 0x78
    | .shr => 0x7A
    | .ushr => 0x7C
    | .and => 0x7E
    | .or => 0x80
    | .xor => 0x82
  match w with
  | .int => forInts
  | .long => forInts + 1

theorem second_holds {w : Width} {op : IntOp} {b : Int} (h : (op.second w).Holds b) :
    w.Holds b := by
  unfold second at h
  cases hshift : op.isShift with
  | true =>
    rw [hshift, if_pos rfl] at h
    exact h.of_int w
  | false => rwa [hshift, if_neg Bool.false_ne_true] at h

end IntOp

namespace Frame

variable {f : Frame} {below : Stack} {op : IntOp}

theorem popInt_cons {a : Int32} (h : f.stack = .int a :: below) :
    popInt f = .ok a { f with stack := below } := by
  unfold popInt onStack
  rw [h]
  rfl

theorem popLong_cons {a : Int64} (h : f.stack = .long a :: below) :
    popLong f = .ok a { f with stack := below } := by
  unfold popLong onStack
  rw [h]
  rfl

theorem intBinary_eq {a b : Int32} (h : f.stack = .int b :: .int a :: below) : intBinary op f =
    if op.divides = true ∧ b = 0 then .error .divisionByZero { f with stack := below }
    else push (.int (Int32.ofBitVec (op.word a.toBitVec b.toBitVec)))
      { f with stack := below } := by
  unfold intBinary
  rw [bind_of_ok (popInt_cons h), bind_of_ok (popInt_cons rfl), op.apply32_eq]
  split <;> rfl

theorem longBinary_eq {a b : Int64} {v : Value} (h : f.stack = v :: .long a :: below)
    (hv : if op.isShift = true then ∃ c, v = .int c ∧ c.toInt64 = b else v = .long b) :
    longBinary op f =
      if op.divides = true ∧ b = 0 then .error .divisionByZero { f with stack := below }
      else push (.long (Int64.ofBitVec (op.word a.toBitVec b.toBitVec)))
        { f with stack := below } := by
  unfold longBinary
  cases hshift : op.isShift with
  | true =>
    rw [hshift, if_pos rfl] at hv
    obtain ⟨c, rfl, rfl⟩ := hv
    have hcount : ((·.toInt64) <$> popInt : FrameM Int64) f =
        .ok c.toInt64 { f with stack := .long a :: below } :=
      bind_of_ok (popInt_cons h)
    rw [if_pos rfl]
    refine (bind_of_ok hcount).trans ((bind_of_ok (popLong_cons rfl)).trans ?_)
    rw [op.apply64_eq]
    split <;> rfl
  | false =>
    rw [hshift, if_neg Bool.false_ne_true] at hv
    rw [if_neg Bool.false_ne_true]
    refine (bind_of_ok (popLong_cons (hv ▸ h))).trans ((bind_of_ok (popLong_cons rfl)).trans ?_)
    rw [op.apply64_eq]
    split <;> rfl

end Frame

namespace Width

variable {w : Width} {a b : Int}

def binary : Width → IntOp → Operation
  | .int, op => .intBinary op
  | .long, op => .longBinary op

def negation : Width → Operation
  | .int => .negInt
  | .long => .negLong

def negOpcode : Width → UInt8
  | .int => 0x74
  | .long => 0x75

set_option maxRecDepth 1000 in
theorem decode_binary (w : Width) (op : IntOp) :
    Instruction.decode (op.opcode w) = pure (.operate (w.binary op)) := by
  cases w <;> cases op <;> rfl

theorem decode_negation (w : Width) :
    Instruction.decode w.negOpcode = pure (.operate w.negation) := by
  cases w <;> rfl

def ofWord : (w : Width) → BitVec w.bits → Value
  | .int, x => .int (Int32.ofBitVec x)
  | .long, x => .long (Int64.ofBitVec x)

theorem ofWord_eq (x : BitVec w.bits) : w.ofWord x = w.value x.toInt := by
  have hvalue : w.value x.toInt = w.ofWord (BitVec.ofInt w.bits x.toInt) := by cases w <;> rfl
  rw [hvalue, BitVec.ofInt_toInt]

theorem ofInt_eq_zero (h : w.Holds a) : BitVec.ofInt w.bits a = 0 ↔ a = 0 := by
  constructor
  · intro hzero
    rw [← toInt_ofInt h, hzero]
    exact BitVec.toInt_zero
  · rintro rfl
    cases w <;> rfl

/-- An operation takes its two operands and leaves its result, if it has one. -/
theorem run_binary {f : Frame} {below : Stack} {op : IntOp} (legacy : Bool)
    (hb : (op.second w).Holds b)
    (hstack : f.stack = (op.second w).value b :: w.value a :: below) :
    (w.binary op).run legacy f =
      if op.divides = true ∧ b = 0 then .error .divisionByZero { f with stack := below }
      else Frame.push (w.ofWord (op.word (BitVec.ofInt w.bits a) (BitVec.ofInt w.bits b)))
        { f with stack := below } := by
  have hw := IntOp.second_holds hb
  cases w with
  | int =>
    have hzero : Int32.ofInt b = 0 ↔ b = 0 := Int32.toBitVec_inj.symm.trans (ofInt_eq_zero hw)
    have hsecond : op.second .int = .int := ite_self _
    rw [hsecond] at hstack
    exact (Frame.intBinary_eq hstack).trans (if_congr (and_congr_right' hzero) rfl rfl)
  | long =>
    have hzero : Int64.ofInt b = 0 ↔ b = 0 := Int64.toBitVec_inj.symm.trans (ofInt_eq_zero hw)
    refine (Frame.longBinary_eq hstack ?_).trans (if_congr (and_congr_right' hzero) rfl rfl)
    unfold IntOp.second at hb ⊢
    split
    · next hshift =>
      -- the count is an int and is extended, which keeps it as a number
      rw [if_pos hshift] at hb
      refine ⟨_, rfl, Int64.toInt_inj.mp ?_⟩
      rw [Int32.toInt_toInt64]
      exact (toInt_ofInt hb).trans (toInt_ofInt hw).symm
    · rfl

theorem run_negation {f : Frame} {below : Stack} (legacy : Bool)
    (hstack : f.stack = w.value a :: below) :
    w.negation.run legacy f =
      Frame.push (w.ofWord (-BitVec.ofInt w.bits a)) { f with stack := below } := by
  cases w with
  | int => exact bind_of_ok (Frame.popInt_cons hstack)
  | long => exact bind_of_ok (Frame.popLong_cons hstack)

end Width

/-- Quotient and remainder give back the dividend, the remainder is nearer to zero than the
divisor, and it has the sign of the dividend. -/
theorem IntOp.div_rem {w : Width} {a b q r : Int} (ha : w.Holds a) (hb : b ≠ 0)
    (hq : IntOp.div.Yields w a b q) (hr : IntOp.rem.Yields w a b r) :
    w.wrap (q * b + r) = a ∧ |r| < |b| ∧ (0 ≤ a → 0 ≤ r) ∧ (a ≤ 0 → r ≤ 0) := by
  obtain rfl : q = w.wrap (a.tdiv b) := hq
  obtain rfl : r = a.tmod b := hr
  refine ⟨?_, ?_, Int.tmod_nonneg b, ?_⟩
  · -- for the least number and -1 the quotient itself has been wrapped
    unfold Width.wrap
    rw [← Int.bmod_add_bmod, Int.bmod_mul_bmod, Int.bmod_add_bmod, Int.tdiv_mul_add_tmod]
    exact Width.wrap_eq_self ha
  · rw [Int.abs_eq_natAbs, Int.abs_eq_natAbs, Int.natAbs_tmod]
    exact_mod_cast Nat.mod_lt _ (Int.natAbs_pos.mpr hb)
  · intro hneg
    have h := Int.tmod_nonneg b (Int.neg_nonneg_of_nonpos hneg)
    rw [Int.neg_tmod] at h
    omega

namespace Machine

variable {m : Machine} {f : Frame} {rest : List Frame} {w : Width} {below : Stack}

/-- A step of an operation that pushes a word in place of its operands. -/
theorem step_pushes {op : Operation} {opcode : UInt8} {x : BitVec w.bits}
    (hm : m.frames = f :: rest) (hop : f.method.code[f.pc]? = some opcode)
    (hdec : Instruction.decode opcode = pure (.operate op))
    (hroom : below.length < f.method.maxStack)
    (hrun : ∀ g : Frame, g.stack = f.stack →
      op.run m.settings.legacyBranches g = Frame.push (w.ofWord x) { g with stack := below }) :
    step m = .ok () (m.moved f opcode
      ({ f with opPc := f.pc, pc := f.pc + 1, stack := w.value x.toInt :: below } :: rest)) := by
  have hdec' :
      Instruction.decode opcode f.method.code (f.pc + 1) = .ok (.operate op) (f.pc + 1) := by
    rw [hdec]
    rfl
  rw [step_operate hm hop hdec', hrun { f with opPc := f.pc, pc := f.pc + 1 } rfl,
    Frame.push_room hroom, Width.ofWord_eq]
  rfl

/-- Integer arithmetic. On a stack that is not larger than declared, an instruction takes exactly
its operands and leaves exactly the number that it stands for; only a division by zero is a
fault. -/
theorem integers_computed (m : Machine) (w : Width) (f : Frame) (rest : List Frame)
    (hm : m.frames = f :: rest) (hfits : f.stack.length ≤ f.method.maxStack) :
    (∀ (op : IntOp) a b below, f.method.code[f.pc]? = some (op.opcode w) → w.Holds a →
      (op.second w).Holds b →
      f.stack = (op.second w).value b :: w.value a :: below →
      (op.divides = true ∧ b = 0 → m.Faults .arithmetic) ∧
      (¬ (op.divides = true ∧ b = 0) → ∃ r, w.Holds r ∧ op.Yields w a b r ∧
        step m = .ok () (m.moved f (op.opcode w)
          ({ f with opPc := f.pc, pc := f.pc + 1, stack := w.value r :: below } :: rest)))) ∧
    (∀ a below, f.method.code[f.pc]? = some w.negOpcode → w.Holds a →
      f.stack = w.value a :: below →
      ∃ r, w.Holds r ∧ r = w.wrap (-a) ∧
        step m = .ok () (m.moved f w.negOpcode
          ({ f with opPc := f.pc, pc := f.pc + 1, stack := w.value r :: below } :: rest))) ∧
    ∀ a b q r, w.Holds a → b ≠ 0 → IntOp.div.Yields w a b q → IntOp.rem.Yields w a b r →
      w.wrap (q * b + r) = a ∧ |r| < |b| ∧ (0 ≤ a → 0 ≤ r) ∧ (a ≤ 0 → r ≤ 0) := by
  refine ⟨?_, ?_, fun a b q r ha hne hq hr => IntOp.div_rem ha hne hq hr⟩
  · intro op a b below hop ha hb hstack
    have hw := IntOp.second_holds hb
    have hroom : below.length < f.method.maxStack := by
      simp only [hstack, List.length_cons] at hfits
      omega
    refine ⟨fun hzero => ?_, fun hzero => ?_⟩
    · have hdec : Instruction.decode (op.opcode w) f.method.code (f.pc + 1) =
          .ok (.operate (w.binary op)) (f.pc + 1) := by
        rw [w.decode_binary]
        rfl
      have hrun := Width.run_binary (f := { f with opPc := f.pc, pc := f.pc + 1 })
        m.settings.legacyBranches hb hstack
      rw [if_pos hzero] at hrun
      exact faults_of_concluded ((step_operate hm hop hdec).trans (congrArg _ hrun))
    · refine ⟨_, Width.holds_toInt _, ?_,
          step_pushes hm hop (w.decode_binary op) hroom fun g hg =>
        (Width.run_binary _ hb (hg.trans hstack)).trans (if_neg hzero)⟩
      have hyields := op.word_yields w (BitVec.ofInt w.bits a) (BitVec.ofInt w.bits b)
      rwa [Width.toInt_ofInt ha, Width.toInt_ofInt hw] at hyields
  · intro a below hop ha hstack
    have hroom : below.length < f.method.maxStack := by
      simp only [hstack, List.length_cons] at hfits
      omega
    refine ⟨_, Width.holds_toInt _, ?_, step_pushes hm hop w.decode_negation hroom fun g hg =>
      Width.run_negation _ (hg.trans hstack)⟩
    rw [BitVec.toInt_neg, Width.toInt_ofInt ha]
    rfl

def leastLong : Class where
  name := "T"
  super := []
  pool := #[none]
  fields := []
  methods := [{ owner := "T", name := "main", descriptor := "()V", signature := ⟨[], .void⟩,
                isStatic := true, maxStack := 4,
                code := #[0x0A, 0x02, 0x79, 0x02, 0x85, 0x6D, 0x09, 0x71] }]

def leastLongRun (n : Nat) : Machine := leastLong.after (.byName "main") n

def leastLongFrame (n : Nat) : List (Stack × Option UInt8 × Nat) :=
  (leastLongRun n).frames.map fun f => (f.stack, f.method.code[f.pc]?, f.method.maxStack)

theorem leastLong_at {n : Nat} {stack : Stack} {opcode : UInt8}
    (h : leastLongFrame n = [(stack, some opcode, 4)]) (hsize : stack.length ≤ 4) :
    ∃ f, (leastLongRun n).frames = [f] ∧ f.stack = stack ∧
      f.method.code[f.pc]? = some opcode ∧ f.stack.length ≤ f.method.maxStack := by
  obtain ⟨f, hm, hfacts⟩ := List.map_eq_singleton_iff.mp h
  simp only [Prod.mk.injEq] at hfacts
  obtain ⟨rfl, hop, hmax⟩ := hfacts
  exact ⟨f, hm, rfl, hop, hmax ▸ hsize⟩

/-- A one shifted by -1 places is the least long. Divided by -1 it stays what it is, and its
division by 0 is a fault. -/
theorem integers_computed_leastLong :
    (∃ f, (leastLongRun 2).frames = [f] ∧ f.stack = [.int (-1), .long 1] ∧
      step (leastLongRun 2) = .ok () ((leastLongRun 2).moved f 0x79
        [{ f with opPc := f.pc, pc := f.pc + 1, stack := [.long Int64.minValue] }])) ∧
    (∃ f, (leastLongRun 5).frames = [f] ∧ f.stack = [.long (-1), .long Int64.minValue] ∧
      step (leastLongRun 5) = .ok () ((leastLongRun 5).moved f 0x6D
        [{ f with opPc := f.pc, pc := f.pc + 1, stack := [.long Int64.minValue] }])) ∧
    (leastLongRun 7).Faults .arithmetic := by
  have hshift : leastLongFrame 2 = [([.int (-1), .long 1], some 0x79, 4)] := by decide +kernel
  have hdivide : leastLongFrame 5 = [([.long (-1), .long Int64.minValue], some 0x6D, 4)] := by
    decide +kernel
  have hzero : leastLongFrame 7 = [([.long 0, .long Int64.minValue], some 0x71, 4)] := by
    decide +kernel
  refine ⟨?_, ?_, ?_⟩
  · obtain ⟨f, hm, hstack, hop, hfits⟩ := leastLong_at hshift (by decide)
    obtain ⟨r, -, hr, hstep⟩ :=
      ((integers_computed _ .long f [] hm hfits).1 .shl 1 (-1) [] hop (by decide)
      (by decide) (hstack.trans (by decide))).2 (by decide)
    obtain rfl : r = -0x8000000000000000 := hr.trans (by decide)
    exact ⟨f, hm, hstack, hstep⟩
  · obtain ⟨f, hm, hstack, hop, hfits⟩ := leastLong_at hdivide (by decide)
    obtain ⟨r, -, hr, hstep⟩ :=
      ((integers_computed _ .long f [] hm hfits).1 .div (-0x8000000000000000) (-1) [] hop
      (by decide) (by decide) (hstack.trans (by decide))).2 (by decide)
    obtain rfl : r = -0x8000000000000000 := hr.trans (by decide)
    exact ⟨f, hm, hstack, hstep⟩
  · obtain ⟨f, hm, hstack, hop, hfits⟩ := leastLong_at hzero (by decide)
    exact ((integers_computed _ .long f [] hm hfits).1 .rem (-0x8000000000000000) 0 [] hop
      (by decide) (by decide) (hstack.trans (by decide))).1 (by decide)

end Machine

end ClassTrace
