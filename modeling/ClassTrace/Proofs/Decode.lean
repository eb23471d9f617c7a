import ClassTrace.Instruction.Decode
import ClassTrace.Proofs.Frame

/-!
What decoding can give. It makes no references: the constants that an opcode carries are null or
numbers. Stores into locals, calls, returns, loads of constants and comparisons with zero come
from their own opcodes only, the operand of a call has two bytes, and a table has an offset for
each key in its range. The address stays within the code, also where an operand is cut off.
-/
namespace ClassTrace

def Family.returnOpcode : Family → UInt8
  | .int => 0xAC
  | .long => 0xAD
  | .float => 0xAE
  | .double => 0xAF
  | .reference => 0xB0

def Condition.zeroOpcode : Condition → UInt8
  | .eq => 0x99
  | .ne => 0x9A
  | .lt => 0x9B
  | .ge => 0x9C
  | .gt => 0x9D
  | .le => 0x9E

namespace Instruction

/-- The operation of the instruction, if it is one, can have been decoded. -/
def Literal : Instruction → Prop
  | .operate op => op.Literal
  | _ => True

/-- The opcode can stand for the instruction. -/
def HasOpcode (opcode : UInt8) : Instruction → Prop
  | .operate (.ifZero condition _) => opcode = condition.zeroOpcode
  | .operate op => op.Literal
  | .loadConstant form _ => opcode = form.opcode
  | .store .. => 0x36 ≤ opcode.toNat ∧ opcode.toNat ≤ 0x4E
  | .increment .. => opcode = 0x84
  | .invoke mode _ => opcode = mode.opcode
  | .ret none => opcode = 0xB1
  | .ret (some family) => opcode = family.returnOpcode
  | _ => True

/-- Only operations that can be decoded have an opcode. -/
theorem HasOpcode.literal {opcode : UInt8} {i : Instruction} (h : i.HasOpcode opcode) :
    i.Literal := by
  cases i with
  | operate op =>
    cases op with
    | ifZero condition offset => trivial
    | _ => exact h
  | _ => trivial

end Instruction

namespace Fetch

/-- Every result of the reader satisfies `P`, and an address within the code stays within it. -/
def Yields {α : Type} (P : α → Prop) (x : Fetch α) : Prop :=
  ∀ (code : Array UInt8) pc, Ends (fun pc' => pc ≤ code.size → pc' ≤ code.size) (x code) pc
    fun a pc' => P a ∧ (pc ≤ code.size → pc' ≤ code.size)

abbrev Keeps {α : Type} (x : Fetch α) : Prop := Yields (fun _ => True) x

variable {α β : Type} {Q : α → Prop} {P : β → Prop}

theorem yields_pure {b : β} (h : P b) : Yields P (pure b) := fun _ _ => ⟨h, id⟩

theorem yields_throw {e : Fault} : Yields P (throw e : Fetch β) := fun _ _ => id

theorem yields_bind {x : Fetch α} {g : α → Fetch β} (hx : Yields Q x)
    (hg : ∀ a, Q a → Yields P (g a)) :
    Yields P (x >>= g) := by
  intro code pc
  refine (hx code pc).bind fun a pc' ha => ?_
  exact (hg a ha.1 code pc').mono (fun _ h hpc => h (ha.2 hpc)) fun _ _ h =>
    ⟨h.1, fun hpc => h.2 (ha.2 hpc)⟩

/-- A read whose result does not matter. -/
theorem yields_after {x : Fetch α} {g : α → Fetch β} (hx : Keeps x) (hg : ∀ a, Yields P (g a)) :
    Yields P (x >>= g) :=
  yields_bind hx fun a _ => hg a

theorem yields_ite {c : Prop} [Decidable c] {x y : Fetch β} (hx : c → Yields P x)
    (hy : ¬ c → Yields P y) : Yields P (if c then x else y) := by
  by_cases h : c
  · rw [if_pos h]
    exact hx h
  · rw [if_neg h]
    exact hy h

/-- A check before the rest is read. -/
theorem yields_unless {c : Prop} [Decidable c] {e : Fault} {g : Unit → Fetch β}
    (hg : Yields P (g ())) : Yields P (if c then throw e >>= g else g ()) :=
  yields_ite (fun _ => yields_after yields_throw fun _ => hg) fun _ => hg

theorem keeps_number (n : Nat) (g : Nat → α) : Keeps (do return g (← bytes n)) := by
  refine yields_after (fun code pc => ?_) fun _ => yields_pure trivial
  unfold Ends bytes
  by_cases hsize : pc + n ≤ code.size
  · rw [if_pos hsize]
    exact ⟨trivial, fun _ => hsize⟩
  · rw [if_neg hsize]
    exact id

theorem keeps_u1 : Keeps u1 := keeps_number 1 _

theorem keeps_i1 : Keeps i1 := keeps_number 1 _

theorem keeps_u2 : Keeps u2 := keeps_number 2 _

theorem keeps_i2 : Keeps i2 := keeps_number 2 _

theorem keeps_i4 : Keeps i4 := keeps_number 4 _

theorem keeps_slot : Keeps slot := yields_after keeps_u1 fun _ => yields_pure trivial

theorem keeps_offset : Keeps offset := yields_after keeps_i2 fun _ => yields_pure trivial

theorem keeps_get : Keeps (get : Fetch Nat) := fun _ _ => ⟨trivial, id⟩

theorem keeps_read : Keeps (read : Fetch (Array UInt8)) := fun _ _ => ⟨trivial, id⟩

theorem keeps_padding : Keeps padding := by
  intro code pc
  unfold Ends padding
  dsimp only
  by_cases hsize : (pc + 3) / 4 * 4 ≤ code.size
  · rw [if_pos hsize]
    exact ⟨trivial, fun _ => hsize⟩
  · simp only [if_neg hsize, Nat.le_refl, implies_true]

theorem keeps_pairs (count : Nat) : Keeps (pairs count) := by
  induction count with
  | zero => exact yields_pure trivial
  | succ count ih =>
    unfold pairs
    refine yields_after keeps_get fun pc => yields_after keeps_read fun code =>
      yields_ite (fun _ => ?_) fun _ => ?_
    · refine yields_after keeps_i4 fun key => yields_after keeps_i4 fun target => ?_
      exact yields_after ih fun _ => yields_pure trivial
    · exact yields_pure trivial

theorem mapM_length {x : α → Fetch β} (hx : ∀ a, Keeps (x a)) (as : List α) :
    Yields (fun bs => bs.length = as.length) (as.mapM x) := by
  induction as with
  | nil => exact yields_pure rfl
  | cons a as ih =>
    rw [List.mapM_cons]
    refine yields_after (hx a) fun b => yields_bind ih fun bs hbs => yields_pure ?_
    rw [List.length_cons, List.length_cons, hbs]

end Fetch

namespace Instruction

open Fetch

variable {opcode : UInt8}

theorem decodeConstant_hasOpcode (hn : opcode.toNat ≤ 0x14) :
    Yields (HasOpcode opcode) (decodeConstant opcode.toNat) := by
  unfold decodeConstant
  refine yields_ite (fun _ => yields_pure trivial) fun _ => ?_
  iterate 5 refine yields_ite (fun _ => yields_pure nofun) fun _ => ?_
  refine yields_ite (fun _ => yields_after keeps_i1 fun _ => yields_pure nofun) fun _ => ?_
  refine yields_ite (fun _ => yields_after keeps_i2 fun _ => yields_pure nofun) fun _ => ?_
  refine yields_ite (fun h => yields_after keeps_u1 fun _ => yields_pure (UInt8.toNat_inj.mp h))
    fun _ => ?_
  refine yields_ite (fun h => yields_after keeps_u2 fun _ => yields_pure (UInt8.toNat_inj.mp h))
    fun _ => ?_
  have hwide : opcode.toNat = 0x14 := by omega
  exact yields_after keeps_u2 fun _ => yields_pure (UInt8.toNat_inj.mp hwide)

theorem decodeSlot_hasOpcode {make : Family → Nat → Instruction} (n : Nat)
    (hmake : ∀ family slot, (make family slot).HasOpcode opcode) :
    Yields (HasOpcode opcode) (decodeSlot make n) := by
  unfold decodeSlot
  split
  · exact yields_after keeps_slot fun _ => yields_pure (hmake _ _)
  · exact yields_pure (hmake _ _)

theorem arithmetic_hasOpcode (i : Nat) :
    Yields (HasOpcode opcode) (pure (operate (arithmetic i))) := by
  refine yields_pure ?_
  unfold arithmetic
  dsimp only
  split
  · split <;> trivial
  · split <;> trivial

theorem bitwise_hasOpcode (i : Nat) : Yields (HasOpcode opcode) (pure (operate (bitwise i))) := by
  refine yields_pure ?_
  unfold bitwise
  dsimp only
  split <;> trivial

theorem comparison_hasOpcode (i : Nat) :
    Yields (HasOpcode opcode) (pure (operate (comparison i))) := by
  refine yields_pure ?_
  unfold comparison
  split <;> trivial

theorem decodeTableSwitch_hasOpcode : Yields (HasOpcode opcode) decodeTableSwitch := by
  refine yields_after keeps_padding fun _ => yields_after keeps_i4 fun fallback => ?_
  refine yields_after keeps_i4 fun low => yields_after keeps_i4 fun high => yields_unless ?_
  refine yields_after keeps_read fun code => yields_after keeps_get fun pc => yields_unless ?_
  refine yields_bind (mapM_length (fun _ => keeps_i4) _) fun offsets hlength => yields_pure ?_
  rw [List.length_range] at hlength
  show ∀ key, low ≤ key → key ≤ high → (key.toInt - low.toInt).toNat < offsets.toArray.size
  intro key hlow hhigh
  rw [Int32.le_iff_toInt_le] at hlow hhigh
  rw [List.size_toArray, hlength]
  omega

theorem decodeLookupSwitch_hasOpcode : Yields (HasOpcode opcode) decodeLookupSwitch := by
  refine yields_after keeps_padding fun _ => yields_after keeps_i4 fun fallback => ?_
  refine yields_after keeps_i4 fun count => yields_unless ?_
  exact yields_after (keeps_pairs _) fun _ => yields_pure trivial

theorem eq_returnOpcode (hlow : 0xAC ≤ opcode.toNat) (hhigh : opcode.toNat ≤ 0xB0) :
    opcode = (family (opcode.toNat - 0xAC)).returnOpcode := by
  have hcases : opcode.toNat = 0xAC ∨ opcode.toNat = 0xAD ∨ opcode.toNat = 0xAE ∨
      opcode.toNat = 0xAF ∨ opcode.toNat = 0xB0 := by omega
  apply UInt8.toNat_inj.mp
  rcases hcases with h | h | h | h | h <;> rw [h] <;> rfl

theorem eq_zeroOpcode (hlow : 0x99 ≤ opcode.toNat) (hhigh : opcode.toNat ≤ 0x9E) :
    opcode = (condition (opcode.toNat - 0x99)).zeroOpcode := by
  have hcases : opcode.toNat = 0x99 ∨ opcode.toNat = 0x9A ∨ opcode.toNat = 0x9B ∨
      opcode.toNat = 0x9C ∨ opcode.toNat = 0x9D ∨ opcode.toNat = 0x9E := by omega
  apply UInt8.toNat_inj.mp
  rcases hcases with h | h | h | h | h | h <;> rw [h] <;> rfl

theorem decodeControl_hasOpcode (hlow : 0x99 ≤ opcode.toNat) (hhigh : opcode.toNat ≤ 0xB1) :
    Yields (HasOpcode opcode) (decodeControl opcode.toNat) := by
  unfold decodeControl
  refine yields_ite (fun h => yields_after keeps_offset fun _ =>
    yields_pure (eq_zeroOpcode hlow h)) fun _ => ?_
  iterate 3
    refine yields_ite (fun _ => yields_after keeps_offset fun _ => yields_pure trivial)
      fun _ => ?_
  refine yields_ite (fun _ => yields_throw) fun _ => ?_
  refine yields_ite (fun _ => decodeTableSwitch_hasOpcode) fun _ => ?_
  refine yields_ite (fun _ => decodeLookupSwitch_hasOpcode) fun _ => ?_
  refine yields_ite (fun h => yields_pure (UInt8.toNat_inj.mp h)) fun _ => ?_
  exact yields_pure (eq_returnOpcode (by omega) (by omega))

theorem decodeMember_hasOpcode (opcode : UInt8) :
    Yields (HasOpcode opcode) (decodeMember opcode.toNat) := by
  have hcall : ∀ mode : CallMode, opcode.toNat = mode.opcode.toNat →
      Yields (HasOpcode opcode) (do return .invoke mode (← u2)) :=
    fun _ hmode => yields_after keeps_u2 fun _ => yields_pure (UInt8.toNat_inj.mp hmode)
  unfold decodeMember
  split
  iterate 4 exact yields_after keeps_u2 fun _ => yields_pure trivial
  · exact hcall .virtual ‹_›
  · exact hcall .special ‹_›
  · exact hcall .static ‹_›
  · exact yields_after keeps_u2 fun _ => yields_pure trivial
  · refine yields_after keeps_u1 fun code => yields_unless ?_
    split
    · exact yields_pure trivial
    · exact yields_throw
  · exact yields_after keeps_u2 fun _ => yields_pure trivial
  · exact yields_pure trivial
  iterate 2 exact yields_after keeps_offset fun _ => yields_pure trivial
  · exact yields_after keeps_i4 fun _ => yields_pure trivial
  · split
    · exact yields_throw
    · exact yields_after keeps_get fun _ => yields_throw

/-- Every decoded instruction has the opcode that it was decoded from. -/
theorem decode_yields (opcode : UInt8) : Yields (HasOpcode opcode) (decode opcode) := by
  unfold decode
  dsimp only
  refine yields_ite (fun h => decodeConstant_hasOpcode h) fun _ => ?_
  refine yields_ite (fun _ => decodeSlot_hasOpcode _ fun _ _ => trivial) fun _ => ?_
  refine yields_ite (fun _ => yields_pure trivial) fun _ => ?_
  refine yields_ite (fun h => decodeSlot_hasOpcode _ fun _ _ => ⟨by omega, h⟩) fun _ => ?_
  refine yields_ite (fun _ => yields_pure trivial) fun _ => ?_
  refine yields_ite (fun _ => yields_pure trivial) fun _ => ?_
  refine yields_ite (fun _ => arithmetic_hasOpcode _) fun _ => ?_
  refine yields_ite (fun _ => bitwise_hasOpcode _) fun _ => ?_
  refine yields_ite (fun h => ?_) fun _ => ?_
  · exact yields_after keeps_slot fun _ => yields_after keeps_i1 fun _ =>
      yields_pure (UInt8.toNat_inj.mp h)
  refine yields_ite (fun _ => yields_pure trivial) fun _ => ?_
  refine yields_ite (fun _ => comparison_hasOpcode _) fun _ => ?_
  refine yields_ite (fun h => decodeControl_hasOpcode (by omega) h) fun _ =>
    decodeMember_hasOpcode opcode

/-- What is decoded has the opcode that it was decoded from, and the address stays in the code. -/
theorem decode_hasOpcode (opcode : UInt8) (code : Array UInt8) (pc : Nat) (hpc : pc ≤ code.size) :
    Ends (· ≤ code.size) (decode opcode code) pc fun i pc' => i.HasOpcode opcode ∧
    pc' ≤ code.size :=
  (decode_yields opcode code pc).mono (fun _ h => h hpc) fun _ _ h => ⟨h.1, h.2 hpc⟩

/-- A call has an operand of two bytes. -/
theorem decode_invoke {code : Array UInt8} {pc next : Nat} {mode : CallMode} {index : UInt16}
    (hpc : pc ≤ code.size) (h : decode opcode code pc = .ok (.invoke mode index) next) :
    opcode = mode.opcode ∧ next = pc + 2 := by
  have hop : opcode = mode.opcode := ((decode_hasOpcode opcode code pc hpc).of_ok h).1
  refine ⟨hop, ?_⟩
  have hread : decode opcode code pc = if pc + 2 ≤ code.size then
      .ok (.invoke mode (Bytes.toNat (code.extract pc (pc + 2)).toList).toUInt16) (pc + 2)
      else .error (.cutOperand pc) pc := by
    subst hop
    have hmode : decode mode.opcode = (do return .invoke mode (← u2)) := by
      cases mode <;> rfl
    rw [hmode]
    change EStateM.bind (EStateM.bind (bytes 2 code) _) _ pc = _
    unfold bytes
    by_cases hsize : pc + 2 ≤ code.size
    · simp only [EStateM.bind, if_pos hsize]
      rfl
    · simp only [EStateM.bind, if_neg hsize]
  rw [hread] at h
  split at h
  · cases h
    rfl
  · cases h

end Instruction

end ClassTrace
