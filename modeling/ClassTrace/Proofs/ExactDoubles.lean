import Mathlib
import ClassTrace.Number.Decimal

/-!
Doubles that are whole numbers. An integer of at most 53 bits is the value of a double, and
reading its decimal digits gives that double.
-/
namespace ClassTrace.Binary

/-- The bits of a double are kept unless they are those of a number that is none. -/
theorem toBits_ofBits {b : UInt64} (h : b.toNat / 2 ^ 52 % 2 ^ 11 ≠ 2047) :
    (Float.ofBits b).toBits = b := by
  have hvalid : Float.Model.Format.binary64.Valid b.toBitVec := by
    refine ⟨fun hexponent => absurd ?_ h⟩
    have htoNat := congrArg BitVec.toNat hexponent
    simp only [Float.Model.UnpackedFloat.unpackExponent, BitVec.toNat_cast,
      BitVec.extractLsb_toNat, Nat.shiftRight_eq_div_pow] at htoNat
    exact htoNat
  -- That packing undoes unpacking is in no part of the library that can be imported alone.
  exact congrArg UInt64.ofBitVec
    (Float.Model.UnpackedFloat.pack_unpack_of_valid hvalid (by decide))

def ofInt (n : Int) : Float := toDouble ⟨n < 0, n.natAbs, 0⟩

theorem log2_mul_two_pow {m : Nat} (hm : m ≠ 0) (k : Nat) : (m * 2 ^ k).log2 = m.log2 + k := by
  have hpos : 0 < 2 ^ k := Nat.two_pow_pos k
  obtain ⟨hlow, hhigh⟩ := (Nat.log2_eq_iff hm).mp rfl
  refine (Nat.log2_eq_iff (Nat.mul_ne_zero hm (Nat.ne_of_gt hpos))).mpr ⟨?_, ?_⟩
  · rw [Nat.pow_add]
    exact Nat.mul_le_mul_right _ hlow
  · rw [Nat.add_right_comm, Nat.pow_add]
    exact Nat.mul_lt_mul_of_pos_right hhigh hpos

section Significand

variable {m : Nat} (hm : m ≠ 0) (hmax : m < 2 ^ 53)

include hm hmax

theorem log2_le : m.log2 ≤ 52 := by
  have hlt := (Nat.log2_lt hm).mpr hmax
  omega

/-- The significand of a whole number: its digits moved up to 53 bits. -/
theorem significand_bounds : 2 ^ 52 ≤ m * 2 ^ (52 - m.log2) ∧ m * 2 ^ (52 - m.log2) < 2 ^ 53 := by
  have hlog := log2_mul_two_pow hm (52 - m.log2)
  have hle := log2_le hm hmax
  rw [Nat.add_sub_cancel' hle] at hlog
  exact (Nat.log2_eq_iff (Nat.mul_ne_zero hm (Nat.ne_of_gt (Nat.two_pow_pos _)))).mp hlog

/-- The bits of a whole number: its exponent, and its digits behind the leading one. -/
theorem toDouble_whole (negative : Bool) : toDouble ⟨negative, m, 0⟩ =
    Float.ofBits ((if negative then 0x8000000000000000 else 0) +
      ((m.log2 + 1022) * 2 ^ 52 + m * 2 ^ (52 - m.log2))).toUInt64 := by
  have hle := log2_le hm hmax
  have htop : ¬ (0 + (m.log2 : Int) < -1022) := by omega
  have hexponent : (0 + (m.log2 : Int) + 1022).toNat = m.log2 + 1022 := by omega
  unfold toDouble
  simp only [if_neg hm, if_pos hle, if_neg htop, hexponent]
  rfl

theorem log2_significand : (m * 2 ^ (52 - m.log2)).log2 = 52 := by
  rw [log2_mul_two_pow hm, Nat.add_sub_cancel' (log2_le hm hmax)]

/-- Moving the digits up does not change the double. -/
theorem toDouble_significand (negative : Bool) :
    toDouble ⟨negative, m * 2 ^ (52 - m.log2), m.log2 - 52⟩ = toDouble ⟨negative, m, 0⟩ := by
  have hlog := log2_significand hm hmax
  have hsig : m * 2 ^ (52 - m.log2) ≠ 0 := Nat.mul_ne_zero hm (Nat.ne_of_gt (Nat.two_pow_pos _))
  have htop : ¬ ((m.log2 : Int) - 52 + (52 : Nat) < -1022) := by omega
  have hexponent : ((m.log2 : Int) - 52 + (52 : Nat) + 1022).toNat = m.log2 + 1022 := by omega
  rw [toDouble_whole hm hmax]
  unfold toDouble
  simp only [if_neg hsig, hlog, if_neg htop, hexponent, Nat.le_refl, if_pos, Nat.sub_self,
    Nat.pow_eq, Nat.pow_zero, Nat.mul_one]
  rfl

/-- The double nearest to a whole number is the number. -/
theorem nearest?_whole (negative : Bool) :
    nearest? ⟨negative, m, 0⟩ = some (toDouble ⟨negative, m, 0⟩) := by
  have hle := log2_le hm hmax
  have hunit : max (0 + (m.log2 : Int) - 52) (-1074) = m.log2 - 52 := by omega
  have hlow : (m.log2 : Int) - 52 ≤ 0 := by omega
  have hshift : (0 - ((m.log2 : Int) - 52)).toNat = 52 - m.log2 := by omega
  have hrange : ¬ (1024 ≤ (m.log2 : Int) - 52 + (52 : Nat)) := by omega
  unfold nearest?
  simp only [if_neg hm, hunit, if_pos hlow, hshift, Nat.pow_eq, log2_significand hm hmax,
    if_neg hrange, toDouble_significand hm hmax]

end Significand

/-- A double is read from its sign, its exponent and its fraction. -/
theorem readDouble_ofBits {negative : Bool} {e f : Nat} (hpos : 0 < e) (he : e < 2047)
    (hf : f < 2 ^ 52) :
    readDouble
      (Float.ofBits ((if negative then 0x8000000000000000 else 0) + (e * 2 ^ 52 + f)).toUInt64) =
      .finite ⟨negative, 2 ^ 52 + f, e - 1075⟩ := by
  have hsign : (if negative then 0x8000000000000000 else 0 : Nat) = negative.toNat * 2 ^ 63 := by
    cases negative <;> rfl
  have hbit : negative.toNat ≤ 1 := Bool.toNat_le negative
  have hnegative : decide (negative.toNat = 1) = negative := by cases negative <;> rfl
  have hleast : double.least = -1074 := rfl
  have htoNat : (negative.toNat * 2 ^ 63 + (e * 2 ^ 52 + f)).toUInt64.toNat =
      negative.toNat * 2 ^ 63 + (e * 2 ^ 52 + f) := by
    refine UInt64.toNat_ofNat_of_lt' ?_
    rw [UInt64.size]
    omega
  have hfraction : (negative.toNat * 2 ^ 63 + (e * 2 ^ 52 + f)) % 2 ^ 52 = f := by omega
  have hexponent : (negative.toNat * 2 ^ 63 + (e * 2 ^ 52 + f)) / 2 ^ 52 % 2 ^ 11 = e := by omega
  have htop :
    (negative.toNat * 2 ^ 63 + (e * 2 ^ 52 + f)) / 2 ^ 63 % 2 = negative.toNat := by omega
  rw [hsign]
  unfold readDouble read
  rw [toBits_ofBits (by rw [htoNat, hexponent]; omega), htoNat, hleast]
  simp only [double, Layout.maxExponent, Nat.pow_eq, Nat.reduceAdd, hfraction, hexponent, htop,
    hnegative]
  rw [if_neg (by omega), if_neg (by omega)]
  congr 2
  omega

theorem Scaled.isWhole_shifted (negative : Bool) (m k : Nat) :
    isWhole ⟨negative, m * 2 ^ k, -(k : Int)⟩ = true := by
  have hshift : (- -(k : Int)).toNat = k := by omega
  simp only [isWhole, hshift, Nat.pow_eq, Nat.mul_mod_left, beq_self_eq_true, Bool.or_true]

theorem Scaled.truncate_shifted (negative : Bool) (m k : Nat) :
    truncate ⟨negative, m * 2 ^ k, -(k : Int)⟩ = if negative then -(m : Int) else m := by
  have hshift : (- -(k : Int)).toNat = k := by omega
  have hsize :
      (if 0 ≤ -(k : Int) then m * 2 ^ k * 2 ^ (-(k : Int)).toNat else m * 2 ^ k / 2 ^ k) = m := by
    split
    next hk =>
      have hzero : k = 0 := by omega
      simp [hzero]
    next => exact Nat.mul_div_cancel _ (Nat.two_pow_pos k)
  simp only [truncate, hshift, Nat.pow_eq, hsize]

theorem readDouble_zero : readDouble (ofInt 0) = .finite ⟨false, 0, -1074⟩ := by
  have hkept : (ofInt 0).toBits = 0 := toBits_ofBits (b := 0) (by decide)
  rw [readDouble, hkept]
  rfl

/-- The value of the double is the integer. -/
theorem readDouble_ofInt {n : Int} (h : n.natAbs < 2 ^ 53) :
    ∃ s, readDouble (ofInt n) = .finite s ∧ s.isWhole = true ∧ s.truncate = n := by
  -- Either way the mantissa is the size of the integer moved up by some bits.
  suffices hscaled :
      ∃ k : Nat, readDouble (ofInt n) = .finite ⟨n < 0, n.natAbs * 2 ^ k, -(k : Int)⟩ by
    obtain ⟨k, hread⟩ := hscaled
    refine ⟨_, hread, Scaled.isWhole_shifted .., ?_⟩
    rw [Scaled.truncate_shifted]
    by_cases hn : n < 0 <;> simp only [hn, decide_true, decide_false, if_true, Bool.false_eq_true,
      if_false] <;>
      omega
  by_cases hzero : n = 0
  · subst hzero
    refine ⟨1074, ?_⟩
    rw [readDouble_zero, Int.natAbs_zero, Nat.zero_mul]
    rfl
  · have hm : n.natAbs ≠ 0 := by omega
    obtain ⟨hlow, hhigh⟩ := significand_bounds hm h
    have hle := log2_le hm h
    have hsplit : (n.natAbs.log2 + 1022) * 2 ^ 52 + n.natAbs * 2 ^ (52 - n.natAbs.log2) =
        (n.natAbs.log2 + 1023) * 2 ^ 52 + (n.natAbs * 2 ^ (52 - n.natAbs.log2) - 2 ^ 52) := by
      omega
    have hpower : ((n.natAbs.log2 + 1023 : Nat) : Int) - 1075 =
        -((52 - n.natAbs.log2 : Nat) : Int) := by
      omega
    refine ⟨52 - n.natAbs.log2, ?_⟩
    rw [ofInt, toDouble_whole hm h, hsplit,
      readDouble_ofBits (by omega) (by omega) (by omega), hpower, Nat.add_sub_cancel' hlow]

/-- The double nearest to the number that whole digits give is the number. -/
theorem ofDecimal?_whole (negative : Bool) {m : Nat} (h : m < 2 ^ 53) :
    ofDecimal? negative m 0 = some (toDouble ⟨negative, m, 0⟩) := by
  have hlength : (Nat.toDigits 10 m).length ≤ 16 :=
    (Nat.length_toDigits_le_iff (by omega) (by omega)).mpr (by omega)
  have hlarge : ¬ (310 < (0 : Int) + (Nat.toDigits 10 m).length) := by omega
  by_cases hm : m = 0
  · subst hm
    rfl
  · have hsmall : ¬ (m = 0 ∨ (0 : Int) + (Nat.toDigits 10 m).length < -330) := by omega
    have hpow : m * Nat.pow 10 (0 : Int).toNat = m := Nat.mul_one m
    unfold ofDecimal?
    simp only [if_neg hsmall, if_neg hlarge, Int.le_refl, if_true, hpow, nearest?_whole hm h]

end ClassTrace.Binary
