import Mathlib.Data.Nat.Notation

/-!
# Single bits of a byte

The mask of bit `k` is `1 <<< k`. Or-ing it in sets bit `k` and no other, and-ing its complement
clears bit `k` and no other, and and-ing it tests the bit.
-/

namespace ByteBits

theorem toBitVec_mask {k : ℕ} (hk : k < 8) :
    (1 <<< UInt8.ofNat k : UInt8).toBitVec = BitVec.twoPow 8 k := by
  have hmod : k % 256 % 8 = k := by omega
  simp [BitVec.twoPow, hmod, UInt8.ofNat]

theorem and_mask_ne_zero (v : UInt8) {k : ℕ} (hk : k < 8) :
    (v &&& 1 <<< UInt8.ofNat k != 0) = v.toBitVec.getLsbD k := by
  have hbits : (v &&& 1 <<< UInt8.ofNat k != 0) = (v.toBitVec &&& BitVec.twoPow 8 k != 0) := by
    rw [← toBitVec_mask hk, ← UInt8.toBitVec_and]
    simp [bne, BEq.beq, ← UInt8.toBitVec_inj]
  have hpos : BitVec.twoPow 8 k ≠ 0#8 := by
    intro h
    have hnat := congrArg BitVec.toNat h
    rw [BitVec.toNat_twoPow_of_lt hk, BitVec.toNat_ofNat] at hnat
    exact absurd hnat (Nat.ne_of_gt (Nat.two_pow_pos k))
  rw [hbits, BitVec.and_twoPow]
  cases v.toBitVec.getLsbD k <;> simp [hpos]

theorem or_mask_getLsbD (v : UInt8) {j k : ℕ} (hk : k < 8) :
    (v ||| 1 <<< UInt8.ofNat k).toBitVec.getLsbD j = (v.toBitVec.getLsbD j || decide (k = j)) := by
  rw [UInt8.toBitVec_or, toBitVec_mask hk, BitVec.getLsbD_or, BitVec.getLsbD_twoPow]
  simp [hk]

theorem and_not_mask_getLsbD (v : UInt8) {j k : ℕ} (hj : j < 8) (hk : k < 8) :
    (v &&& ~~~(1 <<< UInt8.ofNat k)).toBitVec.getLsbD j =
      (v.toBitVec.getLsbD j && !decide (k = j)) := by
  rw [UInt8.toBitVec_and, UInt8.toBitVec_not, toBitVec_mask hk, BitVec.getLsbD_and,
    BitVec.getLsbD_not, BitVec.getLsbD_twoPow]
  simp [hj, hk]

theorem and_seven (v : UInt8) : v &&& 7 = UInt8.ofNat (v.toNat % 8) := by
  rw [← UInt8.toNat_inj, UInt8.toNat_and, UInt8.toNat_ofNat']
  have hmod : v.toNat &&& 7 = v.toNat % 8 := Nat.and_two_pow_sub_one_eq_mod v.toNat 3
  simp only [UInt8.reduceToNat, hmod]
  omega

end ByteBits
