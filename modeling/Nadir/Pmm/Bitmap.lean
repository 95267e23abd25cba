import Nadir.Pmm.Basic
import Nadir.Lib.Bits
import Mathlib.Data.Finset.Card

/-!
# The byte-packed bitmap as a set of frames

`clearBits b` is the set of frames whose bit is clear. Setting a bit removes its own frame from
this set and clearing one adds it; neither touches the seven frames that share its byte.
-/

namespace Nadir

open ByteBits

theorem testBit_eq_getLsbD (b : Bitmap) (frame : ℕ) :
    testBit b frame = b[frame / 8]!.toBitVec.getLsbD (frame % 8) :=
  and_mask_ne_zero _ (Nat.mod_lt _ (by omega))

theorem getElem!_setIfInBounds (b : Bitmap) (i j : ℕ) (v : UInt8) (hi : i < pmmMaxFrames / 8) :
    (b.setIfInBounds i v)[j]! = if i = j then v else b[j]! := by
  rcases eq_or_ne i j with rfl | hne
  · simp [hi]
  · by_cases hj : j < pmmMaxFrames / 8
    · simp [hne, hj]
    · simp [hne, hj]

theorem frame_eq_iff (f g : ℕ) : f = g ↔ f / 8 = g / 8 ∧ f % 8 = g % 8 := by omega

theorem byte_lt {frame : ℕ} (h : frame < pmmMaxFrames) : frame / 8 < pmmMaxFrames / 8 := by
  unfold pmmMaxFrames at *
  omega

theorem testBit_setBit (b : Bitmap) {frame : ℕ} (h : frame < pmmMaxFrames) (g : ℕ) :
    testBit (setBit b frame) g = (decide (frame = g) || testBit b g) := by
  rw [testBit_eq_getLsbD, testBit_eq_getLsbD, setBit, getElem!_setIfInBounds _ _ _ _ (byte_lt h)]
  by_cases hbyte : frame / 8 = g / 8
  · rw [if_pos hbyte, or_mask_getLsbD _ (Nat.mod_lt _ (by omega)), hbyte, Bool.or_comm]
    simp [frame_eq_iff frame g, hbyte]
  · rw [if_neg hbyte]
    simp [frame_eq_iff frame g, hbyte]

theorem testBit_clearBit (b : Bitmap) {frame : ℕ} (h : frame < pmmMaxFrames) (g : ℕ) :
    testBit (clearBit b frame) g = (!decide (frame = g) && testBit b g) := by
  rw [testBit_eq_getLsbD, testBit_eq_getLsbD, clearBit,
    getElem!_setIfInBounds _ _ _ _ (byte_lt h)]
  by_cases hbyte : frame / 8 = g / 8
  · rw [if_pos hbyte, and_not_mask_getLsbD _ (Nat.mod_lt _ (by omega)) (Nat.mod_lt _ (by omega)),
      hbyte, Bool.and_comm]
    simp [frame_eq_iff frame g, hbyte]
  · rw [if_neg hbyte]
    simp [frame_eq_iff frame g, hbyte]

theorem bitmap_ext {b c : Bitmap}
    (h : ∀ frame < pmmMaxFrames, testBit b frame = testBit c frame) : b = c := by
  apply Vector.ext
  intro i hi
  rw [← UInt8.toBitVec_inj]
  apply BitVec.eq_of_getLsbD_eq
  intro k hk
  have hlt : 8 * i + k < pmmMaxFrames := by
    unfold pmmMaxFrames at *
    omega
  have hdiv : (8 * i + k) / 8 = i := by omega
  have hmod : (8 * i + k) % 8 = k := by omega
  have hbit := h (8 * i + k) hlt
  rw [testBit_eq_getLsbD, testBit_eq_getLsbD, hdiv, hmod, getElem!_pos b i hi,
    getElem!_pos c i hi] at hbit
  exact hbit

def clearBits (b : Bitmap) : Finset ℕ :=
  (Finset.range pmmMaxFrames).filter (fun frame => testBit b frame = false)

theorem mem_clearBits (b : Bitmap) (frame : ℕ) :
    frame ∈ clearBits b ↔ frame < pmmMaxFrames ∧ testBit b frame = false := by
  simp [clearBits]

theorem lt_of_mem_clearBits {b : Bitmap} {frame : ℕ} (h : frame ∈ clearBits b) :
    frame < pmmMaxFrames := ((mem_clearBits b frame).mp h).1

theorem clearBits_setBit (b : Bitmap) {frame : ℕ} (h : frame < pmmMaxFrames) :
    clearBits (setBit b frame) = (clearBits b).erase frame := by
  ext g
  simp only [mem_clearBits, Finset.mem_erase, testBit_setBit b h, Bool.or_eq_false_iff,
    decide_eq_false_iff_not]
  tauto

theorem clearBits_clearBit (b : Bitmap) {frame : ℕ} (h : frame < pmmMaxFrames) :
    clearBits (clearBit b frame) = insert frame (clearBits b) := by
  ext g
  simp only [mem_clearBits, Finset.mem_insert, testBit_clearBit b h, Bool.and_eq_false_iff,
    Bool.not_eq_false', decide_eq_true_eq]
  constructor
  · rintro ⟨hg, rfl | hclear⟩
    · exact Or.inl rfl
    · exact Or.inr ⟨hg, hclear⟩
  · rintro (rfl | ⟨hg, hclear⟩)
    · exact ⟨h, Or.inl rfl⟩
    · exact ⟨hg, Or.inr hclear⟩

theorem card_clearBits_le (b : Bitmap) : (clearBits b).card ≤ pmmMaxFrames :=
  (Finset.card_filter_le _ _).trans_eq (Finset.card_range _)

@[simp] theorem clearBits_replicate :
    clearBits (Vector.replicate (pmmMaxFrames / 8) 0xFF) = ∅ := by
  ext frame
  simp only [mem_clearBits, Finset.notMem_empty, iff_false, not_and, Bool.not_eq_false]
  intro h
  have hbyte : (Vector.replicate (pmmMaxFrames / 8) (0xFF : UInt8))[frame / 8]! = 0xFF := by
    rw [getElem!_pos (Vector.replicate (pmmMaxFrames / 8) (0xFF : UInt8)) (frame / 8) (byte_lt h),
      Vector.getElem_replicate]
  have hones : ∀ k < 8, (0xFF : UInt8).toBitVec.getLsbD k = true := by decide
  rw [testBit_eq_getLsbD, hbyte]
  exact hones _ (Nat.mod_lt _ (by omega))

end Nadir
