import Nadir.Pmm.FreeSet
import Mathlib.Order.Bounds.Basic

/-!
# Allocating and freeing one frame

`pmmAllocFrame` takes the least free frame out of the free set; `pmmFreeFrame` puts the frame of a
frame-aligned address below 1 GB into it and ignores every other address. Both keep the free
counter equal to the size of the free set.
-/

namespace Nadir

open CountedLoop

/-- The free counter is the number of clear bits. -/
def CounterExact (s : Pmm) : Prop := s.gFree.toNat = (freeFrames s).card

theorem card_freeFrames_le (s : Pmm) : (freeFrames s).card ≤ pmmMaxFrames :=
  card_clearBits_le s.bitmap

theorem lt_of_mem_freeFrames {s : Pmm} {frame : ℕ} (h : frame ∈ freeFrames s) :
    frame < pmmMaxFrames := lt_of_mem_clearBits h

theorem testBit_eq_false_iff {s : Pmm} {frame : ℕ} (h : frame < pmmMaxFrames) :
    testBit s.bitmap frame = false ↔ frame ∈ freeFrames s := by
  rw [freeFrames, mem_clearBits]
  exact (and_iff_right h).symm

/-- A decrement guarded by a clear bit never meets a zero counter. -/
theorem CounterExact.pos {s : Pmm} (hs : CounterExact s) {frame : ℕ}
    (h : frame ∈ freeFrames s) : 0 < s.gFree.toNat := by
  rw [hs]
  exact Finset.card_pos.mpr ⟨frame, h⟩

theorem CounterExact.sub_one {s : Pmm} (hs : CounterExact s) {frame : ℕ}
    (h : frame ∈ freeFrames s) : (s.gFree - 1).toNat = ((freeFrames s).erase frame).card := by
  have hpos := hs.pos h
  rw [UInt64.toNat_sub_of_le _ _ (by rw [UInt64.le_iff_toNat_le]; exact hpos),
    Finset.card_erase_of_mem h, hs, UInt64.toNat_one]

theorem CounterExact.add_one {s : Pmm} (hs : CounterExact s) {frame : ℕ}
    (h : frame ∉ freeFrames s) : (s.gFree + 1).toNat = (insert frame (freeFrames s)).card := by
  have hle := card_freeFrames_le s
  unfold pmmMaxFrames at hle
  rw [UInt64.toNat_add, Finset.card_insert_of_notMem h, hs, UInt64.toNat_one]
  omega

theorem CounterExact.reserve {s : Pmm} (hs : CounterExact s) {frame : ℕ}
    (h : frame < pmmMaxFrames) : CounterExact (reserveFrame frame s) := by
  by_cases hbit : testBit s.bitmap frame = false
  · rw [CounterExact, freeFrames_reserveFrame h, reserveFrame, if_pos hbit]
    exact hs.sub_one ((testBit_eq_false_iff h).mp hbit)
  · rwa [reserveFrame, if_neg hbit]

theorem CounterExact.release {s : Pmm} (hs : CounterExact s) {frame : ℕ}
    (h : frame < pmmMaxFrames) : CounterExact (usableFrame frame s) := by
  by_cases hbit : testBit s.bitmap frame ≠ false
  · rw [CounterExact, freeFrames_usableFrame h, usableFrame, if_pos hbit]
    exact hs.add_one (fun hmem => hbit ((testBit_eq_false_iff h).mpr hmem))
  · rwa [usableFrame, if_neg hbit]

def frameAddr (frame : ℕ) : UInt64 := UInt64.ofNat frame * pmmFrameSize

theorem frameAddr_toNat {frame : ℕ} (h : frame < pmmMaxFrames) :
    (frameAddr frame).toNat = 4096 * frame := by
  unfold pmmMaxFrames at h
  simp only [frameAddr, pmmFrameSize, UInt64.toNat_mul, UInt64.toNat_ofNat']
  simp only [UInt64.reduceToNat]
  omega

theorem frameAddr_div {frame : ℕ} (h : frame < pmmMaxFrames) :
    (frameAddr frame).toNat / 4096 = frame := by
  rw [frameAddr_toNat h]
  exact Nat.mul_div_cancel_left frame (Nat.succ_pos 4095)

theorem frameAddr_inj {f g : ℕ} (hf : f < pmmMaxFrames) (hg : g < pmmMaxFrames) :
    frameAddr f = frameAddr g ↔ f = g := by
  rw [← UInt64.toNat_inj, frameAddr_toNat hf, frameAddr_toNat hg]
  omega

theorem frameAddr_ne_zero {frame : ℕ} (h : frame < pmmMaxFrames) (h0 : frame ≠ 0) :
    frameAddr frame ≠ 0 := by
  intro hzero
  have hnat := frameAddr_toNat h
  rw [hzero, UInt64.toNat_zero] at hnat
  omega

/-- Scanning finds the least free frame, or there is none and nothing changes. -/
theorem pmmAllocFrame_spec (s : Pmm) :
    (freeFrames s = ∅ ∧ pmmAllocFrame s = (s, 0)) ∨
    ∃ frame, IsLeast (freeFrames s : Set ℕ) frame ∧
      pmmAllocFrame s =
        ({ s with bitmap := setBit s.bitmap frame, gFree := s.gFree - 1 }, frameAddr frame) := by
  unfold pmmAllocFrame
  cases hfind :
      (List.range' 0 pmmMaxFrames).find? (fun frame => testBit s.bitmap frame = false) with
  | none =>
    left
    refine ⟨Finset.eq_empty_of_forall_notMem (fun frame hmem => ?_), rfl⟩
    have hused := List.find?_range'_eq_none.mp hfind frame (Nat.zero_le _)
      (by simpa using lt_of_mem_freeFrames hmem)
    have hclear := (testBit_eq_false_iff (lt_of_mem_freeFrames hmem)).mpr hmem
    simp [hclear] at hused
  | some frame =>
    right
    obtain ⟨hclear, hrange, hbefore⟩ := List.find?_range'_eq_some.mp hfind
    have hlt : frame < pmmMaxFrames := by simpa using (List.mem_range'_1.mp hrange).2
    have hfree : frame ∈ freeFrames s := (testBit_eq_false_iff hlt).mp (by simpa using hclear)
    refine ⟨frame, ⟨Finset.mem_coe.mpr hfree, fun f hf => ?_⟩, rfl⟩
    rw [Finset.mem_coe] at hf
    by_contra! hlow
    have hused := hbefore f (Nat.zero_le _) hlow
    have hf' := (testBit_eq_false_iff (lt_of_mem_freeFrames hf)).mpr hf
    simp [hf'] at hused

theorem freeFrames_setBit {s : Pmm} {frame : ℕ} (h : frame ∈ freeFrames s) (gFree : UInt64) :
    freeFrames { s with bitmap := setBit s.bitmap frame, gFree := gFree } =
      (freeFrames s).erase frame := clearBits_setBit s.bitmap (lt_of_mem_freeFrames h)

theorem CounterExact.alloc {s : Pmm} (hs : CounterExact s) :
    CounterExact (pmmAllocFrame s).1 := by
  obtain ⟨_, heq⟩ | ⟨frame, hleast, heq⟩ := pmmAllocFrame_spec s
  · simpa only [heq] using hs
  · have hfree : frame ∈ freeFrames s := Finset.mem_coe.mp hleast.1
    have hframes := freeFrames_setBit hfree (s.gFree - 1)
    rw [heq]
    exact (hs.sub_one hfree).trans (congrArg Finset.card hframes).symm

/-- The addresses `pmm_free_frame` does not reject: aligned and below the window's end. -/
def IsFrameAddr (addr : UInt64) : Prop := addr.toNat % 4096 = 0 ∧ addr.toNat < 0x40000000

theorem pmmFreeFrame_of_not {addr : UInt64} (h : ¬ IsFrameAddr addr) (s : Pmm) :
    pmmFreeFrame addr s = s := by
  unfold pmmFreeFrame
  split_ifs with halign hwindow
  · rfl
  · rfl
  · apply absurd _ h
    constructor
    · rw [ne_eq, not_not, ← UInt64.toNat_inj] at halign
      simpa [pmmFrameSize] using halign
    · simpa [UInt64.le_iff_toNat_le, pmmMaxBytes] using hwindow

theorem pmmFreeFrame_frameAddr {frame : ℕ} (h : frame < pmmMaxFrames) (s : Pmm) :
    pmmFreeFrame (frameAddr frame) s =
      if testBit s.bitmap frame ≠ false then
        { s with bitmap := clearBit s.bitmap frame, gFree := s.gFree + 1 }
      else s := by
  have haddr := frameAddr_toNat h
  have halign : frameAddr frame % pmmFrameSize = 0 := by
    rw [← UInt64.toNat_inj, UInt64.toNat_mod, haddr]
    simp [pmmFrameSize]
  have hwindow : ¬ frameAddr frame ≥ pmmMaxBytes := by
    unfold pmmMaxFrames at h
    simp [UInt64.le_iff_toNat_le, pmmMaxBytes, haddr]
    omega
  have hframe : (frameAddr frame / pmmFrameSize).toNat = frame := by
    rw [UInt64.toNat_div, haddr]
    simp [pmmFrameSize]
  simp only [pmmFreeFrame, halign, hwindow, hframe, ne_eq, not_true_eq_false, if_false]

theorem IsFrameAddr.exists_frame {addr : UInt64} (h : IsFrameAddr addr) :
    ∃ frame < pmmMaxFrames, addr = frameAddr frame := by
  obtain ⟨halign, hwindow⟩ := h
  have hlt : addr.toNat / 4096 < pmmMaxFrames := by
    unfold pmmMaxFrames
    omega
  refine ⟨addr.toNat / 4096, hlt, ?_⟩
  rw [← UInt64.toNat_inj, frameAddr_toNat hlt]
  omega

theorem freeFrames_pmmFreeFrame {frame : ℕ} (h : frame < pmmMaxFrames) (s : Pmm) :
    freeFrames (pmmFreeFrame (frameAddr frame) s) = insert frame (freeFrames s) := by
  rw [pmmFreeFrame_frameAddr h]
  by_cases hbit : testBit s.bitmap frame ≠ false
  · rw [if_pos hbit]
    exact clearBits_clearBit s.bitmap h
  · rw [if_neg hbit, Finset.insert_eq_of_mem]
    exact (testBit_eq_false_iff h).mp (not_not.mp hbit)

theorem CounterExact.free {s : Pmm} (hs : CounterExact s) (addr : UInt64) :
    CounterExact (pmmFreeFrame addr s) := by
  by_cases haddr : IsFrameAddr addr
  · obtain ⟨frame, hlt, rfl⟩ := haddr.exists_frame
    by_cases hbit : testBit s.bitmap frame ≠ false
    · rw [CounterExact, freeFrames_pmmFreeFrame hlt, pmmFreeFrame_frameAddr hlt, if_pos hbit]
      exact hs.add_one (fun hmem => hbit ((testBit_eq_false_iff hlt).mpr hmem))
    · rwa [pmmFreeFrame_frameAddr hlt, if_neg hbit]
  · rwa [pmmFreeFrame_of_not haddr]

/-- One call of a client of the frame allocator. -/
inductive PmmOp where
  | alloc
  | free (addr : UInt64)
  deriving DecidableEq

def PmmOp.exec (s : Pmm) : PmmOp → Pmm
  | .alloc => (pmmAllocFrame s).1
  | .free addr => pmmFreeFrame addr s

def pmmRun (s : Pmm) (ops : List PmmOp) : Pmm := ops.foldl PmmOp.exec s

theorem CounterExact.exec {s : Pmm} (hs : CounterExact s) (op : PmmOp) :
    CounterExact (op.exec s) := by
  cases op with
  | alloc => exact hs.alloc
  | free addr => exact hs.free addr

theorem CounterExact.run {s : Pmm} (hs : CounterExact s) (ops : List PmmOp) :
    CounterExact (pmmRun s ops) := by
  induction ops generalizing s with
  | nil => exact hs
  | cons op ops ih => exact ih (hs.exec op)

end Nadir
