import Nadir.Pmm.Bitmap

/-!
# The free set through `pmm_init`

The loops of `pmm_init` on the bitmap are set operations on the free frames: the first pass adds
the whole frames of each usable entry, and every reservation removes the frames of its byte range
rounded down at both ends. `mem_freeFrames_pmmInit` reads the free set off the table.
-/

namespace Nadir

open CountedLoop

def freeFrames (s : Pmm) : Finset ℕ := clearBits s.bitmap

/-- The frames from the one holding `base` up to, and without, the one holding the end. -/
def flooredFrames (base len : ℕ) : Finset ℕ :=
  Finset.Ico (base / 4096) (min (base + len) 0x40000000 / 4096)

/-- The frames below 1 GB that lie wholly inside `[base, base + len)`. -/
def wholeFrames (base len : ℕ) : Finset ℕ :=
  Finset.Ico ((base + 4095) / 4096) (min (base + len) 0x40000000 / 4096)

theorem mem_flooredFrames (base len frame : ℕ) : frame ∈ flooredFrames base len ↔
    base / 4096 ≤ frame ∧ frame < min (base + len) 0x40000000 / 4096 := Finset.mem_Ico

theorem mem_wholeFrames (base len frame : ℕ) : frame ∈ wholeFrames base len ↔
    base ≤ 4096 * frame ∧ 4096 * (frame + 1) ≤ base + len ∧ frame < pmmMaxFrames := by
  rw [wholeFrames, Finset.mem_Ico]
  unfold pmmMaxFrames
  omega

/-- The end both loops use: saturated at the top of the word, then clipped to the window. -/
theorem clippedStop_toNat (base len : UInt64) :
    (let stop := if base + len < base then uint64Max else base + len
     if stop > pmmMaxBytes then pmmMaxBytes else stop).toNat =
      min (base.toNat + len.toNat) 0x40000000 := by
  have hbase := base.toNat_lt
  have hlen := len.toNat_lt
  dsimp only
  split_ifs with hwrap hclip hclip <;>
    simp only [UInt64.lt_iff_toNat_lt, UInt64.toNat_add, uint64Max, pmmMaxBytes, gt_iff_lt] at * <;>
    simp at * <;> omega

theorem reserveBounds_spec (base len : UInt64) :
    (reserveBounds base len = none ∧ flooredFrames base.toNat len.toNat = ∅) ∨
    ∃ lo hi, reserveBounds base len = some (lo, hi) ∧ lo ≤ hi ∧ hi ≤ pmmMaxFrames ∧
      flooredFrames base.toNat len.toNat = Finset.Ico lo hi := by
  have hstop := clippedStop_toNat base len
  have hbase := base.toNat_lt
  unfold reserveBounds
  by_cases hlen : len = 0
  · subst hlen
    left
    refine ⟨if_pos rfl, ?_⟩
    rw [flooredFrames, Finset.Ico_eq_empty_iff]
    simp only [UInt64.toNat_zero]
    omega
  · simp only [if_neg hlen]
    by_cases hwindow : base ≥ pmmMaxBytes
    · left
      simp only [if_pos hwindow, true_and]
      rw [flooredFrames, Finset.Ico_eq_empty_iff]
      simp [UInt64.le_iff_toNat_le, pmmMaxBytes] at hwindow
      omega
    · right
      simp only [if_neg hwindow]
      refine ⟨_, _, rfl, ?_⟩
      rw [UInt64.toNat_div, UInt64.toNat_div, hstop, flooredFrames]
      simp [UInt64.le_iff_toNat_le, pmmMaxBytes, pmmFrameSize, pmmMaxFrames] at *
      omega

/-- The frames the first pass frees for an entry: none unless the entry is usable. -/
def usableFrames (e : E820Entry) : Finset ℕ :=
  if e.type = e820Usable then wholeFrames e.base.toNat e.length.toNat else ∅

theorem usableBounds_spec (e : E820Entry) :
    (usableBounds e = none ∧ usableFrames e = ∅) ∨
    ∃ lo hi, usableBounds e = some (lo, hi) ∧ hi ≤ pmmMaxFrames ∧
      usableFrames e = Finset.Ico lo hi := by
  have hstop := clippedStop_toNat e.base e.length
  have hbase := e.base.toNat_lt
  unfold usableBounds usableFrames
  by_cases htype : e.type = e820Usable
  · simp only [htype, ne_eq, not_true_eq_false, if_false, if_true]
    by_cases hlen : e.length = 0
    · left
      refine ⟨if_pos hlen, ?_⟩
      rw [wholeFrames, Finset.Ico_eq_empty_iff, hlen]
      simp only [UInt64.toNat_zero]
      omega
    · simp only [if_neg hlen]
      by_cases hwindow : e.base ≥ pmmMaxBytes
      · left
        simp only [if_pos hwindow, true_and]
        rw [wholeFrames, Finset.Ico_eq_empty_iff]
        simp [UInt64.le_iff_toNat_le, pmmMaxBytes] at hwindow
        omega
      · right
        simp only [if_neg hwindow]
        refine ⟨_, _, rfl, ?_⟩
        have hstart : (e.base + pmmFrameSize - 1).toNat = e.base.toNat + 4095 := by
          simp [UInt64.le_iff_toNat_le, pmmMaxBytes, pmmFrameSize, UInt64.toNat_sub] at *
          omega
        rw [UInt64.toNat_div, UInt64.toNat_div, hstop, hstart, wholeFrames]
        simp [pmmFrameSize, pmmMaxFrames]
        omega
  · left
    simp [htype]

theorem freeFrames_reserveFrame {frame : ℕ} (h : frame < pmmMaxFrames) (s : Pmm) :
    freeFrames (reserveFrame frame s) = (freeFrames s).erase frame := by
  unfold reserveFrame
  by_cases hbit : testBit s.bitmap frame = false
  · rw [if_pos hbit]
    exact clearBits_setBit s.bitmap h
  · rw [if_neg hbit, Finset.erase_eq_of_notMem]
    exact fun hmem => hbit ((mem_clearBits _ _).mp hmem).2

theorem freeFrames_usableFrame {frame : ℕ} (h : frame < pmmMaxFrames) (s : Pmm) :
    freeFrames (usableFrame frame s) = insert frame (freeFrames s) := by
  unfold usableFrame
  by_cases hbit : testBit s.bitmap frame ≠ false
  · rw [if_pos hbit]
    exact clearBits_clearBit s.bitmap h
  · rw [if_neg hbit, Finset.insert_eq_of_mem]
    exact (mem_clearBits _ _).mpr ⟨h, not_not.mp hbit⟩

theorem freeFrames_reserveRange (base len : UInt64) (s : Pmm) :
    freeFrames (reserveRange base len s) =
      freeFrames s \ flooredFrames base.toNat len.toNat := by
  unfold reserveRange
  obtain ⟨hnone, hempty⟩ | ⟨lo, hi, hsome, _, hmax, hframes⟩ := reserveBounds_spec base len
  · rw [hnone, hempty, Finset.sdiff_empty]
  · rw [hsome, hframes, ← forLoop_erase]
    exact forLoop_map freeFrames (fun i t _ hi => freeFrames_reserveFrame (hi.trans_le hmax) t)

theorem freeFrames_usableEntry (e : E820Entry) (s : Pmm) :
    freeFrames (usableEntry e s) = freeFrames s ∪ usableFrames e := by
  unfold usableEntry
  obtain ⟨hnone, hempty⟩ | ⟨lo, hi, hsome, hmax, hframes⟩ := usableBounds_spec e
  · rw [hnone, hempty, Finset.union_empty]
  · rw [hsome, hframes, ← forLoop_insert]
    exact forLoop_map freeFrames (fun i t _ hi => freeFrames_usableFrame (hi.trans_le hmax) t)

/-- The frames the second pass reserves for an entry: none for a usable one. -/
def reservedFrames (e : E820Entry) : Finset ℕ :=
  if e.type = e820Usable then ∅ else flooredFrames e.base.toNat e.length.toNat

theorem freeFrames_reservedEntry (e : E820Entry) (s : Pmm) :
    freeFrames (reservedEntry e s) = freeFrames s \ reservedFrames e := by
  unfold reservedEntry reservedFrames
  by_cases htype : e.type = e820Usable
  · simp [htype]
  · rw [if_pos htype, if_neg htype, freeFrames_reserveRange]

theorem mem_freeFrames_reserveRanges (rs : List (UInt64 × UInt64)) (s : Pmm) (frame : ℕ) :
    frame ∈ freeFrames (reserveRanges rs s) ↔
      frame ∈ freeFrames s ∧ ∀ r ∈ rs, frame ∉ flooredFrames r.1.toNat r.2.toNat := by
  induction rs generalizing s with
  | nil => simp [reserveRanges]
  | cons r rs ih =>
    change frame ∈ freeFrames (reserveRanges rs (reserveRange r.1 r.2 s)) ↔ _
    rw [ih, freeFrames_reserveRange, Finset.mem_sdiff, and_assoc, List.forall_mem_cons]

theorem mem_freeFrames_usablePass (t : E820Table) (n frame : ℕ) :
    frame ∈ freeFrames (usablePass t n) ↔ ∃ i < n, frame ∈ usableFrames (t.entry i) := by
  have hmap : freeFrames (usablePass t n) = forLoop 0 n (fun i S => S ∪ usableFrames (t.entry i))
      (freeFrames pmmReserved) :=
    forLoop_map freeFrames (fun i s _ _ => freeFrames_usableEntry (t.entry i) s)
  have hempty : freeFrames pmmReserved = ∅ := clearBits_replicate
  rw [hmap, mem_forLoop_union, hempty]
  simp only [Finset.notMem_empty, false_or]

theorem mem_freeFrames_reservedPass (count : UInt32) (t : E820Table) (n frame : ℕ) :
    frame ∈ freeFrames (reservedPass count t n) ↔
      frame ∈ freeFrames (usablePass t (entryCount count t)) ∧
        ∀ i < n, frame ∉ reservedFrames (t.entry i) := by
  have hmap : freeFrames (reservedPass count t n) =
      forLoop 0 n (fun i S => S \ reservedFrames (t.entry i))
        (freeFrames (usablePass t (entryCount count t))) :=
    forLoop_map freeFrames (fun i s _ _ => freeFrames_reservedEntry (t.entry i) s)
  rw [hmap, mem_forLoop_sdiff]

theorem KernelImage.length_toNat (k : KernelImage) :
    (k.stop - k.start).toNat = k.stop.toNat - k.start.toNat :=
  UInt64.toNat_sub_of_le _ _ k.start_le_stop

/-- The frames the kernel image's reservation removes. -/
def imageFrames (k : KernelImage) : Finset ℕ :=
  flooredFrames k.start.toNat (k.stop - k.start).toNat

/-- The four fixed reservations after the kernel image repeat frames of the low 1 MB. -/
theorem notMem_fixedRanges_iff (k : KernelImage) (frame : ℕ) :
    (∀ r ∈ fixedRanges k, frame ∉ flooredFrames r.1.toNat r.2.toNat) ↔
      256 ≤ frame ∧ frame ∉ imageFrames k := by
  simp only [fixedRanges, List.forall_mem_cons, List.not_mem_nil, false_implies, implies_true,
    and_true, ← imageFrames.eq_1]
  simp only [mem_flooredFrames]
  simp
  omega

theorem mem_freeFrames_pmmInit (k : KernelImage) (count : UInt32) (t : E820Table) (frame : ℕ) :
    frame ∈ freeFrames (pmmInit k count t) ↔
      (∃ i < entryCount count t, frame ∈ usableFrames (t.entry i)) ∧
      (∀ i < entryCount count t, frame ∉ reservedFrames (t.entry i)) ∧
      256 ≤ frame ∧ frame ∉ imageFrames k := by
  rw [pmmInit, mem_freeFrames_reserveRanges, mem_freeFrames_reservedPass,
    mem_freeFrames_usablePass, notMem_fixedRanges_iff, and_assoc]

end Nadir
