import Nadir.Kmain.Basic
import Nadir.Kmain.SelfTest
import Nadir.Pmm.Usable

/-!
# The numbers the boot reports

Between its calls to the log `kmain` sets up the frame allocator and the heap and tests the heap.
The numbers in the two lines are counts of frames of the memory map, whatever the map is, and behind
them every frame that was free belongs to the frame allocator or to the heap, but for at most one.
-/

namespace Nadir

open Tiling

def pmmTotalCount : UInt64 := UInt64.ofNat pmmMaxFrames

/-- `kmain` from `pmm_init` to the end of the self-test, without the log: the two allocators, and
what the lines report. -/
def bootStats (fuel : ℕ) (k : KernelImage) (memmapCount : UInt32) (memmapEntries : E820Table)
    (h : Heap) : Except Stop (Pmm × Heap × BootStats) := do
  let p := pmmInit k memmapCount memmapEntries
  let (p', h) ← kmallocInit p h
  let (h, ok) ← selfTest fuel h
  pure (p', h,
    { memmapCount := memmapCount
      usable := pmmUsableCount p
      total := pmmTotalCount
      free := pmmFreeCount p
      selfTest := ok
      heapFree := kmallocFreeFrames h
      heapUsed := kmallocUsedFrames h })

/-- What the first line says of the frames that some entry offers, and of those that are free. -/
structure BootStats.CountsFrames (b : BootStats) (offered free : Finset ℕ) : Prop where
  subset : free ⊆ offered
  usable : b.usable.toNat = offered.card
  reserved : (b.usable - b.free).toNat = (offered \ free).card
  free : b.free.toNat = free.card
  total : b.usable ≤ b.total

/-- What the second line says, and what the allocators hold of the frames that were `free`. -/
structure BootStats.CountsHeap (b : BootStats) (free : Finset ℕ) (p : Pmm) (h : Heap) : Prop where
  pool : ∃ lo, FirstPool free (wholePool lo b.heapFree.toNat) ∧
    h.Lists (selfTestRuns lo b.heapFree.toNat)
  selfTest : b.selfTest = true ↔ 4 ≤ b.heapFree.toNat
  heapUsed : b.heapUsed = 0
  exact_iff : (pmmFreeCount p).toNat + b.heapFree.toNat = free.card ↔ NoGap free
  le : (pmmFreeCount p).toNat + b.heapFree.toNat ≤ free.card
  lost : free.card ≤ (pmmFreeCount p).toNat + b.heapFree.toNat + 1

variable (k : KernelImage) (count : UInt32) (t : E820Table)

theorem freeFrames_subset_offeredFrames :
    freeFrames (pmmInit k count t) ⊆ offeredFrames count t := by
  intro frame hfree
  obtain ⟨⟨i, hi, hmem⟩, _⟩ := (mem_freeFrames_pmmInit k count t frame).mp hfree
  obtain ⟨hoffer, hlt⟩ := mem_usableFrames_iff.mp hmem
  exact Finset.mem_filter.mpr ⟨Finset.mem_range.mpr hlt, i, hi, hoffer⟩

theorem countsFrames_pmmInit {b : BootStats}
    (husable : b.usable = pmmUsableCount (pmmInit k count t))
    (hfree : b.free = pmmFreeCount (pmmInit k count t)) (htotal : b.total = pmmTotalCount) :
    b.CountsFrames (offeredFrames count t) (freeFrames (pmmInit k count t)) := by
  obtain ⟨hexact, hle, hmax⟩ := reserving_pmmInit k count t
  have hsub := freeFrames_subset_offeredFrames k count t
  have hoffered := pmmInit_gUsable_toNat k count t
  constructor
  · exact hsub
  · exact husable ▸ hoffered
  · rw [husable, hfree, pmmUsableCount, pmmFreeCount,
      UInt64.toNat_sub_of_le _ _ (UInt64.le_iff_toNat_le.mpr hle),
      Finset.card_sdiff_of_subset hsub]
    exact congrArg₂ (· - ·) hoffered hexact
  · exact hfree ▸ hexact
  · rw [husable, htotal, UInt64.le_iff_toNat_le]
    exact hmax

/-- Whatever the memory map says, the boot gets through its two allocators. The usable, free and
reserved frames it reports are the frames that some usable entry offers whole, the free ones and
the difference, without a wrap; the heap reports the frames of its pool as free and none as used,
and the self-test is `ok` exactly when the pool has four; and every frame that was free is then
counted as free by one of the two allocators, unless `kmalloc_init` met a gap and lost one. -/
theorem boot_stats (h₀ : Heap) :
    ∀ fuel > 1, ∃ p h b, bootStats fuel k count t h₀ = .ok (p, h, b) ∧ b.memmapCount = count ∧
      b.CountsFrames (offeredFrames count t) (freeFrames (pmmInit k count t)) ∧
      b.CountsHeap (freeFrames (pmmInit k count t)) p h ∧ CounterExact p := by
  intro fuel hfuel
  obtain ⟨p, h, lo, n, hinit, hfrom⟩ :=
    kmallocInit_pool (zero_notMem_freeFrames_pmmInit k count t) h₀
  obtain ⟨h', htest, hr⟩ := hfrom.runs.selfTest hfuel hfrom.pool
  obtain ⟨hlists, hfree, hused⟩ := hr.idle hfrom.pool
  have hexact := kmallocInit_counter (reserving_pmmInit k count t).1 hinit
  refine ⟨p, h', ⟨count, pmmUsableCount (pmmInit k count t), pmmTotalCount,
    pmmFreeCount (pmmInit k count t), decide (4 ≤ n), kmallocFreeFrames h', kmallocUsedFrames h'⟩,
    ?_, rfl, countsFrames_pmmInit k count t rfl rfl rfl, ?_, hexact⟩
  · rw [bootStats]
    simp only [hinit, htest, bind, Except.bind]
    rfl
  · constructor
    · exact ⟨lo, hfree.symm ▸ hfrom.first, hfree.symm ▸ hlists⟩
    · rw [hfree]
      exact decide_eq_true_iff
    · exact hused
    · rw [hfree, pmmFreeCount, hexact]
      exact hfrom.exact_iff
    · rw [hfree, pmmFreeCount, hexact]
      exact hfrom.le
    · rw [hfree, pmmFreeCount, hexact]
      exact hfrom.lost

theorem boot_stats_acpiTable :
    ∃ p h b, bootStats 2 smallImage 2 acpiTable ⟨fun _ => 0, 0, 0, 0⟩ = .ok (p, h, b) ∧
      b.memmapCount = 2 ∧
      b.CountsFrames (offeredFrames 2 acpiTable) (freeFrames (pmmInit smallImage 2 acpiTable)) ∧
      b.CountsHeap (freeFrames (pmmInit smallImage 2 acpiTable)) p h ∧ CounterExact p :=
  boot_stats smallImage 2 acpiTable ⟨fun _ => 0, 0, 0, 0⟩ 2 (by decide)

end Nadir
