import Nadir.Kmalloc.Refine

/-!
# Setting up the heap

`kmalloc_init` takes frames from the frame allocator as long as they are consecutive. The frames
it keeps were free before and are used after, and the heap starts as an arena of them with
nothing live.
-/

namespace Nadir

open ByteMem Tiling

/-- What the loop keeps: it only takes frames, and the `i` frames from `addr` are taken. -/
structure InitProgress (p₀ p : Pmm) (i addr : UInt64) : Prop where
  subset : freeFrames p ⊆ freeFrames p₀
  counter : CounterExact p₀ → CounterExact p
  taken : (addr = 0 ∧ i = 0) ∨ ∃ lo, 0 < lo ∧ addr = frameAddr lo ∧ 0 < i.toNat ∧
    lo + i.toNat ≤ pmmMaxFrames ∧
    ∀ frame, lo ≤ frame → frame < lo + i.toNat → frame ∈ freeFrames p₀ ∧ frame ∉ freeFrames p

theorem InitProgress.start (p : Pmm) : InitProgress p p 0 0 :=
  ⟨Finset.Subset.rfl, id, Or.inl ⟨rfl, rfl⟩⟩

theorem InitProgress.alloc {p₀ p : Pmm} {i addr : UInt64} (hp : InitProgress p₀ p i addr) :
    InitProgress p₀ (pmmAllocFrame p).1 i addr := by
  have hsub := freeFrames_alloc_subset p
  refine ⟨hsub.trans hp.subset, fun h₀ => (hp.counter h₀).alloc, ?_⟩
  rcases hp.taken with hnone | ⟨lo, hpos, haddr, hi, hle, htaken⟩
  · exact Or.inl hnone
  · exact Or.inr ⟨lo, hpos, haddr, hi, hle, fun frame hlo hhi =>
      ⟨(htaken frame hlo hhi).1, fun hmem => (htaken frame hlo hhi).2 (hsub hmem)⟩⟩

theorem pmmAllocFrame_taken {p : Pmm} (hne : (pmmAllocFrame p).2 ≠ 0) :
    ∃ frame, 0 < frame ∧ frame ∈ freeFrames p ∧ frame ∉ freeFrames (pmmAllocFrame p).1 ∧
      (pmmAllocFrame p).2 = frameAddr frame := by
  obtain ⟨_, heq⟩ | ⟨frame, hleast, heq⟩ := pmmAllocFrame_spec p
  · rw [heq] at hne
    exact absurd rfl hne
  have hfree : frame ∈ freeFrames p := Finset.mem_coe.mp hleast.1
  have hframes := freeFrames_setBit hfree (p.gFree - 1)
  rw [heq] at hne ⊢
  refine ⟨frame, ?_, hfree, fun hmem => ?_, rfl⟩
  · rcases Nat.eq_zero_or_pos frame with rfl | hpos
    · exact absurd rfl hne
    · exact hpos
  · exact Finset.notMem_erase frame (freeFrames p) (hframes ▸ hmem)

theorem InitProgress.extend {p₀ p : Pmm} {i addr : UInt64} (hp : InitProgress p₀ p i addr)
    (hi : i.toNat < 64) (hne : (pmmAllocFrame p).2 ≠ 0)
    (hnext : ¬ (addr ≠ 0 ∧ (pmmAllocFrame p).2 ≠ addr + i * pmmFrameSize)) :
    InitProgress p₀ (pmmAllocFrame p).1 (i + 1)
      (if addr = 0 then (pmmAllocFrame p).2 else addr) := by
  have hold := hp.alloc
  refine ⟨hold.subset, hold.counter, Or.inr ?_⟩
  have hsucc : (i + 1).toNat = i.toNat + 1 := by
    rw [UInt64.toNat_add, UInt64.toNat_one]
    omega
  obtain ⟨frame, hpos, hfree, hafter, hresult⟩ := pmmAllocFrame_taken hne
  have hlt := lt_of_mem_freeFrames hfree
  have haddr := frameAddr_toNat hlt
  rw [hresult] at hnext ⊢
  rcases hold.taken with ⟨hzero, hizero⟩ | ⟨lo, hlo, hlow, hipos, hle, htaken⟩
  · refine ⟨frame, hpos, if_pos hzero, by omega, ?_, fun g hglo hghi => ?_⟩
    · rw [hsucc, hizero, UInt64.toNat_zero]
      omega
    · rw [hsucc, hizero, UInt64.toNat_zero] at hghi
      have hg : g = frame := by omega
      rw [hg]
      exact ⟨hp.subset hfree, hafter⟩
  · have hlolt : lo < pmmMaxFrames := by omega
    have hloaddr := frameAddr_toNat hlolt
    have hne0 : addr ≠ 0 := by
      rw [hlow]
      exact frameAddr_ne_zero hlolt hlo.ne'
    have hconsecutive : frameAddr frame = addr + i * pmmFrameSize := by
      by_contra hgap
      exact hnext ⟨hne0, hgap⟩
    have hframe : frame = lo + i.toNat := by
      have hnat := congrArg UInt64.toNat hconsecutive
      rw [hlow, UInt64.toNat_add, UInt64.toNat_mul, haddr, hloaddr] at hnat
      unfold pmmMaxFrames at hlolt
      simp only [pmmFrameSize, UInt64.reduceToNat] at hnat
      omega
    refine ⟨lo, hlo, by rw [if_neg hne0, hlow], by omega, by omega, fun g hglo hghi => ?_⟩
    rcases Nat.lt_or_ge g (lo + i.toNat) with hg | hg
    · exact htaken g hglo hg
    · have hg' : g = frame := by omega
      rw [hg']
      exact ⟨hp.subset hfree, hafter⟩

theorem kmallocInitLoop_spec {p₀ p : Pmm} {i addr : UInt64} (m : ℕ)
    (hp : InitProgress p₀ p i addr) (hi : i.toNat + m ≤ 64) :
    InitProgress p₀ (kmallocInitLoop m i addr p).1 (kmallocInitLoop m i addr p).2.1
      (kmallocInitLoop m i addr p).2.2 ∧ (kmallocInitLoop m i addr p).2.1.toNat ≤ 64 := by
  induction m generalizing p i addr with
  | zero => exact ⟨hp, hi⟩
  | succ m ih =>
    simp only [kmallocInitLoop]
    by_cases hzero : (pmmAllocFrame p).2 = 0
    · rw [if_pos hzero]
      exact ⟨hp.alloc, by dsimp only; omega⟩
    · rw [if_neg hzero]
      by_cases hgap : addr ≠ 0 ∧ (pmmAllocFrame p).2 ≠ addr + i * pmmFrameSize
      · rw [if_pos hgap]
        exact ⟨hp.alloc, by dsimp only; omega⟩
      · rw [if_neg hgap]
        apply ih (hp.extend (by omega) hzero hgap)
        rw [UInt64.toNat_add, UInt64.toNat_one]
        omega

/-- The heap starts as an arena of frames that were free and that the frame allocator now counts
as used. -/
structure HeapStart (p p' : Pmm) (h : Heap) {lo n : ℕ} (a : Arena lo n) : Prop where
  pool : PoolOk lo n
  heap : h.Represents a
  live : a.live = []
  list : h.gFreeList = if n = 0 then 0 else frameAddr lo
  frames : h.gFreeFrames = UInt64.ofNat n
  le : n ≤ 64
  taken : ∀ frame, lo ≤ frame → frame < lo + n → frame ∈ freeFrames p ∧ frame ∉ freeFrames p'
  subset : freeFrames p' ⊆ freeFrames p
  counter : CounterExact p → CounterExact p'

/-- The heap that starts with the run of `j` frames from `f` on. -/
def Heap.initial (h : Heap) (f j : ℕ) : Heap :=
  ⟨store64 (store64 h.mem (4096 * f) 0) (4096 * f + 8) (UInt64.ofNat j), frameAddr f,
    UInt64.ofNat j, 0⟩

theorem Heap.initial_represents (h : Heap) {f j : ℕ} (hj : 0 < j) :
    (h.initial f j).Represents (Arena.start hj : Arena f j) := by
  refine ⟨⟨rfl, load64_store64_self _ _ _, ?_⟩, fun r hr => absurd hr List.not_mem_nil, ?_, rfl⟩
  · exact (load64_store64_of_disjoint _ _ (Or.inl le_rfl)).trans (load64_store64_self _ _ _)
  · change UInt64.ofNat j = UInt64.ofNat (totalLen [⟨f, j⟩])
    rw [totalLen_cons, totalLen_nil, Nat.add_zero]

theorem kmallocInit_spec (p : Pmm) (h : Heap) :
    ∃ p' h' lo n, ∃ a : Arena lo n, kmallocInit p h = .ok (p', h') ∧ HeapStart p p' h' a := by
  obtain ⟨hloop, hle⟩ := kmallocInitLoop_spec kmallocInitFrames (InitProgress.start p)
    (by rw [UInt64.toNat_zero]; exact le_rfl)
  generalize hout : kmallocInitLoop kmallocInitFrames 0 0 p = out at hloop hle
  obtain ⟨p', i, addr⟩ := out
  dsimp only at hloop hle
  rcases hloop.taken with ⟨hzero, hizero⟩ | ⟨lo, hlo, haddr, hipos, hmax, htaken⟩
  · refine ⟨p', ⟨h.mem, 0, 0, 0⟩, 1, 0, Arena.empty 1, ?_, ⟨⟨by decide, by decide⟩,
      ⟨rfl, fun r hr => absurd hr List.not_mem_nil, rfl, rfl⟩, rfl, rfl, rfl, by omega,
      fun frame hlo hhi => by omega, hloop.subset, hloop.counter⟩⟩
    rw [kmallocInit, hout]
    simp only [hzero, ne_eq, not_true_eq_false, if_false]
    rfl
  · have hlt : lo < pmmMaxFrames := by omega
    have hne : addr ≠ 0 := by
      rw [haddr]
      exact frameAddr_ne_zero hlt hlo.ne'
    refine ⟨p', h.initial lo i.toNat, lo, i.toNat, Arena.start hipos, ?_, ⟨⟨hlo, hmax⟩,
      h.initial_represents hipos, rfl, (if_neg hipos.ne').symm, rfl, hle, htaken, hloop.subset,
      hloop.counter⟩⟩
    rw [kmallocInit, hout]
    rw [haddr] at hne
    simp only [haddr, if_pos hne, Heap.store_frameAddr _ hlt, Heap.store_frameAddr_add_eight _ hlt,
      Heap.initial, UInt64.ofNat_toNat, bind, Except.bind]
    rfl

end Nadir
