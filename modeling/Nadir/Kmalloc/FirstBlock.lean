import Nadir.Kmalloc.Init
import Nadir.Pmm.Reserved
import Mathlib.Data.Finset.Max

/-!
# The frames `kmalloc_init` takes

The loop learns that frames are consecutive only by allocating them. It stops when it has 64
frames, when the frame allocator has none left, or when the next frame leaves a gap. In the last
case that frame has been allocated already, and the loop neither keeps it nor gives it back.
-/

namespace Nadir

open ByteMem Tiling

/-- The first maximal block of consecutive members has `len` members from `first` on. -/
structure FirstBlock (U : Finset ℕ) (first len : ℕ) : Prop where
  least : IsLeast (U : Set ℕ) first
  block : Finset.Ico first (first + len) ⊆ U
  stop : first + len ∉ U

theorem FirstBlock.unique {U : Finset ℕ} {f f' L L' : ℕ} (h : FirstBlock U f L)
    (h' : FirstBlock U f' L') : f = f' ∧ L = L' := by
  obtain rfl := h.least.unique h'.least
  have hlen : L = L' := by
    rcases Nat.lt_trichotomy L L' with hlt | heq | hlt
    · exact absurd (h'.block (Finset.mem_Ico.mpr ⟨by omega, by omega⟩)) h.stop
    · exact heq
    · exact absurd (h.block (Finset.mem_Ico.mpr ⟨by omega, by omega⟩)) h'.stop
  exact ⟨rfl, hlen⟩

theorem exists_firstBlock {U : Finset ℕ} {f : ℕ} (hleast : IsLeast (U : Set ℕ) f) :
    ∃ L, FirstBlock U f L := by
  have hout : ∃ L, f + L ∉ U := by
    obtain ⟨M, hM⟩ := U.exists_nat_subset_range
    have hlast : f + M ∉ U := by
      intro hmem
      have hlt := Finset.mem_range.mp (hM hmem)
      omega
    exact ⟨M, hlast⟩
  have hblock : Finset.Ico f (f + Nat.find hout) ⊆ U := by
    intro g hg
    rw [Finset.mem_Ico] at hg
    have hin := Nat.find_min hout (show g - f < Nat.find hout by omega)
    rwa [not_not, Nat.add_sub_of_le hg.1] at hin
  exact ⟨Nat.find hout, hleast, hblock, Nat.find_spec hout⟩

/-- How the loop ends after at most `m` frames, of which it keeps `j` from `f` on: what is left
of the free frames `U`. -/
inductive PoolTaken (U : Finset ℕ) (f m j : ℕ) : Finset ℕ → Prop
  | full (hj : j = m) : PoolTaken U f m j (U \ Finset.Ico f (f + j))
  | exhausted (hj : j < m) (hall : U ⊆ Finset.Ico f (f + j)) : PoolTaken U f m j ∅
  | gap {g : ℕ} (hj : j < m) (hstop : f + j ∉ U) (hg : g ∈ U) (hafter : f + j < g) :
      PoolTaken U f m j ((U \ Finset.Ico f (f + j)).erase g)

/-- The next allocation once the `i` frames from `f` on are taken: there is no frame left, or the
next one is consecutive, or there is a gap in front of it. -/
theorem pmmAllocFrame_next {U : Finset ℕ} {f : ℕ} (hleast : IsLeast (U : Set ℕ) f)
    (hpos : 0 < f) {i : ℕ} {p : Pmm} (hfree : freeFrames p = U \ Finset.Ico f (f + i)) :
    (pmmAllocFrame p = (p, 0) ∧ freeFrames p = ∅ ∧ U ⊆ Finset.Ico f (f + i)) ∨
    ∃ g p', pmmAllocFrame p = (p', frameAddr g) ∧ frameAddr g ≠ 0 ∧
      freeFrames p' = (U \ Finset.Ico f (f + i)).erase g ∧ g ∈ U ∧ f + i ≤ g ∧
      (f + i ∈ U → g = f + i) ∧
      (frameAddr g = frameAddr f + UInt64.ofNat i * pmmFrameSize ↔ g = f + i) := by
  obtain ⟨hempty, heq⟩ | ⟨g, hg, heq⟩ := pmmAllocFrame_spec p
  · left
    have hall : U ⊆ Finset.Ico f (f + i) := by
      rw [← Finset.sdiff_eq_empty_iff_subset, ← hfree, hempty]
    exact ⟨heq, hempty, hall⟩
  · right
    have hmem : g ∈ freeFrames p := Finset.mem_coe.mp hg.1
    have hlt := lt_of_mem_freeFrames hmem
    have herase := freeFrames_setBit hmem (p.gFree - 1)
    rw [hfree, Finset.mem_sdiff, Finset.mem_Ico] at hmem
    have hfg : f ≤ g := hleast.2 (Finset.mem_coe.mpr hmem.1)
    have hle : f + i ≤ g := by omega
    have hi : (UInt64.ofNat i).toNat = i := by
      unfold pmmMaxFrames at hlt
      rw [UInt64.toNat_ofNat']
      omega
    have hnext : frameAddr f + UInt64.ofNat i * pmmFrameSize = frameAddr (f + i) := by
      have hsum := @frameAddr_add_mul f (UInt64.ofNat i) (by rw [hi]; omega)
      rwa [hi] at hsum
    refine ⟨g, _, heq, frameAddr_ne_zero hlt (by omega), hfree ▸ herase, hmem.1, hle, ?_, ?_⟩
    · intro hin
      have hfirst : f + i ∈ freeFrames p := by
        rw [hfree, Finset.mem_sdiff, Finset.mem_Ico]
        exact ⟨hin, by omega⟩
      have hlow := hg.2 (Finset.mem_coe.mpr hfirst)
      omega
    · rw [hnext]
      exact frameAddr_inj hlt (by omega)

theorem kmallocInitLoop_taken {U : Finset ℕ} {f : ℕ} (hleast : IsLeast (U : Set ℕ) f)
    (hpos : 0 < f) (hf : frameAddr f ≠ 0) (m : ℕ) {i : ℕ} (hi : 0 < i) {p : Pmm}
    (hblock : Finset.Ico f (f + i) ⊆ U) (hfree : freeFrames p = U \ Finset.Ico f (f + i)) :
    ∃ j p', kmallocInitLoop m (UInt64.ofNat i) (frameAddr f) p =
        (p', UInt64.ofNat j, frameAddr f) ∧ 0 < j ∧ j ≤ i + m ∧
      Finset.Ico f (f + j) ⊆ U ∧ PoolTaken U f (i + m) j (freeFrames p') := by
  induction m generalizing i p with
  | zero => exact ⟨i, p, rfl, hi, le_rfl, hblock, hfree ▸ .full rfl⟩
  | succ m ih =>
    simp only [kmallocInitLoop]
    obtain ⟨heq, hempty, hall⟩ | ⟨g, p', heq, hne, hfree', hg, hle, hfirst, hnext⟩ :=
      pmmAllocFrame_next hleast hpos hfree
    · refine ⟨i, p, ?_, hi, by omega, hblock, hempty ▸ .exhausted (by omega) hall⟩
      rw [heq, if_pos rfl]
    · simp only [heq, if_neg hne, if_neg hf]
      by_cases hgap : g = f + i
      · have hgo : ¬ (frameAddr f ≠ 0 ∧
            frameAddr g ≠ frameAddr f + UInt64.ofNat i * pmmFrameSize) :=
          fun h => h.2 (hnext.mpr hgap)
        rw [if_neg hgo]
        have hico : Finset.Ico f (f + (i + 1)) = insert g (Finset.Ico f (f + i)) := by
          ext x
          rw [Finset.mem_insert, Finset.mem_Ico, Finset.mem_Ico]
          omega
        have hblock' : Finset.Ico f (f + (i + 1)) ⊆ U := by
          rw [hico, Finset.insert_subset_iff]
          exact ⟨hg, hblock⟩
        rw [← Finset.sdiff_insert, ← hico] at hfree'
        obtain ⟨j, p'', hloop, hj, hle, hsub, htaken⟩ := ih (Nat.succ_pos i) hblock' hfree'
        have hsum : i + 1 + m = i + (m + 1) := by omega
        rw [hsum] at hle htaken
        rw [Nat.succ_eq_add_one, UInt64.ofNat_add] at hloop
        exact ⟨j, p'', hloop, hj, hle, hsub, htaken⟩
      · -- the frame behind the gap stays allocated
        have hgo : frameAddr f ≠ 0 ∧
            frameAddr g ≠ frameAddr f + UInt64.ofNat i * pmmFrameSize :=
          ⟨hf, fun h => hgap (hnext.mp h)⟩
        rw [if_pos hgo]
        refine ⟨i, p', rfl, hi, by omega, hblock, ?_⟩
        rw [hfree']
        exact .gap (by omega) (fun hin => hgap (hfirst hin)) hg (by omega)

theorem kmallocInit_taken {p : Pmm} {f : ℕ} (hleast : IsLeast (freeFrames p : Set ℕ) f)
    (hpos : 0 < f) (h : Heap) :
    ∃ j p', kmallocInit p h = .ok (p', h.initial f j) ∧ 0 < j ∧ j ≤ 64 ∧
      Finset.Ico f (f + j) ⊆ freeFrames p ∧
      PoolTaken (freeFrames p) f 64 j (freeFrames p') := by
  have hmem : f ∈ freeFrames p := Finset.mem_coe.mp hleast.1
  have hflt := lt_of_mem_freeFrames hmem
  have hne := frameAddr_ne_zero hflt hpos.ne'
  obtain ⟨hempty, _⟩ | ⟨g, hg, heq⟩ := pmmAllocFrame_spec p
  · rw [hempty] at hmem
    exact absurd hmem (Finset.notMem_empty f)
  · obtain rfl := hg.unique hleast
    have hone : Finset.Ico g (g + 1) = {g} := Nat.Ico_succ_singleton g
    have hblock : Finset.Ico g (g + 1) ⊆ freeFrames p := by
      rw [hone, Finset.singleton_subset_iff]
      exact hmem
    have hfree : freeFrames { p with bitmap := setBit p.bitmap g, gFree := p.gFree - 1 } =
        freeFrames p \ Finset.Ico g (g + 1) := by
      rw [freeFrames_setBit hmem, hone, Finset.sdiff_singleton_eq_erase]
    obtain ⟨j, p', hloop, hj, hle, hsub, htaken⟩ :=
      kmallocInitLoop_taken hleast hpos hne 63 Nat.one_pos hblock hfree
    have hfirst : kmallocInitLoop kmallocInitFrames 0 0 p = (p', UInt64.ofNat j, frameAddr g) := by
      rw [← hloop]
      rw [kmallocInitFrames, kmallocInitLoop, heq]
      dsimp only
      rw [if_neg hne, if_neg (fun h => h.1 rfl), if_pos rfl]
      rfl
    have hinit : kmallocInit p h = .ok (p', h.initial g j) := by
      rw [kmallocInit, hfirst]
      simp only [if_pos hne, Heap.store_frameAddr _ hflt, Heap.store_frameAddr_add_eight _ hflt,
        bind, Except.bind]
      rfl
    exact ⟨j, p', hinit, hj, hle, hsub, htaken⟩

theorem kmallocInit_empty {p : Pmm} (hempty : freeFrames p = ∅) (h : Heap) :
    kmallocInit p h = .ok (p, ⟨h.mem, 0, 0, 0⟩) := by
  obtain ⟨_, heq⟩ | ⟨g, hg, _⟩ := pmmAllocFrame_spec p
  · have hloop : kmallocInitLoop kmallocInitFrames 0 0 p = (p, 0, 0) := by
      rw [kmallocInitFrames, kmallocInitLoop, heq]
      exact if_pos rfl
    rw [kmallocInit, hloop]
    rfl
  · have hmem := hg.1
    rw [hempty] at hmem
    exact absurd (Finset.mem_coe.mp hmem) (Finset.notMem_empty g)

/-- The loop keeps the first block, cut after 64 frames; it leaves the rest unless there is a gap
behind a short block. -/
theorem PoolTaken.exact_iff {U U' : Finset ℕ} {f j L : ℕ} (h : PoolTaken U f 64 j U')
    (hL : FirstBlock U f L) (hle : j ≤ 64) (hblock : Finset.Ico f (f + j) ⊆ U) :
    j = min 64 L ∧
      (U' = U \ Finset.Ico f (f + j) ↔ 64 ≤ L ∨ U ⊆ Finset.Ico f (f + L)) := by
  have hjL : j ≤ L := by
    by_contra! hlt
    exact hL.stop (hblock (Finset.mem_Ico.mpr ⟨Nat.le_add_right f L, by omega⟩))
  have hLj : f + j ∉ U → L ≤ j := by
    intro hstop
    by_contra! hlt
    exact hstop (hL.block (Finset.mem_Ico.mpr ⟨Nat.le_add_right f j, by omega⟩))
  cases h with
  | full hfull => exact ⟨by omega, iff_of_true rfl (Or.inl (hfull ▸ hjL))⟩
  | exhausted hlt hall =>
    have hstop : f + j ∉ U := by
      intro hmem
      have hin := Finset.mem_Ico.mp (hall hmem)
      omega
    have heq : j = L := Nat.le_antisymm hjL (hLj hstop)
    have hnone : ∅ = U \ Finset.Ico f (f + j) := (Finset.sdiff_eq_empty_iff_subset.mpr hall).symm
    exact ⟨by omega, iff_of_true hnone (Or.inr (heq ▸ hall))⟩
  | @gap g hlt hstop hg hafter =>
    have heq : j = L := Nat.le_antisymm hjL (hLj hstop)
    refine ⟨by omega, iff_of_false ?_ ?_⟩
    · intro hleft
      have hin : g ∈ U \ Finset.Ico f (f + j) := by
        rw [Finset.mem_sdiff, Finset.mem_Ico]
        exact ⟨hg, by omega⟩
      rw [← hleft] at hin
      exact Finset.notMem_erase g _ hin
    · rintro (hlong | hall)
      · omega
      · have hin := Finset.mem_Ico.mp (hall hg)
        omega

theorem kmallocInit_block {p : Pmm} {f L : ℕ} (hL : FirstBlock (freeFrames p) f L) (hpos : 0 < f)
    (h : Heap) : ∃ p', kmallocInit p h = .ok (p', h.initial f (min 64 L)) := by
  obtain ⟨j, p', hinit, _, hle, hblock, htaken⟩ := kmallocInit_taken hL.least hpos h
  obtain ⟨rfl, _⟩ := htaken.exact_iff hL hle hblock
  exact ⟨p', hinit⟩

theorem kmallocInit_acpiTable (h : Heap) :
    ∃ p', kmallocInit (pmmInit smallImage 2 acpiTable) h = .ok (p', h.initial 256 64) := by
  have hblock : FirstBlock (freeFrames (pmmInit smallImage 2 acpiTable)) 256 256 := by
    rw [freeFrames_acpiTable]
    refine ⟨?_, Finset.Subset.rfl, ?_⟩
    · rw [Finset.coe_Ico]
      exact isLeast_Ico (by omega)
    · rw [Finset.mem_Ico]
      omega
  exact kmallocInit_block hblock (by omega) h

end Nadir
