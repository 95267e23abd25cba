import Nadir.Kmalloc.FirstFit

/-!
# The pool `kmalloc_init` keeps

Of the first block of consecutive free frames `kmalloc_init` keeps at most 64. The frame allocator
loses exactly these unless a gap follows a shorter block: the frame behind the gap is lost too.
-/

namespace Nadir

open ByteMem Tiling

/-- The pool the heap should take of the free frames `U`: the first block, cut after 64 frames. -/
inductive FirstPool (U : Finset ℕ) : List Run → Prop
  | empty (hempty : U = ∅) : FirstPool U []
  | block {f L : ℕ} (h : FirstBlock U f L) : FirstPool U [⟨f, min 64 L⟩]

/-- The heap starts with exactly the runs `rs`, and their frames are what it took. -/
structure StartsWith (p p' : Pmm) (h : Heap) (rs : List Run) : Prop where
  list : h.Lists rs
  free : (kmallocFreeFrames h).toNat = totalLen rs
  used : kmallocUsedFrames h = 0
  taken : freeFrames p' = freeFrames p \ (rs.flatMap Run.cells).toFinset
  count : (pmmFreeCount p').toNat + totalLen rs = (pmmFreeCount p).toNat

/-- `kmalloc_init` takes exactly what it keeps. -/
def InitExact (p : Pmm) (h₀ : Heap) : Prop :=
  ∃ rs p' h, FirstPool (freeFrames p) rs ∧ kmallocInit p h₀ = .ok (p', h) ∧ StartsWith p p' h rs

/-- The first block is long enough, or no frame is free behind it. -/
def NoGap (U : Finset ℕ) : Prop :=
  ∀ f L, FirstBlock U f L → 64 ≤ L ∨ U ⊆ Finset.Ico f (f + L)

theorem kmallocInit_counter {p p' : Pmm} {h h' : Heap} (hp : CounterExact p)
    (hinit : kmallocInit p h = .ok (p', h')) : CounterExact p' := by
  obtain ⟨p'', h'', lo, n, a, heq, hstart⟩ := kmallocInit_spec p h
  rw [heq] at hinit
  cases hinit
  exact hstart.counter hp

theorem Heap.initial_lists (h : Heap) {f j : ℕ} (hok : RunOk ⟨f, j⟩) :
    (h.initial f j).Lists [⟨f, j⟩] := by
  apply FreeChain.lists_single _ hok
  refine ⟨rfl, load64_store64_self _ _ _, ?_⟩
  exact (load64_store64_of_disjoint _ _ (Or.inl le_rfl)).trans (load64_store64_self _ _ _)

theorem cells_toFinset (f j : ℕ) :
    (([⟨f, j⟩] : List Run).flatMap Run.cells).toFinset = Finset.Ico f (f + j) := by
  ext x
  rw [List.mem_toFinset, List.flatMap_singleton, Run.mem_cells, Run.Contains, Finset.mem_Ico]

theorem initExact_empty {p : Pmm} (hempty : freeFrames p = ∅) (h₀ : Heap) : InitExact p h₀ := by
  refine ⟨[], p, _, .empty hempty, kmallocInit_empty hempty h₀, ⟨rfl, ?_⟩, rfl, rfl, ?_, rfl⟩
  · exact fun r hr => absurd hr List.not_mem_nil
  · rw [List.flatMap_nil, List.toFinset_nil, Finset.sdiff_empty]

theorem initExact_iff {p p' : Pmm} {f j L : ℕ} {h₀ : Heap} (hp : CounterExact p) (hpos : 0 < f)
    (hL : FirstBlock (freeFrames p) f L) (hj : 0 < j) (hjL : j = min 64 L)
    (hinit : kmallocInit p h₀ = .ok (p', h₀.initial f j))
    (hblock : Finset.Ico f (f + j) ⊆ freeFrames p) :
    InitExact p h₀ ↔ freeFrames p' = freeFrames p \ Finset.Ico f (f + j) := by
  constructor
  · rintro ⟨rs, p'', h, hpool, hinit', hstart⟩
    rw [hinit] at hinit'
    cases hinit'
    have hkept := hstart.taken
    cases hpool with
    | empty hempty =>
      have hmem := hL.least.1
      rw [hempty] at hmem
      exact absurd (Finset.mem_coe.mp hmem) (Finset.notMem_empty f)
    | block hL' =>
      obtain ⟨rfl, rfl⟩ := hL.unique hL'
      rwa [cells_toFinset, ← hjL] at hkept
  · intro hfree
    have hok : RunOk ⟨f, j⟩ := by
      have hlast := lt_of_mem_freeFrames (hblock (Finset.mem_Ico.mpr
        ⟨show f ≤ f + (j - 1) by omega, by omega⟩))
      exact ⟨hpos, hj, by dsimp only; omega⟩
    have hcard := Finset.card_sdiff_add_card_eq_card hblock
    rw [← hfree, Nat.card_Ico, Nat.add_sub_cancel_left] at hcard
    refine ⟨[⟨f, j⟩], p', _, hjL ▸ .block hL, hinit, h₀.initial_lists hok, ?_, rfl, ?_, ?_⟩
    · rw [totalLen_cons, totalLen_nil]
      exact ofNat_len_toNat hok
    · rw [cells_toFinset, hfree]
    · rw [totalLen_cons, totalLen_nil, pmmFreeCount, pmmFreeCount,
        kmallocInit_counter hp hinit, hp]
      exact hcard

theorem initExact_iff_noGap {p : Pmm} (hp : CounterExact p) (hzero : 0 ∉ freeFrames p)
    (h₀ : Heap) : InitExact p h₀ ↔ NoGap (freeFrames p) := by
  rcases (freeFrames p).eq_empty_or_nonempty with hempty | hne
  · apply iff_of_true (initExact_empty hempty h₀)
    intro f L _
    exact Or.inr (hempty ▸ Finset.empty_subset _)
  have hleast := (freeFrames p).isLeast_min' hne
  generalize (freeFrames p).min' hne = f at hleast
  have hmem : f ∈ freeFrames p := Finset.mem_coe.mp hleast.1
  have hpos : 0 < f := Nat.pos_of_ne_zero (fun hf => hzero (hf ▸ hmem))
  obtain ⟨L, hL⟩ := exists_firstBlock hleast
  obtain ⟨j, p', hinit, hj, hle, hblock, htaken⟩ := kmallocInit_taken hleast hpos h₀
  obtain ⟨hjL, hleft⟩ := htaken.exact_iff hL hle hblock
  have hnoGap : NoGap (freeFrames p) ↔ 64 ≤ L ∨ freeFrames p ⊆ Finset.Ico f (f + L) := by
    constructor
    · intro h
      exact h f L hL
    · intro h f' L' hL'
      obtain ⟨rfl, rfl⟩ := hL.unique hL'
      exact h
  rw [initExact_iff hp hpos hL hj hjL hinit hblock, hleft, hnoGap]

/-- After `pmm_init` on any table, `kmalloc_init` takes exactly what it keeps when the first block
of free frames is long enough or the last one, and only then. -/
theorem kmallocInit_exact_iff (k : KernelImage) (count : UInt32) (t : E820Table) (h₀ : Heap) :
    InitExact (pmmInit k count t) h₀ ↔ NoGap (freeFrames (pmmInit k count t)) :=
  initExact_iff_noGap (reserving_pmmInit k count t).1
    (zero_notMem_freeFrames_pmmInit k count t) h₀

/-- One free frame, a hole of one frame, and another free frame. -/
def holeTable : E820Table := some fun i =>
  if i = 0 then ⟨0x100000, 0x1000, 1, 0⟩ else ⟨0x102000, 0x1000, 1, 0⟩

theorem mem_freeFrames_holeTable (frame : ℕ) :
    frame ∈ freeFrames (pmmInit smallImage 2 holeTable) ↔ frame = 256 ∨ frame = 258 := by
  have hcount : entryCount 2 holeTable = 2 := rfl
  have hfirst : usableFrames (holeTable.entry 0) = Finset.Ico 256 257 := rfl
  have hsecond : usableFrames (holeTable.entry 1) = Finset.Ico 258 259 := rfl
  have hnone : ∀ i, reservedFrames (holeTable.entry i) = ∅ := by
    intro i
    apply if_pos
    change (if i = 0 then (⟨0x100000, 0x1000, 1, 0⟩ : E820Entry) else _).type = e820Usable
    split_ifs <;> rfl
  have himage : imageFrames smallImage = Finset.Ico 16 32 := rfl
  rw [mem_freeFrames_pmmInit, hcount, himage, Finset.mem_Ico]
  simp only [hnone, Finset.notMem_empty, not_false_eq_true, implies_true, true_and]
  constructor
  · rintro ⟨⟨i, hi, hmem⟩, _⟩
    interval_cases i
    · rw [hfirst, Finset.mem_Ico] at hmem
      omega
    · rw [hsecond, Finset.mem_Ico] at hmem
      omega
  · rintro (rfl | rfl)
    · exact ⟨⟨0, by omega, by rw [hfirst, Finset.mem_Ico]; omega⟩, by omega⟩
    · exact ⟨⟨1, by omega, by rw [hsecond, Finset.mem_Ico]; omega⟩, by omega⟩

/-- The frame behind the hole is taken and not kept. -/
theorem not_initExact_holeTable :
    ¬ InitExact (pmmInit smallImage 2 holeTable) ⟨fun _ => 0, 0, 0, 0⟩ := by
  rw [initExact_iff_noGap (reserving_pmmInit _ _ _).1
    (zero_notMem_freeFrames_pmmInit _ _ _)]
  have hblock : FirstBlock (freeFrames (pmmInit smallImage 2 holeTable)) 256 1 := by
    refine ⟨⟨Finset.mem_coe.mpr ((mem_freeFrames_holeTable 256).mpr (Or.inl rfl)), ?_⟩, ?_, ?_⟩
    · intro g hg
      have hg' := (mem_freeFrames_holeTable g).mp (Finset.mem_coe.mp hg)
      omega
    · intro g hg
      rw [Finset.mem_Ico] at hg
      exact (mem_freeFrames_holeTable g).mpr (by omega)
    · rw [mem_freeFrames_holeTable]
      omega
  intro hgap
  rcases hgap 256 1 hblock with hlong | hall
  · omega
  · have hbehind := hall ((mem_freeFrames_holeTable 258).mpr (Or.inr rfl))
    rw [Finset.mem_Ico] at hbehind
    omega

end Nadir
