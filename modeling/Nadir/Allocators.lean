import Nadir.Kmalloc.Partition

/-!
# The two allocators together

`kmalloc_init` takes its frames from the frame allocator once. Afterwards frame clients and heap
clients interleave: a frame client allocates, frees and writes the frames it holds, a heap client
does what `HeapStep` allows. No frame then has two owners among the free frames, the frames held
and the heap's pool.
-/

namespace Nadir

open ByteMem Tiling Transition

/-- Both allocators with their clients. The memory is the heap's; frame clients write there too. -/
structure Allocators where
  frames : PmmClient
  heap : HeapState

inductive AllocatorOp where
  | pmmAllocFrame
  | pmmFreeFrame (addr : UInt64)
  | writeFrame (addr : UInt64) (b : ℕ) (v : UInt8)
  | heap (op : HeapOp)

inductive AllocatorStep : Allocators → AllocatorOp → Allocators → Prop
  | pmmAllocFrame {s : Allocators} :
      AllocatorStep s .pmmAllocFrame { s with frames := s.frames.alloc }
  | pmmFreeFrame {s : Allocators} {addr : UInt64} (hne : addr ≠ 0) (hheld : addr ∈ s.frames.held) :
      AllocatorStep s (.pmmFreeFrame addr) { s with frames := s.frames.free addr }
  | writeFrame {s : Allocators} {addr : UInt64} {b : ℕ} {v : UInt8}
      (hheld : addr ∈ s.frames.held) (hlo : addr.toNat ≤ b) (hhi : b < addr.toNat + 4096) :
      AllocatorStep s (.writeFrame addr b v)
        ⟨s.frames, ⟨{ s.heap.heap with mem := Function.update s.heap.heap.mem b v }, s.heap.live⟩⟩
  | heap {s : Allocators} {op : HeapOp} {t : HeapState} (hstep : HeapStep s.heap op t) :
      AllocatorStep s (.heap op) { s with heap := t }

/-- The frames of the heap that `kmalloc_init` left. -/
def heapPool (h : Heap) : Finset ℕ :=
  Finset.Ico (h.gFreeList.toNat / 4096) (h.gFreeList.toNat / 4096 + h.gFreeFrames.toNat)

/-- No frame has two owners, and no allocator hands out what is not its own. -/
structure Allocators.Exclusive (pool : Finset ℕ) (s : Allocators) : Prop where
  used : ∀ frame ∈ pool, testBit s.frames.pmm.bitmap frame = true
  alloc_notMem : (pmmAllocFrame s.frames.pmm).2.toNat / 4096 ∉ pool
  kmalloc_mem : ∀ fuel size h ptr, size.toNat + 16 + 4095 < 2 ^ 64 →
    kmalloc fuel size s.heap.heap = .ok (h, ptr) → ptr ≠ 0 →
    (∀ addr, Block.Contains ⟨ptr, (framesFor size).toNat⟩ addr → addr / 4096 ∈ pool) ∧
    ∀ addr, ptr.toNat ≤ addr → addr < ptr.toNat + size.toNat → addr / 4096 ∈ pool
  block_mem : ∀ b ∈ s.heap.live, ∀ addr, b.Contains addr → addr / 4096 ∈ pool
  free_held : Disjoint (freeFrames s.frames.pmm) s.frames.heldFrames
  free_pool : Disjoint (freeFrames s.frames.pmm) pool
  held_pool : Disjoint s.frames.heldFrames pool

variable {lo n : ℕ}

/-- The joint invariant: both halves are sound, and no frame the clients can hold is in the
pool. -/
structure Allocators.Sound (p : Pmm) (lo n : ℕ) (s : Allocators) : Prop where
  frames : PmmClient.Reachable p s.frames
  heap : s.heap.Sound lo n

theorem HeapState.Represents.block_mem {s : HeapState} {a : Arena lo n} (hp : PoolOk lo n)
    (hr : s.Represents a) {b : Block} (hb : b ∈ s.live) {addr : ℕ} (h : b.Contains addr) :
    addr / 4096 ∈ Finset.Ico lo (lo + n) := by
  obtain ⟨r, hmem, rfl⟩ := hr.exists_run hb
  have hbounds := a.bounds_live hmem
  rw [Block.ofRun_contains (hp.runOk_live a hmem), InRun] at h
  rw [Finset.mem_Ico]
  omega

theorem HeapState.Represents.congr {s : HeapState} {a : Arena lo n} (hp : PoolOk lo n)
    (hr : s.Represents a) {m : Mem}
    (hsame : ∀ b, b / 4096 ∈ Finset.Ico lo (lo + n) → m b = s.heap.mem b) :
    HeapState.Represents ⟨{ s.heap with mem := m }, s.live⟩ a := by
  refine ⟨hr.heap.congr hp (fun r hmem b hb => ?_) (fun r hmem b hlo hhi => ?_), hr.live⟩
  · have hbounds := a.bounds_free hmem
    unfold InRun at hb
    exact hsame b (Finset.mem_Ico.mpr (by omega))
  · have hbounds := a.bounds_live hmem
    have hlen := a.tiles.pos r (List.mem_append_right _ hmem)
    exact hsame b (Finset.mem_Ico.mpr (by omega))

theorem HeapState.Sound.kmalloc_mem {s : HeapState} (hp : PoolOk lo n) (hs : s.Sound lo n)
    {fuel : ℕ} {size ptr : UInt64} {h : Heap} (hsize : size.toNat + 16 + 4095 < 2 ^ 64)
    (hrun : kmalloc fuel size s.heap = .ok (h, ptr)) (hne : ptr ≠ 0) :
    (∀ addr, Block.Contains ⟨ptr, (framesFor size).toNat⟩ addr →
      addr / 4096 ∈ Finset.Ico lo (lo + n)) ∧
    ∀ addr, ptr.toNat ≤ addr → addr < ptr.toNat + size.toNat →
      addr / 4096 ∈ Finset.Ico lo (lo + n) := by
  obtain ⟨a, hr⟩ := hs
  obtain ⟨a', hrep, _⟩ := hr.kmalloc hp hsize hrun
  rw [if_neg hne] at hrep
  have hblock : ∀ addr, Block.Contains ⟨ptr, (framesFor size).toNat⟩ addr →
      addr / 4096 ∈ Finset.Ico lo (lo + n) :=
    fun addr haddr => hrep.block_mem hp List.mem_cons_self haddr
  refine ⟨hblock, fun addr hlo hhi => hblock addr ?_⟩
  have hfits := le_framesNeeded size.toNat
  rw [Block.Contains, Block.hdr, framesFor_toNat hsize]
  simp only [headerSize, UInt64.reduceToNat]
  omega

variable {p₀ p : Pmm} {h : Heap} {a : Arena lo n}

theorem HeapStart.heapPool_eq (hs : HeapStart p₀ p h a) : heapPool h = Finset.Ico lo (lo + n) := by
  have hle := hs.le
  have hmax := hs.pool.le
  have hn : h.gFreeFrames.toNat = n := by
    rw [hs.frames, UInt64.toNat_ofNat']
    omega
  rw [heapPool, hn, hs.list]
  by_cases hzero : n = 0
  · rw [hzero, Finset.Ico_eq_empty_of_le (by omega), Finset.Ico_eq_empty_of_le (by omega)]
  · rw [if_neg hzero, frameAddr_div (by omega)]

/-- The transfer at the start: no frame left free belongs to the pool. -/
theorem HeapStart.disjoint (hs : HeapStart p₀ p h a) :
    Disjoint (freeFrames p) (Finset.Ico lo (lo + n)) := by
  rw [Finset.disjoint_right]
  intro frame hmem
  rw [Finset.mem_Ico] at hmem
  exact (hs.taken frame hmem.1 hmem.2).2

theorem Allocators.Sound.step (hs : HeapStart p₀ p h a) (hexact : CounterExact p)
    (h0 : 0 ∉ freeFrames p) {s s' : Allocators} {op : AllocatorOp} (hsound : s.Sound p lo n)
    (hstep : AllocatorStep s op s') : s'.Sound p lo n := by
  cases hstep with
  | pmmAllocFrame => exact ⟨hsound.frames.alloc, hsound.heap⟩
  | pmmFreeFrame hne hheld => exact ⟨hsound.frames.free hne hheld, hsound.heap⟩
  | @writeFrame addr b v hheld hlo hhi =>
    obtain ⟨a', hrep⟩ := hsound.heap
    obtain ⟨o, ho⟩ := hsound.frames.represents hexact h0
    obtain ⟨frame, hown, rfl⟩ := (ho.mem_held addr).mp hheld
    have hfree : frame ∈ freeFrames p := o.held_subset hown
    have hframe : b / 4096 = frame := by
      rw [frameAddr_toNat (lt_of_mem_freeFrames hfree)] at hlo hhi
      omega
    have hout : b / 4096 ∉ Finset.Ico lo (lo + n) := by
      rw [hframe]
      exact Finset.disjoint_left.mp hs.disjoint hfree
    refine ⟨hsound.frames, a', hrep.congr hs.pool fun b' hb' => Function.update_of_ne ?_ _ _⟩
    rintro rfl
    exact hout hb'
  | heap hstep =>
    obtain ⟨a', hrep⟩ := hsound.heap
    exact ⟨hsound.frames, (hrep.step hs.pool hstep).1⟩

theorem Allocators.Sound.exclusive (hs : HeapStart p₀ p h a) (hexact : CounterExact p)
    (h0 : 0 ∉ freeFrames p) {s : Allocators} (hsound : s.Sound p lo n) :
    s.Exclusive (Finset.Ico lo (lo + n)) := by
  have hexcl := hsound.frames.exclusive hexact h0
  have hfree : freeFrames s.frames.pmm ⊆ freeFrames p :=
    Finset.subset_union_left.trans hexcl.union_eq.subset
  have hheld : s.frames.heldFrames ⊆ freeFrames p :=
    Finset.subset_union_right.trans hexcl.union_eq.subset
  have hfreePool := Finset.disjoint_of_subset_left hfree hs.disjoint
  refine ⟨fun frame hmem => ?_, ?_, fun fuel size h ptr hsize hrun hne =>
    hsound.heap.kmalloc_mem hs.pool hsize hrun hne, fun b hb addr haddr => ?_, hexcl.disjoint,
    hfreePool, Finset.disjoint_of_subset_left hheld hs.disjoint⟩
  · have hlt : frame < pmmMaxFrames := by
      have hmax := hs.pool.le
      rw [Finset.mem_Ico] at hmem
      omega
    exact (testBit_eq_true_iff hlt).mpr (Finset.disjoint_right.mp hfreePool hmem)
  · by_cases hzero : (pmmAllocFrame s.frames.pmm).2 = 0
    · have hpos := hs.pool.pos
      rw [hzero, Finset.mem_Ico]
      simp only [UInt64.toNat_zero, Nat.zero_div]
      omega
    · obtain ⟨frame, hleast, haddr, _⟩ := hexcl.result _ rfl hzero
      rw [haddr, Nat.mul_div_cancel_left _ (by omega)]
      exact Finset.disjoint_left.mp hfreePool (Finset.mem_coe.mp hleast.1)
  · obtain ⟨a', hrep⟩ := hsound.heap
    exact hrep.block_mem hs.pool hb haddr

/-- After `pmm_init` and `kmalloc_init`, in every interleaving of frame clients and heap clients,
free frames, held frames and the heap's pool are pairwise disjoint. -/
theorem allocators_exclusive (k : KernelImage) (count : UInt32) (t : E820Table) (h₀ : Heap) :
    ∃ p h, kmallocInit (pmmInit k count t) h₀ = .ok (p, h) ∧
      ∀ ops s, Steps AllocatorStep ⟨⟨p, []⟩, ⟨h, []⟩⟩ ops s → s.Exclusive (heapPool h) := by
  obtain ⟨p, h, lo, n, a, hinit, hstart⟩ := kmallocInit_spec (pmmInit k count t) h₀
  refine ⟨p, h, hinit, fun ops s hrun => ?_⟩
  have hexact : CounterExact p := hstart.counter (reserving_pmmInit k count t).1
  have h0 : 0 ∉ freeFrames p :=
    fun hmem => zero_notMem_freeFrames_pmmInit k count t (hstart.subset hmem)
  have hsound : s.Sound p lo n := by
    apply hrun.invariant _ ⟨.start, hstart.sound⟩
    intro t op u ht hstep
    exact ht.step hstart hexact h0 hstep
  rw [hstart.heapPool_eq]
  exact hsound.exclusive hstart hexact h0

end Nadir
