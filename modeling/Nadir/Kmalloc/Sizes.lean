import Nadir.Kmalloc.Calls
import Nadir.Kmalloc.Pool
import Nadir.Allocators

/-!
# Requests of any size

`frames_for` adds the header and a frame less one byte in 64-bit arithmetic. Within 4111 bytes of
the top of the word the sum wraps and the request is taken for none or one frame. For every other
size `kmalloc` serves the request or fails; for these it hands out the first run of the list.
-/

namespace Nadir

open ByteMem Tiling Transition

def Heap.WellFormed (h : Heap) (pool : Finset ℕ) : Prop :=
  ∃ rs, h.Lists rs ∧ rs.Pairwise Run.Apart ∧
    ∀ r ∈ rs, Finset.Ico r.start (r.start + r.len) ⊆ pool

/-- The answer of `kmalloc` is a run of the pool that holds the header and the bytes asked for. -/
def Heap.Holds (h : Heap) (pool : Finset ℕ) (size ptr : UInt64) : Prop :=
  ∃ r : Run, ptr = (Block.ofRun r).ptr ∧ Finset.Ico r.start (r.start + r.len) ⊆ pool ∧
    (load64 h.mem (4096 * r.start + 8)).toNat = r.len ∧ 16 + max size.toNat 1 ≤ 4096 * r.len

/-- `kmalloc` keeps its contract for the request. -/
def HeapState.Serves (s : HeapState) (pool : Finset ℕ) (size : UInt64) : Prop :=
  ∃ fuel h ptr, kmalloc fuel size s.heap = .ok (h, ptr) ∧ h.WellFormed pool ∧
    (ptr = 0 ∧ h = s.heap ∨ h.Holds pool size ptr)

theorem framesFor_of_wrap {size : UInt64} (h : 2 ^ 64 ≤ size.toNat + 16 + 4095) :
    (framesFor size).toNat ≤ 1 := by
  have hlt := size.toNat_lt
  have hne : size ≠ 0 := by
    rintro rfl
    rw [UInt64.toNat_zero] at h
    omega
  simp only [framesFor, if_neg hne, headerSize, pmmFrameSize, UInt64.toNat_div,
    UInt64.toNat_sub, UInt64.toNat_add, UInt64.reduceToNat]
  omega

variable {lo n : ℕ}

/-- A request of no frames takes the first run, splits nothing off it, and writes a header that
counts no frames over the node, which stays in the list. -/
theorem kmalloc_zero_frames {h : Heap} {r : Run} {rs : List Run} (hr : RunOk r)
    (hc : FreeChain h.mem h.gFreeList (r :: rs)) {size : UInt64} (hneed : framesFor size = 0) :
    ∃ h', kmalloc 1 size h = .ok (h', (Block.ofRun r).ptr) ∧
      load64 h'.mem (4096 * r.start + 8) = 0 := by
  have hlt := hr.start_lt
  have hne := frameAddr_ne_zero hlt hr.pos.ne'
  obtain ⟨hhead, hlen, _⟩ := hc
  have hfits : UInt64.ofNat r.len ≥ 0 := (ofNat_len_ge_iff hr 0).mpr (Nat.zero_le _)
  have hsplit : UInt64.ofNat r.len > 0 := (ofNat_len_gt_iff hr 0).mpr hr.len
  have htail : frameAddr r.start + 0 * pmmFrameSize = frameAddr r.start := by
    rw [UInt64.zero_mul, UInt64.add_zero]
  rw [kmalloc, hneed]
  simp only [kmallocWalk, Heap.loadLink, hhead, bind, Except.bind, if_neg hne,
    Heap.load_frameAddr_add_eight _ hlt, hlen, if_pos hfits, kmallocTake, kmallocUnlink,
    if_pos hsplit, kmallocSplit, htail, Heap.load_frameAddr _ hlt, Heap.store_frameAddr _ hlt,
    Heap.store_frameAddr_add_eight _ hlt, Heap.storeLink, pure, Except.pure]
  exact ⟨_, rfl, load64_store64_self _ _ _⟩

/-- A size that wraps is given the first run, with a header that counts at most one frame. -/
theorem Heap.Represents.kmalloc_wrap (hp : PoolOk lo n) {h : Heap} {a : Arena lo n}
    (hrep : h.Represents a) {size : UInt64} (hsize : ¬ h.Rounds size) :
    ∃ r h' fuel, RunOk r ∧ kmalloc fuel size h = .ok (h', (Block.ofRun r).ptr) ∧
      (load64 h'.mem (4096 * r.start + 8)).toNat ≤ 1 := by
  rw [Heap.Rounds, not_or, Nat.not_lt] at hsize
  have hneed := framesFor_of_wrap hsize.1
  have hok : ∀ r ∈ a.free, RunOk r :=
    fun r hmem => hp.runOk_free a hmem
  have hchain := hrep.chain
  have hpairwise := a.pairwise_free
  cases hfree : a.free with
  | nil =>
    rw [hfree] at hchain
    exact absurd hchain hsize.2
  | cons r rs =>
    rw [hfree] at hchain hok hpairwise
    have hr := hok r List.mem_cons_self
    rcases Nat.le_one_iff_eq_zero_or_eq_one.mp hneed with hzero | hone
    · have hzero' : framesFor size = 0 := UInt64.toNat_inj.mp hzero
      obtain ⟨h', hrun, hframes⟩ := kmalloc_zero_frames hr hchain hzero'
      refine ⟨r, h', 1, hr, hrun, ?_⟩
      rw [hframes, UInt64.toNat_zero]
      exact Nat.zero_le 1
    · have hpos : 0 < (framesFor size).toNat := by omega
      have hfits : (framesFor size).toNat ≤ r.len := hone ▸ hr.len
      obtain ⟨hnone, _⟩ | ⟨t, rest, h', hfit, hwalk, htaken⟩ :=
        kmallocWalk_spec hpos LinkOf.head hok hpairwise hchain (Nat.lt_succ_self _)
      · rw [fit, if_pos hfits] at hnone
        cases hnone
      · have hlen : t.len = 1 := (fit_len hfit).trans hone
        rw [fit, if_pos hfits] at hfit
        cases hfit
        have hframes := htaken.frames
        rw [hlen] at hframes
        exact ⟨r, h', _, hr, hwalk, by rw [hframes]; exact le_rfl⟩

theorem Heap.Represents.wellFormed (hp : PoolOk lo n) {h : Heap} {a : Arena lo n}
    (hrep : h.Represents a) : h.WellFormed (Finset.Ico lo (lo + n)) := by
  have hok : ∀ r ∈ a.free, RunOk r :=
    fun r hmem => hp.runOk_free a hmem
  refine ⟨a.free, ⟨hrep.chain, hok⟩, a.pairwise_free, fun r hmem => ?_⟩
  have hbounds := a.bounds_free hmem
  exact Finset.Ico_subset_Ico hbounds.1 hbounds.2

theorem HeapState.Represents.serves {s : HeapState} {a : Arena lo n} (hp : PoolOk lo n)
    (hr : s.Represents a) {size : UInt64} (hsize : s.heap.Rounds size) :
    s.Serves (Finset.Ico lo (lo + n)) size := by
  rcases hsize with hsize | hnull
  · obtain ⟨_, heq⟩ | ⟨t, rest, h, hfit, heq, hrep, _⟩ :=
      kmalloc_spec hp hr.heap hsize (Nat.lt_succ_self a.free.length)
    · exact ⟨_, _, _, heq, hr.heap.wellFormed hp, Or.inl ⟨rfl, rfl⟩⟩
    · have htlive : t ∈ (a.alloc (framesNeeded_pos size.toNat) hfit).live := List.mem_cons_self
      have htok := hp.runOk_live (a.alloc (framesNeeded_pos size.toNat) hfit) htlive
      have hbounds := (a.alloc (framesNeeded_pos size.toNat) hfit).bounds_live htlive
      refine ⟨_, _, _, heq, hrep.wellFormed hp, Or.inr ⟨t, rfl, ?_, ?_, ?_⟩⟩
      · exact Finset.Ico_subset_Ico hbounds.1 hbounds.2
      · rw [(hrep.header t htlive).2, ofNat_len_toNat htok]
      · rw [fit_len hfit]
        exact le_framesNeeded size.toNat
  · exact ⟨1, _, _, kmalloc_of_null hnull size 0, hr.heap.wellFormed hp, Or.inl ⟨rfl, rfl⟩⟩

theorem HeapState.Serves.rounds {s : HeapState} {a : Arena lo n} (hp : PoolOk lo n)
    (hr : s.Represents a) {size : UInt64} (hserves : s.Serves (Finset.Ico lo (lo + n)) size) :
    s.heap.Rounds size := by
  by_contra hsize
  obtain ⟨r, h', fuel', hrok, hrun', hframes⟩ := hr.heap.kmalloc_wrap hp hsize
  obtain ⟨fuel, h, ptr, hrun, _, hanswer⟩ := hserves
  have hmore := kmallocWalk_mono (Nat.le_max_left fuel fuel') hrun
  have hmore' := kmallocWalk_mono (Nat.le_max_right fuel fuel') hrun'
  rw [hmore] at hmore'
  cases hmore'
  rcases hanswer with ⟨hnull, _⟩ | ⟨q, hptr, hpool, hlen, hbytes⟩
  · exact Block.ofRun_ptr_ne_zero hrok hnull
  · have hq : q.start ∈ Finset.Ico lo (lo + n) :=
      hpool (Finset.mem_Ico.mpr ⟨le_rfl, by omega⟩)
    rw [Finset.mem_Ico] at hq
    have hmax := hp.le
    have hstart : r.start = q.start :=
      (frameAddr_inj hrok.start_lt (by omega)).mp ((UInt64.add_left_inj headerSize).mp hptr)
    rw [← hstart] at hlen
    rw [Heap.Rounds, not_or, Nat.not_lt] at hsize
    omega

/-- In every state a run reaches, `kmalloc` keeps its contract for exactly the sizes whose
rounding stays in the word, and for all sizes once the list is empty. -/
theorem kmalloc_serves_iff (p : Pmm) (h₀ : Heap) :
    ∃ p' h, kmallocInit p h₀ = .ok (p', h) ∧
      ∀ calls s, Steps CallStep ⟨⟨h, []⟩, []⟩ calls s → ∀ size,
        s.Serves (heapPool h) size ↔ s.heap.Rounds size := by
  obtain ⟨p', h, lo, n, a, hinit, hstart⟩ := kmallocInit_spec p h₀
  refine ⟨p', h, hinit, fun calls s hrun size => ?_⟩
  have hp := hstart.pool
  obtain ⟨a', hr⟩ := hstart.callSound.steps hp hrun
  rw [hstart.heapPool_eq]
  constructor
  · exact HeapState.Serves.rounds hp hr.state
  · exact hr.state.serves hp

/-- Right after initialization a request of 2^64 - 1 bytes is given one frame. -/
theorem not_serves_max :
    ∃ p' h, kmallocInit (pmmInit smallImage 2 holeTable) ⟨fun _ => 0, 0, 0, 0⟩ = .ok (p', h) ∧
      ¬ HeapState.Serves ⟨h, []⟩ (heapPool h) 0xFFFFFFFFFFFFFFFF := by
  have hleast : IsLeast (freeFrames (pmmInit smallImage 2 holeTable) : Set ℕ) 256 := by
    constructor
    · exact Finset.mem_coe.mpr ((mem_freeFrames_holeTable 256).mpr (Or.inl rfl))
    · intro frame hmem
      have hframe := (mem_freeFrames_holeTable frame).mp (Finset.mem_coe.mp hmem)
      omega
  obtain ⟨j, q, htaken, _⟩ := kmallocInit_taken hleast (by omega) ⟨fun _ => 0, 0, 0, 0⟩
  obtain ⟨p', h, lo, n, a, hinit, hstart⟩ :=
    kmallocInit_spec (pmmInit smallImage 2 holeTable) ⟨fun _ => 0, 0, 0, 0⟩
  refine ⟨p', h, hinit, fun hserves => ?_⟩
  have hlist : h.gFreeList = frameAddr 256 := by
    rw [htaken] at hinit
    cases hinit
    rfl
  rw [hstart.heapPool_eq] at hserves
  obtain ⟨a', hr⟩ := hstart.sound
  rcases hserves.rounds hstart.pool hr with hfits | hnull
  · have hmax : (0xFFFFFFFFFFFFFFFF : UInt64).toNat = 2 ^ 64 - 1 := rfl
    rw [hmax] at hfits
    omega
  · exact frameAddr_ne_zero (show 256 < pmmMaxFrames by unfold pmmMaxFrames; omega) (by omega)
      (hlist.symm.trans hnull)

end Nadir
