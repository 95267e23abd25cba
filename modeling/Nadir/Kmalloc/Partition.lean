import Nadir.Kmalloc.Runs

/-!
# The heap partition

In every state a client can reach, the free runs on the list and the blocks held partition the
pool, the headers and both counters are right, and the calls return. A block keeps its bytes
until its owner writes to it or frees it.
-/

namespace Nadir

open ByteMem Tiling Transition

/-- The free runs on the list and the blocks held partition the frames `lo, ..., lo + n - 1`. -/
structure HeapState.Partition (s : HeapState) (lo n : ℕ) (free : List Run) : Prop where
  chain : FreeChain s.heap.mem s.heap.gFreeList free
  acyclic : (free.map Run.start).Nodup
  run : ∀ r ∈ free, 0 < r.len ∧ lo ≤ r.start ∧ r.start < lo + n
  block : ∀ b ∈ s.live, b.hdr = 4096 * b.run.start ∧
    load64 s.heap.mem b.hdr = kmallocMagic ∧ (load64 s.heap.mem (b.hdr + 8)).toNat = b.frames
  apart : (free ++ s.live.map Block.run).Pairwise Run.Apart
  cover : ∀ frame, (∃ r ∈ free ++ s.live.map Block.run, r.Contains frame) ↔
    lo ≤ frame ∧ frame < lo + n
  freeFrames : (kmallocFreeFrames s.heap).toNat = totalLen free
  usedFrames : (kmallocUsedFrames s.heap).toNat = (s.live.map Block.frames).sum
  total : (kmallocFreeFrames s.heap).toNat + (kmallocUsedFrames s.heap).toNat = n
  kmalloc_returns : ∀ size : UInt64, size.toNat + 16 + 4095 < 2 ^ 64 →
    ∃ h ptr, kmalloc (free.length + 1) size s.heap = .ok (h, ptr)
  kfree_returns : ∀ b ∈ s.live, ∃ h, kfree b.ptr s.heap = .ok h

variable {lo n : ℕ}

theorem HeapState.Represents.map_run {s : HeapState} {a : Arena lo n} (hp : PoolOk lo n)
    (hr : s.Represents a) : (s.live.map Block.run).Perm a.live := by
  have hid : (a.live.map Block.ofRun).map Block.run = a.live := by
    have hrun : ∀ r ∈ a.live, (Block.run ∘ Block.ofRun) r = id r :=
      fun r hmem => Block.ofRun_run (hp.runOk_live a hmem)
    rw [List.map_map, List.map_congr_left hrun, List.map_id]
  exact hid ▸ hr.live.map Block.run

theorem HeapState.Represents.partition {s : HeapState} {a : Arena lo n} (hp : PoolOk lo n)
    (hr : s.Represents a) : s.Partition lo n a.free := by
  have hruns := hr.map_run hp
  have htiles : Tiles lo n (a.free ++ s.live.map Block.run) :=
    a.tiles.perm (hruns.symm.append_left a.free)
  have htotal := a.totalLen_free_add_live
  have hle := hp.le
  unfold pmmMaxFrames at hle
  have hfree : (kmallocFreeFrames s.heap).toNat = totalLen a.free := by
    rw [kmallocFreeFrames, hr.heap.freeFrames, UInt64.toNat_ofNat']
    omega
  have hused : (kmallocUsedFrames s.heap).toNat = totalLen a.live := by
    rw [kmallocUsedFrames, hr.heap.usedFrames, UInt64.toNat_ofNat']
    omega
  refine ⟨hr.heap.chain, ?_, fun r hmem => ?_, fun b hb => ?_, htiles.pairwise, htiles.mem_iff,
    hfree, ?_, by omega, fun size hsize => ?_, fun b hb => ?_⟩
  · have hstarts := htiles.nodup_starts
    rw [List.map_append] at hstarts
    exact hstarts.of_append_left
  · have hpos := a.tiles.pos r (List.mem_append_left _ hmem)
    have hbounds := a.bounds_free hmem
    omega
  · obtain ⟨r, hmem, rfl⟩ := hr.exists_run hb
    have hrok := hp.runOk_live a hmem
    obtain ⟨hmagic, hframes⟩ := hr.heap.header r hmem
    rw [Block.ofRun_hdr hrok, Block.ofRun_run hrok, hframes]
    exact ⟨rfl, hmagic, ofNat_len_toNat hrok⟩
  · rw [hused, ← totalLen_perm hruns, totalLen, List.map_map]
    rfl
  · obtain ⟨_, heq⟩ | ⟨t, rest, h, hfit, heq, _, _⟩ :=
      kmalloc_spec hp hr.heap hsize (Nat.lt_succ_self a.free.length)
    · exact ⟨_, _, heq⟩
    · exact ⟨_, _, heq⟩
  · obtain ⟨r, hmem, rfl⟩ := hr.exists_run hb
    obtain ⟨h, heq, _, _⟩ := kfree_spec hp hr.heap hmem
    exact ⟨h, heq⟩

theorem HeapState.Sound.steps {s s' : HeapState} {ops : List HeapOp} (hp : PoolOk lo n)
    (hs : s.Sound lo n) (h : Steps HeapStep s ops s') : s'.Sound lo n := by
  apply h.invariant _ hs
  intro t op u ⟨a, hrep⟩ hstep
  exact (hrep.step hp hstep).1

theorem HeapStart.sound {p p' : Pmm} {h : Heap} {a : Arena lo n} (hs : HeapStart p p' h a) :
    HeapState.Sound lo n ⟨h, []⟩ :=
  ⟨a, hs.heap, by rw [hs.live, List.map_nil]⟩

/-- In every run over the pool `kmalloc_init` sets up, free runs and blocks held partition the
pool, with right headers and counters, and every further call returns. -/
theorem heap_partition (p : Pmm) (h₀ : Heap) :
    ∃ p' h, kmallocInit p h₀ = .ok (p', h) ∧ (h.gFreeFrames ≠ 0 →
      ∀ ops s, Steps HeapStep ⟨h, []⟩ ops s →
        ∃ free, s.Partition (h.gFreeList.toNat / 4096) h.gFreeFrames.toNat free) := by
  obtain ⟨p', h, lo, n, a, hinit, hstart⟩ := kmallocInit_spec p h₀
  refine ⟨p', h, hinit, fun hpool ops s hrun => ?_⟩
  have hp := hstart.pool
  have hle := hstart.le
  have hn : h.gFreeFrames.toNat = n := by
    rw [hstart.frames, UInt64.toNat_ofNat']
    omega
  have hpos : n ≠ 0 := by
    rintro rfl
    exact hpool hstart.frames
  have hlo : h.gFreeList.toNat / 4096 = lo := by
    have hmax := hp.le
    rw [hstart.list, if_neg hpos, frameAddr_div (by omega)]
  rw [hn, hlo]
  obtain ⟨a', hrep⟩ := hstart.sound.steps hp hrun
  exact ⟨a'.free, hrep.partition hp⟩

/-- 64 frames, two of their runs split off and the first one used again. -/
theorem heap_partition_reuse :
    ∃ p' h s free, kmallocInit (pmmInit smallImage 2 acpiTable) ⟨fun _ => 0, 0, 0, 0⟩ =
        .ok (p', h) ∧
      Steps HeapStep ⟨h, []⟩
        [.kmalloc 1, .kmalloc 5000, .kfree ⟨0x100010, 1⟩, .kmalloc 100] s ∧
      s.live = [⟨0x100010, 1⟩, ⟨0x101010, 2⟩] ∧ s.Partition 256 64 free := by
  obtain ⟨q, hknown⟩ := kmallocInit_acpiTable ⟨fun _ => 0, 0, 0, 0⟩
  obtain ⟨p', h, hinit, hpartition⟩ :=
    heap_partition (pmmInit smallImage 2 acpiTable) ⟨fun _ => 0, 0, 0, 0⟩
  rw [hknown] at hinit
  cases hinit
  obtain ⟨s, s', hfirst, _, _, hlater, hlive⟩ := exists_reuse ⟨fun _ => 0, 0, 0, 0⟩
  obtain ⟨free, hfree⟩ := hpartition (by decide) _ s' (hfirst.append hlater)
  exact ⟨q, _, s', free, hknown, hfirst.append hlater, hlive, hfree⟩

/-- A block and its header keep their bytes through every run that neither writes to the block
nor frees it. -/
theorem heap_live_undisturbed (p : Pmm) (h₀ : Heap) :
    ∃ p' h, kmallocInit p h₀ = .ok (p', h) ∧
      ∀ ops s, Steps HeapStep ⟨h, []⟩ ops s → ∀ b ∈ s.live,
        ∀ later s', Steps HeapStep s later s' → (∀ op ∈ later, ¬ op.Touches b) →
          s.Keeps s' b := by
  obtain ⟨p', h, lo, n, a, hinit, hstart⟩ := kmallocInit_spec p h₀
  refine ⟨p', h, hinit, fun ops s hrun b hb later s' hlater huntouched => ?_⟩
  have hp := hstart.pool
  have hreached := hstart.sound.steps hp hrun
  have hkeep : ∀ t op u, (t.Sound lo n ∧ s.Keeps t b) → ¬ op.Touches b →
      HeapStep t op u → u.Sound lo n ∧ s.Keeps u b := by
    intro t op u ⟨⟨a', hrep⟩, hlive, hsame⟩ hop hstep
    obtain ⟨hnext, hkeeps⟩ := hrep.step hp hstep
    obtain ⟨hlive', hsame'⟩ := hkeeps b hlive hop
    exact ⟨hnext, hlive', fun addr haddr => (hsame' addr haddr).trans (hsame addr haddr)⟩
  exact (hlater.invariant_of_labels hkeep ⟨hreached, hb, fun _ _ => rfl⟩ huntouched).2

/-- The second block, while the first one is freed and taken again. -/
theorem heap_live_undisturbed_reuse :
    ∃ p' h s s', kmallocInit (pmmInit smallImage 2 acpiTable) ⟨fun _ => 0, 0, 0, 0⟩ =
        .ok (p', h) ∧
      Steps HeapStep ⟨h, []⟩ [.kmalloc 1, .kmalloc 5000] s ∧
      Steps HeapStep s [.kfree ⟨0x100010, 1⟩, .kmalloc 100] s' ∧ s.Keeps s' ⟨0x101010, 2⟩ := by
  obtain ⟨q, hknown⟩ := kmallocInit_acpiTable ⟨fun _ => 0, 0, 0, 0⟩
  obtain ⟨p', h, hinit, hkeeps⟩ :=
    heap_live_undisturbed (pmmInit smallImage 2 acpiTable) ⟨fun _ => 0, 0, 0, 0⟩
  rw [hknown] at hinit
  cases hinit
  obtain ⟨s, s', hfirst, hlive, _, hlater, _⟩ := exists_reuse ⟨fun _ => 0, 0, 0, 0⟩
  have hheld : ⟨0x101010, 2⟩ ∈ s.live := by
    rw [hlive]
    exact List.mem_cons_self
  refine ⟨q, _, s, s', hknown, hfirst, hlater, hkeeps _ s hfirst _ hheld _ s' hlater ?_⟩
  simp [HeapOp.Touches]

end Nadir
