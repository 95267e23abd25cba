import Nadir.Kmalloc.FirstFit

/-!
# What becomes of the runs

The heap cuts runs and never joins them. A block that is freed is the first one to be taken again
by a request of its size, which leaves the list as it was before the block was freed. And once no
run is longer than some number of frames, free or held, no request for more is ever served again,
whatever is freed.
-/

namespace Nadir

open ByteMem Tiling Transition

variable {lo n : ℕ}

/-- The heap represents an arena without runs of more than `m` frames. -/
def HeapState.WithinFrames (lo n m : ℕ) (s : HeapState) : Prop :=
  ∃ a : Arena lo n, s.Represents a ∧ a.Within m

theorem HeapState.WithinFrames.step {s s' : HeapState} {m : ℕ} {op : HeapOp} (hp : PoolOk lo n)
    (h : s.WithinFrames lo n m) (hstep : HeapStep s op s') : s'.WithinFrames lo n m := by
  obtain ⟨a, hr, hm⟩ := h
  cases hstep with
  | kmalloc fuel hsize hrun =>
    obtain ⟨rfl, rfl⟩ | ⟨t, rest, hfit, hne, _, hrep, _⟩ := hr.kmalloc_cases hp hsize hrun
    · exact ⟨a, ⟨hr.heap, hr.live⟩, hm⟩
    · rw [if_neg hne]
      exact ⟨_, hrep, hm.alloc _ hfit⟩
  | kfree hlive hrun =>
    obtain ⟨r, hmem, _, hrep, _⟩ := hr.kfree_cases hp hlive hrun
    exact ⟨_, hrep, hm.release hmem⟩
  | @write b addr v hlive hin =>
    obtain ⟨hrep, _⟩ := @HeapState.Represents.write _ _ _ _ hp hr _ _ v hlive hin
    exact ⟨a, hrep, hm⟩

/-- What a bound on the runs means for the blocks, the list and the requests. -/
structure HeapState.Fragmented (s : HeapState) (m : ℕ) : Prop where
  free : ∀ rs, s.heap.Lists rs → ∀ r ∈ rs, r.len ≤ m
  blocks : ∀ b ∈ s.live, b.frames ≤ m
  fail : ∀ size : UInt64, size.toNat + 16 + 4095 < 2 ^ 64 → m < framesNeeded size.toNat →
    ∀ rs, s.heap.Lists rs → ∀ fuel > rs.length, kmalloc fuel size s.heap = .ok (s.heap, 0)

theorem HeapState.WithinFrames.fragmented {s : HeapState} {m : ℕ} (hp : PoolOk lo n)
    (h : s.WithinFrames lo n m) : s.Fragmented m := by
  obtain ⟨a, hr, hm⟩ := h
  have hlists := hr.lists hp
  have heq : ∀ rs, s.heap.Lists rs → rs = a.free :=
    fun rs hrs => hrs.chain.unique hlists.chain hrs.ok hlists.ok
  rw [Arena.Within, List.forall_mem_append] at hm
  refine ⟨fun rs hrs => heq rs hrs ▸ hm.1, fun b hb => ?_, fun size hsize hlong rs hrs fuel hfuel =>
    ?_⟩
  · obtain ⟨r, hmem, rfl⟩ := hr.exists_run hb
    exact hm.2 r hmem
  · rw [heq rs hrs] at hfuel
    exact hr.kmalloc_fail hp hsize (fun r hmem => (hm.1 r hmem).trans_lt hlong) hfuel

theorem HeapState.Represents.withinFrames {s : HeapState} {a : Arena lo n} (hp : PoolOk lo n)
    (hr : s.Represents a) {m : ℕ} {rs : List Run} (hrs : s.heap.Lists rs)
    (hfree : ∀ r ∈ rs, r.len ≤ m) (hblocks : ∀ b ∈ s.live, b.frames ≤ m) :
    s.WithinFrames lo n m := by
  have hlists := hr.lists hp
  have heq : rs = a.free := hrs.chain.unique hlists.chain hrs.ok hlists.ok
  refine ⟨a, hr, ?_⟩
  rw [Arena.Within, List.forall_mem_append]
  refine ⟨heq ▸ hfree, fun r hmem => ?_⟩
  exact hblocks (Block.ofRun r) (hr.live.mem_iff.mpr (List.mem_map_of_mem hmem))

theorem HeapState.WithinFrames.steps {s s' : HeapState} {m : ℕ} {ops : List HeapOp}
    (hp : PoolOk lo n) (h : s.WithinFrames lo n m) (hsteps : Steps HeapStep s ops s') :
    s'.WithinFrames lo n m := by
  apply hsteps.invariant _ h
  intro t op u ht hstep
  exact ht.step hp hstep

/-- In every state that clients reach, if no free run and no block has more than `m` frames then
none ever will have, and every later request for more than `m` frames fails. -/
theorem heap_stays_fragmented (p : Pmm) (h₀ : Heap) :
    ∃ p' h, kmallocInit p h₀ = .ok (p', h) ∧
      ∀ ops s, Steps HeapStep ⟨h, []⟩ ops s → ∀ rs m, s.heap.Lists rs →
        (∀ r ∈ rs, r.len ≤ m) → (∀ b ∈ s.live, b.frames ≤ m) →
        ∀ later s', Steps HeapStep s later s' →
          (∃ rs', s'.heap.Lists rs') ∧
          (∀ rs', s'.heap.Lists rs' → ∀ r ∈ rs', r.len ≤ m) ∧ (∀ b ∈ s'.live, b.frames ≤ m) ∧
          ∀ size : UInt64, size.toNat + 16 + 4095 < 2 ^ 64 → m < framesNeeded size.toNat →
            ∀ rs', s'.heap.Lists rs' → ∀ fuel > rs'.length,
              kmalloc fuel size s'.heap = .ok (s'.heap, 0) := by
  obtain ⟨p', h, lo, n, a, hinit, hstart⟩ := kmallocInit_spec p h₀
  refine ⟨p', h, hinit, fun ops s hrun rs m hrs hfree hblocks later s' hlater => ?_⟩
  have hp := hstart.pool
  obtain ⟨a', hrep⟩ := hstart.sound.steps hp hrun
  have hwithin := (hrep.withinFrames hp hrs hfree hblocks).steps hp hlater
  have hfragmented := hwithin.fragmented hp
  obtain ⟨a'', hrep', _⟩ := hwithin
  exact ⟨⟨a''.free, hrep'.lists hp⟩, hfragmented.free, hfragmented.blocks, hfragmented.fail⟩

/-- With 61 frames in one run and three held, no request for 62 frames succeeds again. -/
theorem heap_stays_fragmented_reuse :
    ∃ p' h s s', kmallocInit (pmmInit smallImage 2 acpiTable) ⟨fun _ => 0, 0, 0, 0⟩ =
        .ok (p', h) ∧
      Steps HeapStep ⟨h, []⟩ [.kmalloc 1, .kmalloc 5000] s ∧
      Steps HeapStep s [.kfree ⟨0x100010, 1⟩, .kmalloc 100] s' ∧
      ∀ rs, s'.heap.Lists rs → ∀ fuel > rs.length,
        kmalloc fuel 250000 s'.heap = .ok (s'.heap, 0) := by
  obtain ⟨q, hknown⟩ := kmallocInit_acpiTable ⟨fun _ => 0, 0, 0, 0⟩
  obtain ⟨p', h, hinit, hstays⟩ :=
    heap_stays_fragmented (pmmInit smallImage 2 acpiTable) ⟨fun _ => 0, 0, 0, 0⟩
  rw [hknown] at hinit
  cases hinit
  obtain ⟨s, s', hfirst, hlive, hchain, hlater, _⟩ := exists_reuse ⟨fun _ => 0, 0, 0, 0⟩
  have hlists := hchain.lists_single ⟨by decide, by decide, by decide⟩
  obtain ⟨_, _, _, hfail⟩ := hstays _ s hfirst _ 61 hlists (by simp) (by simp [hlive]) _ s' hlater
  exact ⟨q, _, s, s', hknown, hfirst, hlater, hfail 250000 (by decide) (by decide)⟩

theorem fit_cons_self (r : Run) (rs : List Run) : fit r.len (r :: rs) = some (r, rs) := by
  rw [fit, if_pos le_rfl, if_neg (Nat.lt_irrefl _)]

theorem HeapState.Represents.kmalloc_kfree {s : HeapState} {a : Arena lo n} (hp : PoolOk lo n)
    (hr : s.Represents a) {b : Block} (hb : b ∈ s.live) {size : UInt64}
    (hsize : size.toNat + 16 + 4095 < 2 ^ 64) (hframes : framesNeeded size.toNat = b.frames)
    {fuel : ℕ} (hfuel : a.free.length + 1 < fuel) :
    ∃ h h', Nadir.kfree b.ptr s.heap = .ok h ∧ Nadir.kmalloc fuel size h = .ok (h', b.ptr) ∧
      h'.Lists a.free ∧ kmallocFreeFrames h' = kmallocFreeFrames s.heap ∧
      kmallocUsedFrames h' = kmallocUsedFrames s.heap ∧
      ∀ c ∈ s.live, c ≠ b → ∀ addr, c.Contains addr → h'.mem addr = s.heap.mem addr := by
  obtain ⟨r, hmem, rfl⟩ := hr.exists_run hb
  obtain ⟨h, hfree, hrep, hout⟩ := kfree_spec hp hr.heap hmem
  have hneed : framesNeeded size.toNat = r.len := hframes
  have htake : fit (framesNeeded size.toNat) (a.release r hmem).free = some (r, a.free) := by
    rw [hneed]
    exact fit_cons_self r a.free
  have hlength : (a.release r hmem).free.length < fuel := hfuel
  obtain ⟨hnone, _⟩ | ⟨t, rest, h', hfit, heq, hrep', hout'⟩ := kmalloc_spec hp hrep hsize hlength
  · rw [htake] at hnone
    cases hnone
  · have hsame := Option.some_inj.mp (htake.symm.trans hfit)
    obtain ⟨rfl, rfl⟩ := Prod.mk.inj hsame
    have hlive : totalLen (r :: a.live.erase r) = totalLen a.live :=
      (totalLen_perm (List.perm_cons_erase hmem)).symm
    refine ⟨h, h', hfree, heq, ⟨hrep'.chain, fun q hq => hp.runOk_free a hq⟩,
      hrep'.freeFrames.trans hr.heap.freeFrames.symm, ?_, fun c hc hne addr haddr => ?_⟩
    · rw [kmallocUsedFrames, kmallocUsedFrames, hr.heap.usedFrames, ← hlive]
      exact hrep'.usedFrames
    · have hother : ¬(Block.ofRun r).Contains addr := hr.not_contains hp hc hb hne haddr
      obtain ⟨q, hq, rfl⟩ := hr.exists_run hc
      rw [Block.ofRun_contains (hp.runOk_live a hmem)] at hother
      rw [Block.ofRun_contains (hp.runOk_live a hq)] at haddr
      rw [hout' addr (List.forall_mem_cons.mpr ⟨hother, fun f hf hfaddr =>
        not_inRun_of_apart (a.apart_free_live hf hq) hfaddr haddr⟩)]
      exact hout addr hother

/-- In every state that clients reach, `kfree` of a block and then `kmalloc` of a size that takes as
many frames give the block back: the free list and the counters are what they were, and so is
every byte of the other blocks. -/
theorem heap_reuses_block (p : Pmm) (h₀ : Heap) :
    ∃ p' h, kmallocInit p h₀ = .ok (p', h) ∧
      ∀ ops s, Steps HeapStep ⟨h, []⟩ ops s → ∀ rs, s.heap.Lists rs → ∀ b ∈ s.live,
        ∀ size : UInt64, size.toNat + 16 + 4095 < 2 ^ 64 → framesNeeded size.toNat = b.frames →
          ∀ fuel > rs.length + 1, ∃ h₁ h₂, kfree b.ptr s.heap = .ok h₁ ∧
            kmalloc fuel size h₁ = .ok (h₂, b.ptr) ∧ h₂.Lists rs ∧
            kmallocFreeFrames h₂ = kmallocFreeFrames s.heap ∧
            kmallocUsedFrames h₂ = kmallocUsedFrames s.heap ∧
            ∀ c ∈ s.live, c ≠ b → ∀ addr, c.Contains addr → h₂.mem addr = s.heap.mem addr := by
  obtain ⟨p', h, lo, n, a, hinit, hstart⟩ := kmallocInit_spec p h₀
  refine ⟨p', h, hinit, fun ops s hrun rs hrs b hb size hsize hframes fuel hfuel => ?_⟩
  have hp := hstart.pool
  obtain ⟨a', hrep⟩ := hstart.sound.steps hp hrun
  have hlists := hrep.lists hp
  obtain rfl : rs = a'.free := hrs.chain.unique hlists.chain hrs.ok hlists.ok
  exact hrep.kmalloc_kfree hp hb hsize hframes hfuel

theorem heap_reuses_block_reuse :
    ∃ p' h s, kmallocInit (pmmInit smallImage 2 acpiTable) ⟨fun _ => 0, 0, 0, 0⟩ = .ok (p', h) ∧
      Steps HeapStep ⟨h, []⟩ [.kmalloc 1, .kmalloc 5000] s ∧
      ∃ h₁ h₂, kfree 0x101010 s.heap = .ok h₁ ∧ kmalloc 3 5000 h₁ = .ok (h₂, 0x101010) ∧
        h₂.Lists [⟨259, 61⟩] := by
  obtain ⟨q, hknown⟩ := kmallocInit_acpiTable ⟨fun _ => 0, 0, 0, 0⟩
  obtain ⟨p', h, hinit, hreuses⟩ :=
    heap_reuses_block (pmmInit smallImage 2 acpiTable) ⟨fun _ => 0, 0, 0, 0⟩
  rw [hknown] at hinit
  cases hinit
  obtain ⟨s, s', hfirst, hlive, hchain, _⟩ := exists_reuse ⟨fun _ => 0, 0, 0, 0⟩
  have hlists := hchain.lists_single ⟨by decide, by decide, by decide⟩
  have hheld : ⟨0x101010, 2⟩ ∈ s.live := by
    rw [hlive]
    exact List.mem_cons_self
  obtain ⟨h₁, h₂, hfree, hagain, hsame, _⟩ :=
    hreuses _ s hfirst _ hlists _ hheld 5000 (by decide) (by decide) 3 (by decide)
  exact ⟨q, _, s, hknown, hfirst, h₁, h₂, hfree, hagain, hsame⟩

end Nadir
