import Nadir.Kmalloc.Walk
import Nadir.Pmm.Exclusive

/-!
# The heap refines an arena

A heap represents an arena of its pool when the list in memory is the arena's free list, every
live run carries its header, and the two counters are the total lengths. `kmalloc` and `kfree`
then act as the arena's first-fit allocation and release, and write to no live block.
-/

namespace Nadir

open ByteMem Tiling

/-- The pool lies inside the window and leaves frame 0 out. -/
structure PoolOk (lo n : ℕ) : Prop where
  pos : 0 < lo
  le : lo + n ≤ pmmMaxFrames

structure Heap.Represents {lo n : ℕ} (h : Heap) (a : Arena lo n) : Prop where
  chain : FreeChain h.mem h.gFreeList a.free
  header : ∀ r ∈ a.live, load64 h.mem (4096 * r.start) = kmallocMagic ∧
    load64 h.mem (4096 * r.start + 8) = UInt64.ofNat r.len
  freeFrames : h.gFreeFrames = UInt64.ofNat (totalLen a.free)
  usedFrames : h.gUsedFrames = UInt64.ofNat (totalLen a.live)

/-- The frames of a request in exact arithmetic: header and payload, rounded up. -/
def framesNeeded (size : ℕ) : ℕ := (max size 1 + 16 + 4095) / 4096

theorem framesNeeded_pos (size : ℕ) : 0 < framesNeeded size := by
  unfold framesNeeded
  omega

theorem le_framesNeeded (size : ℕ) : 16 + max size 1 ≤ 4096 * framesNeeded size := by
  unfold framesNeeded
  omega

theorem framesFor_toNat {size : UInt64} (h : size.toNat + 16 + 4095 < 2 ^ 64) :
    (framesFor size).toNat = framesNeeded size.toNat := by
  have hone : (if size = 0 then (1 : UInt64) else size).toNat = max size.toNat 1 := by
    by_cases hzero : size = 0
    · rw [if_pos hzero, hzero]
      rfl
    · have hne : size.toNat ≠ 0 := fun hz => hzero (UInt64.toNat_inj.mp hz)
      rw [if_neg hzero]
      omega
  simp only [framesFor, headerSize, pmmFrameSize, UInt64.toNat_div, UInt64.toNat_sub,
    UInt64.toNat_add, hone, framesNeeded, UInt64.reduceToNat]
  omega

variable {lo n : ℕ}

theorem PoolOk.runOk (hp : PoolOk lo n) {rs : List Run} (ht : Tiles lo n rs) {r : Run}
    (hr : r ∈ rs) : RunOk r := by
  have hb := ht.bounds hr
  have hpos := hp.pos
  have hle := hp.le
  exact ⟨by omega, ht.pos r hr, by omega⟩

theorem PoolOk.runOk_free (hp : PoolOk lo n) (a : Arena lo n) {r : Run} (hr : r ∈ a.free) :
    RunOk r := hp.runOk a.tiles (List.mem_append_left _ hr)

theorem PoolOk.runOk_live (hp : PoolOk lo n) (a : Arena lo n) {r : Run} (hr : r ∈ a.live) :
    RunOk r := hp.runOk a.tiles (List.mem_append_right _ hr)

theorem ofNat_totalLen_sub {k m : ℕ} (hm : m < 2 ^ 64) (hk : k ≤ m) :
    UInt64.ofNat m - UInt64.ofNat k = UInt64.ofNat (m - k) := by
  rw [← UInt64.toNat_inj, UInt64.toNat_sub_of_le _ _ (by
    rw [UInt64.le_iff_toNat_le, UInt64.toNat_ofNat', UInt64.toNat_ofNat']
    omega)]
  simp only [UInt64.toNat_ofNat']
  omega

theorem ofNat_add_ofNat (k m : ℕ) : UInt64.ofNat m + UInt64.ofNat k = UInt64.ofNat (m + k) :=
  (UInt64.ofNat_add m k).symm

theorem totalLen_fit {need : ℕ} {rs rest : List Run} {t : Run}
    (h : fit need rs = some (t, rest)) : totalLen rs = t.len + totalLen rest := by
  induction rs generalizing rest with
  | nil => cases h
  | cons s rs ih =>
    by_cases hfit : need ≤ s.len
    · rw [fit, if_pos hfit] at h
      cases h
      split_ifs with hcut
      · simp only [totalLen_cons]
        omega
      · simp only [totalLen_cons]
        omega
    · rw [fit, if_neg hfit, Option.map_eq_some_iff] at h
      obtain ⟨p, hp, heq⟩ := h
      cases heq
      simp only [totalLen_cons, ih hp]
      omega

/-- Enough fuel is enough for every run of the walk that answers at all. -/
theorem kmallocWalk_mono {need : UInt64} {fuel fuel' : ℕ} (hle : fuel ≤ fuel') {link : Link}
    {h : Heap} {x : Heap × UInt64} (hx : kmallocWalk need fuel link h = .ok x) :
    kmallocWalk need fuel' link h = .ok x := by
  induction fuel generalizing fuel' link with
  | zero => cases hx
  | succ fuel ih =>
    obtain ⟨fuel', rfl⟩ : ∃ m, fuel' = m + 1 := ⟨fuel' - 1, by omega⟩
    rw [kmallocWalk] at hx ⊢
    cases hlink : h.loadLink link with
    | error e => rw [hlink] at hx; cases hx
    | ok run =>
      simp only [hlink, bind, Except.bind] at hx ⊢
      split_ifs at hx ⊢ with hnull
      · exact hx
      · cases hframes : h.load (run + 8) with
        | error e => rw [hframes] at hx; cases hx
        | ok frames =>
          simp only [hframes] at hx ⊢
          split_ifs at hx ⊢ with hfits
          · exact hx
          · exact ih (by omega) hx

/-- `kmalloc` allocates as first fit does, or fails and changes nothing; it leaves every byte
outside the free runs alone. -/
theorem kmalloc_spec (hp : PoolOk lo n) {h : Heap} {a : Arena lo n} (hr : h.Represents a)
    {size : UInt64} (hsize : size.toNat + 16 + 4095 < 2 ^ 64) {fuel : ℕ}
    (hfuel : a.free.length < fuel) :
    (fit (framesNeeded size.toNat) a.free = none ∧ kmalloc fuel size h = .ok (h, 0)) ∨
    ∃ t rest h', ∃ hfit : fit (framesNeeded size.toNat) a.free = some (t, rest),
      kmalloc fuel size h = .ok (h', frameAddr t.start + headerSize) ∧
      h'.Represents (a.alloc (framesNeeded_pos size.toNat) hfit) ∧
      ∀ b, (∀ r ∈ a.free, ¬ InRun r b) → h'.mem b = h.mem b := by
  have hneed := framesFor_toNat hsize
  have hpos : 0 < (framesFor size).toNat := hneed ▸ framesNeeded_pos size.toNat
  have hok : ∀ r ∈ a.free, RunOk r :=
    fun r hmem => hp.runOk_free a hmem
  obtain ⟨hnone, hwalk⟩ | ⟨t, rest, h', hsome, hwalk, htaken⟩ :=
    kmallocWalk_spec hpos LinkOf.head hok a.pairwise_free hr.chain hfuel
  · exact Or.inl ⟨hneed ▸ hnone, hwalk⟩
  · rw [hneed] at hsome
    have hlen := totalLen_fit hsome
    have htotal := a.totalLen_free_add_live
    have hle := hp.le
    unfold pmmMaxFrames at hle
    have hout : ∀ b, (∀ r ∈ a.free, ¬ InRun r b) → h'.mem b = h.mem b :=
      fun b hb => htaken.frame b (fun hcov => hcov) hb
    refine Or.inr ⟨t, rest, h', hsome, hwalk, ⟨htaken.chain, fun r hmem => ?_, ?_, ?_⟩, hout⟩
    · rcases List.mem_cons.mp hmem with rfl | hmem
      · exact ⟨htaken.magic, htaken.frames⟩
      · have hrok := hp.runOk_live a hmem
        have hsame : ∀ b, 4096 * r.start ≤ b → b < 4096 * r.start + 16 → h'.mem b = h.mem b :=
          fun b hlo hhi => hout b (fun s hs hsb => not_inRun_of_apart (a.apart_free_live hs hmem)
            hsb (InRun.of_header hrok hlo hhi))
        rw [(load64_pair_congr hsame).1, (load64_pair_congr hsame).2]
        exact hr.header r hmem
    · rw [htaken.freeFrames, hr.freeFrames, ofNat_totalLen_sub (by omega) (by omega)]
      congr 1
      change totalLen a.free - t.len = totalLen rest
      omega
    · rw [htaken.usedFrames, hr.usedFrames, ofNat_add_ofNat]
      congr 1
      change totalLen a.live + t.len = totalLen (t :: a.live)
      rw [totalLen_cons, Nat.add_comm]

def Heap.released (h : Heap) (r : Run) : Heap where
  mem := store64 (store64 (store64 h.mem (4096 * r.start) 0) (4096 * r.start) h.gFreeList)
    (4096 * r.start + 8) (UInt64.ofNat r.len)
  gFreeList := frameAddr r.start
  gFreeFrames := h.gFreeFrames + UInt64.ofNat r.len
  gUsedFrames := h.gUsedFrames - UInt64.ofNat r.len

theorem Heap.released_mem (h : Heap) {r : Run} (hr : RunOk r) {b : ℕ} (hb : ¬InRun r b) :
    (h.released r).mem b = h.mem b := by
  have hhdr := InRun.outside_header hr hb
  rw [Heap.released]
  dsimp only
  rw [store64_of_outside _ _ (by omega), store64_of_outside _ _ (by omega),
    store64_of_outside _ _ (by omega)]

theorem kfree_eq_released {h : Heap} {r : Run} (hr : RunOk r)
    (hmagic : load64 h.mem (4096 * r.start) = kmallocMagic)
    (hframes : load64 h.mem (4096 * r.start + 8) = UInt64.ofNat r.len) :
    kfree (frameAddr r.start + headerSize) h = .ok (h.released r) := by
  have hlt := hr.start_lt
  have hne : frameAddr r.start + headerSize ≠ 0 := by
    intro hzero
    have hnat := congrArg UInt64.toNat hzero
    rw [UInt64.toNat_add, frameAddr_toNat hlt] at hnat
    unfold pmmMaxFrames at hlt
    simp only [headerSize, UInt64.reduceToNat] at hnat
    omega
  have hhdr : frameAddr r.start + headerSize - headerSize = frameAddr r.start := by
    exact UInt64.add_sub_cancel _ _
  have hlen : UInt64.ofNat r.len ≠ 0 := by
    intro hzero
    have hnat := ofNat_len_toNat hr
    rw [hzero, UInt64.toNat_zero] at hnat
    exact hr.len.ne hnat
  have hreread : load64 (store64 (store64 h.mem (4096 * r.start) 0) (4096 * r.start) h.gFreeList)
      (4096 * r.start + 8) = UInt64.ofNat r.len := by
    rw [load64_store64_of_disjoint _ _ (by omega), load64_store64_of_disjoint _ _ (by omega),
      hframes]
  simp only [kfree, if_neg hne, hhdr, h.load_frameAddr hlt, hmagic, bind, Except.bind, ne_eq,
    not_true_eq_false, if_false, h.load_frameAddr_add_eight hlt, hframes, if_neg hlen,
    Heap.store_frameAddr _ hlt, Heap.load_frameAddr_add_eight _ hlt, hreread,
    Heap.store_frameAddr_add_eight _ hlt, pure, Except.pure, load64_store64_self]
  rfl

/-- `kfree` of a live block releases its run and writes only its header. -/
theorem kfree_spec (hp : PoolOk lo n) {h : Heap} {a : Arena lo n} (hr : h.Represents a) {r : Run}
    (hmem : r ∈ a.live) :
    ∃ h', kfree (frameAddr r.start + headerSize) h = .ok h' ∧
      h'.Represents (a.release r hmem) ∧
      ∀ b, ¬ InRun r b → h'.mem b = h.mem b := by
  have hrok := hp.runOk_live a hmem
  obtain ⟨hmagic, hframes⟩ := hr.header r hmem
  refine ⟨h.released r, kfree_eq_released hrok hmagic hframes,
    ⟨⟨rfl, ?_, ?_⟩, fun s hs => ?_, ?_, ?_⟩, fun b hb => h.released_mem hrok hb⟩
  · exact load64_store64_self _ _ _
  · have hlink : load64 (h.released r).mem (4096 * r.start) = h.gFreeList := by
      rw [Heap.released, load64_store64_of_disjoint _ _ (by omega), load64_store64_self]
    rw [hlink]
    apply hr.chain.congr (fun s hs => hp.runOk_free a hs)
    intro s hs b hb
    exact h.released_mem hrok (not_inRun_of_apart (a.apart_free_live hs hmem) hb)
  · have hs' := List.mem_of_mem_erase hs
    have hsok := hp.runOk_live a hs'
    have hne : s ≠ r := by
      rintro rfl
      exact (List.nodup_append.mp a.tiles.nodup).2.1.not_mem_erase hs
    have hapart := a.tiles.apart (List.mem_append_right _ hs') (List.mem_append_right _ hmem) hne
    have hsame : ∀ b, 4096 * s.start ≤ b → b < 4096 * s.start + 16 →
        (h.released r).mem b = h.mem b :=
      fun b hlo hhi =>
        h.released_mem hrok (not_inRun_of_apart hapart (InRun.of_header hsok hlo hhi))
    rw [(load64_pair_congr hsame).1, (load64_pair_congr hsame).2]
    exact hr.header s hs'
  · change h.gFreeFrames + _ = UInt64.ofNat (totalLen (r :: a.free))
    rw [hr.freeFrames, ofNat_add_ofNat, totalLen_cons, Nat.add_comm]
  · change h.gUsedFrames - _ = UInt64.ofNat (totalLen (a.live.erase r))
    have htotal := a.totalLen_free_add_live
    have hle := hp.le
    have hsum := totalLen_perm (List.perm_cons_erase hmem)
    rw [totalLen_cons] at hsum
    unfold pmmMaxFrames at hle
    rw [hr.usedFrames, ofNat_totalLen_sub (by omega) (by omega)]
    congr 1
    omega

end Nadir
