import Nadir.Kmalloc.Partition

/-!
# The heap against abstract first fit

The list in memory stands for one list of runs. On that list `kmalloc` takes the first run that is
long enough, whole or in front, and leaves everything else in its place; `kfree` puts the run of
the block at the head.
-/

namespace Nadir

open ByteMem Tiling Transition

/-- The list in memory stands for the runs `rs`, each of them inside the window. -/
structure Heap.Lists (h : Heap) (rs : List Run) : Prop where
  chain : FreeChain h.mem h.gFreeList rs
  ok : ∀ r ∈ rs, RunOk r

theorem FreeChain.lists_single {h : Heap} {r : Run} (hc : FreeChain h.mem h.gFreeList [r])
    (hr : RunOk r) : h.Lists [r] :=
  ⟨hc, fun _ hq => List.mem_singleton.mp hq ▸ hr⟩

theorem FreeChain.unique {m : Mem} {p : UInt64} {rs rs' : List Run} (hc : FreeChain m p rs)
    (hc' : FreeChain m p rs') (hok : ∀ r ∈ rs, RunOk r) (hok' : ∀ r ∈ rs', RunOk r) :
    rs = rs' := by
  induction rs generalizing p rs' with
  | nil =>
    cases rs' with
    | nil => rfl
    | cons r' rs' =>
      have hr' := hok' r' List.mem_cons_self
      have hzero : p = 0 := hc
      exact absurd (hc'.1.symm.trans hzero) (frameAddr_ne_zero hr'.start_lt hr'.pos.ne')
  | cons r rs ih =>
    have hr := hok r List.mem_cons_self
    cases rs' with
    | nil =>
      have hzero : p = 0 := hc'
      exact absurd (hc.1.symm.trans hzero) (frameAddr_ne_zero hr.start_lt hr.pos.ne')
    | cons r' rs' =>
      have hr' := hok' r' List.mem_cons_self
      have hstart : r.start = r'.start :=
        (frameAddr_inj hr.start_lt hr'.start_lt).mp (hc.1.symm.trans hc'.1)
      have hlen : r.len = r'.len := by
        have hword := hc.2.1.symm.trans ((congrArg (fun f => load64 m (4096 * f + 8)) hstart).trans
          hc'.2.1)
        rw [← ofNat_len_toNat hr, ← ofNat_len_toNat hr', hword]
      have heq : r = r' := Run.ext hstart hlen
      subst heq
      rw [ih hc.2.2 hc'.2.2 (fun s hs => hok s (List.mem_cons_of_mem _ hs))
        (fun s hs => hok' s (List.mem_cons_of_mem _ hs))]

variable {lo n : ℕ}

theorem HeapState.Represents.lists {s : HeapState} {a : Arena lo n} (hp : PoolOk lo n)
    (hr : s.Represents a) : s.heap.Lists a.free :=
  ⟨hr.heap.chain, fun _ hmem => hp.runOk_free a hmem⟩

/-- What `kmalloc` and `kfree` do to a heap whose list stands for `rs`. -/
structure HeapState.FirstFit (s : HeapState) (rs : List Run) : Prop where
  fail : ∀ size : UInt64, size.toNat + 16 + 4095 < 2 ^ 64 →
    (∀ r ∈ rs, r.len < framesNeeded size.toNat) →
    ∀ fuel > rs.length, kmalloc fuel size s.heap = .ok (s.heap, 0)
  take : ∀ size : UInt64, size.toNat + 16 + 4095 < 2 ^ 64 → ∀ before r after,
    rs = before ++ r :: after → (∀ q ∈ before, q.len < framesNeeded size.toNat) →
    framesNeeded size.toNat ≤ r.len → ∀ fuel > rs.length,
    ∃ h, kmalloc fuel size s.heap = .ok (h, frameAddr r.start + 16) ∧
      load64 h.mem (4096 * r.start) = kmallocMagic ∧
      (load64 h.mem (4096 * r.start + 8)).toNat = framesNeeded size.toNat ∧
      h.Lists (before ++ ((if r.len = framesNeeded size.toNat then []
        else [⟨r.start + framesNeeded size.toNat, r.len - framesNeeded size.toNat⟩]) ++ after))
  fail_one_iff : ∀ size : UInt64, size.toNat ≤ 4080 → ∀ fuel > rs.length,
    kmalloc fuel size s.heap = .ok (s.heap, 0) ↔ kmallocFreeFrames s.heap = 0
  free : ∀ b ∈ s.live, ∃ h, kfree b.ptr s.heap = .ok h ∧ h.Lists (b.run :: rs)

theorem HeapState.Represents.kmalloc_fail {s : HeapState} {a : Arena lo n} (hp : PoolOk lo n)
    (hr : s.Represents a) {size : UInt64} (hsize : size.toNat + 16 + 4095 < 2 ^ 64)
    (hshort : ∀ r ∈ a.free, r.len < framesNeeded size.toNat) {fuel : ℕ}
    (hfuel : a.free.length < fuel) : Nadir.kmalloc fuel size s.heap = .ok (s.heap, 0) := by
  obtain ⟨_, heq⟩ | ⟨t, rest, h, hfit, _⟩ := kmalloc_spec hp hr.heap hsize hfuel
  · exact heq
  · rw [fit_eq_none_iff.mpr hshort] at hfit
    cases hfit

theorem HeapState.Represents.kmalloc_take {s : HeapState} {a : Arena lo n} (hp : PoolOk lo n)
    (hr : s.Represents a) {size : UInt64} (hsize : size.toNat + 16 + 4095 < 2 ^ 64)
    {before after : List Run} {r : Run} (hfree : a.free = before ++ r :: after)
    (hbefore : ∀ q ∈ before, q.len < framesNeeded size.toNat)
    (hfits : framesNeeded size.toNat ≤ r.len) {fuel : ℕ} (hfuel : a.free.length < fuel) :
    ∃ h, Nadir.kmalloc fuel size s.heap = .ok (h, frameAddr r.start + headerSize) ∧
      load64 h.mem (4096 * r.start) = kmallocMagic ∧
      (load64 h.mem (4096 * r.start + 8)).toNat = framesNeeded size.toNat ∧
      h.Lists (before ++ ((if r.len = framesNeeded size.toNat then []
        else [⟨r.start + framesNeeded size.toNat, r.len - framesNeeded size.toNat⟩]) ++
        after)) := by
  have hexpect := @fit_append_cons _ before after r hbefore hfits
  rw [← hfree] at hexpect
  obtain ⟨hnone, _⟩ | ⟨t, rest, h, hfit, heq, hrep, _⟩ := kmalloc_spec hp hr.heap hsize hfuel
  · rw [hexpect] at hnone
    cases hnone
  · have htaken := Option.some.inj (hfit.symm.trans hexpect)
    obtain ⟨ht, hrest⟩ := Prod.mk.inj htaken
    have htlive : t ∈ (a.alloc (framesNeeded_pos size.toNat) hfit).live := List.mem_cons_self
    have htok := hp.runOk_live (a.alloc (framesNeeded_pos size.toNat) hfit) htlive
    obtain ⟨hmagic, hframes⟩ := hrep.header t htlive
    have hstart : t.start = r.start := by rw [ht]
    have hlists : h.Lists rest := ⟨hrep.chain, fun q hq =>
      hp.runOk_free (a.alloc (framesNeeded_pos size.toNat) hfit) hq⟩
    rw [hstart] at heq hmagic hframes
    have hlen : (load64 h.mem (4096 * r.start + 8)).toNat = framesNeeded size.toNat := by
      rw [hframes, ofNat_len_toNat htok, ht]
    exact ⟨h, heq, hmagic, hlen, hrest ▸ hlists⟩

theorem HeapState.Represents.kmalloc_one_iff {s : HeapState} {a : Arena lo n} (hp : PoolOk lo n)
    (hr : s.Represents a) {size : UInt64} (hsize : size.toNat ≤ 4080) {fuel : ℕ}
    (hfuel : a.free.length < fuel) :
    Nadir.kmalloc fuel size s.heap = .ok (s.heap, 0) ↔ kmallocFreeFrames s.heap = 0 := by
  have hneed : framesNeeded size.toNat = 1 := by
    unfold framesNeeded
    omega
  have htotal := a.totalLen_free_add_live
  have hle := hp.le
  unfold pmmMaxFrames at hle
  have hcount : kmallocFreeFrames s.heap = 0 ↔ totalLen a.free = 0 := by
    rw [kmallocFreeFrames, hr.heap.freeFrames, ← UInt64.toNat_inj, UInt64.toNat_ofNat',
      UInt64.toNat_zero]
    omega
  rw [hcount]
  cases hfree : a.free with
  | nil =>
    have hshort : ∀ r ∈ a.free, r.len < framesNeeded size.toNat := by
      rw [hfree]
      exact fun r hmem => absurd hmem List.not_mem_nil
    exact iff_of_true (hr.kmalloc_fail hp (by omega) hshort hfuel) rfl
  | cons r rest =>
    have hpos := a.tiles.pos r (List.mem_append_left _ (hfree ▸ List.mem_cons_self))
    have hrok := hp.runOk_free a (hfree ▸ List.mem_cons_self)
    have hbefore : ∀ q ∈ ([] : List Run), q.len < framesNeeded size.toNat :=
      fun q hq => absurd hq List.not_mem_nil
    obtain ⟨h, heq, _⟩ := hr.kmalloc_take hp (by omega) hfree hbefore (by omega) hfuel
    apply iff_of_false
    · intro hfail
      rw [heq] at hfail
      have hptr := congrArg Prod.snd (Except.ok.inj hfail)
      exact Block.ofRun_ptr_ne_zero hrok hptr
    · rw [totalLen_cons]
      omega

theorem HeapState.Represents.kfree_cons {s : HeapState} {a : Arena lo n} (hp : PoolOk lo n)
    (hr : s.Represents a) {b : Block} (hb : b ∈ s.live) :
    ∃ h, Nadir.kfree b.ptr s.heap = .ok h ∧ h.Lists (b.run :: a.free) := by
  obtain ⟨r, hmem, rfl⟩ := hr.exists_run hb
  obtain ⟨h, heq, hrep, _⟩ := kfree_spec hp hr.heap hmem
  have hrun : (Block.ofRun r).run = r :=
    Block.ofRun_run (hp.runOk_live a hmem)
  rw [hrun]
  exact ⟨h, heq, hrep.chain, fun q hq =>
    hp.runOk_free (a.release r hmem) hq⟩

theorem HeapState.Represents.firstFit {s : HeapState} {a : Arena lo n} (hp : PoolOk lo n)
    (hr : s.Represents a) : s.FirstFit a.free where
  fail _ hsize hshort _ hfuel := hr.kmalloc_fail hp hsize hshort hfuel
  take _ hsize _ _ _ hfree hbefore hfits _ hfuel :=
    hr.kmalloc_take hp hsize hfree hbefore hfits hfuel
  fail_one_iff _ hsize _ hfuel := hr.kmalloc_one_iff hp hsize hfuel
  free _ hb := hr.kfree_cons hp hb

/-- In every state clients can reach the list in memory stands for one list of runs, on which
`kmalloc` and `kfree` act as first fit and release do. -/
theorem heap_refines_firstFit (p : Pmm) (h₀ : Heap) :
    ∃ p' h, kmallocInit p h₀ = .ok (p', h) ∧
      ∀ ops s, Steps HeapStep ⟨h, []⟩ ops s →
        (∃ rs, s.heap.Lists rs) ∧ ∀ rs, s.heap.Lists rs → s.FirstFit rs := by
  obtain ⟨p', h, lo, n, a, hinit, hstart⟩ := kmallocInit_spec p h₀
  refine ⟨p', h, hinit, fun ops s hrun => ?_⟩
  have hp := hstart.pool
  obtain ⟨a', hrep⟩ := hstart.sound.steps hp hrun
  have hlists := hrep.lists hp
  refine ⟨⟨a'.free, hlists⟩, fun rs hrs => ?_⟩
  have heq : rs = a'.free := hrs.chain.unique hlists.chain hrs.ok hlists.ok
  exact heq ▸ hrep.firstFit hp

theorem heap_refines_firstFit_reuse :
    ∃ p' h s, kmallocInit (pmmInit smallImage 2 acpiTable) ⟨fun _ => 0, 0, 0, 0⟩ = .ok (p', h) ∧
      Steps HeapStep ⟨h, []⟩
        [.kmalloc 1, .kmalloc 5000, .kfree ⟨0x100010, 1⟩, .kmalloc 100] s ∧
      s.live = [⟨0x100010, 1⟩, ⟨0x101010, 2⟩] ∧
      (∃ rs, s.heap.Lists rs) ∧ ∀ rs, s.heap.Lists rs → s.FirstFit rs := by
  obtain ⟨q, hknown⟩ := kmallocInit_acpiTable ⟨fun _ => 0, 0, 0, 0⟩
  obtain ⟨p', h, hinit, hrefines⟩ :=
    heap_refines_firstFit (pmmInit smallImage 2 acpiTable) ⟨fun _ => 0, 0, 0, 0⟩
  rw [hknown] at hinit
  cases hinit
  obtain ⟨s, s', hfirst, _, _, hlater, hlive⟩ := exists_reuse ⟨fun _ => 0, 0, 0, 0⟩
  exact ⟨q, _, s', hknown, hfirst.append hlater, hlive, hrefines _ s' (hfirst.append hlater)⟩

end Nadir
