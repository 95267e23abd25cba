import Nadir.Kmalloc.FreeList

/-!
# The walk refines first fit

One step of the walk either takes the run at the link or moves to the run's own next field, which
is a link in front of the remaining runs. The induction is on the runs that are left; a write
through the last link stays invisible to the links before it because the runs are apart.
-/

namespace Nadir

open ByteMem Tiling

theorem frameAddr_add_mul {frame : ℕ} {need : UInt64} (h : frame + need.toNat < pmmMaxFrames) :
    frameAddr frame + need * pmmFrameSize = frameAddr (frame + need.toNat) := by
  rw [← UInt64.toNat_inj, UInt64.toNat_add, UInt64.toNat_mul, frameAddr_toNat (by omega),
    frameAddr_toNat h]
  unfold pmmMaxFrames at h
  simp only [pmmFrameSize, UInt64.reduceToNat]
  omega

theorem ofNat_len_toNat {r : Run} (h : RunOk r) : (UInt64.ofNat r.len).toNat = r.len := by
  have hle := h.le
  unfold pmmMaxFrames at hle
  rw [UInt64.toNat_ofNat']
  omega

theorem ofNat_len_ge_iff {r : Run} (h : RunOk r) (need : UInt64) :
    UInt64.ofNat r.len ≥ need ↔ need.toNat ≤ r.len := by
  rw [ge_iff_le, UInt64.le_iff_toNat_le, ofNat_len_toNat h]

theorem ofNat_len_gt_iff {r : Run} (h : RunOk r) (need : UInt64) :
    UInt64.ofNat r.len > need ↔ need.toNat < r.len := by
  rw [gt_iff_lt, UInt64.lt_iff_toNat_lt, ofNat_len_toNat h]

theorem ofNat_len_sub {r : Run} (h : RunOk r) {need : UInt64} (hle : need.toNat ≤ r.len) :
    UInt64.ofNat r.len - need = UInt64.ofNat (r.len - need.toNat) := by
  have hlt : r.len < 2 ^ 64 := by
    have hle := h.le
    unfold pmmMaxFrames at hle
    omega
  rw [← UInt64.toNat_inj, UInt64.toNat_sub_of_le _ _ ((ofNat_len_ge_iff h need).mpr hle),
    ofNat_len_toNat h, UInt64.toNat_ofNat', Nat.mod_eq_of_lt (by omega)]

/-- The effect of redirecting the link: the runs `rs` in front of it have become `rest`. -/
structure Unlinked (h h' : Heap) (link : Link) (rs rest : List Run) : Prop where
  chain : FreeChain h'.mem (h'.linkValue link) rest
  freeFrames : h'.gFreeFrames = h.gFreeFrames
  usedFrames : h'.gUsedFrames = h.gUsedFrames
  head : link ≠ .head → h'.gFreeList = h.gFreeList
  frame : ∀ b, ¬ link.Covers b → (∀ r ∈ rs, ¬ InRun r b) → h'.mem b = h.mem b

theorem Heap.linkValue_setLink (h : Heap) (v : UInt64) (link : Link) :
    (h.setLink v link).linkValue link = v := by
  cases link with
  | head => rfl
  | next run => exact load64_store64_self _ _ _

@[simp] theorem Heap.setLink_gFreeFrames (h : Heap) (v : UInt64) (link : Link) :
    (h.setLink v link).gFreeFrames = h.gFreeFrames := by cases link <;> rfl

@[simp] theorem Heap.setLink_gUsedFrames (h : Heap) (v : UInt64) (link : Link) :
    (h.setLink v link).gUsedFrames = h.gUsedFrames := by cases link <;> rfl

theorem Heap.setLink_gFreeList (h : Heap) (v : UInt64) {link : Link} (hne : link ≠ .head) :
    (h.setLink v link).gFreeList = h.gFreeList := by
  cases link with
  | head => exact absurd rfl hne
  | next run => rfl

theorem Heap.setLink_mem (h : Heap) (v : UInt64) {link : Link} {b : ℕ} (hb : ¬ link.Covers b) :
    (h.setLink v link).mem b = h.mem b := by
  cases link with
  | head => rfl
  | next run =>
    rw [Link.Covers, not_and_or, not_le, not_lt] at hb
    exact store64_of_outside _ _ hb

theorem unlinked_setLink {h : Heap} {link : Link} {r : Run} {rs : List Run}
    (hl : LinkOf (r :: rs) link) (hok : ∀ s ∈ r :: rs, RunOk s)
    (hc : FreeChain h.mem (h.linkValue link) (r :: rs)) :
    Unlinked h (h.setLink (load64 h.mem (4096 * r.start)) link) link (r :: rs) rs := by
  refine ⟨?_, h.setLink_gFreeFrames _ link, h.setLink_gUsedFrames _ link,
    h.setLink_gFreeList _, fun b hb _ => h.setLink_mem _ hb⟩
  rw [h.linkValue_setLink]
  apply hc.2.2.congr (fun s hs => hok s (List.mem_cons_of_mem _ hs))
  intro s hs b hb
  apply h.setLink_mem
  intro hcov
  exact hl.not_inRun (List.mem_cons_of_mem _ hs) hcov hb

/-- Memory with the header of the tail written behind the first `need` frames of the run. -/
def tailWritten (m : Mem) (r : Run) (need : UInt64) : Mem :=
  store64 (store64 m (4096 * (r.start + need.toNat)) (load64 m (4096 * r.start)))
    (4096 * (r.start + need.toNat) + 8) (UInt64.ofNat r.len - need)

section Tail

variable (m : Mem) {r : Run} {need : UInt64}

theorem tailWritten_of_outside (hlt : need.toNat < r.len) {b : ℕ} (hb : ¬InRun r b) :
    tailWritten m r need b = m b := by
  unfold InRun at hb
  rw [tailWritten, store64_of_outside _ _ (by omega), store64_of_outside _ _ (by omega)]

theorem load64_tailWritten_next :
    load64 (tailWritten m r need) (4096 * (r.start + need.toNat)) = load64 m (4096 * r.start) := by
  rw [tailWritten, load64_store64_of_disjoint _ _ (by omega), load64_store64_self]

theorem load64_tailWritten_frames (hr : RunOk r) (hlt : need.toNat < r.len) :
    load64 (tailWritten m r need) (4096 * (r.start + need.toNat) + 8) =
      UInt64.ofNat (r.len - need.toNat) := by
  rw [tailWritten, load64_store64_self, ofNat_len_sub hr hlt.le]

end Tail

theorem kmallocSplit_eq {h : Heap} {link : Link} {r : Run} {rs : List Run} {need : UInt64}
    (hl : LinkOf (r :: rs) link) (hr : RunOk r) (hlt : need.toNat < r.len)
    (hframes : load64 h.mem (4096 * r.start + 8) = UInt64.ofNat r.len) :
    kmallocSplit need link (frameAddr r.start) h =
      .ok (Heap.setLink { h with mem := tailWritten h.mem r need }
        (frameAddr (r.start + need.toNat)) link) := by
  have hrle := hr.le
  have htail : r.start + need.toNat < pmmMaxFrames := by omega
  have hread : load64 (store64 h.mem (4096 * (r.start + need.toNat))
      (load64 h.mem (4096 * r.start))) (4096 * r.start + 8) = UInt64.ofNat r.len := by
    rw [load64_store64_of_disjoint _ _ (by omega), hframes]
  unfold kmallocSplit
  simp only [frameAddr_add_mul htail, h.load_frameAddr hr.start_lt, h.store_frameAddr htail,
    Heap.load_frameAddr_add_eight _ hr.start_lt, Heap.store_frameAddr_add_eight _ htail,
    bind, Except.bind, hread]
  exact hl.storeLink _ _

theorem kmallocSplit_spec {h : Heap} {link : Link} {r : Run} {rs : List Run} {need : UInt64}
    (hl : LinkOf (r :: rs) link) (hok : ∀ s ∈ r :: rs, RunOk s)
    (hapart : (r :: rs).Pairwise Run.Apart) (hc : FreeChain h.mem (h.linkValue link) (r :: rs))
    (hpos : 0 < need.toNat) (hlt : need.toNat < r.len) :
    ∃ h', kmallocSplit need link (frameAddr r.start) h = .ok h' ∧
      Unlinked h h' link (r :: rs)
        (⟨r.start + need.toNat, r.len - need.toNat⟩ :: rs) := by
  have hr := hok r List.mem_cons_self
  obtain ⟨_, hframes, hrest⟩ := hc
  refine ⟨_, kmallocSplit_eq hl hr hlt hframes, ?_⟩
  have hmem : ∀ b, ¬link.Covers b →
      (Heap.setLink { h with mem := tailWritten h.mem r need }
        (frameAddr (r.start + need.toNat)) link).mem b = tailWritten h.mem r need b :=
    fun b hb => Heap.setLink_mem _ _ hb
  have hout : ∀ b, ¬InRun r b → tailWritten h.mem r need b = h.mem b :=
    fun b hb => tailWritten_of_outside h.mem hlt hb
  -- the tail lies inside the run, where the link is not
  have hcell : ∀ b, 4096 * (r.start + need.toNat) ≤ b →
      b < 4096 * (r.start + need.toNat) + 16 → ¬link.Covers b := by
    intro b hlo hhi hcov
    apply hl.not_inRun List.mem_cons_self hcov
    unfold InRun
    omega
  refine ⟨?_, Heap.setLink_gFreeFrames _ _ link, Heap.setLink_gUsedFrames _ _ link,
    fun hne => Heap.setLink_gFreeList _ _ hne, fun b hb hbout => ?_⟩
  · rw [Heap.linkValue_setLink]
    have htailFrames := load64_tailWritten_frames h.mem hr hlt
    refine ⟨rfl, (load64_congr fun b hlo hhi => ?_).trans htailFrames, ?_⟩
    · dsimp only at hlo hhi
      exact hmem b (hcell b (by omega) (by omega))
    · dsimp only
      rw [load64_congr (fun b hlo hhi => hmem b (hcell b hlo (by omega))), load64_tailWritten_next]
      apply hrest.congr (fun s hs => hok s (List.mem_cons_of_mem _ hs))
      intro s hs b hb
      have hrs : r.Apart s := (List.pairwise_cons.mp hapart).1 s hs
      rw [hmem b (fun hcov => hl.not_inRun (List.mem_cons_of_mem _ hs) hcov hb)]
      exact hout b (fun hrb => not_inRun_of_apart hrs hrb hb)
  · rw [hmem b hb, hout b (hbout r List.mem_cons_self)]

theorem Unlinked.stamp {h h' : Heap} {link : Link} {rs rest : List Run} {t : Run}
    (hu : Unlinked h h' link rs rest) (hl : LinkOf rs link) (ht : RunOk t)
    (hin : ∃ r ∈ rs, ∀ b, InRun t b → InRun r b)
    (hrest : ∀ r ∈ rest, RunOk r ∧ t.Apart r) :
    Taken h
      { mem := store64 (store64 h'.mem (4096 * t.start) kmallocMagic) (4096 * t.start + 8)
          (UInt64.ofNat t.len)
        gFreeList := h'.gFreeList
        gFreeFrames := h'.gFreeFrames - UInt64.ofNat t.len
        gUsedFrames := h'.gUsedFrames + UInt64.ofNat t.len } link rs rest t := by
  obtain ⟨r, hr, htr⟩ := hin
  have hm : ∀ b, ¬ InRun t b →
      store64 (store64 h'.mem (4096 * t.start) kmallocMagic) (4096 * t.start + 8)
        (UInt64.ofNat t.len) b = h'.mem b := by
    intro b hb
    have hhdr := InRun.outside_header ht hb
    rw [store64_of_outside _ _ (by omega), store64_of_outside _ _ (by omega)]
  refine ⟨?_, ?_, load64_store64_self _ _ _, by rw [hu.freeFrames], by rw [hu.usedFrames],
    hu.head, fun b hb hout => ?_⟩
  · have hvalue : Heap.linkValue
        { mem := store64 (store64 h'.mem (4096 * t.start) kmallocMagic) (4096 * t.start + 8)
            (UInt64.ofNat t.len)
          gFreeList := h'.gFreeList
          gFreeFrames := h'.gFreeFrames - UInt64.ofNat t.len
          gUsedFrames := h'.gUsedFrames + UInt64.ofNat t.len } link = h'.linkValue link := by
      cases link with
      | head => rfl
      | next run =>
        apply load64_congr
        intro b hlo hhi
        apply hm
        intro hb
        exact hl.not_inRun hr ⟨hlo, hhi⟩ (htr b hb)
    rw [hvalue]
    apply hu.chain.congr (fun s hs => (hrest s hs).1)
    intro s hs b hb
    apply hm
    intro htb
    exact not_inRun_of_apart (hrest s hs).2 htb hb
  · rw [load64_store64_of_disjoint _ _ (by omega), load64_store64_self]
  · rw [← hu.frame b hb hout]
    exact hm b (fun htb => hout r hr (htr b htb))

theorem Taken.cons {h h' : Heap} {link : Link} {r t : Run} {rs rest : List Run}
    (htaken : Taken h h' (.next (frameAddr r.start)) rs rest t) (hl : LinkOf (r :: rs) link)
    (hr : RunOk r) (hapart : (r :: rs).Pairwise Run.Apart)
    (hc : FreeChain h.mem (h.linkValue link) (r :: rs)) :
    Taken h h' link (r :: rs) (r :: rest) t := by
  have haddr := frameAddr_toNat hr.start_lt
  have hlink : ∀ b, Link.Covers (.next (frameAddr r.start)) b → InRun r b := by
    intro b hb
    rw [Link.Covers, haddr] at hb
    exact InRun.of_header hr hb.1 (by omega)
  have hsame : ∀ b, ¬ Link.Covers (.next (frameAddr r.start)) b → (∀ s ∈ rs, ¬ InRun s b) →
      h'.mem b = h.mem b := htaken.frame
  have hhead : h'.gFreeList = h.gFreeList := htaken.head (by simp)
  have hvalue : h'.linkValue link = h.linkValue link := by
    cases link with
    | head => exact hhead
    | next run =>
      apply load64_congr
      intro b hlo hhi
      apply hsame
      · intro hcov
        exact hl.not_inRun List.mem_cons_self ⟨hlo, hhi⟩ (hlink b hcov)
      · intro s hs hb
        exact hl.not_inRun (List.mem_cons_of_mem _ hs) ⟨hlo, hhi⟩ hb
  have hframes : load64 h'.mem (4096 * r.start + 8) = load64 h.mem (4096 * r.start + 8) := by
    apply load64_congr
    intro b hlo hhi
    apply hsame
    · intro hcov
      rw [Link.Covers, haddr] at hcov
      omega
    · intro s hs hb
      have hrs := (List.pairwise_cons.mp hapart).1 s hs
      exact not_inRun_of_apart hrs (InRun.of_header hr (by omega) (by omega)) hb
  refine ⟨?_, htaken.magic, htaken.frames, htaken.freeFrames, htaken.usedFrames,
    fun _ => hhead, fun b hb hout => ?_⟩
  · have hchain := htaken.chain
    rw [Heap.linkValue, haddr] at hchain
    exact ⟨by rw [hvalue, hc.1], by rw [hframes, hc.2.1], hchain⟩
  · exact hsame b (fun hcov => hout r List.mem_cons_self (hlink b hcov))
      (fun s hs => hout s (List.mem_cons_of_mem _ hs))

theorem kmallocUnlink_spec {h : Heap} {link : Link} {r : Run} {rs : List Run} {need : UInt64}
    (hl : LinkOf (r :: rs) link) (hok : ∀ s ∈ r :: rs, RunOk s)
    (hapart : (r :: rs).Pairwise Run.Apart) (hc : FreeChain h.mem (h.linkValue link) (r :: rs))
    (hpos : 0 < need.toNat) (hle : need.toNat ≤ r.len) :
    ∃ rest h', kmallocUnlink need link (frameAddr r.start) h = .ok (h', need) ∧
      fit need.toNat (r :: rs) = some (⟨r.start, need.toNat⟩, rest) ∧
      Unlinked h h' link (r :: rs) rest ∧
      ∀ s ∈ rest, RunOk s ∧ r.start + need.toNat ≤ s.start ∨
        s ∈ rs := by
  have hr := hok r List.mem_cons_self
  have hload := h.load_frameAddr_add_eight hr.start_lt
  rw [hc.2.1] at hload
  by_cases hlt : need.toNat < r.len
  · obtain ⟨h', hsplit, hu⟩ := kmallocSplit_spec hl hok hapart hc hpos hlt
    refine ⟨_, h', ?_, ?_, hu, fun s hs => ?_⟩
    · simp only [kmallocUnlink, hload, bind, Except.bind, hsplit,
        if_pos ((ofNat_len_gt_iff hr need).mpr hlt), pure, Except.pure]
    · rw [fit, if_pos hle, if_pos hlt]
    · rcases List.mem_cons.mp hs with rfl | hs
      · have hpos' := hr.pos
        have hle' := hr.le
        exact Or.inl ⟨⟨by dsimp only; omega, by dsimp only; omega, by dsimp only; omega⟩, le_rfl⟩
      · exact Or.inr hs
  · have hlen : UInt64.ofNat r.len = need := by
      rw [← UInt64.toNat_inj, ofNat_len_toNat hr]
      omega
    refine ⟨rs, h.setLink (load64 h.mem (4096 * r.start)) link, ?_, ?_,
      unlinked_setLink hl hok hc, fun s hs => Or.inr hs⟩
    · simp only [kmallocUnlink, hload, bind, Except.bind, hlen, gt_iff_lt, UInt64.lt_irrefl,
        if_false, h.load_frameAddr hr.start_lt, hl.storeLink, pure, Except.pure]
    · rw [fit, if_pos hle, if_neg hlt]

/-- Taking the first run of the chain answers as `fit` does on a run that is long enough. -/
theorem kmallocTake_spec {h : Heap} {link : Link} {r : Run} {rs : List Run} {need : UInt64}
    (hl : LinkOf (r :: rs) link) (hok : ∀ s ∈ r :: rs, RunOk s)
    (hapart : (r :: rs).Pairwise Run.Apart) (hc : FreeChain h.mem (h.linkValue link) (r :: rs))
    (hpos : 0 < need.toNat) (hle : need.toNat ≤ r.len) :
    ∃ t rest h', fit need.toNat (r :: rs) = some (t, rest) ∧
      kmallocTake need link (frameAddr r.start) h = .ok (h', frameAddr t.start + headerSize) ∧
      Taken h h' link (r :: rs) rest t := by
  have hr := hok r List.mem_cons_self
  obtain ⟨rest, h', hunlink, hfit, hu, hrest⟩ := kmallocUnlink_spec hl hok hapart hc hpos hle
  have ht : RunOk ⟨r.start, need.toNat⟩ := ⟨hr.pos, hpos, by have := hr.le; dsimp only; omega⟩
  have hin : ∃ s ∈ r :: rs, ∀ b, InRun ⟨r.start, need.toNat⟩ b → InRun s b :=
    ⟨r, List.mem_cons_self, fun b hb => by unfold InRun at *; dsimp only at hb; omega⟩
  have hapart' : ∀ s ∈ rest, RunOk s ∧ Run.Apart ⟨r.start, need.toNat⟩ s := by
    intro s hs
    rcases hrest s hs with ⟨hs, hafter⟩ | hs
    · exact ⟨hs, Or.inl hafter⟩
    · have hrs := (List.pairwise_cons.mp hapart).1 s hs
      refine ⟨hok s (List.mem_cons_of_mem _ hs), ?_⟩
      unfold Run.Apart at *
      dsimp only
      omega
  have htaken := hu.stamp hl ht hin hapart'
  refine ⟨_, _, _, hfit, ?_, htaken⟩
  simp only [kmallocTake, hunlink, bind, Except.bind, Heap.store_frameAddr _ hr.start_lt,
    Heap.store_frameAddr_add_eight _ hr.start_lt, pure, Except.pure, UInt64.ofNat_toNat]

theorem kmallocWalk_spec {need : UInt64} (hpos : 0 < need.toNat) {h : Heap} {rs : List Run}
    {link : Link} (hl : LinkOf rs link) (hok : ∀ s ∈ rs, RunOk s)
    (hapart : rs.Pairwise Run.Apart) (hc : FreeChain h.mem (h.linkValue link) rs) {fuel : ℕ}
    (hfuel : rs.length < fuel) :
    (fit need.toNat rs = none ∧ kmallocWalk need fuel link h = .ok (h, 0)) ∨
    ∃ t rest h', fit need.toNat rs = some (t, rest) ∧
      kmallocWalk need fuel link h = .ok (h', frameAddr t.start + headerSize) ∧
      Taken h h' link rs rest t := by
  induction rs generalizing link fuel with
  | nil =>
    obtain ⟨fuel, rfl⟩ := Nat.exists_eq_add_of_lt hfuel
    left
    have hnull : h.linkValue link = 0 := hc
    refine ⟨rfl, ?_⟩
    rw [List.length_nil, Nat.zero_add, kmallocWalk, hl.loadLink, hnull]
    rfl
  | cons r rs ih =>
    obtain ⟨fuel, rfl⟩ : ∃ n, fuel = n + 1 := ⟨fuel - 1, by omega⟩
    have hr := hok r List.mem_cons_self
    have hrs := List.pairwise_cons.mp hapart
    have hne := frameAddr_ne_zero hr.start_lt hr.pos.ne'
    have hstep : kmallocWalk need (fuel + 1) link h =
        if UInt64.ofNat r.len ≥ need then kmallocTake need link (frameAddr r.start) h
        else kmallocWalk need fuel (.next (frameAddr r.start)) h := by
      rw [kmallocWalk, hl.loadLink, hc.1]
      simp only [bind, Except.bind, if_neg hne, h.load_frameAddr_add_eight hr.start_lt, hc.2.1]
    by_cases hle : need.toNat ≤ r.len
    · right
      rw [hstep, if_pos ((ofNat_len_ge_iff hr need).mpr hle)]
      exact kmallocTake_spec hl hok hapart hc hpos hle
    · have hl' : LinkOf rs (.next (frameAddr r.start)) := .next hr hrs.1
      have hc' : FreeChain h.mem (h.linkValue (.next (frameAddr r.start))) rs := by
        rw [Heap.linkValue, frameAddr_toNat hr.start_lt]
        exact hc.2.2
      have hfit : fit need.toNat (r :: rs) =
          (fit need.toNat rs).map (fun p => (p.1, r :: p.2)) :=
        fit_cons_of_lt (Nat.lt_of_not_le hle) rs
      rw [hstep, if_neg (fun hge => hle ((ofNat_len_ge_iff hr need).mp hge)), hfit]
      have hlen : rs.length < fuel := by simpa using hfuel
      obtain ⟨hnone, hwalk⟩ | ⟨t, rest, h', hsome, hwalk, htaken⟩ :=
        ih hl' (fun s hs => hok s (List.mem_cons_of_mem _ hs)) hrs.2 hc' hlen
      · left
        rw [hnone]
        exact ⟨rfl, hwalk⟩
      · right
        rw [hsome]
        exact ⟨t, r :: rest, h', rfl, hwalk, htaken.cons hl hr hapart hc⟩

end Nadir
