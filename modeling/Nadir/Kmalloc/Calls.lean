import Nadir.Kmalloc.Runs

/-!
# Calls with any pointer

The clients here keep a record of every pointer `kmalloc` has returned. As long as they pass `kfree`
only such pointers, held or freed before, and pointers whose header does not check out, runs split
and never merge, so where a run has started a run starts for ever; the header of a freed block is
then the node of a free run, and no next pointer is the magic word. A client that writes a header
into a block of its own and frees the pointer behind it makes the heap hand out live memory.
-/

namespace Nadir

open ByteMem Tiling Transition

/-- The clients of the heap with the pointers returned so far. -/
structure CallState extends HeapState where
  returned : List UInt64

/-- A call with its argument and the pointer it answered, or a write. -/
inductive Call where
  | kmalloc (size ptr : UInt64)
  | kfree (ptr : UInt64)
  | write (addr : ℕ) (v : UInt8)

/-- The rounding of the request does not leave the word, or there is no run to take. -/
def Heap.Rounds (h : Heap) (size : UInt64) : Prop :=
  size.toNat + 16 + 4095 < 2 ^ 64 ∨ h.gFreeList = 0

/-- The pointer is null, or the 16 bytes in front of it can be read and are no header. -/
def Heap.Rejects (h : Heap) (ptr : UInt64) : Prop :=
  ptr = 0 ∨ (ptr - headerSize).toNat + 8 ≤ 0x40000000 ∧
    (load64 h.mem (ptr - headerSize).toNat ≠ kmallocMagic ∨
      (ptr - headerSize).toNat + 16 ≤ 0x40000000 ∧
      load64 h.mem ((ptr - headerSize).toNat + 8) = 0)

inductive CallStep : CallState → Call → CallState → Prop
  | kmalloc {s : CallState} {size ptr : UInt64} {h : Heap} (fuel : ℕ)
      (hsize : s.heap.Rounds size) (hrun : kmalloc fuel size s.heap = .ok (h, ptr)) :
      CallStep s (.kmalloc size ptr)
        ⟨⟨h, if ptr = 0 then s.live else ⟨ptr, (framesFor size).toNat⟩ :: s.live⟩,
          if ptr = 0 then s.returned else ptr :: s.returned⟩
  | kfree {s : CallState} {b : Block} {h : Heap} (hlive : b ∈ s.live)
      (hrun : kfree b.ptr s.heap = .ok h) :
      CallStep s (.kfree b.ptr) ⟨⟨h, s.live.erase b⟩, s.returned⟩
  | kfreeStale {s : CallState} {ptr : UInt64} {h : Heap} (hlive : ∀ b ∈ s.live, b.ptr ≠ ptr)
      (hptr : ptr ∈ s.returned ∨ s.heap.Rejects ptr) (hrun : kfree ptr s.heap = .ok h) :
      CallStep s (.kfree ptr) ⟨⟨h, s.live⟩, s.returned⟩
  | write {s : CallState} {b : Block} {addr : ℕ} {v : UInt8} (hlive : b ∈ s.live)
      (hin : b.InPayload addr) :
      CallStep s (.write addr v)
        ⟨⟨{ s.heap with mem := Function.update s.heap.mem addr v }, s.live⟩, s.returned⟩

/-- What the clients can do at all: any pointer may be passed to `kfree`. -/
inductive AnyCallStep : CallState → Call → CallState → Prop
  | kmalloc {s : CallState} {size ptr : UInt64} {h : Heap} (fuel : ℕ)
      (hsize : s.heap.Rounds size) (hrun : kmalloc fuel size s.heap = .ok (h, ptr)) :
      AnyCallStep s (.kmalloc size ptr)
        ⟨⟨h, if ptr = 0 then s.live else ⟨ptr, (framesFor size).toNat⟩ :: s.live⟩,
          if ptr = 0 then s.returned else ptr :: s.returned⟩
  | kfree {s : CallState} {b : Block} {h : Heap} (hlive : b ∈ s.live)
      (hrun : kfree b.ptr s.heap = .ok h) :
      AnyCallStep s (.kfree b.ptr) ⟨⟨h, s.live.erase b⟩, s.returned⟩
  | kfreeOther {s : CallState} {ptr : UInt64} {h : Heap} (hlive : ∀ b ∈ s.live, b.ptr ≠ ptr)
      (hrun : kfree ptr s.heap = .ok h) :
      AnyCallStep s (.kfree ptr) ⟨⟨h, s.live⟩, s.returned⟩
  | write {s : CallState} {b : Block} {addr : ℕ} {v : UInt8} (hlive : b ∈ s.live)
      (hin : b.InPayload addr) :
      AnyCallStep s (.write addr v)
        ⟨⟨{ s.heap with mem := Function.update s.heap.mem addr v }, s.live⟩, s.returned⟩

/-- The argument of `kfree` is a block, or it was returned, or its header is rejected. -/
def Call.Expected (s : CallState) : Call → Prop
  | .kfree ptr => (∃ b ∈ s.live, b.ptr = ptr) ∨ ptr ∈ s.returned ∨ s.heap.Rejects ptr
  | _ => True

/-- The steps of `CallStep` are those whose call is expected. -/
theorem callStep_iff {s t : CallState} {c : Call} :
    CallStep s c t ↔ AnyCallStep s c t ∧ c.Expected s := by
  constructor
  · intro h
    cases h with
    | kmalloc fuel hsize hrun => exact ⟨.kmalloc fuel hsize hrun, trivial⟩
    | kfree hlive hrun => exact ⟨.kfree hlive hrun, .inl ⟨_, hlive, rfl⟩⟩
    | kfreeStale hlive hptr hrun => exact ⟨.kfreeOther hlive hrun, .inr hptr⟩
    | write hlive hin => exact ⟨.write hlive hin, trivial⟩
  · rintro ⟨h, hexpected⟩
    cases h with
    | kmalloc fuel hsize hrun => exact .kmalloc fuel hsize hrun
    | kfree hlive hrun => exact .kfree hlive hrun
    | kfreeOther hlive hrun =>
      exact .kfreeStale hlive (hexpected.resolve_left fun ⟨b, hb, hsame⟩ => hlive b hb hsame) hrun
    | write hlive hin => exact .write hlive hin

variable {lo n : ℕ}

/-- The state represents the arena, and every pointer returned belongs to the start of a run. -/
structure CallState.Represents (s : CallState) (a : Arena lo n) : Prop where
  state : s.toHeapState.Represents a
  returned : ∀ ptr ∈ s.returned, ∃ x, a.StartsAt x ∧ ptr = frameAddr x + headerSize

def CallState.Sound (lo n : ℕ) (s : CallState) : Prop := ∃ a : Arena lo n, s.Represents a

/-- The next pointer of a free run is null or the address of a frame, so not the magic word. -/
theorem FreeChain.next_ne_magic {m : Mem} {p : UInt64} {rs : List Run} (hc : FreeChain m p rs)
    (hok : ∀ r ∈ rs, RunOk r) : p ≠ kmallocMagic ∧
      ∀ r ∈ rs, load64 m (4096 * r.start) ≠ kmallocMagic := by
  induction rs generalizing p with
  | nil =>
    have hnull : p = 0 := hc
    exact ⟨fun hmagic => absurd (hnull.symm.trans hmagic) (by decide),
      fun r hr => absurd hr List.not_mem_nil⟩
  | cons r rs ih =>
    have hr := hok r List.mem_cons_self
    obtain ⟨hnext, hrest⟩ := ih hc.2.2 (fun s hs => hok s (List.mem_cons_of_mem _ hs))
    constructor
    · intro hmagic
      have hnat := congrArg UInt64.toNat (hc.1.symm.trans hmagic)
      have hlt := hr.start_lt
      rw [frameAddr_toNat hlt] at hnat
      unfold pmmMaxFrames at hlt
      simp only [kmallocMagic, UInt64.reduceToNat] at hnat
      omega
    · intro s hs
      rcases List.mem_cons.mp hs with rfl | hs
      · exact hnext
      · exact hrest s hs

/-- The heap behind `kfree` of a header that is accepted: the header is the first node. -/
def Heap.pushed (h : Heap) (hdr frames : UInt64) : Heap where
  mem := store64 (store64 (store64 h.mem hdr.toNat 0) hdr.toNat h.gFreeList) (hdr.toNat + 8) frames
  gFreeList := hdr
  gFreeFrames := h.gFreeFrames + frames
  gUsedFrames := h.gUsedFrames - frames

theorem Heap.pushed_next (h : Heap) (hdr frames : UInt64) :
    load64 (h.pushed hdr frames).mem hdr.toNat = h.gFreeList := by
  rw [pushed, load64_store64_of_disjoint _ _ (by omega), load64_store64_self]

section Kfree

variable {ptr : UInt64} {h : Heap} (hptr : ptr ≠ 0)
include hptr

theorem kfree_of_unmapped (hfirst : ¬(ptr - headerSize).toNat + 8 ≤ 0x40000000) :
    kfree ptr h = .error (.pageFault (ptr - headerSize)) := by
  have hfault : h.load (ptr - headerSize) = .error (.pageFault (ptr - headerSize)) :=
    if_neg hfirst
  rw [kfree, if_neg hptr]
  simp only [hfault, bind, Except.bind]

theorem kfree_of_not_magic (hfirst : (ptr - headerSize).toNat + 8 ≤ 0x40000000)
    (hmagic : load64 h.mem (ptr - headerSize).toNat ≠ kmallocMagic) : kfree ptr h = .ok h := by
  rw [kfree, if_neg hptr]
  simp only [h.load_of_le hfirst, bind, Except.bind]
  exact if_pos hmagic

theorem kfree_of_magic_unmapped (hfirst : (ptr - headerSize).toNat + 8 ≤ 0x40000000)
    (hmagic : load64 h.mem (ptr - headerSize).toNat = kmallocMagic)
    (hwindow : ¬(ptr - headerSize).toNat + 16 ≤ 0x40000000) :
    kfree ptr h = .error (.pageFault (ptr - headerSize + 8)) := by
  have hnext : (ptr - headerSize + 8).toNat = (ptr - headerSize).toNat + 8 := by
    rw [UInt64.toNat_add]
    simp only [UInt64.reduceToNat]
    omega
  have hfault : h.load (ptr - headerSize + 8) = .error (.pageFault (ptr - headerSize + 8)) :=
    if_neg (by omega)
  rw [kfree, if_neg hptr]
  simp only [h.load_of_le hfirst, hmagic, hfault, bind, Except.bind, ne_eq, not_true_eq_false,
    if_false]

theorem kfree_of_no_frames (hwindow : (ptr - headerSize).toNat + 16 ≤ 0x40000000)
    (hmagic : load64 h.mem (ptr - headerSize).toNat = kmallocMagic)
    (hframes : load64 h.mem ((ptr - headerSize).toNat + 8) = 0) : kfree ptr h = .ok h := by
  have hfirst : (ptr - headerSize).toNat + 8 ≤ 0x40000000 := by omega
  rw [kfree, if_neg hptr]
  simp only [h.load_of_le hfirst, hmagic, h.load_add_eight_of_le hwindow, hframes, bind,
    Except.bind, ne_eq, not_true_eq_false, if_false, if_true]
  rfl

theorem kfree_of_header (hwindow : (ptr - headerSize).toNat + 16 ≤ 0x40000000)
    (hmagic : load64 h.mem (ptr - headerSize).toNat = kmallocMagic) {frames : UInt64}
    (hframes : load64 h.mem ((ptr - headerSize).toNat + 8) = frames) (hpos : frames ≠ 0) :
    kfree ptr h = .ok (h.pushed (ptr - headerSize) frames) := by
  have hfirst : (ptr - headerSize).toNat + 8 ≤ 0x40000000 := by omega
  have hreread : load64 (store64 (store64 h.mem (ptr - headerSize).toNat 0)
      (ptr - headerSize).toNat h.gFreeList) ((ptr - headerSize).toNat + 8) = frames := by
    rw [load64_store64_of_disjoint _ _ (by omega), load64_store64_of_disjoint _ _ (by omega),
      hframes]
  rw [kfree, if_neg hptr]
  simp only [Heap.load_of_le _ hfirst, hmagic, Heap.load_add_eight_of_le _ hwindow, hframes,
    Heap.store_of_le _ hfirst, Heap.store_add_eight_of_le _ hwindow, if_neg hpos, bind, hreread,
    Except.bind, ne_eq, not_true_eq_false, if_false, pure, Except.pure, load64_store64_self]
  rfl

end Kfree

/-- What `kfree` does with any pointer at all: nothing, exactly when the header is rejected. -/
theorem kfree_unchanged_iff (ptr : UInt64) (h : Heap) :
    kfree ptr h = .ok h ↔ h.Rejects ptr := by
  by_cases hnull : ptr = 0
  · rw [kfree, if_pos hnull]
    exact iff_of_true rfl (Or.inl hnull)
  rw [Heap.Rejects, or_iff_right hnull]
  by_cases hfirst : (ptr - headerSize).toNat + 8 ≤ 0x40000000
  · rw [and_iff_right hfirst]
    by_cases hmagic : load64 h.mem (ptr - headerSize).toNat = kmallocMagic
    · rw [or_iff_right (fun hne => hne hmagic)]
      by_cases hwindow : (ptr - headerSize).toNat + 16 ≤ 0x40000000
      · rw [and_iff_right hwindow]
        by_cases hframes : load64 h.mem ((ptr - headerSize).toNat + 8) = 0
        · exact iff_of_true (kfree_of_no_frames hnull hwindow hmagic hframes) hframes
        · -- the list now starts with the header, whose first word was the magic
          have hchanged : kfree ptr h ≠ .ok h := by
            intro hsame
            rw [kfree_of_header hnull hwindow hmagic rfl hframes] at hsame
            have heq := Except.ok.inj hsame
            have hnext := h.pushed_next (ptr - headerSize)
              (load64 h.mem ((ptr - headerSize).toNat + 8))
            have hlist : ptr - headerSize = h.gFreeList := congrArg Heap.gFreeList heq
            rw [heq, hmagic, ← hlist] at hnext
            rw [← hnext] at hfirst
            simp only [kmallocMagic, UInt64.reduceToNat] at hfirst
            omega
          exact iff_of_false hchanged hframes
      · rw [kfree_of_magic_unmapped hnull hfirst hmagic hwindow]
        apply iff_of_false
        · intro hsame
          cases hsame
        · intro hzero
          exact hwindow hzero.1
    · exact iff_of_true (kfree_of_not_magic hnull hfirst hmagic) (Or.inl hmagic)
  · rw [kfree_of_unmapped hnull hfirst]
    apply iff_of_false
    · intro hsame
      cases hsame
    · intro hheader
      exact hfirst hheader.1

theorem kmalloc_of_null {h : Heap} (hnull : h.gFreeList = 0) (size : UInt64) (fuel : ℕ) :
    kmalloc (fuel + 1) size h = .ok (h, 0) := by
  simp only [kmalloc, kmallocWalk, Heap.loadLink, hnull, bind, Except.bind, if_true]
  rfl

theorem CallState.Represents.kmalloc {s : CallState} {a : Arena lo n} (hp : PoolOk lo n)
    (hr : s.Represents a) {size ptr : UInt64} {h : Heap} {fuel : ℕ}
    (hsize : s.heap.Rounds size) (hrun : Nadir.kmalloc fuel size s.heap = .ok (h, ptr)) :
    (ptr = 0 ∧ h = s.heap) ∨
    ptr ≠ 0 ∧ CallState.Sound lo n
      ⟨⟨h, ⟨ptr, (framesFor size).toNat⟩ :: s.live⟩, ptr :: s.returned⟩ := by
  rcases hsize with hsize | hnull
  · obtain hfail | ⟨t, rest, hfit, hne, hptr, hrep, _⟩ := hr.state.kmalloc_cases hp hsize hrun
    · exact Or.inl hfail
    · right
      refine ⟨hne, a.alloc (framesNeeded_pos size.toNat) hfit, hrep, fun q hq => ?_⟩
      rcases List.mem_cons.mp hq with rfl | hq
      · exact ⟨t.start, ⟨t, List.mem_append_right _ List.mem_cons_self, rfl⟩, hptr⟩
      · obtain ⟨x, hx, hqx⟩ := hr.returned q hq
        exact ⟨x, hx.alloc _ hfit, hqx⟩
  · left
    have hmore := kmallocWalk_mono (Nat.le_succ fuel) hrun
    rw [← Nadir.kmalloc, kmalloc_of_null hnull] at hmore
    cases hmore
    exact ⟨rfl, rfl⟩

theorem CallState.Represents.kfree {s : CallState} {a : Arena lo n} (hp : PoolOk lo n)
    (hr : s.Represents a) {b : Block} {h : Heap} (hlive : b ∈ s.live)
    (hrun : Nadir.kfree b.ptr s.heap = .ok h) :
    CallState.Sound lo n ⟨⟨h, s.live.erase b⟩, s.returned⟩ ∧
      ∀ c ∈ s.live.erase b, c.ptr ≠ b.ptr := by
  obtain ⟨r, hmem, rfl, hrep, _⟩ := hr.state.kfree_cases hp hlive hrun
  constructor
  · refine ⟨a.release r hmem, hrep, fun q hq => ?_⟩
    obtain ⟨x, hx, hqx⟩ := hr.returned q hq
    exact ⟨x, hx.release hmem, hqx⟩
  · intro c hc hsame
    obtain ⟨q, hq, rfl⟩ := hrep.exists_run hc
    have hqmem : q ∈ a.live := List.mem_of_mem_erase hq
    have hqok := hp.runOk_live a hqmem
    have hrok := hp.runOk_live a hmem
    have hne : q ≠ r := by
      rintro rfl
      exact (List.nodup_append.mp a.tiles.nodup).2.1.not_mem_erase hq
    have hapart := a.tiles.apart (List.mem_append_right _ hqmem) (List.mem_append_right _ hmem) hne
    have hnat := congrArg UInt64.toNat hsame
    rw [Block.ofRun_ptr_toNat hqok, Block.ofRun_ptr_toNat hrok] at hnat
    have hqlen := hqok.len
    have hrlen := hrok.len
    unfold Run.Apart at hapart
    omega

/-- The header of a returned pointer that is not held is the node of a free run. -/
theorem CallState.Represents.rejects {s : CallState} {a : Arena lo n} (hp : PoolOk lo n)
    (hr : s.Represents a) {ptr : UInt64} (hlive : ∀ b ∈ s.live, b.ptr ≠ ptr)
    (hptr : ptr ∈ s.returned) : s.heap.Rejects ptr := by
  obtain ⟨x, ⟨r, hmem, rfl⟩, rfl⟩ := hr.returned ptr hptr
  have hrok := hp.runOk a.tiles hmem
  have hlt := hrok.start_lt
  have hhdr : (frameAddr r.start + headerSize - headerSize).toNat = 4096 * r.start := by
    rw [UInt64.add_sub_cancel, frameAddr_toNat hlt]
  unfold pmmMaxFrames at hlt
  right
  rw [hhdr]
  rcases List.mem_append.mp hmem with hfree | hheld
  · have hmagic := hr.state.heap.chain.next_ne_magic
      (fun q hq => hp.runOk_free a hq)
    exact ⟨by omega, Or.inl (hmagic.2 r hfree)⟩
  · have hheld' : Block.ofRun r ∈ s.live :=
      hr.state.live.mem_iff.mpr (List.mem_map.mpr ⟨r, hheld, rfl⟩)
    exact absurd rfl (hlive _ hheld')

theorem CallState.Represents.kfree_stale {s : CallState} {a : Arena lo n} (hp : PoolOk lo n)
    (hr : s.Represents a) {ptr : UInt64} (hlive : ∀ b ∈ s.live, b.ptr ≠ ptr)
    (hptr : ptr ∈ s.returned ∨ s.heap.Rejects ptr) :
    Nadir.kfree ptr s.heap = .ok s.heap := by
  rw [kfree_unchanged_iff]
  rcases hptr with hptr | hreject
  · exact hr.rejects hp hlive hptr
  · exact hreject

theorem CallState.Sound.step {s s' : CallState} {c : Call} (hp : PoolOk lo n)
    (hs : s.Sound lo n) (h : CallStep s c s') : s'.Sound lo n := by
  obtain ⟨a, hr⟩ := hs
  cases h with
  | kmalloc fuel hsize hrun =>
    obtain ⟨rfl, rfl⟩ | ⟨hne, hsound⟩ := hr.kmalloc hp hsize hrun
    · exact ⟨a, hr⟩
    · rw [if_neg hne, if_neg hne]
      exact hsound
  | kfree hlive hrun => exact (hr.kfree hp hlive hrun).1
  | kfreeStale hlive hptr hrun =>
    rw [hr.kfree_stale hp hlive hptr] at hrun
    cases hrun
    exact ⟨a, hr⟩
  | @write b addr v hlive hin =>
    obtain ⟨hrep, _⟩ := @HeapState.Represents.write _ _ _ _ hp hr.state _ _ v hlive hin
    exact ⟨a, hrep, hr.returned⟩

theorem CallState.Sound.steps {s s' : CallState} {calls : List Call} (hp : PoolOk lo n)
    (hs : s.Sound lo n) (h : Steps CallStep s calls s') : s'.Sound lo n := by
  apply h.invariant _ hs
  intro t c u ht hstep
  exact ht.step hp hstep

theorem HeapStart.callSound {p p' : Pmm} {h : Heap} {a : Arena lo n} (hs : HeapStart p p' h a) :
    CallState.Sound lo n ⟨⟨h, []⟩, []⟩ :=
  ⟨a, ⟨hs.heap, by rw [hs.live, List.map_nil]⟩, fun _ hq => absurd hq List.not_mem_nil⟩

/-- The pointer was returned and is not held. -/
def CallState.Stale (ptr : UInt64) (s : CallState) : Prop :=
  ptr ∈ s.returned ∧ ∀ b ∈ s.live, b.ptr ≠ ptr

theorem CallStep.returned_subset {s s' : CallState} {c : Call} (h : CallStep s c s') {ptr : UInt64}
    (hptr : ptr ∈ s.returned) : ptr ∈ s'.returned := by
  cases h with
  | kmalloc fuel hsize hrun =>
    dsimp only
    split_ifs
    · exact hptr
    · exact List.mem_cons_of_mem _ hptr
  | kfree hlive hrun => exact hptr
  | kfreeStale hlive hstale hrun => exact hptr
  | write hlive hin => exact hptr

theorem CallState.Sound.stale_kfree {s s' : CallState} (hp : PoolOk lo n) (hs : s.Sound lo n)
    {ptr : UInt64} (hptr : ptr ∈ s.returned) (h : CallStep s (.kfree ptr) s') : s'.Stale ptr := by
  obtain ⟨a, hr⟩ := hs
  cases h with
  | kfree hlive hrun => exact ⟨hptr, (hr.kfree hp hlive hrun).2⟩
  | kfreeStale hlive _ hrun => exact ⟨hptr, hlive⟩

/-- A stale pointer stays stale until `kmalloc` returns it again. -/
theorem CallState.Stale.step {s s' : CallState} {c : Call} {ptr : UInt64} (hs : s.Stale ptr)
    (hc : ∀ size, c ≠ .kmalloc size ptr) (h : CallStep s c s') : s'.Stale ptr := by
  refine ⟨h.returned_subset hs.1, ?_⟩
  cases h with
  | @kmalloc size q h fuel hsize hrun =>
    dsimp only
    split_ifs
    · exact hs.2
    · have hfresh : q ≠ ptr := by
        rintro rfl
        exact hc size rfl
      rw [List.forall_mem_cons]
      exact ⟨hfresh, hs.2⟩
  | kfree hlive hrun => exact fun b hb => hs.2 b (List.mem_of_mem_erase hb)
  | kfreeStale hlive hstale hrun => exact hs.2
  | write hlive hin => exact hs.2

/-- In every run, a pointer that `kmalloc` returned, that was freed and that no later `kmalloc`
returned again can be freed once more: nothing changes. -/
theorem double_free_caught (p : Pmm) (h₀ : Heap) :
    ∃ p' h, kmallocInit p h₀ = .ok (p', h) ∧
      ∀ before between after size ptr s,
        Steps CallStep ⟨⟨h, []⟩, []⟩
          (before ++ .kmalloc size ptr :: (between ++ .kfree ptr :: after)) s →
        (∀ size', .kmalloc size' ptr ∉ after) → kfree ptr s.heap = .ok s.heap := by
  obtain ⟨p', h, lo, n, a, hinit, hstart⟩ := kmallocInit_spec p h₀
  refine ⟨p', h, hinit, fun before between after size ptr s hrun hafter => ?_⟩
  have hp := hstart.pool
  by_cases hnull : ptr = 0
  · rw [hnull]
    rfl
  obtain ⟨t, hbefore, hrun⟩ := hrun.append_inv
  cases hrun with
  | cons hmalloc hrun =>
    obtain ⟨u, hbetween, hrun⟩ := hrun.append_inv
    cases hrun with
    | @cons _ v _ _ _ hfree hrun =>
      have ht := hstart.callSound.steps hp hbefore
      have hu := (ht.step hp hmalloc).steps hp hbetween
      have hreturned : ptr ∈ u.returned := by
        apply @Steps.invariant _ _ _ _ _ _ (fun s : CallState => ptr ∈ s.returned) _ hbetween
        · cases hmalloc
          dsimp only
          rw [if_neg hnull]
          exact List.mem_cons_self
        · intro x c y hx hstep
          exact hstep.returned_subset hx
      have hstale : s.Stale ptr :=
        hrun.invariant_of_labels (fun x c y hx hc hstep => CallState.Stale.step hx hc hstep)
          (hu.stale_kfree hp hreturned hfree) (fun c hc size' heq => hafter size' (heq ▸ hc))
      obtain ⟨a', hr⟩ := (hu.step hp hfree).steps hp hrun
      exact hr.kfree_stale hp hstale.2 (Or.inl hstale.1)

/-! A client forges a header in its own block. -/

/-- The writes of a client that stores a number of `n` bytes, its first byte last. -/
def Call.storeBytes (a v : ℕ) : ℕ → List Call
  | 0 => []
  | n + 1 => storeBytes (a + 1) (v / 256) n ++ [.write a (UInt8.ofNat v)]

/-- The writes that make a header. -/
def Call.forge (a : ℕ) (frames : UInt64) : List Call :=
  storeBytes a kmallocMagic.toNat 8 ++ storeBytes (a + 8) frames.toNat 8

theorem AnyCallStep.storeBytes {s : CallState} {b : Block} (hb : b ∈ s.live) {a m : ℕ} (v : ℕ)
    (hlo : b.ptr.toNat ≤ a) (hhi : a + m ≤ b.hdr + 4096 * b.frames) :
    Steps AnyCallStep s (Call.storeBytes a v m)
      ⟨⟨{ s.heap with mem := storeLE s.heap.mem a v m }, s.live⟩, s.returned⟩ := by
  induction m generalizing a v with
  | zero => exact .nil s
  | succ m ih =>
    have hrest := ih (a := a + 1) (v / 256) (by omega) (by omega)
    have hin : b.InPayload a := ⟨hlo, by omega⟩
    exact hrest.append (.cons (.write hb hin) (.nil _))

theorem AnyCallStep.forge {s : CallState} {b : Block} (hb : b ∈ s.live) {a : ℕ} (frames : UInt64)
    (hlo : b.ptr.toNat ≤ a) (hhi : a + 16 ≤ b.hdr + 4096 * b.frames) :
    Steps AnyCallStep s (Call.forge a frames)
      ⟨⟨{ s.heap with mem := store64 (store64 s.heap.mem a kmallocMagic) (a + 8) frames }, s.live⟩,
        s.returned⟩ :=
  let magic : Heap := { s.heap with mem := store64 s.heap.mem a kmallocMagic }
  (AnyCallStep.storeBytes hb _ hlo (by omega)).append
    (@AnyCallStep.storeBytes ⟨⟨magic, s.live⟩, s.returned⟩ b hb _ _ _ (by omega) (by omega))

theorem kmalloc_head {h : Heap} {size : UInt64} (hne : h.gFreeList ≠ 0)
    (hwindow : h.gFreeList.toNat + 16 ≤ 0x40000000)
    (hframes : load64 h.mem (h.gFreeList.toNat + 8) = framesFor size) :
    ∃ h', kmalloc 1 size h = .ok (h', h.gFreeList + headerSize) ∧
      h'.gFreeFrames = h.gFreeFrames - framesFor size ∧
      h'.gUsedFrames = h.gUsedFrames + framesFor size := by
  have hfirst : h.gFreeList.toNat + 8 ≤ 0x40000000 := by omega
  have hfits : framesFor size ≥ framesFor size := UInt64.le_refl _
  have hexact : ¬framesFor size > framesFor size := UInt64.lt_irrefl _
  simp only [kmalloc, kmallocWalk, Heap.loadLink, if_neg hne, kmallocTake, kmallocUnlink,
    Heap.load_add_eight_of_le _ hwindow, Heap.load_of_le _ hfirst, hframes, if_pos hfits,
    if_neg hexact, Heap.storeLink, Heap.store_of_le _ hfirst,
    Heap.store_add_eight_of_le _ hwindow, bind, Except.bind, pure, Except.pure]
  exact ⟨_, rfl, rfl, rfl⟩

theorem notMem_forge (c : Call) (hc : ∀ addr v, c ≠ .write addr v) (a : ℕ) (frames : UInt64) :
    c ∉ Call.forge a frames := by
  have hbytes : ∀ m a v, c ∉ Call.storeBytes a v m := by
    intro m
    induction m with
    | zero => exact fun _ _ => List.not_mem_nil
    | succ m ih =>
      intro a v hmem
      rcases List.mem_append.mp hmem with hmem | hmem
      · exact ih _ _ hmem
      · exact hc _ _ (List.mem_singleton.mp hmem)
  intro hmem
  rcases List.mem_append.mp hmem with hmem | hmem
  · exact hbytes _ _ _ hmem
  · exact hbytes _ _ _ hmem

attribute [local irreducible] Call.forge

theorem exists_twoBlocks (h : Heap) :
    ∃ h' : Heap, ∃ a : Arena 256 64,
      Steps AnyCallStep ⟨⟨h.initial 256 64, []⟩, []⟩ [.kmalloc 1 0x100010, .kmalloc 1 0x101010]
        ⟨⟨h', [⟨0x101010, 1⟩, ⟨0x100010, 1⟩]⟩, [0x101010, 0x100010]⟩ ∧
      h'.Represents a ∧ a.free = [⟨258, 62⟩] ∧ a.live = [⟨257, 1⟩, ⟨256, 1⟩] := by
  have hp : PoolOk 256 64 := ⟨by decide, by decide⟩
  have hr := h.initial_state 256 (j := 64) (by decide)
  have hfit₁ : fit (framesNeeded (1 : UInt64).toNat) [⟨256, 64⟩] =
      some (⟨256, 1⟩, [⟨257, 63⟩]) := by decide
  obtain ⟨h₁, hrun₁, _, hr₁⟩ := hr.exists_kmalloc hp (by decide) hfit₁
  have hfit₂ : fit (framesNeeded (1 : UInt64).toNat) [⟨257, 63⟩] =
      some (⟨257, 1⟩, [⟨258, 62⟩]) := by decide
  obtain ⟨h₂, hrun₂, _, hr₂⟩ := hr₁.exists_kmalloc hp (by decide) hfit₂
  have hstep₁ : AnyCallStep ⟨⟨h.initial 256 64, []⟩, []⟩ (.kmalloc 1 0x100010)
      ⟨⟨h₁, [⟨0x100010, 1⟩]⟩, [0x100010]⟩ := .kmalloc _ (.inl (by decide)) hrun₁
  have hstep₂ : AnyCallStep ⟨⟨h₁, [⟨0x100010, 1⟩]⟩, [0x100010]⟩ (.kmalloc 1 0x101010)
      ⟨⟨h₂, [⟨0x101010, 1⟩, ⟨0x100010, 1⟩]⟩, [0x101010, 0x100010]⟩ :=
    .kmalloc _ (.inl (by decide)) hrun₂
  exact ⟨h₂, _, .cons hstep₁ (.cons hstep₂ (.nil _)), hr₂.heap, rfl, rfl⟩

theorem exists_forged {h : Heap} {a : Arena 256 64} (hr : h.Represents a)
    (hfree : a.free = [⟨258, 62⟩]) (hlive : a.live = [⟨257, 1⟩, ⟨256, 1⟩])
    (returned : List UInt64) :
    ∃ s, Steps AnyCallStep ⟨⟨h, [⟨0x101010, 1⟩, ⟨0x100010, 1⟩]⟩, returned⟩
        (Call.forge 0x100010 3 ++ [.kfree 0x101010]) s ∧
      s.live = [⟨0x100010, 1⟩] ∧ load64 s.heap.mem 0x100010 = kmallocMagic ∧
      load64 s.heap.mem 0x100018 = 3 ∧ s.heap.gFreeFrames = 63 ∧ s.heap.gUsedFrames = 1 := by
  have hp : PoolOk 256 64 := ⟨by decide, by decide⟩
  have hforge := @AnyCallStep.forge ⟨⟨h, [⟨0x101010, 1⟩, ⟨0x100010, 1⟩]⟩, returned⟩
    ⟨0x100010, 1⟩ (by simp) 0x100010 3 (by decide) (by decide)
  let forged : Mem := store64 (store64 h.mem 0x100010 kmallocMagic) (0x100010 + 8) 3
  have hmem : ⟨257, 1⟩ ∈ a.live := by
    rw [hlive]
    exact List.mem_cons_self
  have hmem' : ⟨256, 1⟩ ∈ a.live := by
    rw [hlive]
    exact List.mem_cons_of_mem _ List.mem_cons_self
  have hr' : Heap.Represents { h with mem := forged } a := by
    apply hr.of_payloads hp
    intro b hb
    have hout := hb _ hmem'
    dsimp only at hout
    exact (store64_of_outside _ _ (by omega)).trans (store64_of_outside _ _ (by omega))
  obtain ⟨h₄, hrun, hr₄, hout⟩ := kfree_spec hp hr' hmem
  have hkept : ∀ b, 0x100010 ≤ b → b < 0x100020 → h₄.mem b = forged b := by
    intro b hlo hhi
    apply hout
    unfold InRun
    dsimp only
    omega
  have hstep := @AnyCallStep.kfree ⟨⟨{ h with mem := forged }, [⟨0x101010, 1⟩, ⟨0x100010, 1⟩]⟩,
    returned⟩ ⟨0x101010, 1⟩ h₄ List.mem_cons_self hrun
  refine ⟨_, hforge.append (.cons hstep (.nil _)), rfl, ?_, ?_, ?_, ?_⟩
  · dsimp only
    rw [load64_congr fun b hlo hhi => hkept b hlo (by omega),
      load64_store64_of_disjoint _ _ (by omega), load64_store64_self]
  · dsimp only
    rw [load64_congr fun b hlo hhi => hkept b (by omega) hhi]
    exact load64_store64_self _ _ _
  · have hlen : totalLen (⟨257, 1⟩ :: a.free) = 63 := by
      rw [hfree]
      rfl
    exact hr₄.freeFrames.trans (congrArg UInt64.ofNat hlen)
  · have hlen : totalLen (a.live.erase ⟨257, 1⟩) = 1 := by
      rw [hlive]
      rfl
    exact hr₄.usedFrames.trans (congrArg UInt64.ofNat hlen)

/-- The forged header is freed and its run taken, and a header is forged in front of `0x101010`. -/
def reforge : List Call :=
  [.kfree 0x100020, .kmalloc 8192 0x100020] ++ Call.forge 0x101000 1

theorem exists_reforged {s : CallState} (hlive : s.live = [⟨0x100010, 1⟩])
    (hmagic : load64 s.heap.mem 0x100010 = kmallocMagic)
    (hframes : load64 s.heap.mem 0x100018 = 3) :
    ∃ t, Steps AnyCallStep s reforge t ∧ load64 t.heap.mem 0x101000 = kmallocMagic ∧
      load64 t.heap.mem 0x101008 = 1 ∧ t.heap.gFreeFrames = s.heap.gFreeFrames ∧
      t.heap.gUsedFrames = s.heap.gUsedFrames := by
  have hne : (0x100020 : UInt64) ≠ 0 := by decide
  have hfree := kfree_of_header hne (by decide) hmagic hframes (by decide)
  have hhead : (0x100010 : UInt64) ≠ 0 := by decide
  have hwindow : (0x100010 : UInt64).toNat + 16 ≤ 0x40000000 := by decide
  obtain ⟨h₁, hrun, hfreeFrames, husedFrames⟩ := @kmalloc_head (s.heap.pushed 0x100010 3) 8192
    hhead hwindow (load64_store64_self _ _ _)
  have hother : ∀ b ∈ s.live, b.ptr ≠ 0x100020 := by
    rw [hlive]
    decide
  have hforge := @AnyCallStep.forge ⟨⟨h₁, ⟨0x100020, 3⟩ :: s.live⟩, 0x100020 :: s.returned⟩
    ⟨0x100020, 3⟩ List.mem_cons_self 0x101000 1 (by decide) (by decide)
  refine ⟨_, .cons (.kfreeOther hother hfree) (.cons (.kmalloc 1 (.inl (by decide)) hrun) hforge),
    ?_, load64_store64_self _ _ _, ?_, ?_⟩
  · exact (load64_store64_of_disjoint _ _ (.inl le_rfl)).trans (load64_store64_self _ _ _)
  · have hthree : framesFor 8192 = 3 := by decide
    rw [hthree] at hfreeFrames
    exact hfreeFrames.trans (UInt64.add_sub_cancel _ _)
  · have hthree : framesFor 8192 = 3 := by decide
    rw [hthree] at husedFrames
    exact husedFrames.trans (UInt64.sub_add_cancel _ _)

theorem kmalloc_notMem_reforge (size : UInt64) : .kmalloc size 0x101010 ∉ reforge := by
  intro hmem
  rcases List.mem_append.mp hmem with hmem | hmem
  · simp at hmem
  · exact notMem_forge _ (fun _ _ heq => by cases heq) _ _ hmem

theorem exists_freed_twice (h : Heap) :
    ∃ s : CallState, ∃ h' : Heap,
      Steps AnyCallStep ⟨⟨h.initial 256 64, []⟩, []⟩
        ([.kmalloc 1 0x100010] ++ .kmalloc 1 0x101010 ::
          (Call.forge 0x100010 3 ++ .kfree 0x101010 :: reforge)) s ∧
      kfree 0x101010 s.heap = .ok h' ∧ h' ≠ s.heap ∧
      kmallocFreeFrames s.heap = 63 ∧ kmallocUsedFrames s.heap = 1 ∧
      kmallocFreeFrames h' = 64 ∧ kmallocUsedFrames h' = 0 := by
  obtain ⟨h₂, a, htwo, hr, hruns, hblocks⟩ := exists_twoBlocks h
  obtain ⟨s, hforged, hlive, hmagic, hframes, hfree, hused⟩ :=
    exists_forged hr hruns hblocks [0x101010, 0x100010]
  obtain ⟨t, hsecond, hmagic', hframes', hfree', hused'⟩ := exists_reforged hlive hmagic hframes
  have hne : (0x101010 : UInt64) ≠ 0 := by decide
  have hagain := @kfree_of_header 0x101010 t.heap hne (by decide) hmagic' 1 hframes' (by decide)
  have hcount : (t.heap.pushed 0x101000 1).gFreeFrames = 64 :=
    (congrArg (· + 1) (hfree'.trans hfree)).trans rfl
  have hcount' : (t.heap.pushed 0x101000 1).gUsedFrames = 0 :=
    (congrArg (· - 1) (hused'.trans hused)).trans rfl
  refine ⟨t, _, ?_, hagain, ?_, hfree'.trans hfree, hused'.trans hused, hcount, hcount'⟩
  · have hrun := htwo.append (hforged.append hsecond)
    rw [List.append_assoc] at hrun
    exact hrun
  · intro hsame
    have hboth := (congrArg Heap.gFreeFrames hsame).symm.trans hcount
    rw [hfree', hfree] at hboth
    exact absurd hboth (by decide)

/-- A pointer that was freed and not returned again, with the header of another live run forged in
front of it: the second `kfree` frees it once more. -/
theorem not_double_free_caught_forged :
    ∃ p' h s h', kmallocInit (pmmInit smallImage 2 acpiTable) ⟨fun _ => 0, 0, 0, 0⟩ =
        .ok (p', h) ∧
      Steps AnyCallStep ⟨⟨h, []⟩, []⟩
        ([.kmalloc 1 0x100010] ++ .kmalloc 1 0x101010 ::
          (Call.forge 0x100010 3 ++ .kfree 0x101010 :: reforge)) s ∧
      (∀ size, .kmalloc size 0x101010 ∉ reforge) ∧
      kfree 0x101010 s.heap = .ok h' ∧ h' ≠ s.heap ∧
      kmallocFreeFrames s.heap = 63 ∧ kmallocUsedFrames s.heap = 1 ∧
      kmallocFreeFrames h' = 64 ∧ kmallocUsedFrames h' = 0 := by
  obtain ⟨p', hinit⟩ := kmallocInit_acpiTable ⟨fun _ => 0, 0, 0, 0⟩
  obtain ⟨s, h', hrun, hfreed⟩ := exists_freed_twice ⟨fun _ => 0, 0, 0, 0⟩
  exact ⟨p', _, s, h', hinit, hrun, kmalloc_notMem_reforge, hfreed⟩

/-- In every state a run reaches, `kfree` of a pointer that `kmalloc` never returned changes
nothing and does not fault exactly when the pointer is null or its header can be read and does
not check out. -/
theorem kfree_wild_iff (p : Pmm) (h₀ : Heap) :
    ∃ p' h, kmallocInit p h₀ = .ok (p', h) ∧
      ∀ calls s, Steps CallStep ⟨⟨h, []⟩, []⟩ calls s → ∀ ptr ∉ s.returned,
        kfree ptr s.heap = .ok s.heap ↔ s.heap.Rejects ptr := by
  obtain ⟨p', h, lo, n, a, hinit, hstart⟩ := kmallocInit_spec p h₀
  exact ⟨p', h, hinit, fun calls s hrun ptr hptr => kfree_unchanged_iff ptr s.heap⟩

/-- Right after initialization the address 8 faults: its header would lie below address 0. -/
theorem kfree_low_not_rejected :
    ∃ p' h, kmallocInit (pmmInit smallImage 0 none) ⟨fun _ => 0, 0, 0, 0⟩ = .ok (p', h) ∧
      kfree 8 h ≠ .ok h := by
  obtain ⟨p', h, _, _, _, hinit, _⟩ :=
    kmallocInit_spec (pmmInit smallImage 0 none) ⟨fun _ => 0, 0, 0, 0⟩
  refine ⟨p', h, hinit, fun hsame => ?_⟩
  have hhdr : ((8 : UInt64) - headerSize).toNat = 0xFFFFFFFFFFFFFFF8 := rfl
  rcases (kfree_unchanged_iff 8 h).mp hsame with hnull | ⟨hwindow, _⟩
  · cases hnull
  · rw [hhdr] at hwindow
    omega

end Nadir
