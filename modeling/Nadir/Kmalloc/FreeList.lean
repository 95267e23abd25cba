import Nadir.Kmalloc.Basic
import Nadir.Lib.FirstFit
import Nadir.Pmm.Ops

/-!
# The free list in memory

`FreeChain m p rs` says that following the next pointers from `p` visits the free runs `rs` and
ends at the null pointer. It reads only bytes of these runs, so a write outside them leaves the
chain as it is. A link in front of the chain lies in none of its runs.
-/

namespace Nadir

open ByteMem Tiling

/-- A non-empty run of frames inside the window that leaves frame 0 out. -/
structure RunOk (r : Run) : Prop where
  pos : 0 < r.start
  len : 0 < r.len
  le : r.start + r.len ≤ pmmMaxFrames

theorem RunOk.start_lt {r : Run} (h : RunOk r) : r.start < pmmMaxFrames := by
  have := h.len
  have := h.le
  omega

/-- The byte lies in the frames of the run. -/
def InRun (r : Run) (b : ℕ) : Prop := 4096 * r.start ≤ b ∧ b < 4096 * (r.start + r.len)

theorem not_inRun_of_apart {r s : Run} (h : r.Apart s) {b : ℕ} (hb : InRun r b) :
    ¬ InRun s b := by
  unfold InRun Run.Apart at *
  omega

theorem InRun.of_header {r : Run} (h : RunOk r) {b : ℕ} (hlo : 4096 * r.start ≤ b)
    (hhi : b < 4096 * r.start + 16) : InRun r b := by
  have := h.len
  unfold InRun
  omega

theorem InRun.outside_header {r : Run} (h : RunOk r) {b : ℕ} (hb : ¬InRun r b) :
    b < 4096 * r.start ∨ 4096 * r.start + 16 ≤ b := by
  by_contra! hmid
  exact hb (InRun.of_header h hmid.1 hmid.2)

namespace Heap

variable (h : Heap) {frame : ℕ}

/-! Accesses to the two words of a header below the end of the mapped memory. -/

theorem add_eight_toNat {a : UInt64} (ha : a.toNat + 16 ≤ 0x40000000) :
    (a + 8).toNat = a.toNat + 8 := by
  rw [UInt64.toNat_add]
  simp only [UInt64.reduceToNat]
  omega

theorem load_of_le {a : UInt64} (ha : a.toNat + 8 ≤ 0x40000000) :
    h.load a = .ok (load64 h.mem a.toNat) := if_pos ha

theorem load_add_eight_of_le {a : UInt64} (ha : a.toNat + 16 ≤ 0x40000000) :
    h.load (a + 8) = .ok (load64 h.mem (a.toNat + 8)) := by
  rw [← add_eight_toNat ha]
  exact h.load_of_le (by rw [add_eight_toNat ha]; omega)

theorem store_of_le {a : UInt64} (ha : a.toNat + 8 ≤ 0x40000000) (v : UInt64) :
    h.store a v = .ok { h with mem := store64 h.mem a.toNat v } := if_pos ha

theorem store_add_eight_of_le {a : UInt64} (ha : a.toNat + 16 ≤ 0x40000000) (v : UInt64) :
    h.store (a + 8) v = .ok { h with mem := store64 h.mem (a.toNat + 8) v } := by
  rw [← add_eight_toNat ha]
  exact h.store_of_le (by rw [add_eight_toNat ha]; omega) v

theorem frameAddr_header_le (hf : frame < pmmMaxFrames) :
    (frameAddr frame).toNat + 16 ≤ 0x40000000 := by
  rw [frameAddr_toNat hf]
  unfold pmmMaxFrames at hf
  omega

theorem load_frameAddr (hf : frame < pmmMaxFrames) :
    h.load (frameAddr frame) = .ok (load64 h.mem (4096 * frame)) := by
  have hle := frameAddr_header_le hf
  rw [h.load_of_le (by omega), frameAddr_toNat hf]

theorem load_frameAddr_add_eight (hf : frame < pmmMaxFrames) :
    h.load (frameAddr frame + 8) = .ok (load64 h.mem (4096 * frame + 8)) := by
  rw [h.load_add_eight_of_le (frameAddr_header_le hf), frameAddr_toNat hf]

theorem store_frameAddr (hf : frame < pmmMaxFrames) (v : UInt64) :
    h.store (frameAddr frame) v = .ok { h with mem := store64 h.mem (4096 * frame) v } := by
  have hle := frameAddr_header_le hf
  rw [h.store_of_le (by omega), frameAddr_toNat hf]

theorem store_frameAddr_add_eight (hf : frame < pmmMaxFrames) (v : UInt64) :
    h.store (frameAddr frame + 8) v =
      .ok { h with mem := store64 h.mem (4096 * frame + 8) v } := by
  rw [h.store_add_eight_of_le (frameAddr_header_le hf), frameAddr_toNat hf]

/-- The value a link holds and the heap with another value in it. -/
def linkValue : Link → UInt64
  | .head => h.gFreeList
  | .next run => load64 h.mem run.toNat

def setLink (v : UInt64) : Link → Heap
  | .head => { h with gFreeList := v }
  | .next run => { h with mem := store64 h.mem run.toNat v }

end Heap

/-- The bytes a link occupies; the list head is a global outside the pool. -/
def Link.Covers : Link → ℕ → Prop
  | .head, _ => False
  | .next run, b => run.toNat ≤ b ∧ b < run.toNat + 8

/-- The links the walk reaches in front of the runs `rs`: the head, or the next field of a free
run that is apart from all of them. -/
inductive LinkOf (rs : List Run) : Link → Prop
  | head : LinkOf rs .head
  | next {q : Run} (hq : RunOk q) (hapart : ∀ r ∈ rs, q.Apart r) :
      LinkOf rs (.next (frameAddr q.start))

theorem LinkOf.loadLink {rs : List Run} {link : Link} (hl : LinkOf rs link) (h : Heap) :
    h.loadLink link = .ok (h.linkValue link) := by
  cases hl with
  | head => rfl
  | next hq _ =>
    rw [Heap.loadLink, h.load_frameAddr hq.start_lt, Heap.linkValue, frameAddr_toNat hq.start_lt]

theorem LinkOf.storeLink {rs : List Run} {link : Link} (hl : LinkOf rs link) (h : Heap)
    (v : UInt64) : h.storeLink v link = .ok (h.setLink v link) := by
  cases hl with
  | head => rfl
  | next hq _ =>
    rw [Heap.storeLink, h.store_frameAddr hq.start_lt, Heap.setLink, frameAddr_toNat hq.start_lt]

theorem LinkOf.not_inRun {rs : List Run} {link : Link} (hl : LinkOf rs link) {r : Run}
    (hr : r ∈ rs) {b : ℕ} (hb : link.Covers b) : ¬ InRun r b := by
  cases hl with
  | head => exact hb.elim
  | @next q hq hapart =>
    rw [Link.Covers, frameAddr_toNat hq.start_lt] at hb
    exact not_inRun_of_apart (hapart r hr) (InRun.of_header hq hb.1 (by omega))

/-- Following next pointers from `p` visits the runs and ends at the null pointer. -/
def FreeChain (m : Mem) : UInt64 → List Run → Prop
  | p, [] => p = 0
  | p, r :: rs => p = frameAddr r.start ∧
      load64 m (4096 * r.start + 8) = UInt64.ofNat r.len ∧
      FreeChain m (load64 m (4096 * r.start)) rs

theorem FreeChain.congr {m m' : Mem} {p : UInt64} {rs : List Run} (hc : FreeChain m p rs)
    (hok : ∀ r ∈ rs, RunOk r) (hsame : ∀ r ∈ rs, ∀ b, InRun r b → m' b = m b) :
    FreeChain m' p rs := by
  induction rs generalizing p with
  | nil => exact hc
  | cons r rs ih =>
    obtain ⟨hp, hframes, hrest⟩ := hc
    have hr := hok r List.mem_cons_self
    obtain ⟨hnext, hlen⟩ := load64_pair_congr (fun b hlo hhi => hsame r List.mem_cons_self b
      (InRun.of_header hr hlo hhi))
    refine ⟨hp, by rw [hlen, hframes], ?_⟩
    rw [hnext]
    exact ih hrest (fun s hs => hok s (List.mem_cons_of_mem _ hs))
      (fun s hs => hsame s (List.mem_cons_of_mem _ hs))

/-- The effect of taking the run `t` out of the free runs `rs` that start at `link`. -/
structure Taken (h h' : Heap) (link : Link) (rs rest : List Run) (t : Run) : Prop where
  chain : FreeChain h'.mem (h'.linkValue link) rest
  magic : load64 h'.mem (4096 * t.start) = kmallocMagic
  frames : load64 h'.mem (4096 * t.start + 8) = UInt64.ofNat t.len
  freeFrames : h'.gFreeFrames = h.gFreeFrames - UInt64.ofNat t.len
  usedFrames : h'.gUsedFrames = h.gUsedFrames + UInt64.ofNat t.len
  head : link ≠ .head → h'.gFreeList = h.gFreeList
  frame : ∀ b, ¬ link.Covers b → (∀ r ∈ rs, ¬ InRun r b) → h'.mem b = h.mem b

end Nadir
