import Nadir.Kmalloc.FirstBlock
import Nadir.Lib.Transition

/-!
# Clients of the heap

Clients call `kmalloc`, free blocks they hold and write into the payloads of those blocks. Along
every such run the heap represents an arena whose live runs are the blocks held. So free runs and
blocks partition the pool, and no step writes to a block it is not about.
-/

namespace Nadir

open ByteMem Tiling Transition

/-- A block a client holds: the pointer it was given and the frames its request took. -/
structure Block where
  ptr : UInt64
  frames : ℕ
  deriving DecidableEq, Repr

namespace Block

def hdr (b : Block) : ℕ := b.ptr.toNat - headerSize.toNat

def run (b : Block) : Run := ⟨b.hdr / 4096, b.frames⟩

def Contains (b : Block) (addr : ℕ) : Prop := b.hdr ≤ addr ∧ addr < b.hdr + 4096 * b.frames

def InPayload (b : Block) (addr : ℕ) : Prop :=
  b.ptr.toNat ≤ addr ∧ addr < b.hdr + 4096 * b.frames

def ofRun (r : Run) : Block := ⟨frameAddr r.start + headerSize, r.len⟩

theorem ofRun_ptr_toNat {r : Run} (h : RunOk r) : (ofRun r).ptr.toNat = 4096 * r.start + 16 := by
  have hlt := h.start_lt
  rw [ofRun, UInt64.toNat_add, frameAddr_toNat hlt]
  unfold pmmMaxFrames at hlt
  simp only [headerSize, UInt64.reduceToNat]
  omega

theorem ofRun_hdr {r : Run} (h : RunOk r) : (ofRun r).hdr = 4096 * r.start := by
  rw [hdr, ofRun_ptr_toNat h]
  simp only [headerSize, UInt64.reduceToNat]
  omega

theorem ofRun_run {r : Run} (h : RunOk r) : (ofRun r).run = r := by
  rw [run, ofRun_hdr h, Nat.mul_div_cancel_left _ (by omega)]
  rfl

theorem ofRun_contains {r : Run} (h : RunOk r) (addr : ℕ) :
    (ofRun r).Contains addr ↔ InRun r addr := by
  rw [Contains, ofRun_hdr h, InRun, Nat.mul_add]
  rfl

theorem ofRun_ptr_ne_zero {r : Run} (h : RunOk r) : frameAddr r.start + headerSize ≠ 0 := by
  intro hzero
  have hnat := ofRun_ptr_toNat h
  rw [ofRun, hzero, UInt64.toNat_zero] at hnat
  omega

end Block

/-- The heap and the blocks its clients hold. -/
structure HeapState where
  heap : Heap
  live : List Block

inductive HeapOp where
  | kmalloc (size : UInt64)
  | kfree (b : Block)
  | write (b : Block) (addr : ℕ) (v : UInt8)

/-- The owner writes to the block or frees it. -/
def HeapOp.Touches (b : Block) : HeapOp → Prop
  | .kmalloc _ => False
  | .kfree c => c = b
  | .write c _ _ => c = b

/-- One call or one write of a client that owns the block it names. -/
inductive HeapStep : HeapState → HeapOp → HeapState → Prop
  | kmalloc {s : HeapState} {size ptr : UInt64} {h : Heap} (fuel : ℕ)
      (hsize : size.toNat + 16 + 4095 < 2 ^ 64) (hrun : kmalloc fuel size s.heap = .ok (h, ptr)) :
      HeapStep s (.kmalloc size)
        ⟨h, if ptr = 0 then s.live else ⟨ptr, (framesFor size).toNat⟩ :: s.live⟩
  | kfree {s : HeapState} {b : Block} {h : Heap} (hlive : b ∈ s.live)
      (hrun : kfree b.ptr s.heap = .ok h) : HeapStep s (.kfree b) ⟨h, s.live.erase b⟩
  | write {s : HeapState} {b : Block} {addr : ℕ} {v : UInt8} (hlive : b ∈ s.live)
      (hin : b.InPayload addr) :
      HeapStep s (.write b addr v)
        ⟨{ s.heap with mem := Function.update s.heap.mem addr v }, s.live⟩

variable {lo n : ℕ}

/-- The state represents an arena: the heap does, and the blocks held are its live runs. -/
structure HeapState.Represents (s : HeapState) (a : Arena lo n) : Prop where
  heap : s.heap.Represents a
  live : s.live.Perm (a.live.map Block.ofRun)

/-- The state represents some arena of the pool. -/
def HeapState.Sound (lo n : ℕ) (s : HeapState) : Prop := ∃ a : Arena lo n, s.Represents a

theorem HeapState.Represents.exists_run {s : HeapState} {a : Arena lo n} (hr : s.Represents a)
    {b : Block} (hb : b ∈ s.live) : ∃ r ∈ a.live, Block.ofRun r = b :=
  List.mem_map.mp (hr.live.mem_iff.mp hb)

theorem Heap.Represents.congr {h : Heap} {a : Arena lo n} (hp : PoolOk lo n)
    (hr : h.Represents a) {m : Mem} (hfree : ∀ r ∈ a.free, ∀ b, InRun r b → m b = h.mem b)
    (hhdr : ∀ r ∈ a.live, ∀ b, 4096 * r.start ≤ b → b < 4096 * r.start + 16 → m b = h.mem b) :
    ({ h with mem := m } : Heap).Represents a := by
  refine ⟨hr.chain.congr (fun r hmem => hp.runOk_free a hmem) hfree,
    fun r hmem => ?_, hr.freeFrames, hr.usedFrames⟩
  rw [(load64_pair_congr (hhdr r hmem)).1, (load64_pair_congr (hhdr r hmem)).2]
  exact hr.header r hmem

/-- The payloads of the live runs may hold anything. -/
theorem Heap.Represents.of_payloads {h : Heap} {a : Arena lo n} (hp : PoolOk lo n)
    (hr : h.Represents a) {m : Mem} (hsame : ∀ b,
      (∀ r ∈ a.live, b < 4096 * r.start + 16 ∨ 4096 * (r.start + r.len) ≤ b) → m b = h.mem b) :
    ({ h with mem := m } : Heap).Represents a := by
  apply hr.congr hp
  · intro f hf b hb
    apply hsame
    intro r hmem
    have hout := not_inRun_of_apart (a.apart_free_live hf hmem) hb
    unfold InRun at hout
    omega
  · -- the header of a run is in front of its payload, and not in another run
    intro q hq b hlo hhi
    have hb := InRun.of_header (hp.runOk_live a hq) hlo hhi
    apply hsame
    intro r hmem
    by_cases heq : q = r
    · rw [heq] at hhi
      exact Or.inl hhi
    · have hapart := a.tiles.apart (List.mem_append_right _ hq) (List.mem_append_right _ hmem) heq
      have hout := not_inRun_of_apart hapart hb
      unfold InRun at hout
      omega

/-- What a step does to a block it is not about: nothing. -/
def HeapState.Keeps (s s' : HeapState) (b : Block) : Prop :=
  b ∈ s'.live ∧ ∀ addr, b.Contains addr → s'.heap.mem addr = s.heap.mem addr

/-- A call of `kmalloc` that returns has failed and changed nothing, or it has allocated in the
arena and written to free runs only. -/
theorem HeapState.Represents.kmalloc_cases {s : HeapState} {a : Arena lo n} (hp : PoolOk lo n)
    (hr : s.Represents a) {size ptr : UInt64} {h : Heap} {fuel : ℕ}
    (hsize : size.toNat + 16 + 4095 < 2 ^ 64)
    (hrun : Nadir.kmalloc fuel size s.heap = .ok (h, ptr)) :
    (ptr = 0 ∧ h = s.heap) ∨
    ∃ t rest, ∃ hfit : fit (framesNeeded size.toNat) a.free = some (t, rest),
      ptr ≠ 0 ∧ ptr = (Block.ofRun t).ptr ∧
      HeapState.Represents ⟨h, ⟨ptr, (framesFor size).toNat⟩ :: s.live⟩
        (a.alloc (framesNeeded_pos size.toNat) hfit) ∧
      ∀ b, (∀ r ∈ a.free, ¬ InRun r b) → h.mem b = s.heap.mem b := by
  have hmore : Nadir.kmalloc (max fuel (a.free.length + 1)) size s.heap = .ok (h, ptr) :=
    kmallocWalk_mono (Nat.le_max_left _ _) hrun
  obtain ⟨_, heq⟩ | ⟨t, rest, h', hfit, heq, hrep, hout⟩ :=
    kmalloc_spec hp hr.heap hsize (Nat.le_max_right fuel (a.free.length + 1))
  · rw [heq] at hmore
    cases hmore
    exact Or.inl ⟨rfl, rfl⟩
  · rw [heq] at hmore
    cases hmore
    have htlive : t ∈ (a.alloc (framesNeeded_pos size.toNat) hfit).live := List.mem_cons_self
    have htok := hp.runOk_live (a.alloc (framesNeeded_pos size.toNat) hfit) htlive
    have hblock : (⟨frameAddr t.start + headerSize, (framesFor size).toNat⟩ : Block) =
        Block.ofRun t := by
      rw [framesFor_toNat hsize, Block.ofRun, fit_len hfit]
    refine Or.inr ⟨t, rest, hfit, Block.ofRun_ptr_ne_zero htok, rfl, ⟨hrep, ?_⟩, hout⟩
    rw [hblock]
    exact hr.live.cons (Block.ofRun t)

theorem HeapState.Represents.kmalloc {s : HeapState} {a : Arena lo n} (hp : PoolOk lo n)
    (hr : s.Represents a) {size ptr : UInt64} {h : Heap} {fuel : ℕ}
    (hsize : size.toNat + 16 + 4095 < 2 ^ 64)
    (hrun : Nadir.kmalloc fuel size s.heap = .ok (h, ptr)) :
    ∃ a' : Arena lo n, HeapState.Represents
        ⟨h, if ptr = 0 then s.live else ⟨ptr, (framesFor size).toNat⟩ :: s.live⟩ a' ∧
      ∀ r ∈ a.live, ∀ b, InRun r b → h.mem b = s.heap.mem b := by
  obtain ⟨rfl, rfl⟩ | ⟨t, rest, hfit, hne, _, hrep, hout⟩ := hr.kmalloc_cases hp hsize hrun
  · exact ⟨a, ⟨hr.heap, hr.live⟩, fun _ _ _ _ => rfl⟩
  · refine ⟨a.alloc (framesNeeded_pos size.toNat) hfit, ?_, fun r hmem b hb =>
      hout b (fun f hf hfb => not_inRun_of_apart (a.apart_free_live hf hmem) hfb hb)⟩
    rw [if_neg hne]
    exact hrep

theorem HeapState.Represents.kfree_cases {s : HeapState} {a : Arena lo n} (hp : PoolOk lo n)
    (hr : s.Represents a) {b : Block} {h : Heap} (hlive : b ∈ s.live)
    (hrun : Nadir.kfree b.ptr s.heap = .ok h) :
    ∃ r, ∃ hmem : r ∈ a.live, b = Block.ofRun r ∧
      HeapState.Represents ⟨h, s.live.erase b⟩ (a.release r hmem) ∧
      ∀ addr, ¬ b.Contains addr → h.mem addr = s.heap.mem addr := by
  obtain ⟨r, hmem, rfl⟩ := hr.exists_run hlive
  have hrok := hp.runOk_live a hmem
  obtain ⟨h', heq, hrep, hout⟩ := kfree_spec hp hr.heap hmem
  rw [Block.ofRun, heq] at hrun
  cases hrun
  refine ⟨r, hmem, rfl, ⟨hrep, ?_⟩, ?_⟩
  · have hcons : (Block.ofRun r :: s.live.erase (Block.ofRun r)).Perm
        (Block.ofRun r :: (a.live.erase r).map Block.ofRun) := calc
      (Block.ofRun r :: s.live.erase (Block.ofRun r)).Perm s.live :=
        (List.perm_cons_erase hlive).symm
      List.Perm _ (a.live.map Block.ofRun) := hr.live
      List.Perm _ (Block.ofRun r :: (a.live.erase r).map Block.ofRun) :=
        (List.perm_cons_erase hmem).map Block.ofRun
    exact hcons.cons_inv
  · intro addr haddr
    rw [Block.ofRun_contains hrok] at haddr
    exact hout addr haddr

theorem HeapState.Represents.kfree {s : HeapState} {a : Arena lo n} (hp : PoolOk lo n)
    (hr : s.Represents a) {b : Block} {h : Heap} (hlive : b ∈ s.live)
    (hrun : Nadir.kfree b.ptr s.heap = .ok h) :
    ∃ a' : Arena lo n, HeapState.Represents ⟨h, s.live.erase b⟩ a' ∧
      ∀ addr, ¬ b.Contains addr → h.mem addr = s.heap.mem addr := by
  obtain ⟨r, hmem, _, hrep, hout⟩ := hr.kfree_cases hp hlive hrun
  exact ⟨a.release r hmem, hrep, hout⟩

theorem HeapState.Represents.write {s : HeapState} {a : Arena lo n} (hp : PoolOk lo n)
    (hr : s.Represents a) {b : Block} {addr : ℕ} {v : UInt8} (hlive : b ∈ s.live)
    (hin : b.InPayload addr) :
    HeapState.Represents ⟨{ s.heap with mem := Function.update s.heap.mem addr v }, s.live⟩ a ∧
      b.Contains addr := by
  obtain ⟨r, hmem, rfl⟩ := hr.exists_run hlive
  have hrok := hp.runOk_live a hmem
  rw [Block.InPayload, Block.ofRun_ptr_toNat hrok, Block.ofRun_hdr hrok] at hin
  have hlen : (Block.ofRun r).frames = r.len := rfl
  rw [hlen] at hin
  have hinrun : InRun r addr := by
    unfold InRun
    omega
  refine ⟨⟨hr.heap.of_payloads hp fun c hout => ?_, hr.live⟩,
    (Block.ofRun_contains hrok addr).mpr hinrun⟩
  apply Function.update_of_ne
  rintro rfl
  have hpayload := hout r hmem
  omega

theorem HeapState.Represents.not_contains {s : HeapState} {a : Arena lo n} (hp : PoolOk lo n)
    (hr : s.Represents a) {b c : Block} (hb : b ∈ s.live) (hc : c ∈ s.live) (hne : b ≠ c)
    {addr : ℕ} (h : b.Contains addr) : ¬ c.Contains addr := by
  obtain ⟨r, hrmem, rfl⟩ := hr.exists_run hb
  obtain ⟨q, hqmem, rfl⟩ := hr.exists_run hc
  have hrq : r ≠ q := fun heq => hne (congrArg Block.ofRun heq)
  rw [Block.ofRun_contains (hp.runOk_live a hrmem)] at h
  rw [Block.ofRun_contains (hp.runOk_live a hqmem)]
  exact not_inRun_of_apart (a.tiles.apart (List.mem_append_right _ hrmem)
    (List.mem_append_right _ hqmem) hrq) h

theorem HeapState.Represents.step {s s' : HeapState} {a : Arena lo n} {op : HeapOp}
    (hp : PoolOk lo n) (hr : s.Represents a) (h : HeapStep s op s') :
    s'.Sound lo n ∧ ∀ b ∈ s.live, ¬ op.Touches b → s.Keeps s' b := by
  cases h with
  | kmalloc fuel hsize hrun =>
    obtain ⟨a', hrep, hsame⟩ := hr.kmalloc hp hsize hrun
    refine ⟨⟨a', hrep⟩, fun b hb _ => ⟨?_, fun addr haddr => ?_⟩⟩
    · dsimp only
      split_ifs
      · exact hb
      · exact List.mem_cons_of_mem _ hb
    · obtain ⟨r, hmem, rfl⟩ := hr.exists_run hb
      rw [Block.ofRun_contains (hp.runOk_live a hmem)] at haddr
      exact hsame r hmem addr haddr
  | @kfree c h hlive hrun =>
    obtain ⟨a', hrep, hsame⟩ := hr.kfree hp hlive hrun
    refine ⟨⟨a', hrep⟩, fun b hb hne => ⟨?_, fun addr haddr => ?_⟩⟩
    · exact (List.mem_erase_of_ne (fun heq => hne heq.symm)).mpr hb
    · exact hsame addr (hr.not_contains hp hb hlive (fun heq => hne heq.symm) haddr)
  | @write c addr v hlive hin =>
    obtain ⟨hrep, hinrun⟩ := @HeapState.Represents.write _ _ _ _ hp hr _ _ v hlive hin
    refine ⟨⟨a, hrep⟩, fun b hb hne => ⟨hb, fun addr' haddr => ?_⟩⟩
    apply Function.update_of_ne
    rintro rfl
    exact hr.not_contains hp hb hlive (fun heq => hne heq.symm) haddr hinrun

/-! A request that fits is served, and any block held can be freed. -/

theorem HeapState.Represents.exists_kmalloc {s : HeapState} {a : Arena lo n} (hp : PoolOk lo n)
    (hr : s.Represents a) {size : UInt64} (hsize : size.toNat + 16 + 4095 < 2 ^ 64) {t : Run}
    {rest : List Run} (hfit : fit (framesNeeded size.toNat) a.free = some (t, rest)) :
    ∃ h, Nadir.kmalloc (a.free.length + 1) size s.heap = .ok (h, (Block.ofRun t).ptr) ∧
      HeapStep s (.kmalloc size) ⟨h, Block.ofRun t :: s.live⟩ ∧
      HeapState.Represents ⟨h, Block.ofRun t :: s.live⟩
        (a.alloc (framesNeeded_pos size.toNat) hfit) := by
  obtain ⟨hnone, _⟩ | ⟨t', rest', h, hfit', heq, hrep, _⟩ :=
    kmalloc_spec hp hr.heap hsize (Nat.lt_succ_self a.free.length)
  · rw [hnone] at hfit
    cases hfit
  · have hsame := hfit'
    rw [hfit] at hsame
    cases hsame
    have htlive : t ∈ (a.alloc (framesNeeded_pos size.toNat) hfit).live := List.mem_cons_self
    have hne := Block.ofRun_ptr_ne_zero
      (hp.runOk_live (a.alloc (framesNeeded_pos size.toNat) hfit) htlive)
    have hblock : (⟨frameAddr t.start + headerSize, (framesFor size).toNat⟩ : Block) =
        Block.ofRun t := by
      rw [framesFor_toNat hsize, Block.ofRun, fit_len hfit]
    have hstep := HeapStep.kmalloc _ hsize heq
    rw [if_neg hne, hblock] at hstep
    exact ⟨h, heq, hstep, hrep, hr.live.cons (Block.ofRun t)⟩

theorem HeapState.Represents.exists_kfree {s : HeapState} {a : Arena lo n} (hp : PoolOk lo n)
    (hr : s.Represents a) {r : Run} (hmem : r ∈ a.live) (hlive : Block.ofRun r ∈ s.live) :
    ∃ h, HeapStep s (.kfree (Block.ofRun r)) ⟨h, s.live.erase (Block.ofRun r)⟩ ∧
      HeapState.Represents ⟨h, s.live.erase (Block.ofRun r)⟩ (a.release r hmem) := by
  obtain ⟨h, heq, hrep, _⟩ := kfree_spec hp hr.heap hmem
  have hcons := (List.perm_cons_erase hlive).symm.trans
    (hr.live.trans ((List.perm_cons_erase hmem).map Block.ofRun))
  exact ⟨h, .kfree hlive heq, hrep, hcons.cons_inv⟩

theorem Heap.initial_state (h : Heap) (f : ℕ) {j : ℕ} (hj : 0 < j) :
    HeapState.Represents ⟨h.initial f j, []⟩ (Arena.start hj : Arena f j) :=
  ⟨h.initial_represents hj, .nil⟩

theorem exists_reuse (h : Heap) :
    ∃ s s', Steps HeapStep ⟨h.initial 256 64, []⟩ [.kmalloc 1, .kmalloc 5000] s ∧
      s.live = [⟨0x101010, 2⟩, ⟨0x100010, 1⟩] ∧
      FreeChain s.heap.mem s.heap.gFreeList [⟨259, 61⟩] ∧
      Steps HeapStep s [.kfree ⟨0x100010, 1⟩, .kmalloc 100] s' ∧
      s'.live = [⟨0x100010, 1⟩, ⟨0x101010, 2⟩] := by
  have hp : PoolOk 256 64 := ⟨by decide, by decide⟩
  have hr := h.initial_state 256 (j := 64) (by decide)
  have hfit₁ : fit (framesNeeded (1 : UInt64).toNat) [⟨256, 64⟩] =
      some (⟨256, 1⟩, [⟨257, 63⟩]) := by decide
  obtain ⟨h₁, _, hstep₁, hr₁⟩ := hr.exists_kmalloc hp (by decide) hfit₁
  have hfit₂ : fit (framesNeeded (5000 : UInt64).toNat) [⟨257, 63⟩] =
      some (⟨257, 2⟩, [⟨259, 61⟩]) := by decide
  obtain ⟨h₂, _, hstep₂, hr₂⟩ := hr₁.exists_kmalloc hp (by decide) hfit₂
  obtain ⟨h₃, hstep₃, hr₃⟩ := hr₂.exists_kfree hp (r := ⟨256, 1⟩)
    (List.mem_cons_of_mem _ List.mem_cons_self) (List.mem_cons_of_mem _ List.mem_cons_self)
  have hfit₄ : fit (framesNeeded (100 : UInt64).toNat) [⟨256, 1⟩, ⟨259, 61⟩] =
      some (⟨256, 1⟩, [⟨259, 61⟩]) := by decide
  obtain ⟨h₄, _, hstep₄, _⟩ := hr₃.exists_kmalloc hp (by decide) hfit₄
  exact ⟨_, _, .cons hstep₁ (.cons hstep₂ (.nil _)), rfl, hr₂.heap.chain,
    .cons hstep₃ (.cons hstep₄ (.nil _)), rfl⟩

end Nadir
