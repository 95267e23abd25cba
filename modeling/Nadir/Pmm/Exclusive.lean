import Nadir.Pmm.Counter
import Nadir.Pmm.Reserved
import Nadir.Lib.Ownership

/-!
# Frames have one owner

A client of the frame allocator holds the addresses it was given and frees only those. The free
frames and the frames it holds then partition the frames that were free at the start, so the
bitmap and the list of held addresses refine one `Ownership` of that set.
-/

namespace Nadir

/-- The allocator and the addresses its clients hold. -/
structure PmmClient where
  pmm : Pmm
  held : List UInt64

def PmmClient.alloc (c : PmmClient) : PmmClient :=
  let r := pmmAllocFrame c.pmm
  ⟨r.1, if r.2 = 0 then c.held else r.2 :: c.held⟩

def PmmClient.free (addr : UInt64) (c : PmmClient) : PmmClient :=
  ⟨pmmFreeFrame addr c.pmm, c.held.erase addr⟩

/-- The states a client reaches from `s₀` when it frees only addresses it holds. -/
inductive PmmClient.Reachable (s₀ : Pmm) : PmmClient → Prop
  | start : Reachable s₀ ⟨s₀, []⟩
  | alloc {c : PmmClient} (hc : Reachable s₀ c) : Reachable s₀ c.alloc
  | free {c : PmmClient} (hc : Reachable s₀ c) {addr : UInt64} (hne : addr ≠ 0)
      (hheld : addr ∈ c.held) : Reachable s₀ (c.free addr)

/-- The client state represents an ownership of the frames `U`: the clear bits are the free frames
and the held addresses are those of the held frames, each once. -/
structure PmmClient.Represents {U : Finset ℕ} (c : PmmClient) (o : Ownership U) : Prop where
  free : freeFrames c.pmm = o.free
  nodup : c.held.Nodup
  mem_held : ∀ addr, addr ∈ c.held ↔ ∃ frame ∈ o.held, frameAddr frame = addr
  counter : CounterExact c.pmm

variable {U : Finset ℕ}

theorem PmmClient.Represents.frameAddr_mem_held {c : PmmClient} {o : Ownership U}
    (h : c.Represents o) (hU : ∀ frame ∈ U, frame < pmmMaxFrames) {frame : ℕ}
    (hlt : frame < pmmMaxFrames) : frameAddr frame ∈ c.held ↔ frame ∈ o.held := by
  rw [h.mem_held]
  constructor
  · rintro ⟨g, hg, heq⟩
    rwa [← (frameAddr_inj (hU g (o.held_subset hg)) hlt).mp heq]
  · exact fun hmem => ⟨frame, hmem, rfl⟩

theorem PmmClient.Represents.length_held {c : PmmClient} {o : Ownership U}
    (h : c.Represents o) (hU : ∀ frame ∈ U, frame < pmmMaxFrames) :
    c.held.length = o.held.card := by
  have himage : c.held.toFinset = o.held.image frameAddr := by
    ext addr
    rw [List.mem_toFinset, h.mem_held, Finset.mem_image]
  rw [← List.toFinset_card_of_nodup h.nodup, himage]
  apply Finset.card_image_of_injOn
  intro f hf g hg heq
  exact (frameAddr_inj (hU f (o.held_subset hf)) (hU g (o.held_subset hg))).mp heq

theorem PmmClient.alloc_eq {c : PmmClient} {frame : ℕ}
    (hleast : IsLeast (freeFrames c.pmm : Set ℕ) frame) (hpos : frame ≠ 0) :
    c.alloc.held = frameAddr frame :: c.held ∧
      freeFrames c.alloc.pmm = (freeFrames c.pmm).erase frame := by
  have hfree : frame ∈ freeFrames c.pmm := Finset.mem_coe.mp hleast.1
  have hne : frameAddr frame ≠ 0 := frameAddr_ne_zero (lt_of_mem_freeFrames hfree) hpos
  obtain ⟨hempty, _⟩ | ⟨g, hg, heq⟩ := pmmAllocFrame_spec c.pmm
  · rw [hempty] at hfree
    exact absurd hfree (Finset.notMem_empty frame)
  · obtain rfl := hg.unique hleast
    simp only [PmmClient.alloc, heq, if_neg hne, true_and]
    exact freeFrames_setBit hfree _

theorem PmmClient.Represents.alloc {c : PmmClient} {o : Ownership U} (h : c.Represents o)
    (hU : ∀ frame ∈ U, frame < pmmMaxFrames) (h0 : 0 ∉ U) :
    ∃ o' : Ownership U, c.alloc.Represents o' := by
  obtain ⟨_, heq⟩ | ⟨frame, hleast, _⟩ := pmmAllocFrame_spec c.pmm
  · refine ⟨o, ?_⟩
    have hsame : c.alloc = c := by simp only [PmmClient.alloc, heq, if_true]
    rwa [hsame]
  · have hfree : frame ∈ o.free := h.free ▸ Finset.mem_coe.mp hleast.1
    have hmem : frame ∈ U := o.free_subset hfree
    obtain ⟨hheld, hframes⟩ := c.alloc_eq hleast (fun hz => h0 (hz ▸ hmem))
    refine ⟨o.take frame hfree, ?_, ?_, fun addr => ?_, h.counter.alloc⟩
    · rw [hframes, h.free]
      rfl
    · rw [hheld, List.nodup_cons, h.frameAddr_mem_held hU (hU frame hmem)]
      exact ⟨o.notMem_held hfree, h.nodup⟩
    · change addr ∈ c.alloc.held ↔ ∃ g ∈ insert frame o.held, frameAddr g = addr
      rw [hheld, List.mem_cons, h.mem_held, Finset.exists_mem_insert]
      exact or_congr_left eq_comm

theorem PmmClient.Represents.release {c : PmmClient} {o : Ownership U} (h : c.Represents o)
    (hU : ∀ frame ∈ U, frame < pmmMaxFrames) {addr : UInt64} (hheld : addr ∈ c.held) :
    ∃ o' : Ownership U, (c.free addr).Represents o' := by
  obtain ⟨frame, hown, rfl⟩ := (h.mem_held addr).mp hheld
  have hlt : frame < pmmMaxFrames := hU frame (o.held_subset hown)
  refine ⟨o.give frame hown, ?_, h.nodup.erase _, fun addr => ?_, h.counter.free _⟩
  · change freeFrames (pmmFreeFrame (frameAddr frame) c.pmm) = insert frame o.free
    rw [freeFrames_pmmFreeFrame hlt, h.free]
  · change addr ∈ c.held.erase (frameAddr frame) ↔ ∃ g ∈ o.held.erase frame, frameAddr g = addr
    rw [h.nodup.mem_erase_iff, h.mem_held]
    constructor
    · rintro ⟨hne, g, hg, rfl⟩
      exact ⟨g, Finset.mem_erase.mpr ⟨fun heq => hne (heq ▸ rfl), hg⟩, rfl⟩
    · rintro ⟨g, hg, rfl⟩
      obtain ⟨hne, hg⟩ := Finset.mem_erase.mp hg
      have hglt := hU g (o.held_subset hg)
      exact ⟨fun heq => hne ((frameAddr_inj hglt hlt).mp heq), g, hg, rfl⟩

theorem PmmClient.Reachable.represents {s₀ : Pmm} (hexact : CounterExact s₀)
    (h0 : 0 ∉ freeFrames s₀) {c : PmmClient} (hc : PmmClient.Reachable s₀ c) :
    ∃ o : Ownership (freeFrames s₀), c.Represents o := by
  have hU : ∀ frame ∈ freeFrames s₀, frame < pmmMaxFrames := fun _ => lt_of_mem_freeFrames
  induction hc with
  | start => exact ⟨Ownership.start _, rfl, List.nodup_nil, by simp [Ownership.start], hexact⟩
  | alloc _ ih =>
    obtain ⟨o, ho⟩ := ih
    exact ho.alloc hU h0
  | free _ _ hheld ih =>
    obtain ⟨o, ho⟩ := ih
    exact ho.release hU hheld

def PmmClient.heldFrames (c : PmmClient) : Finset ℕ :=
  (c.held.map (fun addr => addr.toNat / 4096)).toFinset

theorem PmmClient.Represents.heldFrames_eq {c : PmmClient} {o : Ownership U}
    (h : c.Represents o) (hU : ∀ frame ∈ U, frame < pmmMaxFrames) : c.heldFrames = o.held := by
  have hframe : ∀ frame ∈ o.held, (frameAddr frame).toNat / 4096 = frame :=
    fun frame hmem => frameAddr_div (hU frame (o.held_subset hmem))
  ext frame
  simp only [PmmClient.heldFrames, List.mem_toFinset, List.mem_map, h.mem_held]
  constructor
  · rintro ⟨_, ⟨g, hg, rfl⟩, rfl⟩
    rwa [hframe g hg]
  · exact fun hmem => ⟨_, ⟨frame, hmem, rfl⟩, hframe frame hmem⟩

/-- What holds of a client that started on the allocator state `s₀`. -/
structure PmmClient.Exclusive (s₀ : Pmm) (c : PmmClient) : Prop where
  nodup : c.held.Nodup
  disjoint : Disjoint (freeFrames c.pmm) c.heldFrames
  union_eq : freeFrames c.pmm ∪ c.heldFrames = freeFrames s₀
  count : (pmmFreeCount c.pmm).toNat + c.held.length = (pmmFreeCount s₀).toNat
  result : ∀ addr, addr = (pmmAllocFrame c.pmm).2 → addr ≠ 0 →
    ∃ frame, IsLeast (freeFrames c.pmm : Set ℕ) frame ∧ addr.toNat = 4096 * frame ∧
      addr.toNat < 0x40000000 ∧ frame ∈ freeFrames s₀ ∧ addr ∉ c.held
  exhausted : (pmmAllocFrame c.pmm).2 = 0 ↔ freeFrames s₀ ⊆ c.heldFrames

theorem PmmClient.Reachable.exclusive {s₀ : Pmm} (hexact : CounterExact s₀)
    (h0 : 0 ∉ freeFrames s₀) {c : PmmClient} (hc : PmmClient.Reachable s₀ c) :
    c.Exclusive s₀ := by
  have hU : ∀ frame ∈ freeFrames s₀, frame < pmmMaxFrames := fun _ => lt_of_mem_freeFrames
  obtain ⟨o, ho⟩ := hc.represents hexact h0
  have hheld := ho.heldFrames_eq hU
  have hsub : freeFrames c.pmm ⊆ freeFrames s₀ := ho.free.trans_subset o.free_subset
  refine ⟨ho.nodup, ?_, ?_, ?_, ?_, ?_⟩
  · rw [hheld, ho.free]
    exact o.disjoint
  · rw [hheld, ho.free]
    exact o.union_eq
  · rw [pmmFreeCount, pmmFreeCount, ho.counter, hexact, ho.length_held hU, ho.free]
    exact o.card_free_add_card_held
  · rintro addr rfl hne
    obtain ⟨_, heq⟩ | ⟨frame, hleast, heq⟩ := pmmAllocFrame_spec c.pmm
    · simp [heq] at hne
    · have hfree : frame ∈ freeFrames c.pmm := Finset.mem_coe.mp hleast.1
      have hlt := lt_of_mem_freeFrames hfree
      have haddr := frameAddr_toNat hlt
      have hnotheld : frameAddr frame ∉ c.held := by
        rw [ho.frameAddr_mem_held hU hlt]
        exact o.notMem_held (ho.free ▸ hfree)
      simp only [heq]
      refine ⟨frame, hleast, haddr, ?_, hsub hfree, hnotheld⟩
      unfold pmmMaxFrames at hlt
      omega
  · rw [(pmmAllocFrame_result hsub h0).2.1, hheld, ho.free]
    exact o.free_eq_empty_iff

/-- In every run of a client of the initialized allocator, a result is the lowest free frame and
nobody holds it; free and held frames partition the frames that were free at the start, the count
agrees, and 0 is returned exactly when every one of them is held. -/
theorem pmm_frames_exclusive (k : KernelImage) (count : UInt32) (t : E820Table) {c : PmmClient}
    (hc : PmmClient.Reachable (pmmInit k count t) c) : c.Exclusive (pmmInit k count t) :=
  hc.exclusive (reserving_pmmInit k count t).1 (zero_notMem_freeFrames_pmmInit k count t)

theorem PmmClient.reachable_reuse {p : Pmm} (hfree : freeFrames p = Finset.Ico 256 512) :
    ∃ c, PmmClient.Reachable p c ∧ c.held = [0x100000, 0x101000] ∧
      c = (((PmmClient.alloc ⟨p, []⟩).alloc).free 0x100000).alloc := by
  have hleast₀ : IsLeast (freeFrames p : Set ℕ) 256 := by
    rw [hfree, Finset.coe_Ico]
    exact isLeast_Ico (by omega)
  obtain ⟨hheld₁, hfree₁⟩ := @PmmClient.alloc_eq ⟨p, []⟩ 256 hleast₀ (by omega)
  have hleast₁ : IsLeast (freeFrames (PmmClient.alloc ⟨p, []⟩).pmm : Set ℕ) 257 := by
    have hrest : (Finset.Ico 256 512).erase 256 = Finset.Ico 257 512 := by
      ext frame
      rw [Finset.mem_erase, Finset.mem_Ico, Finset.mem_Ico]
      omega
    rw [hfree₁, hfree, hrest, Finset.coe_Ico]
    exact isLeast_Ico (by omega)
  have hreached := (@PmmClient.Reachable.start p).alloc.alloc
  generalize PmmClient.alloc ⟨p, []⟩ = c₁ at *
  obtain ⟨hheld₂, hfree₂⟩ := c₁.alloc_eq hleast₁ (by omega)
  have hmem : frameAddr 256 ∈ c₁.alloc.held := by
    rw [hheld₂, hheld₁]
    exact List.mem_cons_of_mem _ List.mem_cons_self
  have hleast₃ : IsLeast (freeFrames (c₁.alloc.free (frameAddr 256)).pmm : Set ℕ) 256 := by
    rw [PmmClient.free, freeFrames_pmmFreeFrame (by decide), hfree₂, hfree₁, hfree]
    refine ⟨Finset.mem_coe.mpr (Finset.mem_insert_self _ _), fun frame hframe => ?_⟩
    rw [Finset.mem_coe, Finset.mem_insert, Finset.mem_erase, Finset.mem_erase,
      Finset.mem_Ico] at hframe
    omega
  obtain ⟨hheld₄, _⟩ := (c₁.alloc.free (frameAddr 256)).alloc_eq hleast₃ (by omega)
  refine ⟨_, (hreached.free (by decide) hmem).alloc, ?_, rfl⟩
  rw [hheld₄, PmmClient.free, hheld₂, hheld₁]
  rfl

theorem pmm_frames_exclusive_reuse :
    ∃ c : PmmClient, c.held = [0x100000, 0x101000] ∧
      c = (((PmmClient.alloc ⟨pmmInit smallImage 2 acpiTable, []⟩).alloc).free 0x100000).alloc ∧
      c.Exclusive (pmmInit smallImage 2 acpiTable) := by
  obtain ⟨c, hc, hheld, heq⟩ := PmmClient.reachable_reuse freeFrames_acpiTable
  exact ⟨c, hheld, heq, pmm_frames_exclusive smallImage 2 acpiTable hc⟩

end Nadir
