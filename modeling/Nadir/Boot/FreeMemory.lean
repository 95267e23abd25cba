import Nadir.Boot.PageTables
import Nadir.Pmm.Exclusive
import Nadir.Pmm.Usable

/-!
# From the firmware's list to the free frames

What the firmware answers passes through the staging area and the kernel's globals to `pmm_init`.
The frames that are free in the end are those its list offers and does not reserve, and the page
tables map them to themselves.
-/

namespace Nadir

open ByteMem Paging X86

def memmapEntries (layout : KernelLayout) (m : Mem) : E820Table :=
  some fun i => entryAt m (layout.memmapEntries + 24 * i)

def bootPmm (k : KernelImage) (layout : KernelLayout) (m : Mem) : Pmm :=
  pmmInit k (load32 m layout.memmapCount) (memmapEntries layout m)

/-- An entry as its answer left it in its slot. -/
def answeredEntry (answers : ℕ → E820Answer) (m₀ : Mem) (i : ℕ) : E820Entry :=
  entryAt (slotByte answers m₀ i) 0

/-- The memory the kernel goes by: the listed entries up to 64, or the entry made up. -/
inductive Described (answers : ℕ → E820Answer) (m₀ : Mem) : E820Entry → Prop
  | listed {i : ℕ} (hi : i < 64) (h : Listed answers i) :
      Described answers m₀ (answeredEntry answers m₀ i)
  | madeUp (h : ¬(answers 0).Accepted) (attr : UInt32) :
      Described answers m₀ ⟨0x100000, 0x07F00000, 1, attr⟩

variable {answers : ℕ → E820Answer} {m₀ m : Mem} {layout : KernelLayout}

theorem entryAt_eq_of_bytes {m m' : Mem} {a a' : ℕ} (h : ∀ k < 24, m (a + k) = m' (a' + k)) :
    entryAt m a = entryAt m' a' := by
  have hword : ∀ d n, d + n ≤ 24 → loadLE m (a + d) n = loadLE m' (a' + d) n := by
    intro d n hd
    apply loadLE_eq_of_bytes
    intro k hk
    rw [Nat.add_assoc, Nat.add_assoc]
    exact h (d + k) (by omega)
  have hbase : load64 m a = load64 m' a' := congrArg UInt64.ofNat (hword 0 8 (by omega))
  have hlength : load64 m (a + 8) = load64 m' (a' + 8) :=
    congrArg UInt64.ofNat (hword 8 8 (by omega))
  have htype : load32 m (a + 16) = load32 m' (a' + 16) :=
    congrArg UInt32.ofNat (hword 16 4 (by omega))
  have hattr : load32 m (a + 20) = load32 m' (a' + 20) :=
    congrArg UInt32.ofNat (hword 20 4 (by omega))
  rw [entryAt, entryAt, hbase, hlength, htype, hattr]

theorem Listed.accepted {i : ℕ} (h : Listed answers i) : (answers 0).Accepted := by
  by_contra hrefused
  exact Listed.not_of_le hrefused (Nat.zero_le i) h

theorem StagedMap.entryCount_eq (layout : KernelLayout) (h : StagedMap answers m₀ m) :
    entryCount (load32 (stage2 layout m) layout.memmapCount)
      (memmapEntries layout (stage2 layout m)) = (m e820CountAddr).toNat := by
  have hcount := stage2_count layout h.le
  rw [memmapEntries, entryCount, hcount]
  exact Nat.min_eq_left h.le

theorem StagedMap.entry_eq (layout : KernelLayout) (h : StagedMap answers m₀ m)
    (hacc : (answers 0).Accepted) {i : ℕ} (hi : i < (m e820CountAddr).toNat) :
    (memmapEntries layout (stage2 layout m)).entry i = answeredEntry answers m₀ i := by
  apply entryAt_eq_of_bytes
  intro k hk
  rw [stage2_byte layout h.le hi hk, h.slot hacc i hi k hk, Nat.zero_add]

theorem StagedMap.exists_entry_iff (layout : KernelLayout) (h : StagedMap answers m₀ m)
    (P : E820Entry → Prop) (hP : ∀ base length type attr attr',
      P ⟨base, length, type, attr⟩ → P ⟨base, length, type, attr'⟩) :
    (∃ i < (m e820CountAddr).toNat, P ((memmapEntries layout (stage2 layout m)).entry i)) ↔
      ∃ e, Described answers m₀ e ∧ P e := by
  by_cases hacc : (answers 0).Accepted
  · constructor
    · rintro ⟨i, hi, hPi⟩
      have hlt := hi.trans_le h.le
      rw [h.entry_eq layout hacc hi] at hPi
      exact ⟨_, .listed hlt ((h.listed hacc i hlt).mp hi), hPi⟩
    · rintro ⟨e, hdescribed, hPe⟩
      cases hdescribed with
      | @listed i hlt hi =>
        have hcount := (h.listed hacc i hlt).mpr hi
        rw [← h.entry_eq layout hacc hcount] at hPe
        exact ⟨i, hcount, hPe⟩
      | madeUp hrefused => exact absurd hacc hrefused
  · obtain ⟨hone, h0, h4, h8, h12, h16⟩ := h.fallback hacc
    obtain ⟨attr, hentry⟩ := entryAt_fallback layout hone h0 h4 h8 h12 h16
    have hfirst : (memmapEntries layout (stage2 layout m)).entry 0 =
        ⟨0x100000, 0x07F00000, 1, attr⟩ := by
      rw [memmapEntries, E820Table.entry, Nat.mul_zero, Nat.add_zero, hentry]
    rw [hone]
    constructor
    · rintro ⟨i, hi, hPi⟩
      obtain rfl : i = 0 := by omega
      rw [hfirst] at hPi
      exact ⟨_, .madeUp hacc attr, hPi⟩
    · rintro ⟨e, hdescribed, hPe⟩
      cases hdescribed with
      | listed _ hlisted => exact absurd hlisted.accepted hacc
      | madeUp _ attr' =>
        refine ⟨0, Nat.one_pos, ?_⟩
        rw [hfirst]
        exact hP _ _ _ attr' attr hPe

theorem StagedMap.mem_freeFrames (layout : KernelLayout) (k : KernelImage)
    (h : StagedMap answers m₀ m) (frame : ℕ) :
    frame ∈ freeFrames (bootPmm k layout (stage2 layout m)) ↔
      (∃ e, Described answers m₀ e ∧ frame ∈ usableFrames e) ∧
      (∀ e, Described answers m₀ e → frame ∉ reservedFrames e) ∧
      256 ≤ frame ∧ frame ∉ imageFrames k := by
  have husable := h.exists_entry_iff layout (fun e => frame ∈ usableFrames e)
    (fun _ _ _ _ _ hmem => hmem)
  have hreserved := h.exists_entry_iff layout (fun e => frame ∈ reservedFrames e)
    (fun _ _ _ _ _ hmem => hmem)
  have hnone : (∀ i < (m e820CountAddr).toNat,
      frame ∉ reservedFrames ((memmapEntries layout (stage2 layout m)).entry i)) ↔
      ∀ e, Described answers m₀ e → frame ∉ reservedFrames e := by
    have hnot := not_congr hreserved
    push Not at hnot
    exact hnot
  rw [bootPmm, mem_freeFrames_pmmInit, h.entryCount_eq, husable, hnone]

theorem StagedMap.usable_card (layout : KernelLayout) (k : KernelImage)
    (h : StagedMap answers m₀ m) :
    ((pmmUsableCount (bootPmm k layout (stage2 layout m))).toNat : ℕ∞) =
      Set.encard {frame | ∃ e, Described answers m₀ e ∧ frame ∈ usableFrames e} := by
  have hset : {frame | ∃ e, Described answers m₀ e ∧ frame ∈ usableFrames e} =
      (offeredFrames (load32 (stage2 layout m) layout.memmapCount)
        (memmapEntries layout (stage2 layout m)) : Set ℕ) := by
    ext frame
    have husable := h.exists_entry_iff layout (fun e => frame ∈ usableFrames e)
      (fun _ _ _ _ _ hmem => hmem)
    rw [Finset.mem_coe, ← freeFrames_usablePass, mem_freeFrames_usablePass, h.entryCount_eq,
      husable]
    rfl
  rw [hset, Set.encard_coe_eq_coe_finsetCard, pmmUsableCount, bootPmm, pmmInit_gUsable_toNat]

/-- What the firmware's list makes of a frame: some entry offers it whole, none takes it back, and
it is neither in the low 1 MB nor in the kernel image. -/
structure FreeFrame (k : KernelImage) (answers : ℕ → E820Answer) (m₀ : Mem) (frame : ℕ) :
    Prop where
  offered : ∃ e, Described answers m₀ e ∧ frame ∈ usableFrames e
  kept : ∀ e, Described answers m₀ e → frame ∉ reservedFrames e
  high : 256 ≤ frame
  image : frame ∉ imageFrames k

/-- The frame allocator behind the boot, from the firmware's list to the frames its clients hold
and to their mapping. -/
structure DeliversMemory (k : KernelImage) (layout : KernelLayout) (answers : ℕ → E820Answer)
    (m₀ m : Mem) : Prop where
  free : ∀ frame, frame ∈ freeFrames (bootPmm k layout m) ↔ FreeFrame k answers m₀ frame
  usable : ((pmmUsableCount (bootPmm k layout m)).toNat : ℕ∞) =
    Set.encard {frame | ∃ e, Described answers m₀ e ∧ frame ∈ usableFrames e}
  held : ∀ c, PmmClient.Reachable (bootPmm k layout m) c → ∀ addr ∈ c.held,
    ∃ frame, FreeFrame k answers m₀ frame ∧ addr.toNat = 4096 * frame
  mapped : layout.bssStop ≤ 0x70000 ∨ 0x73000 ≤ layout.bssStart →
    ∀ c, PmmClient.Reachable (bootPmm k layout m) c → ∀ addr ∈ c.held, ∀ d < 4096,
      pageWalk m pml4 (addr + UInt64.ofNat d) = .mapped (addr.toNat + d) true

theorem PmmClient.Reachable.held_frame {p : Pmm} (hexact : CounterExact p)
    (hzero : 0 ∉ freeFrames p) {c : PmmClient} (hc : PmmClient.Reachable p c) {addr : UInt64}
    (haddr : addr ∈ c.held) : ∃ frame ∈ freeFrames p, addr.toNat = 4096 * frame := by
  obtain ⟨o, ho⟩ := hc.represents hexact hzero
  obtain ⟨frame, hheld, rfl⟩ := (ho.mem_held addr).mp haddr
  have hfree := o.held_subset hheld
  exact ⟨frame, hfree, frameAddr_toNat (lt_of_mem_freeFrames hfree)⟩

theorem StagedMap.deliversMemory (layout : KernelLayout) (k : KernelImage)
    (h : StagedMap answers m₀ m) : DeliversMemory k layout answers m₀ (stage2 layout m) := by
  have hfree : ∀ frame, frame ∈ freeFrames (bootPmm k layout (stage2 layout m)) ↔
      FreeFrame k answers m₀ frame := by
    intro frame
    rw [h.mem_freeFrames]
    exact ⟨fun ⟨hoffer, hkept, hhigh, himage⟩ => ⟨hoffer, hkept, hhigh, himage⟩,
      fun hf => ⟨hf.offered, hf.kept, hf.high, hf.image⟩⟩
  have hexact := (reserving_pmmInit k (load32 (stage2 layout m) layout.memmapCount)
    (memmapEntries layout (stage2 layout m))).1
  have hzero := zero_notMem_freeFrames_pmmInit k (load32 (stage2 layout m) layout.memmapCount)
    (memmapEntries layout (stage2 layout m))
  refine ⟨hfree, h.usable_card layout k, fun c hc addr haddr => ?_,
    fun hbss c hc addr haddr d hd => ?_⟩
  · obtain ⟨frame, hmem, heq⟩ := hc.held_frame hexact hzero haddr
    exact ⟨frame, (hfree frame).mp hmem, heq⟩
  · obtain ⟨frame, hmem, heq⟩ := hc.held_frame hexact hzero haddr
    have hlt := lt_of_mem_freeFrames hmem
    unfold pmmMaxFrames at hlt
    have hbyte : (addr + UInt64.ofNat d).toNat = addr.toNat + d := by
      rw [UInt64.toNat_add, UInt64.toNat_ofNat']
      omega
    rw [(stage2_tables layout m hbss).walk_low (by omega), hbyte]

/-- Whatever the firmware answers and whatever memory held, `query_e820` returns, and behind stage 2
the free frames of `pmm_init` are exactly those that the listed entries offer whole and do not
take back, above the low 1 MB and outside the kernel image; the made-up entry stands for the list
when the first answer is refused. No client ever holds another frame, and where the kernel's
globals leave the page tables alone every byte of a frame held is mapped to itself. -/
theorem boot_delivers_memory (v : BootVars) (layout : KernelLayout) (k : KernelImage)
    (answers : ℕ → E820Answer) (s : Cpu) :
    (∃ j, (queryE820 v answers s j).label = .ret) ∧
    ∀ j, (queryE820 v answers s j).label = .ret →
      DeliversMemory k layout answers s.mem (stage2 layout (queryE820 v answers s j).cpu.mem) := by
  constructor
  · obtain ⟨j, hret, _⟩ := @Staging.returns _ _ _ v _ _ (@staging_start answers s) rfl
    exact ⟨j, hret⟩
  · intro j hret
    exact (queryE820_of_ret s hret).2.deliversMemory layout k

end Nadir
