import Nadir.Boot.Staging
import Mathlib.Data.ENat.Lattice

/-!
# The copy of the memory map

Building the page tables and zeroing the kernel's globals leave the staging area alone, and the
copy carries the count and the staged entries to `memmap_count` and `memmap_entries`, never past
the last entry.
-/

namespace Nadir

open ByteMem X86

theorem fillPd_of_outside {k edi : ℕ} {eax : UInt32} {m : Mem} {b : ℕ}
    (h : b < edi ∨ edi + 8 * k ≤ b) : fillPd k edi eax m b = m b := by
  induction k generalizing edi eax m with
  | zero => rfl
  | succ k ih => rw [fillPd, ih (by omega), store32_of_outside _ _ (by omega)]

theorem buildPageTables_of_outside (m : Mem) {b : ℕ} (h : b < 0x70000 ∨ 0x74000 ≤ b) :
    buildPageTables m b = m b := by
  rw [buildPageTables]
  rw [fillPd_of_outside (by omega), store32_of_outside _ _ (by omega),
    store32_of_outside _ _ (by omega), repStosd_of_outside (by omega)]

theorem fillPd_setBits {k edi a : ℕ} {eax : UInt32} {m : Mem} {bits : UInt8}
    (h : a < edi ∨ edi + 8 * k ≤ a) :
    fillPd k edi eax (setBits m a bits) = setBits (fillPd k edi eax m) a bits := by
  induction k generalizing edi eax m with
  | zero => rfl
  | succ k ih => rw [fillPd, fillPd, store32_setBits _ _ _ (by omega), ih (by omega)]

theorem buildPageTables_setBits (m : Mem) {a : ℕ} (bits : UInt8) (h : a < 0x70000 ∨ 0x74000 ≤ a) :
    buildPageTables (setBits m a bits) = setBits (buildPageTables m) a bits := by
  rw [buildPageTables, buildPageTables]
  rw [repStosd_setBits (by omega), store32_setBits _ _ _ (by omega),
    store32_setBits _ _ _ (by omega), fillPd_setBits (by omega)]

variable {layout : KernelLayout}

def clampedCount (m : Mem) : ℕ := min (m e820CountAddr).toNat e820Max

theorem copyMap_eq (m : Mem) :
    copyMap layout m = repMovsb (clampedCount m * 24) e820Buf.toNat layout.memmapEntries
      (store32 m layout.memmapCount (UInt32.ofNat (clampedCount m))) := by
  have hclamp : (if (m e820CountAddr).toNat ≤ e820Max then (m e820CountAddr).toNat
      else e820Max) = clampedCount m := by
    rw [clampedCount, Nat.min_def]
  rw [copyMap]
  rw [hclamp]
  split_ifs with hzero
  · rw [hzero]
    rfl
  · rfl

theorem clampedCount_le (m : Mem) : clampedCount m ≤ e820Max := Nat.min_le_right _ _

theorem copyMap_of_outside (layout : KernelLayout) (m : Mem) {b : ℕ}
    (hcount : b < layout.memmapCount ∨ layout.memmapCount + 4 ≤ b)
    (hentries : b < layout.memmapEntries ∨ layout.memmapEntries + 24 * e820Max ≤ b) :
    copyMap layout m b = m b := by
  have hle := clampedCount_le m
  rw [copyMap_eq, repMovsb_of_outside (by omega), store32_of_outside _ _ hcount]

theorem copyMap_setBits (layout : KernelLayout) (m : Mem) {a : ℕ} (bits : UInt8)
    (hstaged : 0x5620 ≤ a) (hbss : a < layout.bssStart ∨ layout.bssStop ≤ a) :
    copyMap layout (setBits m a bits) = setBits (copyMap layout m) a bits := by
  have hle := clampedCount_le m
  have hcount := layout.count_mem
  have hentries := layout.entries_mem
  have hmax : e820Max = 64 := rfl
  have hbuf := e820Buf_toNat
  have hsame : clampedCount (setBits m a bits) = clampedCount m := by
    have hstart : e820CountAddr = 0x5000 := rfl
    rw [clampedCount, setBits_of_ne _ (by omega), clampedCount]
  rw [copyMap_eq, copyMap_eq, hsame, store32_setBits _ _ _ (by omega),
    repMovsb_setBits (by omega) (by omega)]

theorem stage2_setBits (layout : KernelLayout) (m : Mem) {a : ℕ} (bits : UInt8)
    (hstaged : 0x5620 ≤ a) (htables : a < 0x70000 ∨ 0x74000 ≤ a)
    (hbss : a < layout.bssStart ∨ layout.bssStop ≤ a) :
    stage2 layout (setBits m a bits) = setBits (stage2 layout m) a bits := by
  rw [stage2, stage2]
  rw [buildPageTables_setBits m bits htables, repStosb_setBits (by omega),
    copyMap_setBits layout _ bits hstaged hbss]

theorem copyMap_count (m : Mem) :
    (load32 (copyMap layout m) layout.memmapCount).toNat = clampedCount m := by
  have hle := clampedCount_le m
  have hapart := layout.apart
  have hmax : e820Max = 64 := rfl
  have hsame : load32 (copyMap layout m) layout.memmapCount = UInt32.ofNat (clampedCount m) := by
    rw [copyMap_eq, ← load32_store32_self m layout.memmapCount (UInt32.ofNat (clampedCount m))]
    apply load32_eq_of_bytes
    intro k hk
    rw [repMovsb_of_outside (by omega), load32_store32_self]
  rw [hsame, UInt32.toNat_ofNat']
  omega

theorem copyMap_byte (m : Mem) {i k : ℕ} (hi : i < clampedCount m) (hk : k < 24) :
    copyMap layout m (layout.memmapEntries + 24 * i + k) = m (e820Buf.toNat + 24 * i + k) := by
  have hle := clampedCount_le m
  have hload := layout.load_le
  have hcount := layout.count_mem
  have hentries := layout.entries_mem
  have hmax : e820Max = 64 := rfl
  have hbuf := e820Buf_toNat
  rw [copyMap_eq, Nat.add_assoc, repMovsb_of_lt (by omega) (by omega),
    store32_of_outside _ _ (by omega), ← Nat.add_assoc]

theorem beforeCopy_of_lt (layout : KernelLayout) (m : Mem) {b : ℕ} (hb : b < 0x10000) :
    repStosb 0 (layout.bssStop - layout.bssStart) layout.bssStart (buildPageTables m) b = m b := by
  have hload := layout.load_le
  rw [repStosb_of_outside (by omega), buildPageTables_of_outside _ (by omega)]

theorem stage2_count (layout : KernelLayout) {m : Mem} (hle : (m e820CountAddr).toNat ≤ 64) :
    (load32 (stage2 layout m) layout.memmapCount).toNat = (m e820CountAddr).toNat := by
  rw [stage2]
  rw [copyMap_count, clampedCount, beforeCopy_of_lt layout m (by decide)]
  exact Nat.min_eq_left hle

theorem stage2_byte (layout : KernelLayout) {m : Mem} (hle : (m e820CountAddr).toNat ≤ 64)
    {i k : ℕ} (hi : i < (m e820CountAddr).toNat) (hk : k < 24) :
    stage2 layout m (layout.memmapEntries + 24 * i + k) = m (e820Buf.toNat + 24 * i + k) := by
  have hbuf := e820Buf_toNat
  rw [stage2]
  rw [copyMap_byte _ ?_ hk, beforeCopy_of_lt layout m (by omega)]
  rw [clampedCount, beforeCopy_of_lt layout m (by decide)]
  exact Nat.lt_min.mpr ⟨hi, Nat.lt_of_lt_of_le hi hle⟩

def entryAt (m : Mem) (a : ℕ) : E820Entry :=
  ⟨load64 m a, load64 m (a + 8), load32 m (a + 16), load32 m (a + 20)⟩

theorem load64_of_words {m : Mem} {a : ℕ} {lo : UInt32} (hlo : load32 m a = lo)
    (hhi : load32 m (a + 4) = 0) : load64 m a = UInt64.ofNat lo.toNat := by
  have hlt := lo.toNat_lt
  rw [← UInt64.toNat_inj, load64_toNat, hlo, hhi, UInt64.toNat_ofNat', UInt32.toNat_zero]
  omega

/-- The list is an initial segment, so its length is what the count says. -/
theorem listLength_min {answers : ℕ → E820Answer} {n : ℕ} (hn : n ≤ 64)
    (hlisted : ∀ i < 64, i < n ↔ Listed answers i) : min (listLength answers) 64 = n := by
  rcases Nat.eq_or_lt_of_le hn with rfl | hlt
  · have hsub : (Finset.range 64 : Set ℕ) ⊆ {i | Listed answers i} := by
      intro i hi
      have hi' := Finset.mem_range.mp (Finset.mem_coe.mp hi)
      exact (hlisted i hi').mp hi'
    have hle := Set.encard_le_encard hsub
    rw [Set.encard_coe_eq_coe_finsetCard, Finset.card_range] at hle
    exact min_eq_right hle
  · have hset : {i | Listed answers i} = (Finset.range n : Set ℕ) := by
      ext i
      rw [Finset.mem_coe, Finset.mem_range]
      change Listed answers i ↔ i < n
      rcases Nat.lt_or_ge i 64 with hi | hi
      · exact (hlisted i hi).symm
      · have hnot : ¬ Listed answers n := fun hl => Nat.lt_irrefl n ((hlisted n hlt).mpr hl)
        exact iff_of_false (fun hl => hnot (hl.of_le (by omega))) (by omega)
    rw [listLength, hset, Set.encard_coe_eq_coe_finsetCard, Finset.card_range]
    exact min_eq_left (by exact_mod_cast hn)

/-- What the kernel finds in its globals: the listed entries as their answers left them, up to
64, or the made-up entry when the first answer is refused. -/
structure MapDelivered (layout : KernelLayout) (answers : ℕ → E820Answer) (m₀ m : Mem) : Prop where
  one_le : (answers 0).Accepted → 1 ≤ listLength answers
  count : (answers 0).Accepted →
    ((load32 m layout.memmapCount).toNat : ℕ∞) = min (listLength answers) 64
  entry : (answers 0).Accepted → ∀ i < (load32 m layout.memmapCount).toNat, ∀ k < 24,
    m (layout.memmapEntries + 24 * i + k) = slotByte answers m₀ i k
  fallback : ¬ (answers 0).Accepted → load32 m layout.memmapCount = 1 ∧
    ∃ attr, entryAt m layout.memmapEntries = ⟨0x100000, 0x07F00000, 1, attr⟩

theorem one_le_listLength {answers : ℕ → E820Answer} (h : (answers 0).Accepted) :
    1 ≤ listLength answers := by
  rw [listLength, Set.one_le_encard_iff_nonempty]
  exact ⟨0, h, fun j hj => absurd hj (Nat.not_lt_zero j)⟩

theorem entryAt_fallback (layout : KernelLayout) {m : Mem} (hcount : (m e820CountAddr).toNat = 1)
    (h0 : load32 m 0x5020 = 0x00100000) (h4 : load32 m 0x5024 = 0)
    (h8 : load32 m 0x5028 = 0x07F00000) (h12 : load32 m 0x502C = 0)
    (h16 : load32 m 0x5030 = 1) :
    ∃ attr, entryAt (stage2 layout m) layout.memmapEntries = ⟨0x100000, 0x07F00000, 1, attr⟩ := by
  have hbuf := e820Buf_toNat
  have hword : ∀ d, d + 4 ≤ 24 →
      load32 (stage2 layout m) (layout.memmapEntries + d) = load32 m (0x5020 + d) := by
    intro d hd
    apply load32_eq_of_bytes
    intro k hk
    have hbyte := @stage2_byte layout m (by omega) 0 (d + k) (by omega) (by omega)
    rwa [Nat.mul_zero, Nat.add_zero, Nat.add_zero, hbuf, ← Nat.add_assoc, ← Nat.add_assoc] at hbyte
  have hw0 := (hword 0 (by omega)).trans h0
  have hw4 := (hword 4 (by omega)).trans h4
  have hw8 := (hword 8 (by omega)).trans h8
  have hw12 := (hword 12 (by omega)).trans h12
  have hw16 := (hword 16 (by omega)).trans h16
  refine ⟨load32 (stage2 layout m) (layout.memmapEntries + 20), ?_⟩
  rw [entryAt, hw16, load64_of_words hw8 hw12, @load64_of_words _ layout.memmapEntries _ hw0 hw4]
  rfl

theorem StagedMap.delivered (layout : KernelLayout) {answers : ℕ → E820Answer} {m₀ m : Mem}
    (h : StagedMap answers m₀ m) : MapDelivered layout answers m₀ (stage2 layout m) := by
  have hcount := stage2_count layout h.le
  refine ⟨one_le_listLength, fun hacc => ?_, fun hacc i hi k hk => ?_, fun hrefused => ?_⟩
  · rw [hcount, listLength_min h.le (h.listed hacc)]
  · rw [hcount] at hi
    rw [stage2_byte layout h.le hi hk, h.slot hacc i hi k hk]
  · obtain ⟨hone, h0, h4, h8, h12, h16⟩ := h.fallback hrefused
    refine ⟨?_, entryAt_fallback layout hone h0 h4 h8 h12 h16⟩
    rw [← UInt32.toNat_inj, hcount, hone]
    rfl

/-- For every sequence of answers `query_e820` returns within 65 calls, what it staged reaches
the kernel's globals, and the copy stays inside them. -/
theorem memory_map_delivered (v : BootVars) (layout : KernelLayout) (answers : ℕ → E820Answer)
    (s : Cpu) :
    (∃ k, (queryE820 v answers s k).label = .ret) ∧
    (∀ k, (queryE820 v answers s k).label = .ret → (queryE820 v answers s k).calls ≤ 65 ∧
      MapDelivered layout answers s.mem (stage2 layout (queryE820 v answers s k).cpu.mem)) ∧
    ∀ m b, (b < layout.memmapCount ∨ layout.memmapCount + 4 ≤ b) →
      (b < layout.memmapEntries ∨ layout.memmapEntries + 24 * e820Max ≤ b) →
      copyMap layout m b = m b := by
  refine ⟨?_, fun k hk => ?_, fun m b => copyMap_of_outside layout m⟩
  · obtain ⟨k, hret, _⟩ := @Staging.returns _ _ _ v _ _ (@staging_start answers s) rfl
    exact ⟨k, hret⟩
  · obtain ⟨hcalls, hmap⟩ := queryE820_of_ret s hk
    exact ⟨hcalls, hmap.delivered layout⟩

end Nadir
