import Nadir.Boot.MapCopy
import Nadir.Lib.Paging
import Nadir.Pmm.Ops

/-!
# The page tables of stage 2

Three tables: one entry that leads to the next table in each of the first two, and 512 pages of
2 MB in the third. The walk maps the first 1 GB to itself and nothing else, and the frames of the
physical allocator all lie there.
-/

namespace Nadir

open ByteMem Paging X86

theorem load32_fillPd {n edi : ℕ} {eax : UInt32} {m : Mem} {a : ℕ} (ha : edi % 4 = a % 4) :
    load32 (fillPd n edi eax m) a =
      if edi ≤ a ∧ a < edi + 8 * n ∧ (a - edi) % 8 = 0 then
        eax + UInt32.ofNat ((a - edi) / 8) * 0x200000
      else load32 m a := by
  induction n generalizing edi eax m with
  | zero => rw [fillPd, if_neg (by omega)]
  | succ n ih =>
    rw [fillPd, ih (by omega), load32_store32_of_aligned m eax ha]
    by_cases hfirst : a = edi
    · have hzero : UInt32.ofNat ((edi - edi) / 8) = 0 := by
        rw [Nat.sub_self]
        rfl
      rw [hfirst, if_neg (by omega), if_pos rfl, if_pos (by omega), hzero, UInt32.zero_mul,
        UInt32.add_zero]
    · rw [if_neg hfirst]
      by_cases hin : edi + 8 ≤ a ∧ a < edi + 8 + 8 * n ∧ (a - (edi + 8)) % 8 = 0
      · have hnext : (a - edi) / 8 = (a - (edi + 8)) / 8 + 1 := by omega
        have hadd : UInt32.ofNat ((a - (edi + 8)) / 8 + 1) =
            UInt32.ofNat ((a - (edi + 8)) / 8) + 1 := UInt32.ofNat_add _ 1
        rw [if_pos hin, if_pos (by omega), hnext, hadd]
        grind
      · rw [if_neg hin, if_neg (by omega)]

theorem load32_buildPageTables (m : Mem) {a : ℕ} (ha : a % 4 = 0) (hlo : 0x70000 ≤ a)
    (hhi : a < 0x74000) :
    load32 (buildPageTables m) a =
      if 0x72000 ≤ a ∧ a < 0x73000 ∧ (a - 0x72000) % 8 = 0 then
        0x83 + UInt32.ofNat ((a - 0x72000) / 8) * 0x200000
      else if a = 0x71000 then 0x72003
      else if a = 0x70000 then 0x71003
      else 0 := by
  have hpd : (0x72000 : UInt32) ||| 0x03 = 0x72003 := by decide
  have hpdpt : (0x71000 : UInt32) ||| 0x03 = 0x71003 := by decide
  rw [buildPageTables]
  rw [load32_fillPd (by omega), load32_store32_of_aligned _ _ (by omega),
    load32_store32_of_aligned _ _ (by omega), load32_repStosd (by omega),
    if_pos (show 0x70000 ≤ a ∧ a < 0x70000 + 4 * 0x1000 by omega), hpd, hpdpt]

theorem load32_upper (m : Mem) {a : ℕ} (ha : a % 8 = 0) (hlo : 0x70000 ≤ a) (hhi : a < 0x73000) :
    load32 (buildPageTables m) (a + 4) = 0 := by
  rw [load32_buildPageTables m (by omega) (by omega) (by omega), if_neg (by omega),
    if_neg (by omega), if_neg (by omega)]

theorem load64_entry (m : Mem) {a : ℕ} (ha : a % 8 = 0) (hlo : 0x70000 ≤ a) (hhi : a < 0x73000)
    {e : UInt32} (he : load32 (buildPageTables m) a = e) :
    load64 (buildPageTables m) a = UInt64.ofNat e.toNat :=
  load64_of_words he (load32_upper m ha hlo hhi)

theorem pml4_entry (m : Mem) {i : ℕ} (hi : i < 512) :
    load64 (buildPageTables m) (0x70000 + 8 * i) = if i = 0 then 0x71003 else 0 := by
  have hlow := load32_buildPageTables m (show (0x70000 + 8 * i) % 4 = 0 by omega) (by omega)
    (by omega)
  rw [if_neg (by omega), if_neg (by omega)] at hlow
  rw [load64_entry m (by omega) (by omega) (by omega) hlow]
  by_cases hzero : i = 0
  · rw [if_pos (by omega), if_pos hzero]
    rfl
  · rw [if_neg (by omega), if_neg hzero]
    rfl

theorem pdpt_entry (m : Mem) {i : ℕ} (hi : i < 512) :
    load64 (buildPageTables m) (0x71000 + 8 * i) = if i = 0 then 0x72003 else 0 := by
  have hlow := load32_buildPageTables m (show (0x71000 + 8 * i) % 4 = 0 by omega) (by omega)
    (by omega)
  rw [if_neg (by omega)] at hlow
  rw [load64_entry m (by omega) (by omega) (by omega) hlow]
  by_cases hzero : i = 0
  · rw [if_pos (by omega), if_pos hzero]
    rfl
  · rw [if_neg (by omega), if_neg (by omega), if_neg hzero]
    rfl

theorem pd_entry (m : Mem) {i : ℕ} (hi : i < 512) :
    (load64 (buildPageTables m) (0x72000 + 8 * i)).toNat = 0x83 + 0x200000 * i := by
  have hlow := load32_buildPageTables m (show (0x72000 + 8 * i) % 4 = 0 by omega) (by omega)
    (by omega)
  have hindex : (0x72000 + 8 * i - 0x72000) / 8 = i := by omega
  rw [if_pos (by omega), hindex] at hlow
  rw [load64_entry m (by omega) (by omega) (by omega) hlow, UInt64.toNat_ofNat',
    UInt32.toNat_add, UInt32.toNat_mul, UInt32.toNat_ofNat']
  simp only [UInt32.reduceToNat]
  omega

theorem pageEntry {e : UInt64} {i : ℕ} (he : e.toNat = 0x83 + 0x200000 * i) (hi : i < 512) :
    present e = true ∧ writable e = true ∧ pageSize e = true ∧ pageBase 1 e = 0x200000 * i := by
  have hshift : levelShift 1 = 21 := rfl
  simp only [present, writable, pageSize, pageBase, hshift, he, Nat.testBit_eq_decide_div_mod_eq,
    decide_eq_true_eq]
  omega

def pml4 : UInt64 := 0x70000

theorem pageWalk_eq (m : Mem) (v : UInt64) :
    pageWalk (buildPageTables m) pml4 v =
      if tableIndex 3 v.toNat ≠ 0 then .notPresent 3
      else if tableIndex 2 v.toNat ≠ 0 then .notPresent 2
      else .mapped (0x200000 * tableIndex 1 v.toNat + v.toNat % 0x200000) true := by
  have hlt : ∀ level, tableIndex level v.toNat < 512 := fun level => Nat.mod_lt _ (Nat.succ_pos 511)
  have h3 := pml4_entry m (hlt 3)
  have h2 := pdpt_entry m (hlt 2)
  have hbase3 : tableBase pml4 = 0x70000 := rfl
  have hbase2 : tableBase 0x71003 = 0x71000 := rfl
  have hbase1 : tableBase 0x72003 = 0x72000 := rfl
  rw [pageWalk, hbase3]
  split_ifs with hpml4 hpdpt
  · rw [if_neg hpml4] at h3
    exact walk_notPresent h3 rfl
  · rw [if_pos (not_not.mp hpml4)] at h3
    rw [if_neg hpdpt] at h2
    rw [walk_table h3 rfl rfl, hbase2]
    exact walk_notPresent h2 rfl
  · rw [if_pos (not_not.mp hpml4)] at h3
    rw [if_pos (not_not.mp hpdpt)] at h2
    obtain ⟨hpresent, hwritable, hsize, hpage⟩ := pageEntry (pd_entry m (hlt 1)) (hlt 1)
    rw [walk_table h3 rfl rfl, hbase2, walk_table h2 rfl rfl, hbase1,
      walk_page rfl hpresent (Nat.le_succ 1) hsize, hwritable, hpage]
    rfl

theorem pageWalk_low (m : Mem) {v : UInt64} (hv : v.toNat < 0x40000000) :
    pageWalk (buildPageTables m) pml4 v = .mapped v.toNat true := by
  have hshift3 : levelShift 3 = 39 := rfl
  have hshift2 : levelShift 2 = 30 := rfl
  have hshift1 : levelShift 1 = 21 := rfl
  have h3 : tableIndex 3 v.toNat = 0 := by
    rw [tableIndex, hshift3]
    omega
  have h2 : tableIndex 2 v.toNat = 0 := by
    rw [tableIndex, hshift2]
    omega
  have hsplit : 0x200000 * tableIndex 1 v.toNat + v.toNat % 0x200000 = v.toNat := by
    rw [tableIndex, hshift1]
    omega
  rw [pageWalk_eq, if_neg (not_not.mpr h3), if_neg (not_not.mpr h2), hsplit]

theorem pageWalk_high (m : Mem) {v : UInt64} (hcanonical : Canonical v)
    (hv : 0x40000000 ≤ v.toNat) :
    ∃ level, pageWalk (buildPageTables m) pml4 v = .notPresent level := by
  rw [pageWalk_eq]
  by_cases h3 : tableIndex 3 v.toNat ≠ 0
  · exact ⟨3, if_pos h3⟩
  · have hlow : v.toNat < 2 ^ 47 := by
      refine hcanonical.resolve_right fun hhigh => ?_
      have hindex := tableIndex_of_high hhigh
      omega
    have h2 : tableIndex 2 v.toNat ≠ 0 := by
      have hshift3 : levelShift 3 = 39 := rfl
      have hshift2 : levelShift 2 = 30 := rfl
      rw [tableIndex, hshift3] at h3
      rw [tableIndex, hshift2]
      omega
    exact ⟨2, by rw [if_neg h3, if_pos h2]⟩

inductive Stage2Table : ℕ → ℕ → Prop
  | pml4 : Stage2Table 3 0x70000
  | pdpt : Stage2Table 2 0x71000
  | pd : Stage2Table 1 0x72000

theorem Stage2Table.entry_mem {level table : ℕ} (h : Stage2Table level table) (v : ℕ) :
    0x70000 ≤ table + 8 * tableIndex level v ∧ table + 8 * tableIndex level v + 8 ≤ 0x73000 ∧
      (table + 8 * tableIndex level v) % 8 = 0 := by
  have hlt : tableIndex level v < 512 := Nat.mod_lt _ (Nat.succ_pos 511)
  cases h <;> omega

/-- An entry of `buildPageTables` that is present and ends no walk leads to the next table. -/
theorem Stage2Table.next_build {level table : ℕ} (h : Stage2Table (level + 1) table) (m : Mem)
    (v : ℕ) (hpresent : present
      (load64 (buildPageTables m) (table + 8 * tableIndex (level + 1) v)) = true)
    (hlarge : ¬(level + 1 ≤ 2 ∧
      pageSize (load64 (buildPageTables m) (table + 8 * tableIndex (level + 1) v)) = true)) :
    Stage2Table level
      (tableBase (load64 (buildPageTables m) (table + 8 * tableIndex (level + 1) v))) := by
  have hlt : ∀ level, tableIndex level v < 512 := fun level => Nat.mod_lt _ (Nat.succ_pos 511)
  cases h with
  | pml4 =>
    rw [pml4_entry m (hlt 3)] at hpresent ⊢
    split_ifs at hpresent ⊢
    · exact .pdpt
    · exact absurd hpresent Bool.false_ne_true
  | pdpt =>
    rw [pdpt_entry m (hlt 2)] at hpresent ⊢
    split_ifs at hpresent ⊢
    · exact .pd
    · exact absurd hpresent Bool.false_ne_true
  | pd =>
    have hpage := (pageEntry (pd_entry m (hlt 1)) (hlt 1)).2.2.1
    exact absurd ⟨Nat.le_succ 1, hpage⟩ hlarge

/-- Memory holds the tables that `buildPageTables` made of `m₀`, but for the marks of the
processor, whatever else it holds. -/
def TablesOf (m₀ m : Mem) : Prop :=
  ∀ b, 0x70000 ≤ b → b < 0x73000 → unmarked m b = unmarked (buildPageTables m₀) b

theorem TablesOf.congr {m₀ m m' : Mem} (h : TablesOf m₀ m)
    (hsame : ∀ b, 0x70000 ≤ b → b < 0x73000 → unmarked m' b = unmarked m b) : TablesOf m₀ m' :=
  fun b hlo hhi => (hsame b hlo hhi).trans (h b hlo hhi)

def TablesInPlace (m : Mem) : Prop := ∃ m₀, TablesOf m₀ m

theorem tablesOf_buildPageTables (m : Mem) : TablesOf m (buildPageTables m) := fun _ _ _ => rfl

theorem stage2_tables (layout : KernelLayout) (m : Mem)
    (hbss : layout.bssStop ≤ 0x70000 ∨ 0x73000 ≤ layout.bssStart) :
    TablesOf m (stage2 layout m) := by
  have hcount := layout.count_mem
  have hentries := layout.entries_mem
  apply (tablesOf_buildPageTables m).congr
  intro b hlo hhi
  apply unmarked_congr
  rw [stage2]
  rw [copyMap_of_outside layout _ (by omega) (by omega), repStosb_of_outside (by omega)]

namespace TablesOf

variable {m₀ m : Mem} (h : TablesOf m₀ m)
include h

theorem sameEntry {level table : ℕ} (htable : Stage2Table level table) (v : ℕ) :
    SameEntry (load64 m (table + 8 * tableIndex level v))
      (load64 (buildPageTables m₀) (table + 8 * tableIndex level v)) := by
  obtain ⟨hlo, hhi, hmod⟩ := htable.entry_mem v
  have hsame : load64 (unmarked m) (table + 8 * tableIndex level v) =
      load64 (unmarked (buildPageTables m₀)) (table + 8 * tableIndex level v) :=
    load64_congr fun b hlo' hhi' => h b (by omega) (by omega)
  have hentry := @sameEntry_unmarked m _ hmod
  rw [hsame] at hentry
  exact hentry.symm.trans (sameEntry_unmarked hmod)

theorem walk_eq (v : UInt64) : pageWalk m pml4 v = pageWalk (buildPageTables m₀) pml4 v := by
  apply walk_sameEntry (T := Stage2Table)
  · exact fun level table htable => h.sameEntry htable v.toNat
  · exact fun level table htable => htable.next_build m₀ v.toNat
  · exact .pml4

theorem walk_low {v : UInt64} (hv : v.toNat < 0x40000000) :
    pageWalk m pml4 v = .mapped v.toNat true := by
  rw [h.walk_eq, pageWalk_low m₀ hv]

theorem walk_high {v : UInt64} (hcanonical : Canonical v) (hv : 0x40000000 ≤ v.toNat) :
    ∃ level, pageWalk m pml4 v = .notPresent level := by
  rw [h.walk_eq]
  exact pageWalk_high m₀ hcanonical hv

/-- The marks of an access are all that changes in the tables, and nothing changes outside. -/
theorem pageMark (write : Bool) (v : UInt64) :
    TablesOf m₀ (pageMark write pml4 v m) ∧
      ∀ b, b < 0x70000 ∨ 0x73000 ≤ b → Paging.pageMark write pml4 v m b = m b := by
  apply mark_induction (I := fun m' => TablesOf m₀ m' ∧ ∀ b, b < 0x70000 ∨ 0x73000 ≤ b →
    m' b = m b) (T := Stage2Table)
  · intro m' level table bits ⟨htables, hsame⟩ htable hbits
    obtain ⟨hlo, hhi, hmod⟩ := htable.entry_mem v.toNat
    refine ⟨htables.congr fun b _ _ => ?_, fun b hb => ?_⟩
    · rw [unmarked_setBits hmod hbits]
    · rw [setBits_of_ne _ (by omega), hsame b hb]
  · intro m' level table ⟨htables, _⟩ htable hpresent hlarge
    have hentry := htables.sameEntry htable v.toNat
    rw [hentry.present] at hpresent
    rw [hentry.pageSize] at hlarge
    rw [hentry.tableBase]
    exact htable.next_build m₀ v.toNat hpresent hlarge
  · exact ⟨h, fun _ _ => rfl⟩
  · exact .pml4

end TablesOf

theorem pmmAllocFrame_byte (s : Pmm) {k : ℕ} (hk : k < 4096) :
    ((pmmAllocFrame s).2 + UInt64.ofNat k).toNat = (pmmAllocFrame s).2.toNat + k ∧
      (pmmAllocFrame s).2.toNat + k < 0x40000000 := by
  have haddr : ∃ frame < pmmMaxFrames, (pmmAllocFrame s).2.toNat = 4096 * frame := by
    rcases pmmAllocFrame_spec s with ⟨_, hnone⟩ | ⟨frame, hleast, hsome⟩
    · rw [hnone]
      exact ⟨0, Nat.succ_pos _, rfl⟩
    · have hlt := lt_of_mem_freeFrames (Finset.mem_coe.mp hleast.1)
      rw [hsome]
      exact ⟨frame, hlt, frameAddr_toNat hlt⟩
  obtain ⟨frame, hlt, hframe⟩ := haddr
  unfold pmmMaxFrames at hlt
  rw [UInt64.toNat_add, UInt64.toNat_ofNat', hframe]
  omega

/-- Whatever memory held, the tables map the first 1 GB to itself, writable, and no other canonical
address; they are built inside their own four pages; and every byte of a frame from
`pmm_alloc_frame` is mapped to itself. -/
theorem pageTables_identity (m : Mem) :
    (∀ v : UInt64, v < 0x40000000 →
      pageWalk (buildPageTables m) pml4 v = .mapped v.toNat true) ∧
    (∀ v : UInt64, Canonical v → 0x40000000 ≤ v →
      ∃ level, pageWalk (buildPageTables m) pml4 v = .notPresent level) ∧
    (∀ b, b < 0x70000 ∨ 0x74000 ≤ b → buildPageTables m b = m b) ∧
    ∀ (s : Pmm) (k : ℕ), k < 4096 →
      pageWalk (buildPageTables m) pml4 ((pmmAllocFrame s).2 + UInt64.ofNat k) =
        .mapped ((pmmAllocFrame s).2.toNat + k) true := by
  refine ⟨fun v hv => ?_, fun v hcanonical hv => ?_, fun b hb => ?_, fun s k hk => ?_⟩
  · exact pageWalk_low m (UInt64.lt_iff_toNat_lt.mp hv)
  · exact pageWalk_high m hcanonical (UInt64.le_iff_toNat_le.mp hv)
  · exact buildPageTables_of_outside m hb
  · obtain ⟨hbyte, hlt⟩ := pmmAllocFrame_byte s hk
    rw [pageWalk_low m (hbyte ▸ hlt), hbyte]

end Nadir
