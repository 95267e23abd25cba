import Nadir.Pmm.Reserved
import Nadir.Pmm.Counter

/-!
# What `pmm_init` makes of the table

The free frames are read off the byte ranges of the entries, and so is the usable count. Neither
looks at the order of the entries, so tables with the same entries give the same state.
-/

namespace Nadir

open CountedLoop

/-- The frame lies wholly inside the byte range of the entry, and the entry is usable. -/
def E820Entry.Offers (e : E820Entry) (frame : ℕ) : Prop :=
  e.type = e820Usable ∧ e.base.toNat ≤ 4096 * frame ∧
    4096 * (frame + 1) ≤ e.base.toNat + e.length.toNat

instance (e : E820Entry) : DecidablePred e.Offers := fun _ => inferInstanceAs (Decidable (_ ∧ _))

theorem mem_usableFrames_iff {e : E820Entry} {frame : ℕ} :
    frame ∈ usableFrames e ↔ e.Offers frame ∧ frame < pmmMaxFrames := by
  rw [usableFrames, E820Entry.Offers]
  split_ifs with htype
  · rw [mem_wholeFrames]
    simp only [htype, true_and, and_assoc]
  · simp only [Finset.notMem_empty, htype, false_and]

theorem overlap_of_mem_flooredFrames {base len frame : ℕ} (h : frame ∈ flooredFrames base len) :
    Overlap frame base (base + len) := by
  rw [mem_flooredFrames] at h
  rw [overlap_iff]
  omega

theorem reserveFrame_gUsable (frame : ℕ) (s : Pmm) :
    (reserveFrame frame s).gUsable = s.gUsable := by
  unfold reserveFrame
  split_ifs <;> rfl

theorem reserveRange_gUsable (base len : UInt64) (s : Pmm) :
    (reserveRange base len s).gUsable = s.gUsable := by
  unfold reserveRange
  cases reserveBounds base len with
  | none => rfl
  | some b =>
    exact forLoop_inv (fun t : Pmm => t.gUsable = s.gUsable) rfl
      (fun i t _ _ ht => (reserveFrame_gUsable i t).trans ht)

theorem reservedEntry_gUsable (e : E820Entry) (s : Pmm) :
    (reservedEntry e s).gUsable = s.gUsable := by
  unfold reservedEntry
  split_ifs
  · exact reserveRange_gUsable e.base e.length s
  · rfl

theorem reserveRanges_gUsable (rs : List (UInt64 × UInt64)) (s : Pmm) :
    (reserveRanges rs s).gUsable = s.gUsable := by
  induction rs generalizing s with
  | nil => rfl
  | cons r rs ih => exact (ih _).trans (reserveRange_gUsable r.1 r.2 s)

theorem pmmInit_gUsable (k : KernelImage) (count : UInt32) (t : E820Table) :
    (pmmInit k count t).gUsable = (usablePass t (entryCount count t)).gUsable := by
  rw [pmmInit, reserveRanges_gUsable]
  exact forLoop_inv (fun s : Pmm => s.gUsable = (usablePass t (entryCount count t)).gUsable) rfl
    (fun i s _ _ hs => (reservedEntry_gUsable (t.entry i) s).trans hs)

/-- The frames below 1 GB that lie wholly inside some usable entry. -/
def offeredFrames (count : UInt32) (t : E820Table) : Finset ℕ :=
  (Finset.range pmmMaxFrames).filter (fun frame =>
    ∃ i < entryCount count t, (t.entry i).Offers frame)

theorem freeFrames_usablePass (count : UInt32) (t : E820Table) :
    freeFrames (usablePass t (entryCount count t)) = offeredFrames count t := by
  ext frame
  rw [mem_freeFrames_usablePass, offeredFrames, Finset.mem_filter, Finset.mem_range]
  simp only [mem_usableFrames_iff]
  constructor
  · rintro ⟨i, hi, hoffer, hlt⟩
    exact ⟨hlt, i, hi, hoffer⟩
  · rintro ⟨hlt, i, hi, hoffer⟩
    exact ⟨i, hi, hoffer, hlt⟩

theorem pmmInit_gUsable_toNat (k : KernelImage) (count : UInt32) (t : E820Table) :
    (pmmInit k count t).gUsable.toNat = (offeredFrames count t).card := by
  have hpass := firstPass_usablePass t (entryCount count t)
  rw [pmmInit_gUsable, hpass.2, hpass.1, freeFrames_usablePass]

/-- A free frame lies wholly inside one usable entry, from 1 MB up and below 1 GB; such a frame
is free unless it overlaps a non-usable entry or the kernel image; and the usable count counts
each frame that some usable entry offers once. -/
theorem pmm_init_exact (k : KernelImage) (count : UInt32) (t : E820Table) :
    (∀ frame ∈ freeFrames (pmmInit k count t),
      (∃ i < entryCount count t, (t.entry i).Offers frame) ∧ 0x100000 ≤ 4096 * frame ∧
        4096 * (frame + 1) ≤ 0x40000000) ∧
    (∀ frame, (∃ i < entryCount count t, (t.entry i).Offers frame) →
      0x100000 ≤ 4096 * frame → 4096 * (frame + 1) ≤ 0x40000000 →
      (∀ i < entryCount count t, (t.entry i).type ≠ e820Usable →
        ¬ Overlap frame (t.entry i).base.toNat
          ((t.entry i).base.toNat + (t.entry i).length.toNat)) →
      ¬ Overlap frame k.start.toNat k.stop.toNat →
      frame ∈ freeFrames (pmmInit k count t)) ∧
    (pmmUsableCount (pmmInit k count t)).toNat = (offeredFrames count t).card := by
  refine ⟨fun frame hfree => ?_, fun frame hoffer hlow hhigh hentries himage => ?_,
    pmmInit_gUsable_toNat k count t⟩
  · obtain ⟨⟨i, hi, hmem⟩, _, hlow, _⟩ := (mem_freeFrames_pmmInit k count t frame).mp hfree
    obtain ⟨hoffer, hlt⟩ := mem_usableFrames_iff.mp hmem
    unfold pmmMaxFrames at hlt
    exact ⟨⟨i, hi, hoffer⟩, by omega, by omega⟩
  · have hlt : frame < pmmMaxFrames := by
      unfold pmmMaxFrames
      omega
    rw [mem_freeFrames_pmmInit]
    refine ⟨?_, fun i hi hmem => ?_, by omega, fun hmem => ?_⟩
    · obtain ⟨i, hi, hoffer⟩ := hoffer
      exact ⟨i, hi, mem_usableFrames_iff.mpr ⟨hoffer, hlt⟩⟩
    · unfold reservedFrames at hmem
      split_ifs at hmem with htype
      · exact Finset.notMem_empty frame hmem
      · exact hentries i hi htype (overlap_of_mem_flooredFrames hmem)
    · have hover := overlap_of_mem_flooredFrames hmem
      have hstop : k.start.toNat ≤ k.stop.toNat := k.start_le_stop
      rw [k.length_toNat, Nat.add_sub_of_le hstop] at hover
      exact himage hover

/-- The entries `pmm_init` reads, in the order of the table. -/
def entries (count : UInt32) (t : E820Table) : List E820Entry :=
  (List.range (entryCount count t)).map t.entry

theorem exists_entry_iff (count : UInt32) (t : E820Table) (P : E820Entry → Prop) :
    (∃ i < entryCount count t, P (t.entry i)) ↔ ∃ e ∈ entries count t, P e := by
  simp only [entries, List.mem_map, List.mem_range]
  constructor
  · rintro ⟨i, hi, hP⟩
    exact ⟨_, ⟨i, hi, rfl⟩, hP⟩
  · rintro ⟨_, ⟨i, hi, rfl⟩, hP⟩
    exact ⟨i, hi, hP⟩

theorem forall_entry_iff (count : UInt32) (t : E820Table) (P : E820Entry → Prop) :
    (∀ i < entryCount count t, P (t.entry i)) ↔ ∀ e ∈ entries count t, P e := by
  simp only [entries, List.forall_mem_map, List.mem_range]

/-- States with the same free frames and exact counters differ in no field but the usable
count. -/
theorem pmm_eq_of_freeFrames {s s' : Pmm} (hs : CounterExact s) (hs' : CounterExact s')
    (hfree : freeFrames s = freeFrames s') (husable : s.gUsable = s'.gUsable) : s = s' := by
  have hbitmap : s.bitmap = s'.bitmap := by
    apply bitmap_ext
    intro frame hlt
    have hiff : testBit s.bitmap frame = false ↔ testBit s'.bitmap frame = false := by
      rw [testBit_eq_false_iff hlt, testBit_eq_false_iff hlt, hfree]
    rw [Bool.eq_iff_iff, ← Bool.not_eq_false, ← Bool.not_eq_false, hiff]
  have hcount : s.gFree = s'.gFree := by
    rw [← UInt64.toNat_inj, hs, hs', hfree]
  cases s
  cases s'
  simp only [Pmm.mk.injEq]
  exact ⟨hbitmap, husable, hcount⟩

/-- Tables with the same entries in any order initialize the allocator to the same state. -/
theorem pmmInit_perm (k : KernelImage) {count : UInt32} {t t' : ℕ → E820Entry}
    (hperm : ((List.range count.toNat).map t).Perm ((List.range count.toNat).map t'))
    (hcount : count.toNat ≤ 64) : pmmInit k count (some t) = pmmInit k count (some t') := by
  have hlen : entryCount count (some t) = count.toNat := Nat.min_eq_left hcount
  have hlen' : entryCount count (some t') = count.toNat := Nat.min_eq_left hcount
  have hentries : (entries count (some t)).Perm (entries count (some t')) := by
    rw [entries, entries, hlen, hlen']
    exact hperm
  have hexists : ∀ P : E820Entry → Prop,
      (∃ i < entryCount count (some t), P (E820Table.entry (some t) i)) ↔
      ∃ i < entryCount count (some t'), P (E820Table.entry (some t') i) := by
    intro P
    rw [exists_entry_iff, exists_entry_iff]
    simp only [hentries.mem_iff]
  have hforall : ∀ P : E820Entry → Prop,
      (∀ i < entryCount count (some t), P (E820Table.entry (some t) i)) ↔
      ∀ i < entryCount count (some t'), P (E820Table.entry (some t') i) := by
    intro P
    rw [forall_entry_iff, forall_entry_iff]
    simp only [hentries.mem_iff]
  apply pmm_eq_of_freeFrames (reserving_pmmInit k count _).1 (reserving_pmmInit k count _).1
  · ext frame
    rw [mem_freeFrames_pmmInit, mem_freeFrames_pmmInit, hexists (frame ∈ usableFrames ·),
      hforall (frame ∉ reservedFrames ·)]
  · have hoffered : offeredFrames count (some t) = offeredFrames count (some t') := by
      ext frame
      rw [offeredFrames, offeredFrames, Finset.mem_filter, Finset.mem_filter,
        hexists (·.Offers frame)]
    rw [← UInt64.toNat_inj, pmmInit_gUsable_toNat, pmmInit_gUsable_toNat, hoffered]

/-- The two entries of `acpiTable` in the other order. -/
theorem pmmInit_perm_acpiTable : pmmInit smallImage 2 acpiTable =
    pmmInit smallImage 2 (some fun i =>
      if i = 0 then ⟨0x150000, 0x800, 3, 0⟩ else ⟨0x100000, 0x100000, 1, 0⟩) :=
  pmmInit_perm smallImage (by decide) (by decide)

end Nadir
