import Nadir.Pmm.Ops

/-!
# The free counter is exact

The counter and the bitmap are updated separately in four loops and two operations. At every
iteration boundary of the initialization and after every call the counter is the number of clear
bits, so a decrement guarded by a clear bit never wraps.
-/

namespace Nadir

open CountedLoop

variable (k : KernelImage) (count : UInt32) (t : E820Table)

/-- The states at the iteration boundaries of the loops of `pmm_init` and of the `reserve_range`
calls it makes, from the first pass on. -/
inductive PmmInitBoundary : Pmm → Prop
  | usablePass {n : ℕ} (hn : n ≤ entryCount count t) : PmmInitBoundary (usablePass t n)
  | usableFrame {n lo hi frame : ℕ} (hn : n < entryCount count t)
      (hb : usableBounds (t.entry n) = some (lo, hi)) (hlo : lo ≤ frame) (hhi : frame ≤ hi) :
      PmmInitBoundary (forLoop lo frame usableFrame (Nadir.usablePass t n))
  | reservedPass {n : ℕ} (hn : n ≤ entryCount count t) :
      PmmInitBoundary (reservedPass count t n)
  | reservedFrame {n lo hi frame : ℕ} (hn : n < entryCount count t)
      (htype : (t.entry n).type ≠ e820Usable)
      (hb : reserveBounds (t.entry n).base (t.entry n).length = some (lo, hi))
      (hlo : lo ≤ frame) (hhi : frame ≤ hi) :
      PmmInitBoundary (forLoop lo frame reserveFrame (Nadir.reservedPass count t n))
  | fixedFrame {pre post : List (UInt64 × UInt64)} {r : UInt64 × UInt64} {lo hi frame : ℕ}
      (hr : fixedRanges k = pre ++ r :: post) (hb : reserveBounds r.1 r.2 = some (lo, hi))
      (hlo : lo ≤ frame) (hhi : frame ≤ hi) :
      PmmInitBoundary (forLoop lo frame reserveFrame
        (reserveRanges pre (Nadir.reservedPass count t (entryCount count t))))
  | done : PmmInitBoundary (pmmInit k count t)

variable {k count t}

theorem reserveBounds_le {base len : UInt64} {lo hi : ℕ}
    (h : reserveBounds base len = some (lo, hi)) : hi ≤ pmmMaxFrames := by
  obtain ⟨hnone, _⟩ | ⟨lo', hi', hsome, _, hmax, _⟩ := reserveBounds_spec base len
  · rw [hnone] at h
    cases h
  · rw [hsome] at h
    cases h
    exact hmax

theorem usableBounds_le {e : E820Entry} {lo hi : ℕ} (h : usableBounds e = some (lo, hi)) :
    hi ≤ pmmMaxFrames := by
  obtain ⟨hnone, _⟩ | ⟨lo', hi', hsome, hmax, _⟩ := usableBounds_spec e
  · rw [hnone] at h
    cases h
  · rw [hsome] at h
    cases h
    exact hmax

/-- What the first pass keeps: both counters count the clear bits. -/
def FirstPass (s : Pmm) : Prop := CounterExact s ∧ s.gUsable = s.gFree

/-- What the reservations keep: the free count only drops below the usable count. -/
def Reserving (s : Pmm) : Prop :=
  CounterExact s ∧ s.gFree.toNat ≤ s.gUsable.toNat ∧ s.gUsable.toNat ≤ pmmMaxFrames

theorem FirstPass.release {s : Pmm} (hs : FirstPass s) {frame : ℕ}
    (h : frame < pmmMaxFrames) : FirstPass (usableFrame frame s) := by
  constructor
  · exact hs.1.release h
  · unfold usableFrame
    split_ifs
    · exact congrArg (· + 1) hs.2
    · exact hs.2

theorem Reserving.reserve {s : Pmm} (hs : Reserving s) {frame : ℕ}
    (h : frame < pmmMaxFrames) : Reserving (reserveFrame frame s) := by
  have hexact := hs.1.reserve h
  have husable : (reserveFrame frame s).gUsable = s.gUsable := by
    unfold reserveFrame
    split_ifs <;> rfl
  refine ⟨hexact, ?_, by rw [husable]; exact hs.2.2⟩
  rw [husable, hexact, freeFrames_reserveFrame h]
  calc ((freeFrames s).erase frame).card ≤ (freeFrames s).card := Finset.card_erase_le
    _ = s.gFree.toNat := hs.1.symm
    _ ≤ s.gUsable.toNat := hs.2.1

theorem FirstPass.reserving {s : Pmm} (hs : FirstPass s) : Reserving s := by
  refine ⟨hs.1, by rw [hs.2], ?_⟩
  rw [hs.2, hs.1]
  exact card_freeFrames_le s

theorem FirstPass.usableLoop {s : Pmm} (hs : FirstPass s) {lo hi : ℕ} (h : hi ≤ pmmMaxFrames) :
    FirstPass (forLoop lo hi usableFrame s) :=
  forLoop_inv FirstPass hs (fun _ _ _ hi ht => ht.release (hi.trans_le h))

theorem Reserving.reserveLoop {s : Pmm} (hs : Reserving s) {lo hi : ℕ} (h : hi ≤ pmmMaxFrames) :
    Reserving (forLoop lo hi reserveFrame s) :=
  forLoop_inv Reserving hs (fun _ _ _ hi ht => ht.reserve (hi.trans_le h))

theorem FirstPass.entry {s : Pmm} (hs : FirstPass s) (e : E820Entry) :
    FirstPass (usableEntry e s) := by
  unfold usableEntry
  cases hb : usableBounds e with
  | none => exact hs
  | some b => exact hs.usableLoop (usableBounds_le hb)

theorem Reserving.range {s : Pmm} (hs : Reserving s) (base len : UInt64) :
    Reserving (reserveRange base len s) := by
  unfold reserveRange
  cases hb : reserveBounds base len with
  | none => exact hs
  | some b => exact hs.reserveLoop (reserveBounds_le hb)

theorem Reserving.entry {s : Pmm} (hs : Reserving s) (e : E820Entry) :
    Reserving (reservedEntry e s) := by
  unfold reservedEntry
  split_ifs
  · exact hs.range e.base e.length
  · exact hs

theorem Reserving.ranges {s : Pmm} (hs : Reserving s) (rs : List (UInt64 × UInt64)) :
    Reserving (reserveRanges rs s) := by
  induction rs generalizing s with
  | nil => exact hs
  | cons r rs ih => exact ih (hs.range r.1 r.2)

theorem firstPass_pmmReserved : FirstPass pmmReserved := by
  refine ⟨?_, rfl⟩
  have hempty : freeFrames pmmReserved = ∅ := clearBits_replicate
  rw [CounterExact, hempty]
  rfl

theorem firstPass_usablePass (t : E820Table) (n : ℕ) : FirstPass (usablePass t n) :=
  forLoop_inv FirstPass firstPass_pmmReserved (fun i _ _ _ hs => hs.entry (t.entry i))

theorem reserving_reservedPass (count : UInt32) (t : E820Table) (n : ℕ) :
    Reserving (reservedPass count t n) :=
  forLoop_inv Reserving (firstPass_usablePass t _).reserving
    (fun i _ _ _ hs => hs.entry (t.entry i))

theorem reserving_pmmInit (k : KernelImage) (count : UInt32) (t : E820Table) :
    Reserving (pmmInit k count t) :=
  (reserving_reservedPass count t _).ranges (fixedRanges k)

theorem PmmInitBoundary.counterExact {s : Pmm} (hs : PmmInitBoundary k count t s) :
    CounterExact s := by
  cases hs with
  | usablePass hn => exact (firstPass_usablePass t _).1
  | usableFrame hn hb hlo hhi =>
    exact ((firstPass_usablePass t _).usableLoop (hhi.trans (usableBounds_le hb))).1
  | reservedPass hn => exact (reserving_reservedPass count t _).1
  | reservedFrame hn htype hb hlo hhi =>
    exact ((reserving_reservedPass count t _).reserveLoop (hhi.trans (reserveBounds_le hb))).1
  | fixedFrame hr hb hlo hhi =>
    exact (((reserving_reservedPass count t _).ranges _).reserveLoop
      (hhi.trans (reserveBounds_le hb))).1
  | done => exact (reserving_pmmInit k count t).1

/-- The free counter is the number of clear bits at every loop boundary of the initialization and
after every sequence of calls, whatever addresses are freed; a frame about to be taken is always
counted; and the reserved figure the kernel prints does not wrap. -/
theorem pmm_counter_exact (k : KernelImage) (count : UInt32) (t : E820Table) :
    (∀ s, PmmInitBoundary k count t s ∨ (∃ ops, s = pmmRun (pmmInit k count t) ops) →
      s.gFree.toNat = (clearBits s.bitmap).card ∧
      ∀ frame < pmmMaxFrames, testBit s.bitmap frame = false →
        (s.gFree - 1).toNat + 1 = s.gFree.toNat) ∧
    pmmFreeCount (pmmInit k count t) ≤ pmmUsableCount (pmmInit k count t) ∧
    (pmmUsableCount (pmmInit k count t)).toNat ≤ 2 ^ 18 ∧
    (pmmUsableCount (pmmInit k count t) - pmmFreeCount (pmmInit k count t)).toNat =
      (pmmUsableCount (pmmInit k count t)).toNat - (pmmFreeCount (pmmInit k count t)).toNat := by
  have hinit := reserving_pmmInit k count t
  have hle : pmmFreeCount (pmmInit k count t) ≤ pmmUsableCount (pmmInit k count t) :=
    UInt64.le_iff_toNat_le.mpr hinit.2.1
  refine ⟨fun s hs => ?_, hle, hinit.2.2, UInt64.toNat_sub_of_le _ _ hle⟩
  have hexact : CounterExact s := by
    rcases hs with hs | ⟨ops, rfl⟩
    · exact hs.counterExact
    · exact hinit.1.run ops
  refine ⟨hexact, fun frame hlt hclear => ?_⟩
  have hfree := (testBit_eq_false_iff hlt).mp hclear
  have hpos := hexact.pos hfree
  rw [hexact.sub_one hfree, Finset.card_erase_of_mem hfree, ← hexact]
  omega

end Nadir
