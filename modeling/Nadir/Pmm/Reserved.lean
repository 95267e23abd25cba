import Nadir.Pmm.Ops
import Mathlib.Tactic.IntervalCases

/-!
# What happens to reserved memory

`reserve_range` rounds the end of its byte range down, so the frame in which a reserved range ends
strictly inside is not reserved by it. `pmm_free_frame` clears the bit of any frame-aligned
address below 1 GB, reserved or not. Both theorems below give the exact condition under which
reserved memory stays out of the free set.
-/

namespace Nadir

/-- The frame shares a byte with `[base, stop)`. -/
def Overlap (frame base stop : ℕ) : Prop :=
  ∃ byte, 4096 * frame ≤ byte ∧ byte < 4096 * (frame + 1) ∧ base ≤ byte ∧ byte < stop

theorem overlap_iff (frame base stop : ℕ) :
    Overlap frame base stop ↔
      base < stop ∧ base < 4096 * (frame + 1) ∧ 4096 * frame < stop := by
  constructor
  · rintro ⟨byte, hlo, hhi, hbase, hstop⟩
    omega
  · rintro ⟨hne, hlo, hhi⟩
    exact ⟨max base (4096 * frame), by omega, by omega, by omega, by omega⟩

/-- The byte ranges the firmware or the kernel needs: the non-usable entries of non-zero length,
the low 1 MB and the kernel image. The end is exact, so it may lie past the 64-bit word. -/
inductive MustReserve (k : KernelImage) (count : UInt32) (t : E820Table) : ℕ → ℕ → Prop
  | entry {i : ℕ} (hi : i < entryCount count t) (htype : (t.entry i).type ≠ e820Usable)
      (hlen : (t.entry i).length ≠ 0) :
      MustReserve k count t (t.entry i).base.toNat
        ((t.entry i).base.toNat + (t.entry i).length.toNat)
  | lowMemory : MustReserve k count t 0 0x100000
  | image : MustReserve k count t k.start.toNat k.stop.toNat

/-- The table offers a frame: it lies wholly inside one usable entry, at or above 1 MB, and
outside every reservation rounded down to frames. -/
def Offered (k : KernelImage) (count : UInt32) (t : E820Table) (frame : ℕ) : Prop :=
  (∃ i < entryCount count t, frame ∈ usableFrames (t.entry i)) ∧
  (∀ i < entryCount count t, frame ∉ reservedFrames (t.entry i)) ∧
  256 ≤ frame ∧ frame ∉ imageFrames k

/-- No free frame overlaps a needed byte range. -/
def ReservedSafe (k : KernelImage) (count : UInt32) (t : E820Table) : Prop :=
  ∀ frame ∈ freeFrames (pmmInit k count t), ∀ base stop, MustReserve k count t base stop →
    ¬ Overlap frame base stop

variable {k : KernelImage} {count : UInt32} {t : E820Table}

theorem Offered.notMem_flooredFrames {frame base stop : ℕ} (h : Offered k count t frame)
    (hr : MustReserve k count t base stop) : frame ∉ flooredFrames base (stop - base) := by
  obtain ⟨_, hentries, hlow, himage⟩ := h
  cases hr with
  | entry hi htype hlen =>
    have hframe := hentries _ hi
    rw [reservedFrames, if_neg htype] at hframe
    rwa [Nat.add_sub_cancel_left]
  | lowMemory =>
    rw [mem_flooredFrames]
    omega
  | image =>
    rwa [imageFrames, k.length_toNat] at himage

theorem Offered.lt {frame : ℕ} (h : Offered k count t frame) : frame < pmmMaxFrames :=
  lt_of_mem_freeFrames ((mem_freeFrames_pmmInit k count t frame).mpr h)

/-- An offered frame overlaps a needed range only where that range ends inside the frame. -/
theorem Offered.overlap_iff {frame base stop : ℕ} (h : Offered k count t frame)
    (hr : MustReserve k count t base stop) :
    Overlap frame base stop ↔ base < stop ∧ stop % 4096 ≠ 0 ∧ frame = stop / 4096 := by
  have hlt := h.lt
  have hout := h.notMem_flooredFrames hr
  rw [mem_flooredFrames] at hout
  rw [Nadir.overlap_iff]
  unfold pmmMaxFrames at hlt
  constructor
  · rintro ⟨hne, hlo, hhi⟩
    refine ⟨hne, ?_⟩
    have hfloor : min (base + (stop - base)) 0x40000000 / 4096 ≤ frame := by
      by_contra! hin
      exact hout ⟨by omega, hin⟩
    omega
  · rintro ⟨hne, hpart, rfl⟩
    omega

theorem ReservedSafe.not_offered (hsafe : ReservedSafe k count t) {base stop : ℕ}
    (hr : MustReserve k count t base stop) (hne : base < stop) (hpart : stop % 4096 ≠ 0) :
    ¬ Offered k count t (stop / 4096) := by
  intro hoffer
  have hfree := (mem_freeFrames_pmmInit k count t _).mpr hoffer
  exact hsafe _ hfree base stop hr ((hoffer.overlap_iff hr).mpr ⟨hne, hpart, rfl⟩)

/-- Right after initialization no free frame overlaps needed memory exactly when no needed range
ends strictly inside a frame that the table offers. -/
theorem reservedSafe_iff (k : KernelImage) (count : UInt32) (t : E820Table) :
    ReservedSafe k count t ↔
      ∀ base stop, MustReserve k count t base stop → base < stop → stop % 4096 ≠ 0 →
        ¬ Offered k count t (stop / 4096) := by
  constructor
  · exact fun hsafe base stop => hsafe.not_offered
  · intro hends frame hfree base stop hr hover
    have hoffer : Offered k count t frame := (mem_freeFrames_pmmInit k count t frame).mp hfree
    obtain ⟨hne, hpart, rfl⟩ := (hoffer.overlap_iff hr).mp hover
    exact hends base stop hr hne hpart hoffer

/-- Usable memory from 1 MB to 2 MB with 2 KB of ACPI data at 0x150000 inside it. -/
def acpiTable : E820Table := some fun i =>
  if i = 0 then ⟨0x100000, 0x100000, 1, 0⟩ else ⟨0x150000, 0x800, 3, 0⟩

def smallImage : KernelImage := ⟨0x20000, by decide⟩

theorem offered_acpiTable (frame : ℕ) :
    Offered smallImage 2 acpiTable frame ↔ 256 ≤ frame ∧ frame < 512 := by
  have hcount : entryCount 2 acpiTable = 2 := rfl
  have husable : usableFrames (acpiTable.entry 0) = Finset.Ico 256 512 := rfl
  have hnone : usableFrames (acpiTable.entry 1) = ∅ := rfl
  have hfirst : reservedFrames (acpiTable.entry 0) = ∅ := rfl
  have hpart : reservedFrames (acpiTable.entry 1) = Finset.Ico 336 336 := rfl
  have himage : imageFrames smallImage = Finset.Ico 16 32 := rfl
  rw [Offered, hcount, himage]
  simp only [Finset.mem_Ico]
  constructor
  · rintro ⟨⟨i, hi, hmem⟩, _⟩
    interval_cases i
    · rwa [husable, Finset.mem_Ico] at hmem
    · rw [hnone] at hmem
      exact absurd hmem (Finset.notMem_empty _)
  · rintro ⟨hlo, hhi⟩
    refine ⟨⟨0, by omega, ?_⟩, fun i hi => ?_, by omega, by omega⟩
    · rw [husable, Finset.mem_Ico]
      exact ⟨hlo, hhi⟩
    · interval_cases i
      · rw [hfirst]
        exact Finset.notMem_empty _
      · rw [hpart, Finset.mem_Ico]
        omega

theorem freeFrames_acpiTable :
    freeFrames (pmmInit smallImage 2 acpiTable) = Finset.Ico 256 512 := by
  ext frame
  rw [mem_freeFrames_pmmInit, Finset.mem_Ico]
  exact offered_acpiTable frame

/-- The frame that holds the ACPI data of `acpiTable` is free after initialization. -/
theorem not_reservedSafe_acpiTable : ¬ ReservedSafe smallImage 2 acpiTable := by
  have hr : MustReserve smallImage 2 acpiTable 0x150000 0x150800 :=
    MustReserve.entry (show 1 < entryCount 2 acpiTable by decide)
      (show (acpiTable.entry 1).type ≠ e820Usable by decide)
      (show (acpiTable.entry 1).length ≠ 0 by decide)
  have hoffer : Offered smallImage 2 acpiTable (0x150800 / 4096) :=
    (offered_acpiTable _).mpr (by omega)
  exact fun hsafe => hsafe.not_offered hr (by omega) (by omega) hoffer

/-- Through a run from `s₀`, no frame reserved in `s₀` becomes free or is returned, and the
result 0 means that no frame is free and nothing changed. -/
def ReservedKept (s₀ : Pmm) (ops : List PmmOp) : Prop :=
  ∀ pre, pre <+: ops →
    let s := pmmRun s₀ pre
    (∀ frame < pmmMaxFrames, testBit s₀.bitmap frame = true → testBit s.bitmap frame = true) ∧
    testBit s.bitmap 0 = true ∧
    ((pmmAllocFrame s).2 ≠ 0 → ∃ frame < pmmMaxFrames, testBit s₀.bitmap frame = false ∧
      (pmmAllocFrame s).2 = frameAddr frame) ∧
    ((pmmAllocFrame s).2 = 0 ↔ freeFrames s = ∅) ∧
    ((pmmAllocFrame s).2 = 0 → (pmmAllocFrame s).1 = s)

theorem pmmRun_append (s : Pmm) (ops ops' : List PmmOp) :
    pmmRun s (ops ++ ops') = pmmRun (pmmRun s ops) ops' := List.foldl_append

theorem zero_notMem_freeFrames_pmmInit (k : KernelImage) (count : UInt32) (t : E820Table) :
    0 ∉ freeFrames (pmmInit k count t) := by
  rw [mem_freeFrames_pmmInit]
  omega

theorem testBit_eq_true_iff {s : Pmm} {frame : ℕ} (h : frame < pmmMaxFrames) :
    testBit s.bitmap frame = true ↔ frame ∉ freeFrames s := by
  rw [← testBit_eq_false_iff h, Bool.not_eq_false]

theorem freeFrames_alloc_subset (s : Pmm) : freeFrames (pmmAllocFrame s).1 ⊆ freeFrames s := by
  obtain ⟨_, heq⟩ | ⟨frame, hleast, heq⟩ := pmmAllocFrame_spec s
  · rw [heq]
  · rw [heq]
    exact (freeFrames_setBit (Finset.mem_coe.mp hleast.1) _).le.trans (Finset.erase_subset _ _)

/-- While the free frames stay among `U`, which leaves frame 0 out, an allocation returns a frame
of `U`, or 0 with nothing free. -/
theorem pmmAllocFrame_result {s : Pmm} {U : Finset ℕ} (hsub : freeFrames s ⊆ U) (h0 : 0 ∉ U) :
    ((pmmAllocFrame s).2 ≠ 0 → ∃ frame ∈ freeFrames s, (pmmAllocFrame s).2 = frameAddr frame) ∧
    ((pmmAllocFrame s).2 = 0 ↔ freeFrames s = ∅) ∧
    ((pmmAllocFrame s).2 = 0 → (pmmAllocFrame s).1 = s) := by
  obtain ⟨hempty, heq⟩ | ⟨frame, hleast, heq⟩ := pmmAllocFrame_spec s
  · simp [heq, hempty]
  · have hfree : frame ∈ freeFrames s := Finset.mem_coe.mp hleast.1
    have hpos : frame ≠ 0 := fun hzero => h0 (hsub (hzero ▸ hfree))
    have hne := frameAddr_ne_zero (lt_of_mem_freeFrames hfree) hpos
    have hnonempty : freeFrames s ≠ ∅ := Finset.ne_empty_of_mem hfree
    rw [heq]
    exact ⟨fun _ => ⟨frame, hfree, rfl⟩, iff_of_false hne hnonempty, fun hzero => absurd hzero hne⟩

theorem freeFrames_pmmRun_subset {s : Pmm} {U : Finset ℕ} (hsub : freeFrames s ⊆ U)
    (ops : List PmmOp)
    (hops : ∀ addr, PmmOp.free addr ∈ ops → IsFrameAddr addr → addr.toNat / 4096 ∈ U) :
    freeFrames (pmmRun s ops) ⊆ U := by
  induction ops generalizing s with
  | nil => exact hsub
  | cons op ops ih =>
    apply ih _ (fun addr hmem => hops addr (List.mem_cons_of_mem _ hmem))
    cases op with
    | alloc => exact (freeFrames_alloc_subset s).trans hsub
    | free addr =>
      by_cases haddr : IsFrameAddr addr
      · have hframe := hops addr List.mem_cons_self haddr
        obtain ⟨frame, hlt, rfl⟩ := haddr.exists_frame
        rw [frameAddr_div hlt] at hframe
        rw [PmmOp.exec, freeFrames_pmmFreeFrame hlt]
        exact Finset.insert_subset hframe hsub
      · rwa [PmmOp.exec, pmmFreeFrame_of_not haddr]

theorem ReservedKept.offered {ops : List PmmOp} (hkept : ReservedKept (pmmInit k count t) ops)
    {addr : UInt64} (hmem : PmmOp.free addr ∈ ops) (haddr : IsFrameAddr addr) :
    Offered k count t (addr.toNat / 4096) := by
  rw [Offered, ← mem_freeFrames_pmmInit]
  obtain ⟨pre, post, rfl⟩ := List.append_of_mem hmem
  obtain ⟨frame, hlt, rfl⟩ := haddr.exists_frame
  have hafter := (hkept (pre ++ [.free (frameAddr frame)]) ⟨post, by simp⟩).1 frame hlt
  have hfree : frame ∈ freeFrames
      (pmmRun (pmmInit k count t) (pre ++ [.free (frameAddr frame)])) := by
    rw [pmmRun_append]
    exact (freeFrames_pmmFreeFrame hlt _).symm ▸ Finset.mem_insert_self _ _
  rw [frameAddr_div hlt]
  by_contra hreserved
  exact (testBit_eq_true_iff hlt).mp (hafter ((testBit_eq_true_iff hlt).mpr hreserved)) hfree

/-- Reserved frames are kept through a run exactly when every frame-aligned address below 1 GB
that the run frees is that of a frame the table offers. -/
theorem reservedKept_iff (k : KernelImage) (count : UInt32) (t : E820Table) (ops : List PmmOp) :
    ReservedKept (pmmInit k count t) ops ↔
      ∀ addr, PmmOp.free addr ∈ ops → IsFrameAddr addr →
        Offered k count t (addr.toNat / 4096) := by
  constructor
  · exact fun hkept addr => hkept.offered
  · intro hops pre hpre
    have hsub : freeFrames (pmmRun (pmmInit k count t) pre) ⊆ freeFrames (pmmInit k count t) :=
      freeFrames_pmmRun_subset Finset.Subset.rfl pre (fun addr hmem haddr =>
        (mem_freeFrames_pmmInit k count t _).mpr (hops addr (hpre.subset hmem) haddr))
    have h0 := zero_notMem_freeFrames_pmmInit k count t
    obtain ⟨hresult, hzero, hsame⟩ := pmmAllocFrame_result hsub h0
    refine ⟨fun frame hlt hbit => ?_, ?_, fun hne => ?_, hzero, hsame⟩
    · rw [testBit_eq_true_iff hlt] at hbit ⊢
      exact fun hmem => hbit (hsub hmem)
    · rw [testBit_eq_true_iff (by decide)]
      exact fun hmem => h0 (hsub hmem)
    · obtain ⟨frame, hfree, heq⟩ := hresult hne
      have hlt := lt_of_mem_freeFrames hfree
      exact ⟨frame, hlt, (testBit_eq_false_iff hlt).mpr (hsub hfree), heq⟩

/-- With no usable memory the first allocation reports 0; freeing that result frees frame 0. -/
theorem not_reservedKept_free_zero :
    ¬ ReservedKept (pmmInit smallImage 0 none) [.alloc, .free 0] := by
  intro hkept
  have hmem : PmmOp.free 0 ∈ [PmmOp.alloc, PmmOp.free 0] := by decide
  obtain ⟨⟨i, hi, _⟩, _⟩ := hkept.offered hmem ⟨rfl, by decide⟩
  exact absurd hi (Nat.not_lt_zero i)

end Nadir
