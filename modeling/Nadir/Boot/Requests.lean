import Nadir.Boot.LoadKernel
import Mathlib.Data.Nat.Count

/-!
# What the read calls ask for

The pass `k` of `load_kernel` asks for the sector at LBA `k` and for a place behind the sectors read
before it. A sector never straddles a 64 KB boundary, since each block of 64 KB starts a sector.
-/

namespace Nadir

open ByteMem X86

/-- CH, CL and DH stand for the LBA of a disk with 18 sectors a track and 2 heads. -/
structure ChsOf (ch cl dh : UInt8) (lba : ℕ) : Prop where
  head : dh.toNat < 2
  one_le : 1 ≤ (cl &&& 63).toNat
  le : (cl &&& 63).toNat ≤ 18
  lba : ((ch.toNat + 256 * (cl >>> 6).toNat) * 2 + dh.toNat) * 18 + (cl &&& 63).toNat - 1 = lba

/-- The 512 bytes from `a` on lie in one block of 64 KB. -/
def InOneBank (a : ℕ) : Prop := a / 0x10000 = (a + 511) / 0x10000

/-- The call reads one sector, the one at the LBA, to `a`. -/
structure DiskCall.Reads (c : DiskCall) (lba a : ℕ) : Prop where
  read : c.IsRead
  count : c.al = 1
  chs : ChsOf c.ch c.cl c.dh lba
  buffer : linear c.es c.bx = a

/-- The first call of the pass `k`: block `j` is the `k`-th at `.next`, and the block after it
makes the call. -/
def FirstRead (v : BootVars) (n : UInt16) (bios : DiskBios) (s : Cpu) (k : ℕ) (c : DiskCall) :
    Prop :=
  ∃ j, (loadKernel v n bios s j).label = .next ∧
    Nat.count (fun i => (loadKernel v n bios s i).label = .next) j + 1 = k ∧
    (loadKernel v n bios s (j + 2)).calls = (loadKernel v n bios s j).calls ++ [c]

theorem NamesSector.chsOf {s : Cpu} {lba : ℕ} (h : NamesSector s lba) :
    ChsOf s.ecx.high s.ecx.low s.edx.high lba := by
  have hlow : (s.ecx.low &&& 63).toNat = lba % 18 + 1 := by
    rw [UInt8.toNat_and, ← h.sector]
    exact Nat.and_two_pow_sub_one_eq_mod _ 6
  have hhigh : (s.ecx.low >>> 6).toNat = s.ecx.low.toNat / 64 := by
    rw [UInt8.toNat_shiftRight]
    exact Nat.shiftRight_eq_div_pow _ 6
  refine ⟨?_, ?_, ?_, ?_⟩
  · rw [h.head]
    exact Nat.mod_lt _ Nat.two_pos
  · rw [hlow]
    exact Nat.le_add_left 1 _
  · rw [hlow]
    omega
  · rw [hhigh, h.cylinder, h.head, hlow]
    omega

theorem inOneBank_sector (i : ℕ) : InOneBank (0x10000 + 512 * i) := by
  unfold InOneBank
  omega

section Run

variable {v : BootVars} {n : UInt16} {drive : UInt8} {i : ℕ} {bios : DiskBios}

theorem loadRequest_reads {s : Cpu} (hds : s.ds = 0) (hvars : LoadVars v n drive i s.mem)
    (hi : i < 1920) (hnames : NamesSector s (i + 1)) (failed : Bool) :
    (DiskCall.of (loadRequest v s) failed).Reads (i + 1) (0x10000 + 512 * i) := by
  obtain ⟨hah, hecx, hdh, _, hlinear, _⟩ := loadRequest_spec hds hvars hi
  have hchs : ChsOf (loadRequest v s).ecx.high (loadRequest v s).ecx.low
      (loadRequest v s).edx.high (i + 1) := by
    rw [hecx, hdh]
    exact hnames.chsOf
  exact ⟨hah, rfl, hchs, hlinear⟩

theorem Loading.pass {m₀ : Mem} {s : LoadState} (h : Loading v n bios m₀ i s) (hi : i < n.toNat)
    (hlt : i < 1920) :
    (loadStep v bios s).label = .attempt ∧
    (loadStep v bios (loadStep v bios s)).label = .ok ∧
    ∃ c, (loadStep v bios (loadStep v bios s)).calls = s.calls ++ [c] ∧
      (loadStep v bios (loadStep v bios (loadStep v bios s))).calls = s.calls ++ [c] ∧
      c.Reads (i + 1) (0x10000 + 512 * i) := by
  obtain ⟨hnext, hnames, hds, hvars, _⟩ := h.next hi hlt
  rw [hnext]
  exact ⟨rfl, rfl, _, rfl, rfl, loadRequest_reads hds hvars hlt hnames _⟩

theorem loadStep_calls (s : LoadState) : s.calls <+: (loadStep v bios s).calls := by
  obtain ⟨label, s, calls⟩ := s
  cases label with
  | next => exact List.prefix_refl _
  | attempt => exact List.prefix_append _ _
  | reset => exact List.prefix_append _ _
  | error => exact List.prefix_refl _
  | ok => exact List.prefix_refl _
  | ret => exact List.prefix_refl _

theorem loadKernel_calls_le (s : Cpu) {j k : ℕ} (h : j ≤ k) :
    (loadKernel v n bios s j).calls <+: (loadKernel v n bios s k).calls := by
  induction h with
  | refl => exact List.prefix_refl _
  | step _ ih =>
    rw [Nat.succ_eq_add_one, loadKernel_succ]
    exact ih.trans (loadStep_calls _)

variable (b : BootImage v) (hn : 1 ≤ n.toNat) (hmax : n.toNat ≤ 1920)
include hn hmax

theorem loadKernel_pass (hi : i < n.toNat) :
    (loadKernel v n bios b.cpu (3 * i)).label = .next ∧
    (loadKernel v n bios b.cpu (3 * i + 1)).label = .attempt ∧
    (loadKernel v n bios b.cpu (3 * i + 2)).label = .ok ∧
    ∃ c, (loadKernel v n bios b.cpu (3 * i + 2)).calls =
        (loadKernel v n bios b.cpu (3 * i)).calls ++ [c] ∧
      (loadKernel v n bios b.cpu (3 * (i + 1))).calls =
        (loadKernel v n bios b.cpu (3 * i)).calls ++ [c] ∧
      c.Reads (i + 1) (0x10000 + 512 * i) := by
  have hrun := Loading.run b bios hn hmax hi.le
  have hlabel := hrun.label
  rw [if_neg hi.ne] at hlabel
  have hpass := hrun.pass hi (by omega)
  rw [← loadKernel_succ, ← loadKernel_succ, ← loadKernel_succ] at hpass
  exact ⟨hlabel, hpass⟩

theorem count_next (hi : i ≤ n.toNat) :
    Nat.count (fun j => (loadKernel v n bios b.cpu j).label = .next) (3 * i) = i := by
  induction i with
  | zero => rfl
  | succ i ih =>
    obtain ⟨hnext, hattempt, hok, _⟩ := @loadKernel_pass v n i bios b hn hmax hi
    have hthree : 3 * (i + 1) = 3 * i + 1 + 1 + 1 := by omega
    rw [hthree, Nat.count_succ, Nat.count_succ, Nat.count_succ, ih (Nat.le_of_succ_le hi), hnext,
      hattempt, hok]
    simp

theorem reads_of_mem_pass (hi : i ≤ n.toNat) :
    ∀ c ∈ (loadKernel v n bios b.cpu (3 * i)).calls, ∃ k, c.Reads (k + 1) (0x10000 + 512 * k) := by
  induction i with
  | zero => exact fun c hc => absurd hc (List.not_mem_nil)
  | succ i ih =>
    obtain ⟨_, _, _, c', _, hcalls, hreads⟩ := @loadKernel_pass v n i bios b hn hmax hi
    intro c hc
    rw [hcalls, List.mem_append, List.mem_singleton] at hc
    rcases hc with hc | rfl
    · exact ih (Nat.le_of_succ_le hi) c hc
    · exact ⟨i, hreads⟩

theorem reads_of_mem_calls {j : ℕ} {c : DiskCall} (hc : c ∈ (loadKernel v n bios b.cpu j).calls) :
    ∃ k, c.Reads (k + 1) (0x10000 + 512 * k) := by
  have hret := loadKernel_label b bios hn hmax
  have hlast : loadKernel v n bios b.cpu (j + 3 * n.toNat) =
      loadKernel v n bios b.cpu (3 * n.toNat) := by
    rw [loadKernel, Function.iterate_add_apply]
    exact Function.iterate_fixed (loadStep_of_ret hret) j
  have hmem := (loadKernel_calls_le b.cpu (Nat.le_add_right j (3 * n.toNat))).subset hc
  rw [hlast] at hmem
  exact reads_of_mem_pass b hn hmax le_rfl c hmem

end Run

/-- The first read of the pass `k` asks for LBA `k` and the place of sector `k - 1` of the image,
no transfer leaves its block of 64 KB, and `lba_to_chs` is exact below LBA 36864. -/
theorem loadKernel_addresses (v : BootVars) (n : UInt16) (bios : DiskBios) (b : BootImage v)
    (hn : 1 ≤ n.toNat) (hmax : n.toNat ≤ 1920) :
    (∀ k, 1 ≤ k → k ≤ n.toNat → ∃ c, FirstRead v n bios b.cpu k c ∧
      c.Reads k (0x10000 + 512 * (k - 1))) ∧
    (∀ j, ∀ c ∈ (loadKernel v n bios b.cpu j).calls, c.al = 1 ∧ InOneBank (linear c.es c.bx)) ∧
    ∀ s : Cpu, s.ds = 0 → load16 s.mem v.spt = 18 → load16 s.mem v.heads = 2 →
      s.eax.word.toNat < 36864 →
      ChsOf (lbaToChs v s).ecx.high (lbaToChs v s).ecx.low (lbaToChs v s).edx.high
        s.eax.word.toNat := by
  refine ⟨fun k hk hkn => ?_, fun j c hc => ?_, fun s hds hspt hheads hlba => ?_⟩
  · obtain ⟨i, rfl⟩ := Nat.exists_eq_add_of_le' hk
    obtain ⟨hnext, _, _, c, hcall, _, hreads⟩ := @loadKernel_pass v n i bios b hn hmax hkn
    have hcount := @count_next v n i bios b hn hmax (Nat.le_of_succ_le hkn)
    exact ⟨c, ⟨3 * i, hnext, by rw [hcount], hcall⟩, hreads⟩
  · obtain ⟨k, hreads⟩ := reads_of_mem_calls b hn hmax hc
    rw [hreads.buffer]
    exact ⟨hreads.count, inOneBank_sector k⟩
  · exact (lbaToChs_spec v hds hspt hheads rfl hlba).1.chsOf

/-- The sector behind the first 64 KB of the largest image. -/
theorem loadKernel_addresses_second_bank :
    ∃ c, FirstRead sampleVars 1920 transientBios sampleImage.cpu 129 c ∧ c.Reads 129 0x20000 := by
  obtain ⟨hfirst, _⟩ := loadKernel_addresses sampleVars 1920 transientBios sampleImage
    (by decide) (by decide)
  exact hfirst 129 (by omega) (by decide)

end Nadir
