import Nadir.Boot.Disk

/-!
# Sector addresses

`lba_to_chs` packs cylinder, head and sector of an LBA as `int 0x13` wants them. The packing
decodes to the LBA for every LBA of a disk with at most 1024 cylinders.
-/

namespace Nadir

open ByteMem X86

/-- The registers name the sector at the LBA. -/
structure NamesSector (s : Cpu) (lba : ℕ) : Prop where
  cylinder : s.ecx.high.toNat + 256 * (s.ecx.low.toNat / 64) = lba / 36
  head : s.edx.high.toNat = lba / 18 % 2
  sector : s.ecx.low.toNat % 64 = lba % 18 + 1

theorem and_C0_toNat (x : UInt8) : (x &&& 0xC0).toNat = 64 * (x.toNat / 64) := by
  have hall : ∀ y : Fin 256, y.val &&& 192 = 64 * (y.val / 64) := by decide +kernel
  rw [UInt8.toNat_and]
  exact hall ⟨x.toNat, x.toNat_lt⟩

theorem or_toNat_of_lt {x y : UInt8} {k : ℕ} (hx : x.toNat < 64) (hy : y.toNat = 64 * k) :
    (x ||| y).toNat = x.toNat + 64 * k := by
  have hlt : x.toNat < 2 ^ 6 := hx
  rw [UInt8.toNat_or, hy, Nat.or_comm]
  exact (Nat.two_pow_add_eq_or_of_lt hlt k).symm.trans (Nat.add_comm _ _)

variable (v : BootVars)

theorem lbaToChs_regs {s : Cpu} (hds : s.ds = 0) (hspt : load16 s.mem v.spt = 18)
    (hheads : load16 s.mem v.heads = 2) :
    let track := UInt16.ofNat (s.eax.word.toNat / 18)
    let sector := UInt16.ofNat (s.eax.word.toNat % 18) + 1
    let cylinder := UInt16.ofNat (track.toNat / 2)
    (lbaToChs v s).ecx.high = UInt8.ofNat cylinder.toNat ∧
    (lbaToChs v s).ecx.low =
      UInt8.ofNat sector.toNat ||| (UInt8.ofNat (cylinder >>> 2).toNat &&& 0xC0) ∧
    (lbaToChs v s).edx.high = UInt8.ofNat (UInt16.ofNat (track.toNat % 2)).toNat := by
  simp only [lbaToChs, Cpu.divWord_of_zero, Reg.word_setWord, Cpu.load16, hds, hspt, hheads,
    UInt16.toNat_zero, Nat.mul_zero, Nat.zero_add, Reg.low_setWord, UInt16.reduceToNat, and_self]

/-- `lba_to_chs` names the sector at the LBA in AX and touches neither memory nor DS. -/
theorem lbaToChs_spec {s : Cpu} {lba : ℕ} (hds : s.ds = 0) (hspt : load16 s.mem v.spt = 18)
    (hheads : load16 s.mem v.heads = 2) (hax : s.eax.word.toNat = lba) (hlba : lba < 36864) :
    NamesSector (lbaToChs v s) lba ∧ (lbaToChs v s).mem = s.mem ∧ (lbaToChs v s).ds = s.ds := by
  obtain ⟨hch, hcl, hdh⟩ := lbaToChs_regs v hds hspt hheads
  rw [hax] at hch hcl hdh
  have htrack : (UInt16.ofNat (lba / 18)).toNat = lba / 18 := by
    rw [UInt16.toNat_ofNat']
    omega
  rw [htrack] at hch hcl hdh
  have hcyl : (UInt16.ofNat (lba / 18 / 2)).toNat = lba / 36 := by
    rw [UInt16.toNat_ofNat']
    omega
  have hsector : (UInt8.ofNat (UInt16.ofNat (lba % 18) + 1).toNat).toNat = lba % 18 + 1 := by
    rw [UInt8.toNat_ofNat', UInt16.toNat_add, UInt16.toNat_ofNat', UInt16.toNat_one]
    omega
  have hhigh : (UInt8.ofNat (UInt16.ofNat (lba / 18 / 2) >>> 2).toNat &&& 0xC0).toNat =
      64 * (lba / 36 / 256) := by
    have hshift : (UInt16.ofNat (lba / 18 / 2) >>> 2).toNat = lba / 36 / 4 := by
      rw [UInt16.toNat_shiftRight, hcyl]
      exact Nat.shiftRight_eq_div_pow (lba / 36) 2
    rw [and_C0_toNat, UInt8.toNat_ofNat', hshift]
    omega
  have hsmall : (UInt8.ofNat (UInt16.ofNat (lba % 18) + 1).toNat).toNat < 64 := by
    omega
  have hlow := or_toNat_of_lt hsmall hhigh
  rw [← hcl, hsector] at hlow
  rw [hcyl] at hch
  refine ⟨⟨?_, ?_, ?_⟩, rfl, rfl⟩
  · rw [hch, hlow, UInt8.toNat_ofNat']
    omega
  · rw [hdh, UInt8.toNat_ofNat', UInt16.toNat_ofNat']
    omega
  · rw [hlow]
    omega

end Nadir
