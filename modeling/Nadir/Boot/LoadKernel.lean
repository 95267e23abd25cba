import Nadir.Boot.Chs
import Nadir.Lib.Transition
import Mathlib.Tactic.SplitIfs

/-!
# When the kernel image is loaded

The `xor ax, ax` between `int 0x13` and `jnc` clears the carry, so every answer counts as a
success: the retry path is never taken, `load_kernel` returns after one call per sector, and a
sector whose call failed keeps what memory held before.
-/

namespace Nadir

open ByteMem X86

/-- The boot sector in memory: its two constants of the disk geometry. -/
structure BootImage (v : BootVars) where
  cpu : Cpu
  spt : load16 cpu.mem v.spt = 18
  heads : load16 cpu.mem v.heads = 2

/-- The boot sector's variables when `i` sectors are done. -/
structure LoadVars (v : BootVars) (n : UInt16) (drive : UInt8) (i : ℕ) (m : Mem) : Prop where
  spt : load16 m v.spt = 18
  heads : load16 m v.heads = 2
  lba : (load16 m v.lba).toNat = i + 1
  seg : (load16 m v.bufSeg).toNat = 4096 * (1 + i / 128) % 65536
  off : (load16 m v.bufOff).toNat = 512 * (i % 128)
  left : (load16 m v.sectorsLeft).toNat = n.toNat - i
  drive : m v.bootDrive = drive

variable {v : BootVars} {n : UInt16} {drive : UInt8} {i : ℕ}

theorem LoadVars.congr {m m' : Mem} (h : LoadVars v n drive i m)
    (hsame : ∀ b, v.base ≤ b → b < v.base + 13 → m' b = m b) : LoadVars v n drive i m' := by
  have hload : ∀ a, v.base ≤ a → a + 2 ≤ v.base + 13 → load16 m' a = load16 m a :=
    fun a hlo hhi => load16_congr (fun b hb hb' => hsame b (by omega) (by omega))
  constructor
  · rw [hload _ (by unfold BootVars.spt; omega) (by unfold BootVars.spt; omega), h.spt]
  · rw [hload _ (by unfold BootVars.heads; omega) (by unfold BootVars.heads; omega), h.heads]
  · rw [hload _ (by unfold BootVars.lba; omega) (by unfold BootVars.lba; omega), h.lba]
  · rw [hload _ (by unfold BootVars.bufSeg; omega) (by unfold BootVars.bufSeg; omega), h.seg]
  · rw [hload _ (by unfold BootVars.bufOff; omega) (by unfold BootVars.bufOff; omega), h.off]
  · rw [hload _ (by unfold BootVars.sectorsLeft; omega) (by unfold BootVars.sectorsLeft; omega),
      h.left]
  · rw [hsame _ (by unfold BootVars.bootDrive; omega) (by unfold BootVars.bootDrive; omega),
      h.drive]

theorem loadStart_spec (b : BootImage v) :
    (loadStart v n b.cpu).label = .next ∧ (loadStart v n b.cpu).calls = [] ∧
    (loadStart v n b.cpu).cpu.ds = 0 ∧
    LoadVars v n (b.cpu.mem v.bootDrive) 0 (loadStart v n b.cpu).cpu.mem ∧
    ∀ a, 0x10000 ≤ a → (loadStart v n b.cpu).cpu.mem a = b.cpu.mem a := by
  have hds : (b.cpu.xorAx.movDsAx).ds = 0 := Reg.word_setWord 0 _
  have hspt := b.spt
  have hheads := b.heads
  have hbase := v.base_le
  have hmem : (loadStart v n b.cpu).cpu.mem =
      store16 (store16 (store16 (store16 b.cpu.mem v.bufSeg 0x1000) v.bufOff 0) v.lba 1)
        v.sectorsLeft n := by
    simp only [loadStart, Cpu.store16_of_ds, hds, Reg.word_setWord, kernelLoadSeg]
    rfl
  refine ⟨rfl, rfl, hds, ⟨?_, ?_, ?_, ?_, ?_, ?_, ?_⟩, fun a ha => ?_⟩
  all_goals rw [hmem]
  all_goals
    simp only [BootVars.spt, BootVars.heads, BootVars.lba, BootVars.bufSeg, BootVars.bufOff,
      BootVars.sectorsLeft, BootVars.bootDrive] at *
  · simp (disch := omega) only [load16_store16_of_disjoint, hspt]
  · simp (disch := omega) only [load16_store16_of_disjoint, hheads]
  · simp (disch := omega) only [load16_store16_of_disjoint, load16_store16_self, UInt16.toNat_one]
  · simp (disch := omega) only [load16_store16_of_disjoint, load16_store16_self]
    rfl
  · simp (disch := omega) only [load16_store16_of_disjoint, load16_store16_self]
    rfl
  · rw [load16_store16_self, Nat.sub_zero]
  · simp (disch := omega) only [store16_of_outside]
  · simp (disch := omega) only [store16_of_outside]

/-- One pass of `.next` names the sector and changes nothing but `tries`. -/
theorem loadNext_spec {s : Cpu} (hds : s.ds = 0) (hvars : LoadVars v n drive i s.mem)
    (hi : i + 1 < 36864) :
    NamesSector (loadNext v s) (i + 1) ∧ (loadNext v s).ds = 0 ∧
    ∀ b, b ≠ v.tries → (loadNext v s).mem b = s.mem b := by
  have hax : ({ s with eax := s.eax.setWord (s.load16 v.lba) } : Cpu).eax.word.toNat = i + 1 := by
    rw [Reg.word_setWord, Cpu.load16_of_ds hds, hvars.lba]
  obtain ⟨hnames, hmem, hds'⟩ := @lbaToChs_spec v
    { s with eax := s.eax.setWord (s.load16 v.lba) } (i + 1) hds hvars.spt hvars.heads hax hi
  have hnext : loadNext v s =
      { lbaToChs v { s with eax := s.eax.setWord (s.load16 v.lba) } with
        mem := Function.update s.mem v.tries 3 } := by
    rw [loadNext, Cpu.store8_of_ds (hds'.trans hds), hmem]
  rw [hnext]
  exact ⟨⟨hnames.cylinder, hnames.head, hnames.sector⟩, hds'.trans hds,
    fun b hb => Function.update_of_ne hb _ _⟩

theorem loadRequest_spec {s : Cpu} (hds : s.ds = 0) (hvars : LoadVars v n drive i s.mem)
    (hi : i < 1920) :
    (loadRequest v s).eax.high = 2 ∧ (loadRequest v s).ecx = s.ecx ∧
    (loadRequest v s).edx.high = s.edx.high ∧ (loadRequest v s).edx.low = drive ∧
    linear (loadRequest v s).es (loadRequest v s).ebx.word = 0x10000 + 512 * i ∧
    (loadRequest v s).mem = s.mem := by
  have hes : (loadRequest v s).es = load16 s.mem v.bufSeg :=
    (Reg.word_setWord _ _).trans (Cpu.load16_of_ds hds _)
  have hbx : (loadRequest v s).ebx.word = load16 s.mem v.bufOff :=
    (Reg.word_setWord _ _).trans (Cpu.load16_of_ds hds _)
  refine ⟨rfl, rfl, rfl, (Cpu.load8_of_ds hds _).trans hvars.drive, ?_, rfl⟩
  rw [linear, hes, hbx, hvars.seg, hvars.off]
  omega

def answered (bios : DiskBios) (drive : UInt8) (i : ℕ) (cf : Bool) (m : Mem) : Mem :=
  if cf then m else copySector (0x10000 + 512 * i) (bios.disk.sectorAt drive (i + 1)) m

/-- The carry never survives to the test: whatever the answer, the next block is `.ok`. -/
theorem loadAttempt_spec {bios : DiskBios} {s : Cpu} {calls : List DiskCall} (hds : s.ds = 0)
    (hvars : LoadVars v n drive i s.mem) (hi : i < 1920) (hnames : NamesSector s (i + 1)) :
    ∃ s' c, loadAttempt v bios s calls = ⟨.ok, s', calls ++ [c]⟩ ∧ s'.ds = 0 ∧
      s'.mem = answered bios drive i (bios.answer calls.length).cf s.mem := by
  obtain ⟨hah, hecx, hdh, hdl, hlinear, hmem⟩ := loadRequest_spec hds hvars hi
  have hread : (DiskCall.of (loadRequest v s) (bios.answer calls.length).cf).IsRead := hah
  have hcylinder : (DiskCall.of (loadRequest v s) (bios.answer calls.length).cf).cylinder =
      (i + 1) / 36 := by
    rw [← hnames.cylinder, ← hecx]
    rfl
  have hhead : (DiskCall.of (loadRequest v s) (bios.answer calls.length).cf).head =
      (i + 1) / 18 % 2 := by
    rw [← hnames.head, ← hdh]
    rfl
  have hsector : (DiskCall.of (loadRequest v s) (bios.answer calls.length).cf).sector =
      (i + 1) % 18 + 1 := by
    rw [← hnames.sector, ← hecx]
    rfl
  have hdrive : (DiskCall.of (loadRequest v s) (bios.answer calls.length).cf).dl = drive := hdl
  refine ⟨_, _, rfl, Reg.word_setWord 0 _, ?_⟩
  change (int13 bios (loadRequest v s) calls).1.mem = _
  rw [int13, answered]
  dsimp only
  rw [hcylinder, hhead, hsector, hdrive, hlinear, hmem]
  cases (bios.answer calls.length).cf with
  | true => rw [if_neg (fun h => Bool.noConfusion h.2), if_pos rfl]
  | false =>
    rw [if_pos ⟨hread, rfl⟩, if_neg Bool.false_ne_true]
    rfl

/-- The carry is set exactly after the last sector of a segment. -/
theorem advanceBuffer_carry {s : Cpu} (hds : s.ds = 0) (hvars : LoadVars v n drive i s.mem) :
    (s.addWord v.bufOff 512).cf = true ↔ i % 128 = 127 := by
  have h512 : (512 : UInt16).toNat = 512 := rfl
  have hcf := Cpu.addWord_cf hds v.bufOff 512
  rw [hvars.off, h512] at hcf
  rw [hcf, decide_eq_true_eq]
  omega

theorem advanceBuffer_wrap {s : Cpu} (hds : s.ds = 0)
    (hcarry : (s.addWord v.bufOff 512).cf = true) :
    (advanceBuffer v s).ds = 0 ∧
    (advanceBuffer v s).mem = store16 (store16 s.mem v.bufOff (load16 s.mem v.bufOff + 512))
      v.bufSeg (load16 s.mem v.bufSeg + 0x1000) := by
  have hds' : (s.addWord v.bufOff 512).ds = 0 := by rw [Cpu.addWord_ds, hds]
  have hdisjoint : v.bufSeg + 2 ≤ v.bufOff := le_rfl
  rw [advanceBuffer, if_pos hcarry, Cpu.addWord_ds, Cpu.addWord_mem hds', Cpu.addWord_mem hds,
    load16_store16_of_disjoint _ _ (Or.inl hdisjoint)]
  exact ⟨hds', rfl⟩

theorem advanceBuffer_spec {s : Cpu} (hds : s.ds = 0) (hvars : LoadVars v n drive i s.mem) :
    (advanceBuffer v s).ds = 0 ∧
    (load16 (advanceBuffer v s).mem v.bufSeg).toNat = 4096 * (1 + (i + 1) / 128) % 65536 ∧
    (load16 (advanceBuffer v s).mem v.bufOff).toNat = 512 * ((i + 1) % 128) ∧
    ∀ b, b < v.bufSeg ∨ v.sectorsLeft ≤ b → (advanceBuffer v s).mem b = s.mem b := by
  have hseg := hvars.seg
  have hoff := hvars.off
  have hcf := advanceBuffer_carry hds hvars
  have hdisjoint : v.bufSeg + 2 ≤ v.bufOff := le_rfl
  have hnext : v.bufOff + 2 = v.sectorsLeft := rfl
  have h512 : (512 : UInt16).toNat = 512 := rfl
  have h4096 : (0x1000 : UInt16).toNat = 4096 := rfl
  by_cases hwrap : i % 128 = 127
  · obtain ⟨hds', hmem⟩ := advanceBuffer_wrap hds (hcf.mpr hwrap)
    refine ⟨hds', ?_, ?_, fun b hb => ?_⟩
    · rw [hmem, load16_store16_self, UInt16.toNat_add, hseg, h4096]
      omega
    · rw [hmem, load16_store16_of_disjoint _ _ (Or.inr hdisjoint), load16_store16_self,
        UInt16.toNat_add, hoff, h512]
      omega
    · rw [hmem, store16_of_outside _ _ (by omega), store16_of_outside _ _ (by omega)]
  · have hcarry : ¬(s.addWord v.bufOff 512).cf = true := fun h => hwrap (hcf.mp h)
    rw [advanceBuffer, if_neg hcarry, Cpu.addWord_ds, Cpu.addWord_mem hds]
    refine ⟨hds, ?_, ?_, fun b hb => ?_⟩
    · rw [load16_store16_of_disjoint _ _ (Or.inl hdisjoint), hseg]
      omega
    · rw [load16_store16_self, UInt16.toNat_add, hoff, h512]
      omega
    · rw [store16_of_outside _ _ (by omega)]

theorem advanceCounters_spec {s : Cpu} (hds : s.ds = 0) (hvars : LoadVars v n drive i s.mem)
    (hi : i < n.toNat) :
    (((advanceBuffer v s).incWord v.lba).decWord v.sectorsLeft).mem =
      store16 (store16 (advanceBuffer v s).mem v.lba (load16 s.mem v.lba + 1)) v.sectorsLeft
        (load16 s.mem v.sectorsLeft - 1) ∧
    (load16 s.mem v.sectorsLeft - 1).toNat = n.toNat - (i + 1) ∧
    (((advanceBuffer v s).incWord v.lba).decWord v.sectorsLeft).zf =
      decide (i + 1 = n.toNat) := by
  obtain ⟨hds₁, _, _, hsame⟩ := advanceBuffer_spec hds hvars
  have hds₂ : ((advanceBuffer v s).incWord v.lba).ds = 0 := by rw [Cpu.incWord_ds, hds₁]
  have hlba : v.lba + 2 = v.bufSeg := rfl
  have hbufSeg : v.bufSeg + 4 = v.sectorsLeft := rfl
  have hload : ∀ a, a + 2 ≤ v.bufSeg ∨ v.sectorsLeft ≤ a →
      load16 (advanceBuffer v s).mem a = load16 s.mem a :=
    fun a ha => load16_congr (fun b hlo hhi => hsame b (by omega))
  have hinc := Cpu.incWord_mem hds₁ v.lba
  rw [hload v.lba (by omega)] at hinc
  have hleftSame : load16 ((advanceBuffer v s).incWord v.lba).mem v.sectorsLeft =
      load16 s.mem v.sectorsLeft := by
    rw [hinc, load16_store16_of_disjoint _ _ (by omega), hload v.sectorsLeft (by omega)]
  have hone : (1 : UInt16) ≤ load16 s.mem v.sectorsLeft := by
    rw [UInt16.le_iff_toNat_le, hvars.left, UInt16.toNat_one]
    omega
  have hdec : (load16 s.mem v.sectorsLeft - 1).toNat = n.toNat - (i + 1) := by
    rw [UInt16.toNat_sub_of_le _ _ hone, hvars.left, UInt16.toNat_one]
    omega
  refine ⟨?_, hdec, ?_⟩
  · rw [Cpu.decWord_mem hds₂, hleftSame, hinc]
  · rw [Cpu.decWord_zf hds₂, hleftSame, Bool.eq_iff_iff, beq_iff_eq, decide_eq_true_eq,
      ← UInt16.toNat_inj, hdec, UInt16.toNat_zero]
    omega

theorem loadOk_spec {s : Cpu} {calls : List DiskCall} (hds : s.ds = 0)
    (hvars : LoadVars v n drive i s.mem) (hi : i < n.toNat) (hlt : i < 1920) :
    ∃ s', loadOk v s calls = ⟨if i + 1 = n.toNat then .ret else .next, s', calls⟩ ∧ s'.ds = 0 ∧
      LoadVars v n drive (i + 1) s'.mem ∧ ∀ a, 0x10000 ≤ a → s'.mem a = s.mem a := by
  obtain ⟨hds₁, hseg, hoff, hsame⟩ := advanceBuffer_spec hds hvars
  obtain ⟨hmem, hdec, hzf⟩ := advanceCounters_spec hds hvars hi
  have hbase := v.base_le
  have hspt : v.spt = v.base + 1 := rfl
  have hheads : v.heads = v.base + 3 := rfl
  have hlba : v.lba = v.base + 5 := rfl
  have hbufSeg : v.bufSeg = v.base + 7 := rfl
  have hbufOff : v.bufOff = v.base + 9 := rfl
  have hleft : v.sectorsLeft = v.base + 11 := rfl
  have hdrive : v.bootDrive = v.base := rfl
  have hbyte : ∀ b, b < v.lba ∨ v.sectorsLeft + 2 ≤ b →
      (((advanceBuffer v s).incWord v.lba).decWord v.sectorsLeft).mem b = s.mem b := by
    intro b hb
    rw [hmem, store16_of_outside _ _ (by omega), store16_of_outside _ _ (by omega),
      hsame _ (by omega)]
  have hbuffer : ∀ a, v.bufSeg ≤ a → a + 2 ≤ v.sectorsLeft →
      load16 (((advanceBuffer v s).incWord v.lba).decWord v.sectorsLeft).mem a =
        load16 (advanceBuffer v s).mem a := by
    intro a hlo hhi
    rw [hmem, load16_store16_of_disjoint _ _ (by omega), load16_store16_of_disjoint _ _ (by omega)]
  refine ⟨((advanceBuffer v s).incWord v.lba).decWord v.sectorsLeft, ?_, ?_,
    ⟨?_, ?_, ?_, ?_, ?_, ?_, ?_⟩, fun a ha => hbyte a (by omega)⟩
  · simp only [loadOk, hzf, decide_eq_true_eq]
  · rw [Cpu.decWord_ds, Cpu.incWord_ds, hds₁]
  · rw [load16_congr (fun b _ hhi => hbyte b (by omega)), hvars.spt]
  · rw [load16_congr (fun b _ hhi => hbyte b (by omega)), hvars.heads]
  · rw [hmem, load16_store16_of_disjoint _ _ (by omega), load16_store16_self, UInt16.toNat_add,
      hvars.lba, UInt16.toNat_one]
    omega
  · rw [hbuffer v.bufSeg (by omega) (by omega), hseg]
  · rw [hbuffer v.bufOff (by omega) (by omega), hoff]
  · rw [hmem, load16_store16_self, hdec]
  · rw [hbyte v.bootDrive (by omega), hvars.drive]

/-- Memory from the load address up when `i` sectors are done: a sector whose call succeeded is
there, any other place is as it was. -/
def loadedByte (bios : DiskBios) (drive : UInt8) (m₀ : Mem) (i b : ℕ) : UInt8 :=
  if (b - 0x10000) / 512 < i ∧ (bios.answer ((b - 0x10000) / 512)).cf = false then
    bios.disk.sectorAt drive ((b - 0x10000) / 512 + 1) ((b - 0x10000) % 512)
  else m₀ b

/-- At `.next`, or at the return, with `i` sectors done. -/
structure Loading (v : BootVars) (n : UInt16) (bios : DiskBios) (m₀ : Mem) (i : ℕ)
    (s : LoadState) : Prop where
  label : s.label = if i = n.toNat then .ret else .next
  calls : s.calls.length = i
  ds : s.cpu.ds = 0
  vars : LoadVars v n (m₀ v.bootDrive) i s.cpu.mem
  image : ∀ b, 0x10000 ≤ b → s.cpu.mem b = loadedByte bios (m₀ v.bootDrive) m₀ i b

theorem answered_of_lt (bios : DiskBios) (drive : UInt8) (cf : Bool) (m : Mem) {b : ℕ}
    (hb : b < 0x10000) : answered bios drive i cf m b = m b := by
  cases cf with
  | true => rfl
  | false => exact if_neg (by omega)

theorem answered_loadedByte {bios : DiskBios} {m m₀ : Mem}
    (himage : ∀ b, 0x10000 ≤ b → m b = loadedByte bios drive m₀ i b) {b : ℕ}
    (hb : 0x10000 ≤ b) :
    answered bios drive i (bios.answer i).cf m b = loadedByte bios drive m₀ (i + 1) b := by
  have hold := himage b hb
  rw [loadedByte] at hold ⊢
  by_cases hblock : (b - 0x10000) / 512 = i
  · rw [hblock] at hold ⊢
    rw [if_neg (fun h => Nat.lt_irrefl _ h.1)] at hold
    cases hcf : (bios.answer i).cf with
    | true => rw [if_neg (fun h => Bool.noConfusion h.2), answered, if_pos rfl, hold]
    | false =>
      have hoffset : b - (0x10000 + 512 * i) = (b - 0x10000) % 512 := by omega
      rw [if_pos ⟨Nat.lt_succ_self i, rfl⟩, answered, if_neg Bool.false_ne_true, copySector,
        if_pos (by omega), hoffset]
  · have hiff : (b - 0x10000) / 512 < i + 1 ↔ (b - 0x10000) / 512 < i := by omega
    simp only [hiff]
    rw [← hold]
    cases (bios.answer i).cf with
    | true => rfl
    | false => exact if_neg (by omega)

theorem Loading.start (b : BootImage v) (bios : DiskBios) (hn : 1 ≤ n.toNat) :
    Loading v n bios b.cpu.mem 0 (loadStart v n b.cpu) := by
  obtain ⟨hlabel, hcalls, hds, hvars, hsame⟩ := @loadStart_spec v n b
  refine ⟨?_, ?_, hds, hvars, fun a ha => ?_⟩
  · rw [hlabel, if_neg (by omega)]
  · rw [hcalls, List.length_nil]
  · rw [hsame a ha, loadedByte, if_neg (fun h => Nat.not_lt_zero _ h.1)]

theorem Loading.next {bios : DiskBios} {m₀ : Mem} {s : LoadState}
    (h : Loading v n bios m₀ i s) (hi : i < n.toNat) (hlt : i < 1920) :
    loadStep v bios s = ⟨.attempt, loadNext v s.cpu, s.calls⟩ ∧
    NamesSector (loadNext v s.cpu) (i + 1) ∧ (loadNext v s.cpu).ds = 0 ∧
    LoadVars v n (m₀ v.bootDrive) i (loadNext v s.cpu).mem ∧
    ∀ b, 0x10000 ≤ b → (loadNext v s.cpu).mem b = s.cpu.mem b := by
  have hbase := v.base_le
  have htries : v.tries = v.base + 13 := rfl
  have hlabel := h.label
  rw [if_neg (Nat.ne_of_lt hi)] at hlabel
  obtain ⟨hnames, hds, hsame⟩ := loadNext_spec h.ds h.vars (by omega)
  refine ⟨?_, hnames, hds, ?_, fun b hb => hsame b (by omega)⟩
  · rw [loadStep, hlabel]
  · exact h.vars.congr (fun b _ hb => hsame b (by omega))

/-- Three blocks, `.next`, `.attempt` and `.ok`, do one sector. -/
theorem Loading.step {bios : DiskBios} {m₀ : Mem} {s : LoadState}
    (h : Loading v n bios m₀ i s) (hi : i < n.toNat) (hlt : i < 1920) :
    Loading v n bios m₀ (i + 1) (loadStep v bios (loadStep v bios (loadStep v bios s))) := by
  obtain ⟨hnext, hnames, hds₁, hvars₁, hsame₁⟩ := h.next hi hlt
  have hbase := v.base_le
  obtain ⟨s₂, c, hattempt, hds₂, hmem₂⟩ :=
    @loadAttempt_spec _ _ _ _ bios _ s.calls hds₁ hvars₁ hlt hnames
  rw [h.calls] at hmem₂
  have hvars₂ : LoadVars v n (m₀ v.bootDrive) i s₂.mem :=
    hvars₁.congr (fun b _ hb => by rw [hmem₂, answered_of_lt _ _ _ _ (by omega)])
  obtain ⟨s₃, hok, hds₃, hvars₃, hsame₃⟩ :=
    @loadOk_spec _ _ _ _ _ (s.calls ++ [c]) hds₂ hvars₂ hi hlt
  have hrun : loadStep v bios (loadStep v bios (loadStep v bios s)) =
      ⟨if i + 1 = n.toNat then .ret else .next, s₃, s.calls ++ [c]⟩ := by
    rw [hnext]
    change loadStep v bios (loadAttempt v bios (loadNext v s.cpu) s.calls) = _
    rw [hattempt]
    exact hok
  rw [hrun]
  refine ⟨rfl, ?_, hds₃, hvars₃, fun b hb => ?_⟩
  · rw [List.length_append, h.calls, List.length_singleton]
  · have himage₁ : ∀ b, 0x10000 ≤ b →
        (loadNext v s.cpu).mem b = loadedByte bios (m₀ v.bootDrive) m₀ i b :=
      fun b hb => (hsame₁ b hb).trans (h.image b hb)
    rw [hsame₃ b hb, hmem₂, answered_loadedByte himage₁ hb]

theorem loadKernel_succ (bios : DiskBios) (s : Cpu) (k : ℕ) :
    loadKernel v n bios s (k + 1) = loadStep v bios (loadKernel v n bios s k) :=
  Function.iterate_succ_apply' _ _ _

theorem Loading.run (b : BootImage v) (bios : DiskBios) (hn : 1 ≤ n.toNat) (hmax : n.toNat ≤ 1920)
    (hi : i ≤ n.toNat) :
    Loading v n bios b.cpu.mem i (loadKernel v n bios b.cpu (3 * i)) := by
  induction i with
  | zero => exact Loading.start b bios hn
  | succ i ih =>
    have hthree : 3 * (i + 1) = 3 * i + 1 + 1 + 1 := by omega
    rw [hthree, loadKernel_succ, loadKernel_succ, loadKernel_succ]
    exact (ih (by omega)).step (by omega) (by omega)

theorem loadStep_of_ret {bios : DiskBios} {s : LoadState} (h : s.label = .ret) :
    loadStep v bios s = s := by
  rw [loadStep, h]

theorem loadKernel_label (b : BootImage v) (bios : DiskBios) (hn : 1 ≤ n.toNat)
    (hmax : n.toNat ≤ 1920) : (loadKernel v n bios b.cpu (3 * n.toNat)).label = .ret := by
  rw [(Loading.run b bios hn hmax le_rfl).label, if_pos rfl]

theorem loadKernel_eq_of_ret (b : BootImage v) (bios : DiskBios) (hn : 1 ≤ n.toNat)
    (hmax : n.toNat ≤ 1920) {k : ℕ} (hk : (loadKernel v n bios b.cpu k).label = .ret) :
    loadKernel v n bios b.cpu k = loadKernel v n bios b.cpu (3 * n.toNat) :=
  Transition.iterate_eq_of_fixed (loadStep_of_ret hk)
    (loadStep_of_ret (loadKernel_label b bios hn hmax))

/-- The last three reads asked for one sector and failed. -/
def ThreeFailedReads (calls : List DiskCall) : Prop :=
  ∃ before c₁ c₂ c₃, calls.filter DiskCall.IsRead = before ++ [c₁, c₂, c₃] ∧
    (∀ c ∈ [c₁, c₂, c₃], c.failed = true ∧ c.cylinder = c₁.cylinder ∧ c.head = c₁.head ∧
      c.sector = c₁.sector)

/-- A return leaves the image in memory, and only three failed reads of one sector prevent it. -/
structure LoadCorrect (v : BootVars) (n : UInt16) (bios : DiskBios) (s : Cpu) : Prop where
  image : ∀ k, (loadKernel v n bios s k).label = .ret → ∀ i < n.toNat, ∀ j < 512,
    (loadKernel v n bios s k).cpu.mem (0x10000 + 512 * i + j) =
      bios.disk.sectorAt (s.mem v.bootDrive) (i + 1) j
  halt : (∀ k, (loadKernel v n bios s k).label ≠ .ret) →
    ∃ k, (loadKernel v n bios s k).label = .error ∧
      ThreeFailedReads (loadKernel v n bios s k).calls

theorem loadKernel_byte (b : BootImage v) (bios : DiskBios) (hn : 1 ≤ n.toNat)
    (hmax : n.toNat ≤ 1920) (hi : i < n.toNat) {j : ℕ} (hj : j < 512) :
    (loadKernel v n bios b.cpu (3 * n.toNat)).cpu.mem (0x10000 + 512 * i + j) =
      if (bios.answer i).cf = false then bios.disk.sectorAt (b.cpu.mem v.bootDrive) (i + 1) j
      else b.cpu.mem (0x10000 + 512 * i + j) := by
  have hlast := Loading.run b bios hn hmax le_rfl
  have hsector : (0x10000 + 512 * i + j - 0x10000) / 512 = i := by omega
  have hoffset : (0x10000 + 512 * i + j - 0x10000) % 512 = j := by omega
  rw [hlast.image _ (by omega), loadedByte, hsector, hoffset]
  simp only [hi, true_and]

/-- Each call succeeded, or memory held its sector before. -/
def AnswersHold (v : BootVars) (n : UInt16) (bios : DiskBios) (s : Cpu) : Prop :=
  ∀ i < n.toNat, (bios.answer i).cf = false ∨ ∀ j < 512, s.mem (0x10000 + 512 * i + j) =
    bios.disk.sectorAt (s.mem v.bootDrive) (i + 1) j

theorem LoadCorrect.answersHold {b : BootImage v} {bios : DiskBios} (hn : 1 ≤ n.toNat)
    (hmax : n.toNat ≤ 1920) (h : LoadCorrect v n bios b.cpu) : AnswersHold v n bios b.cpu := by
  intro i hi
  cases hcf : (bios.answer i).cf with
  | false => exact Or.inl rfl
  | true =>
    right
    intro j hj
    have himage := h.image _ (loadKernel_label b bios hn hmax) i hi j hj
    rwa [loadKernel_byte b bios hn hmax hi hj, if_neg (by rw [hcf]; exact Bool.noConfusion)]
      at himage

theorem AnswersHold.loadCorrect {b : BootImage v} {bios : DiskBios} (hn : 1 ≤ n.toNat)
    (hmax : n.toNat ≤ 1920) (h : AnswersHold v n bios b.cpu) : LoadCorrect v n bios b.cpu := by
  refine ⟨fun k hk i hi j hj => ?_, fun hnever => absurd (loadKernel_label b bios hn hmax)
    (hnever _)⟩
  rw [loadKernel_eq_of_ret b bios hn hmax hk, loadKernel_byte b bios hn hmax hi hj]
  rcases h i hi with hok | hsame
  · rw [if_pos hok]
  · rw [hsame j hj, ite_self]

/-- `KERNEL_SECTORS`: the image ends by 0xA0000, the top of conventional memory. -/
structure KernelSectors where
  val : UInt16
  one_le : 1 ≤ val.toNat
  le : val.toNat ≤ 1152

/-- The load is correct exactly when every call succeeds whose sector memory does not already
hold. -/
theorem loadCorrect_iff (v : BootVars) (n : KernelSectors) (bios : DiskBios) (b : BootImage v) :
    LoadCorrect v n.val bios b.cpu ↔ AnswersHold v n.val bios b.cpu := by
  have hmax : n.val.toNat ≤ 1920 := Nat.le_trans n.le (by omega)
  exact ⟨fun h => h.answersHold n.one_le hmax, fun h => h.loadCorrect n.one_le hmax⟩

/-- A drive whose first read fails and whose every later call succeeds. -/
def transientBios : DiskBios where
  answer k := ⟨⟨0, 0, 0⟩, ⟨0, 0, 0⟩, ⟨0, 0, 0⟩, ⟨0, 0, 0⟩, ⟨0, 0, 0⟩, 0, 0, k == 0, false⟩
  disk := fun _ _ _ _ _ => 1

def sampleVars : BootVars := ⟨0x7D80, by decide, by decide⟩

def sampleImage : BootImage sampleVars where
  cpu := ⟨transientBios.answer 1,
    store16 (store16 (fun _ => 0) sampleVars.heads 2) sampleVars.spt 18⟩
  spt := load16_store16_self _ _ _
  heads := by
    rw [load16_store16_of_disjoint _ _ (by decide)]
    exact load16_store16_self _ _ _

/-- One transient failure and the first sector is missing, though a retry would read it. -/
theorem not_loadCorrect_transient :
    ¬ LoadCorrect sampleVars 1 transientBios sampleImage.cpu := by
  intro h
  rcases h.answersHold (by decide) (by decide) 0 (by decide) with hok | hsame
  · exact Bool.noConfusion hok
  · have hbyte := hsame 0 (by omega)
    have hmem : sampleImage.cpu.mem =
        store16 (store16 (fun _ => 0) sampleVars.heads 2) sampleVars.spt 18 := rfl
    have hclear : sampleImage.cpu.mem (0x10000 + 512 * 0 + 0) = 0 := by
      rw [hmem, store16_of_outside _ _ (by decide), store16_of_outside _ _ (by decide)]
    rw [hclear] at hbyte
    exact absurd hbyte (by decide)

end Nadir
