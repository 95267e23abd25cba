import Nadir.Boot.FreeMemory
import Nadir.Boot.LoadKernel
import Nadir.Boot.LongMode
import Nadir.Boot.StagingArea

/-!
# From the disk to `kmain`

`load_kernel` puts the image into memory, `query_e820` stages the memory map, stage 2 zeroes the
globals and copies the map. None of them writes over what an earlier one left, so `kmain` finds the
image of the disk, its globals zeroed and the map in them. The processor alone writes into the
image: it marks the two descriptors that stage 2 loads.
-/

namespace Nadir

open ByteMem X86 Modes

variable {v : BootVars} {n : UInt16} {bios : DiskBios} {answers : ℕ → E820Answer} {m₀ : Mem}
  {i : ℕ}

/-! Below the load address `load_kernel` writes to the boot sector's variables only. -/

theorem loadStart_below (b : BootImage v) {a : ℕ} (ha : a < v.base ∨ v.base + 18 ≤ a) :
    (loadStart v n b.cpu).cpu.mem a = b.cpu.mem a := by
  have hds : (b.cpu.xorAx.movDsAx).ds = 0 := Reg.word_setWord 0 _
  have hmem : (loadStart v n b.cpu).cpu.mem =
      store16 (store16 (store16 (store16 b.cpu.mem v.bufSeg 0x1000) v.bufOff 0) v.lba 1)
        v.sectorsLeft n := by
    simp only [loadStart, Cpu.store16_of_ds, hds, Reg.word_setWord, kernelLoadSeg]
    rfl
  rw [hmem]
  simp only [BootVars.lba, BootVars.bufSeg, BootVars.bufOff, BootVars.sectorsLeft]
  simp (disch := omega) only [store16_of_outside]

theorem loadOk_below {drive : UInt8} {s : Cpu} {calls : List DiskCall} (hds : s.ds = 0)
    (hvars : LoadVars v n drive i s.mem) (hi : i < n.toNat) {a : ℕ}
    (ha : a < v.base ∨ v.base + 18 ≤ a) : (loadOk v s calls).cpu.mem a = s.mem a := by
  obtain ⟨_, _, _, hsame⟩ := advanceBuffer_spec hds hvars
  obtain ⟨hmem, _, _⟩ := advanceCounters_spec hds hvars hi
  have hlba : v.lba = v.base + 5 := rfl
  have hbufSeg : v.bufSeg = v.base + 7 := rfl
  have hleft : v.sectorsLeft = v.base + 11 := rfl
  rw [loadOk]
  dsimp only
  rw [hmem, store16_of_outside _ _ (by omega), store16_of_outside _ _ (by omega),
    hsame a (by omega)]

theorem Loading.step_below {s : LoadState} (h : Loading v n bios m₀ i s) (hi : i < n.toNat)
    (hlt : i < 1920) {a : ℕ} (hlow : a < 0x10000) (ha : a < v.base ∨ v.base + 18 ≤ a) :
    (loadStep v bios (loadStep v bios (loadStep v bios s))).cpu.mem a = s.cpu.mem a := by
  obtain ⟨hnext, hnames, hds₁, hvars₁, _⟩ := h.next hi hlt
  have htries : v.tries = v.base + 13 := rfl
  have hbase := v.base_le
  have hnamed : (loadNext v s.cpu).mem a = s.cpu.mem a :=
    (loadNext_spec h.ds h.vars (by omega)).2.2 a (by omega)
  obtain ⟨s₂, c, hattempt, hds₂, hmem₂⟩ :=
    @loadAttempt_spec _ _ _ _ bios _ s.calls hds₁ hvars₁ hlt hnames
  have hvars₂ : LoadVars v n (m₀ v.bootDrive) i s₂.mem :=
    hvars₁.congr (fun b _ hb => by rw [hmem₂, answered_of_lt _ _ _ _ (by omega)])
  have hrun : loadStep v bios (loadStep v bios (loadStep v bios s)) =
      loadOk v s₂ (s.calls ++ [c]) := by
    rw [hnext]
    change loadStep v bios (loadAttempt v bios (loadNext v s.cpu) s.calls) = _
    rw [hattempt]
    rfl
  rw [hrun, loadOk_below hds₂ hvars₂ hi ha, hmem₂, answered_of_lt _ _ _ _ hlow, hnamed]

theorem loadKernel_below (b : BootImage v) (bios : DiskBios) (hn : 1 ≤ n.toNat)
    (hmax : n.toNat ≤ 1920) (hi : i ≤ n.toNat) {a : ℕ} (hlow : a < 0x10000)
    (ha : a < v.base ∨ v.base + 18 ≤ a) :
    (loadKernel v n bios b.cpu (3 * i)).cpu.mem a = b.cpu.mem a := by
  induction i with
  | zero => exact loadStart_below b ha
  | succ i ih =>
    have hthree : 3 * (i + 1) = 3 * i + 1 + 1 + 1 := by omega
    have hrun := @Loading.run v n i b bios hn hmax (Nat.le_of_succ_le hi)
    rw [hthree, loadKernel_succ, loadKernel_succ, loadKernel_succ,
      hrun.step_below hi (by omega) hlow ha]
    exact ih (Nat.le_of_succ_le hi)

/-! Behind the place of a 65th entry `query_e820` writes the continuation and nothing else. -/

/-- In the loop, at its end or back from the call. -/
def QueryPlace (answers : ℕ → E820Answer) (m₀ : Mem) (s : QueryState) : Prop :=
  (∃ n, Staging answers m₀ n s) ∨ s.label = .done ∧ s.cpu.ds = 0 ∨ s.label = .ret

theorem QueryPlace.step {s : QueryState} (h : QueryPlace answers m₀ s) :
    QueryPlace answers m₀ (queryStep v answers s) ∧
      ∀ b, 0x5638 ≤ b → (b < v.e820Next ∨ v.e820Next + 4 ≤ b) →
        (queryStep v answers s).cpu.mem b = s.cpu.mem b := by
  have hbuf := e820Buf_toNat
  obtain ⟨n, hstaging⟩ | ⟨hdone, hds⟩ | hret := h
  · constructor
    · rcases @Staging.step _ _ _ v _ hstaging with hnext | ⟨m, hlabel, _, hstaged⟩
      · exact .inl ⟨n + 1, hnext⟩
      · exact .inr (.inl ⟨hlabel, hstaged.ds⟩)
    · intro b hb hnext
      have hout : ¬InStagingArea v b := by
        unfold InStagingArea
        omega
      have hle := hstaging.le
      rw [hstaging.mem_outside hout]
      exact if_neg (by omega)
  · have hstep : queryStep v answers s = queryDone s.cpu s.calls := by rw [queryStep, hdone]
    rw [hstep]
    refine ⟨.inr (.inr rfl), fun b hb hnext => ?_⟩
    have hout : ¬InStagingArea v b := by
      unfold InStagingArea
      omega
    rw [queryDone]
    dsimp only
    split_ifs
    · rfl
    · exact queryFallback_outside hds hout
  · rw [queryStep_of_ret hret]
    exact ⟨.inr (.inr hret), fun _ _ _ => rfl⟩

theorem queryE820_beyond (s : Cpu) (k : ℕ) {b : ℕ} (hb : 0x5638 ≤ b)
    (hnext : b < v.e820Next ∨ v.e820Next + 4 ≤ b) :
    (queryE820 v answers s k).cpu.mem b = s.mem b := by
  have hrun : QueryPlace answers s.mem (queryE820 v answers s k) ∧
      (queryE820 v answers s k).cpu.mem b = s.mem b := by
    induction k with
    | zero =>
      have hbase := v.le_base
      have hcount : e820CountAddr = 0x5000 := rfl
      have hds : s.xorAx.movDsAx.ds = 0 := Reg.word_setWord 0 _
      have hmem : (queryStart s).cpu.mem = Function.update s.mem e820CountAddr 0 := by
        rw [queryStart, Cpu.store8_of_ds hds]
        rfl
      refine ⟨.inl ⟨0, staging_start s⟩, ?_⟩
      rw [queryE820, Function.iterate_zero, id_eq, hmem, Function.update_of_ne (by omega)]
    | succ k ih =>
      obtain ⟨hplace, hsame⟩ := @QueryPlace.step v _ _ _ ih.1
      rw [queryE820_succ]
      exact ⟨hplace, (hsame b hb hnext).trans ih.2⟩
  exact hrun.2

/-- The image as the disk has it behind the boot sector, at the place it is linked for. -/
def diskImage (bios : DiskBios) (drive : UInt8) : Mem := fun b =>
  bios.disk.sectorAt drive ((b - 0x10000) / 512 + 1) ((b - 0x10000) % 512)

/-- Every read succeeds, the sectors read hold the image, and the descriptors are where the code
looks for them: in front of the variables in the boot sector, and in the image on the disk. -/
structure Bootable (l : BootLayout) (n : UInt16) (bios : DiskBios) (b : BootImage v) : Prop where
  reads : ∀ i < n.toNat, (bios.answer i).cf = false
  image_le : l.bssStart ≤ 0x10000 + 512 * n.toNat
  bootGdt_le : l.bootGdt + 24 ≤ v.base
  bootGdt : Holds b.cpu.mem l.bootGdt gdtDescriptors
  gdt64 : Holds (diskImage bios (b.cpu.mem v.bootDrive)) l.gdt64 gdt64Descriptors

/-- Memory when `start` is back from `load_kernel` and `query_e820`. -/
def HandedOver (v : BootVars) (n : UInt16) (bios : DiskBios) (answers : ℕ → E820Answer) (s : Cpu)
    (m : Mem) : Prop :=
  ∃ j k, (loadKernel v n bios s j).label = .ret ∧
    (queryE820 v answers (loadKernel v n bios s j).cpu k).label = .ret ∧
    (queryE820 v answers (loadKernel v n bios s j).cpu k).cpu.mem = m

/-- The bytes of the image with the marks of the 64-bit descriptors, code and data. -/
def BootLayout.marks (l : BootLayout) : Set ℕ := {l.gdt64 + 29, l.gdt64 + 37}

/-- What `kmain` finds of its own: code and data as on the disk, with the descriptors it runs on
marked, and its globals zeroed but for the memory map. -/
structure KernelInPlace (l : BootLayout) (bios : DiskBios) (drive : UInt8)
    (answers : ℕ → E820Answer) (m₀ m : Mem) : Prop where
  image : ∀ b ∉ l.marks, 0x10000 ≤ b → b < l.bssStart → m b = diskImage bios drive b
  marked : ∀ b ∈ l.marks, m b = diskImage bios drive b ||| 1
  zeroed : ∀ b, l.bssStart ≤ b → b < l.bssStop →
    (b < l.memmapCount ∨ l.memmapCount + 4 ≤ b) →
    (b < l.memmapEntries ∨ l.memmapEntries + 24 * (load32 m l.memmapCount).toNat ≤ b) → m b = 0
  map : MapDelivered l.toKernelLayout answers m₀ m

variable {l : BootLayout} {b : BootImage v} {m : Mem}

theorem Bootable.loaded (h : Bootable l n bios b) (hn : 1 ≤ n.toNat) (hmax : n.toNat ≤ 1920)
    {a : ℕ} (hlo : 0x10000 ≤ a) (hhi : a < l.bssStart) :
    (loadKernel v n bios b.cpu (3 * n.toNat)).cpu.mem a =
      diskImage bios (b.cpu.mem v.bootDrive) a := by
  have himage := h.image_le
  have hsector : (a - 0x10000) / 512 < n.toNat := by omega
  rw [(Loading.run b bios hn hmax le_rfl).image a hlo, loadedByte,
    if_pos ⟨hsector, h.reads _ hsector⟩, diskImage]

/-- Memory in front of the switch to protected mode. -/
structure Staged16 (l : BootLayout) (v : BootVars) (bios : DiskBios) (answers : ℕ → E820Answer)
    (m₀ m : Mem) : Prop where
  image : ∀ a, 0x10000 ≤ a → a < l.bssStart → m a = diskImage bios (m₀ v.bootDrive) a
  bootGdt : Holds m l.bootGdt gdtDescriptors
  gdt64 : Holds m l.gdt64 gdt64Descriptors
  map : StagedMap answers m₀ m

theorem Holds.congr {m m' : Mem} {a : ℕ} {words : List UInt64} (h : Holds m a words)
    (hsame : ∀ b, a ≤ b → b < a + 8 * words.length → m' b = m b) : Holds m' a words := by
  intro i hi
  rw [← h i hi]
  exact load64_congr fun b hlo hhi => hsame b (by omega) (by omega)

theorem StagedMap.congr {m₀' : Mem} (h : StagedMap answers m₀ m)
    (hsame : ∀ b, 0x5020 ≤ b → b < 0x5620 → m₀' b = m₀ b) : StagedMap answers m₀' m := by
  have hbuf := e820Buf_toNat
  refine ⟨h.one_le, h.le, h.listed, fun hacc i hi k hk => ?_, h.fallback⟩
  have hle := h.le
  rw [h.slot hacc i hi k hk, slotByte, slotByte, hsame _ (by omega) (by omega)]

theorem Bootable.staged (h : Bootable l n bios b) (hn : 1 ≤ n.toNat) (hmax : n.toNat ≤ 1920)
    (hover : HandedOver v n bios answers b.cpu m) : Staged16 l v bios answers b.cpu.mem m := by
  obtain ⟨j, k, hj, hk, rfl⟩ := hover
  rw [loadKernel_eq_of_ret b bios hn hmax hj] at hk ⊢
  have hbase := v.le_base
  have hstop := v.base_le
  have hboot := l.bootGdt_mem
  have hgdt := l.gdt64_mem
  have hgdt_le := h.bootGdt_le
  have hnext : v.e820Next = v.base + 14 := rfl
  have himage : ∀ a, 0x10000 ≤ a → a < l.bssStart →
      (queryE820 v answers (loadKernel v n bios b.cpu (3 * n.toNat)).cpu k).cpu.mem a =
        diskImage bios (b.cpu.mem v.bootDrive) a := by
    intro a hlo hhi
    rw [queryE820_beyond _ _ (by omega) (by omega), h.loaded hn hmax hlo hhi]
  constructor
  case image => exact himage
  case bootGdt =>
    apply h.bootGdt.congr
    intro a hlo hhi
    have hlength : gdtDescriptors.length = 3 := rfl
    rw [queryE820_beyond _ _ (by omega) (by omega),
      loadKernel_below b bios hn hmax le_rfl (by omega) (by omega)]
  case gdt64 =>
    apply h.gdt64.congr
    intro a hlo hhi
    have hlength : gdt64Descriptors.length = 5 := rfl
    exact himage a (by omega) (by omega)
  case map =>
    apply (queryE820_of_ret _ hk).2.congr
    intro a hlo hhi
    exact (loadKernel_below b bios hn hmax le_rfl (by omega) (by omega)).symm

theorem MapDelivered.congr {layout : KernelLayout} {m' : Mem}
    (h : MapDelivered layout answers m₀ m)
    (hsame : ∀ b, layout.bssStart ≤ b → b < layout.bssStop → m' b = m b) :
    MapDelivered layout answers m₀ m' := by
  have hmem := layout.count_mem
  have hentries := layout.entries_mem
  have hmax : e820Max = 64 := rfl
  have hcount : load32 m' layout.memmapCount = load32 m layout.memmapCount :=
    load32_eq_of_bytes fun k hk => hsame _ (by omega) (by omega)
  refine ⟨h.one_le, ?_, ?_, ?_⟩
  · rw [hcount]
    exact h.count
  · rw [hcount]
    intro hacc i hi k hk
    have hle : ((load32 m layout.memmapCount).toNat : ℕ∞) ≤ 64 := by
      rw [h.count hacc]
      exact min_le_right _ _
    have hle' : (load32 m layout.memmapCount).toNat ≤ 64 := by exact_mod_cast hle
    rw [hsame _ (by omega) (by omega), h.entry hacc i hi k hk]
  · intro hrefused
    obtain ⟨hone, attr, hentry⟩ := h.fallback hrefused
    have hsameEntry : entryAt m' layout.memmapEntries = entryAt m layout.memmapEntries :=
      entryAt_eq_of_bytes fun k hk => hsame _ (by omega) (by omega)
    exact ⟨hcount.trans hone, attr, hsameEntry.trans hentry⟩

theorem BootLayout.mem_marks {l : BootLayout} {b : ℕ} (h : b ∈ l.marks) :
    b = l.gdt64 + 29 ∨ b = l.gdt64 + 37 := h

theorem Staged16.image_stage2 (h : Staged16 l v bios answers m₀ m) {a : ℕ} (hlo : 0x10000 ≤ a)
    (hhi : a < l.bssStart) :
    stage2 l.toKernelLayout m a = diskImage bios (m₀ v.bootDrive) a := by
  have hmem := l.count_mem
  have hentries := l.entries_mem
  have hbss := l.bssStop_le
  rw [stage2, copyMap_of_outside _ _ (by omega) (by omega), repStosb_of_outside (by omega),
    buildPageTables_of_outside _ (by omega), h.image a hlo hhi]

theorem loadedMem_of_image {a : ℕ} (ha : a ∉ l.marks) (hlo : 0x10000 ≤ a) :
    loadedMem l m a = m a := by
  obtain ⟨hboot, _, _⟩ := l.gdts_below
  have hcode : a ≠ l.gdt64 + 29 := fun heq => ha (.inl heq)
  have hdata : a ≠ l.gdt64 + 37 := fun heq => ha (.inr heq)
  rw [loadedMem, setBits_of_ne _ hdata, setBits_of_ne _ hcode, switchedMem,
    setBits_of_ne _ (by omega), setBits_of_ne _ (by omega)]

theorem loadedMem_of_marks {a : ℕ} (ha : a ∈ l.marks) : loadedMem l m a = m a ||| 1 := by
  obtain ⟨hboot, hgdt, _⟩ := l.gdts_below
  have hbefore : switchedMem l m a = m a := by
    rcases l.mem_marks ha with rfl | rfl <;>
      rw [switchedMem, setBits_of_ne _ (by omega), setBits_of_ne _ (by omega)]
  rcases l.mem_marks ha with rfl | rfl
  · rw [loadedMem, setBits_of_ne _ (by omega), setBits, Function.update_self, hbefore]
  · rw [loadedMem, setBits, Function.update_self, setBits_of_ne _ (by omega), hbefore]

theorem Staged16.inPlace (h : Staged16 l v bios answers m₀ m) :
    KernelInPlace l bios (m₀ v.bootDrive) answers m₀
      (loadedMem l (stage2 l.toKernelLayout m)) := by
  have hload := l.load_le
  have hgdt := l.gdt64_mem
  have hmem := l.count_mem
  have hentries := l.entries_mem
  have hmax : e820Max = 64 := rfl
  have hbss := l.bssStop_le
  have hglobal : ∀ a, l.bssStart ≤ a →
      loadedMem l (stage2 l.toKernelLayout m) a = stage2 l.toKernelLayout m a := by
    intro a ha
    refine loadedMem_of_image (fun hmark => ?_) (by omega)
    rcases l.mem_marks hmark with rfl | rfl <;> omega
  constructor
  case image =>
    intro a ha hlo hhi
    rw [loadedMem_of_image ha hlo, h.image_stage2 hlo hhi]
  case marked =>
    intro a ha
    rw [loadedMem_of_marks ha]
    rcases l.mem_marks ha with rfl | rfl <;> rw [h.image_stage2 (by omega) (by omega)]
  case zeroed =>
    intro a hlo hhi hcount hentry
    have hsame : load32 (loadedMem l (stage2 l.toKernelLayout m)) l.memmapCount =
        load32 (stage2 l.toKernelLayout m) l.memmapCount :=
      load32_eq_of_bytes fun k _ => hglobal _ (by omega)
    rw [hsame] at hentry
    rw [hglobal a hlo]
    rw [stage2] at hentry ⊢
    rw [copyMap_count] at hentry
    rw [copyMap_eq, repMovsb_of_outside (by omega), store32_of_outside _ _ hcount,
      repStosb_of_lt hlo (by omega)]
  case map => exact (h.map.delivered _).congr fun a hlo _ => hglobal a hlo

theorem KernelInPlace.congr {drive : UInt8} {m' : Mem}
    (h : KernelInPlace l bios drive answers m₀ m)
    (hsame : ∀ b, 0x10000 ≤ b → b < l.bssStop → m' b = m b) :
    KernelInPlace l bios drive answers m₀ m' := by
  have hload := l.load_le
  have hgdt := l.gdt64_mem
  have hmem := l.count_mem
  have hcount : load32 m' l.memmapCount = load32 m l.memmapCount :=
    load32_eq_of_bytes fun k hk => hsame _ (by omega) (by omega)
  constructor
  case image =>
    intro a ha hlo hhi
    rw [hsame a hlo (by omega), h.image a ha hlo hhi]
  case marked =>
    intro a ha
    have hplace := l.mem_marks ha
    rw [hsame a (by omega) (by omega), h.marked a ha]
  case zeroed =>
    intro a hlo hhi hout hentry
    rw [hcount] at hentry
    rw [hsame a (by omega) hhi, h.zeroed a hlo hhi hout hentry]
  case map => exact h.map.congr fun a hlo hhi => hsame a (by omega) hhi

theorem exists_handedOver (hn : 1 ≤ n.toNat) (hmax : n.toNat ≤ 1920) (v : BootVars)
    (bios : DiskBios) (answers : ℕ → E820Answer) (b : BootImage v) :
    ∃ m, HandedOver v n bios answers b.cpu m := by
  obtain ⟨k, hret, _⟩ := @Staging.returns _ _ _ v _ _
    (@staging_start answers (loadKernel v n bios b.cpu (3 * n.toNat)).cpu) rfl
  exact ⟨_, _, k, loadKernel_label b bios hn hmax, hret, rfl⟩

/-- The boot sector's constants and the two descriptor tables. -/
def smallSector : BootImage sampleVars where
  cpu := ⟨sampleImage.cpu.toRegs,
    store16 (store16 tablesOnly sampleVars.heads 2) sampleVars.spt 18⟩
  spt := by decide
  heads := by decide

def smallBios : DiskBios where
  answer := fun _ => sampleImage.cpu.toRegs
  disk := fun _ cylinder head sector k =>
    tablesOnly (0x10000 + 512 * (36 * cylinder + 18 * head + sector - 2) + k)

theorem smallBios_bootable : Bootable smallLayout 128 smallBios smallSector := by
  constructor
  case reads => exact fun _ _ => rfl
  case image_le => decide
  case bootGdt_le => decide
  case bootGdt => decide
  case gdt64 => decide

/-- Whatever the firmware answers to the queries and whatever else memory and the control registers
held: with a disk whose reads succeed, `load_kernel` and `query_e820` return, and from what they
leave stage 1 and stage 2 reach `kmain` in 64-bit code, which finds the image of the disk below its
globals, but for the marks of two descriptors, the memory map in them and zero everywhere else. -/
theorem boot_delivers_kernel (l : BootLayout) (n : KernelSectors) (bios : DiskBios)
    (answers : ℕ → E820Answer) (b : BootImage v) (cpu : Cpuid) (ret : UInt64) (c : Control)
    (hboot : Bootable l n.val bios b) (hcpu : cpu.hasLongMode = true) (hpe : c.pe = false)
    (hpg : c.pg = false) (hbig : c.cs.big = false) :
    (∃ m, HandedOver v n.val bios answers b.cpu m) ∧
    ∀ m, HandedOver v n.val bios answers b.cpu m →
      ∃ s rsp, bootKernel l cpu ret ⟨c, m⟩ = .ok (.kmain s rsp) ∧ AtKmain l ret c m s rsp ∧
        KernelInPlace l bios (b.cpu.mem v.bootDrive) answers b.cpu.mem s.mem := by
  have hmax : n.val.toNat ≤ 1920 := Nat.le_trans n.le (by omega)
  refine ⟨exists_handedOver n.one_le hmax v bios answers b, fun m hover => ?_⟩
  have hstaged := hboot.staged n.one_le hmax hover
  obtain ⟨s, rsp, hrun, hat⟩ :=
    bootKernel_kmain hcpu ret hpe hpg hbig hstaged.bootGdt hstaged.gdt64
  have hbss := l.bssStop_le
  have hrsp := hat.stack.1
  refine ⟨s, rsp, hrun, hat, hstaged.inPlace.congr fun a _ hhi => ?_⟩
  exact hat.mem a (notMem_stage2Tables (by omega)) (by omega)

theorem boot_delivers_kernel_smallBios :
    (∃ m, HandedOver sampleVars 128 smallBios (fun _ => endlessAnswer) smallSector.cpu m) ∧
    ∀ m, HandedOver sampleVars 128 smallBios (fun _ => endlessAnswer) smallSector.cpu m →
      ∃ s rsp, bootKernel smallLayout ⟨0x80000008, 0x20100800⟩ 0x10200 ⟨firmwareControl, m⟩ =
          .ok (.kmain s rsp) ∧
        AtKmain smallLayout 0x10200 firmwareControl m s rsp ∧
        KernelInPlace smallLayout smallBios 0 (fun _ => endlessAnswer)
          smallSector.cpu.mem s.mem :=
  boot_delivers_kernel smallLayout ⟨128, by decide, by decide⟩ smallBios (fun _ => endlessAnswer)
    smallSector ⟨0x80000008, 0x20100800⟩ 0x10200 firmwareControl smallBios_bootable (by decide)
    (by decide) (by decide) (by decide)

end Nadir
