import Nadir.Boot.PageTables
import Nadir.Lib.Modes

/-!
# From real mode to `kmain`

Stage 1 switches to protected mode and jumps to stage 2, which builds the page tables, switches to
long mode, zeroes the kernel's globals, copies the memory map and calls `kmain`. No step of it
faults, whatever the control registers held, and what the accesses through the page tables leave in
memory is what `stage2` says, but for the marks of the processor: in the entries of the page tables
and in the four descriptors that are loaded.
-/

namespace Nadir

open ByteMem Modes Paging

/-- Where the assembled code and its descriptor tables lie. `paged` is the code behind the write
that turns paging on. -/
structure BootLayout extends KernelLayout where
  bootGdt : ℕ
  gdt64 : ℕ
  paged : ℕ
  longEntry : ℕ
  bootGdt_mem : 0x7C00 ≤ bootGdt ∧ bootGdt + 24 ≤ 0x7E00
  gdt64_mem : 0x10000 ≤ gdt64 ∧ gdt64 + 40 ≤ bssStart
  paged_mem : 0x10000 ≤ paged ∧ paged < bssStart
  longEntry_mem : 0x10000 ≤ longEntry ∧ longEntry < bssStart
  bssStop_le : bssStop ≤ 0x70000

def gdtDescriptors : List UInt64 := [0x0000000000000000, 0x00CF9A000000FFFF, 0x00CF92000000FFFF]

def gdt64Descriptors : List UInt64 :=
  [0x0000000000000000, 0x00CF9A000000FFFF, 0x00CF92000000FFFF, 0x00209A0000000000,
    0x0000920000000000]

/-- The words of a list one behind another in memory. -/
def Holds (m : Mem) (a : ℕ) (words : List UInt64) : Prop :=
  ∀ i (h : i < words.length), load64 m (a + 8 * i) = words[i]

instance (m : Mem) (a : ℕ) (words : List UInt64) : Decidable (Holds m a words) :=
  inferInstanceAs (Decidable (∀ i (h : i < words.length), load64 m (a + 8 * i) = words[i]))

/-- The answers of `cpuid`: `eax` for the leaf 0x80000000 and `edx` for the leaf 0x80000001. -/
structure Cpuid where
  maxExtended : UInt32
  features : UInt32

def Cpuid.hasLongMode (cpu : Cpuid) : Bool :=
  if cpu.maxExtended < 0x80000001 then false else cpu.features &&& (1 : UInt32) <<< 29 != 0

def errNolm : List UInt8 := "ERR: CPU has no 64-bit long mode".toList.map fun c => c.toUInt8

def stack64Top : ℕ := 0x90000

/-- The end of `start`: protected mode with flat segments. The code of stage 1 is below 0x7E00. -/
def enterProtected (l : BootLayout) (s : State) : Except Fault State := do
  let s ← s.bits 16 0x7C00
  let s := s.cli
  let s := s.lgdt l.bootGdt 23
  let s ← s.movCr0 (s.ctl.cr0 ||| 1)
  let s ← s.bits 16 0x7C00
  let s ← s.farJmp 0x08
  let s ← s.bits 32 0x7C00
  s.movSegments 0x10

/-- `.print`: each character with its attribute, white on red. -/
def printNolm : List UInt8 → ℕ → State → Except Fault State
  | [], _, s => pure s
  | c :: text, edi, s => do
    let s ← s.storeLE edi (c.toNat + 256 * 0x4F) 2
    printNolm text (edi + 2) s

/-- `boot32_entry` from the page tables to the far jump. -/
def enterLongMode (l : BootLayout) (s : State) : Except Fault State := do
  let s := s.movCr3 0x70000
  let s ← s.movCr4 (s.ctl.cr4 ||| (1 : UInt32) <<< 5)
  let s ← s.wrmsrEfer (s.ctl.efer ||| (1 : UInt64) <<< 8)
  let s ← s.movCr0 (s.ctl.cr0 ||| (1 : UInt32) <<< 31)
  let s ← s.bits 32 l.paged
  let s := s.lgdt l.gdt64 39
  let s ← s.farJmp 0x18
  s.bits 64 l.longEntry

/-- `long_entry` to the call of `kmain`, which pushes the return address. -/
def longEntry (l : BootLayout) (ret : UInt64) (s : State) : Except Fault State := do
  let s ← s.movSegments 0x20
  let s ← s.repStosb 0 (l.bssStop - l.bssStart) l.bssStart
  let (count, s) ← s.loadByte e820CountAddr
  let count := if count.toNat ≤ e820Max then count.toNat else e820Max
  let s ← s.storeLE l.memmapCount count 4
  let s ← if count = 0 then pure s else s.repMovsb (count * 24) e820Buf.toNat l.memmapEntries
  s.storeLE (stack64Top - 8) ret.toNat 8

/-- Where the boot ends: in `kmain`, with the stack pointer, or in front of the screen. -/
inductive BootEnd where
  | kmain (s : State) (rsp : ℕ)
  | halted (s : State)

def bootKernel (l : BootLayout) (cpu : Cpuid) (ret : UInt64) (s : State) :
    Except Fault BootEnd := do
  let s ← enterProtected l s
  let s ← s.bits 32 0x10000
  if cpu.hasLongMode then
    -- The tables are built without paging.
    let s ← enterLongMode l { s with mem := buildPageTables s.mem }
    let s ← longEntry l ret s
    pure (.kmain s (stack64Top - 8))
  else
    let s ← printNolm errNolm 0xB8000 s
    pure (.halted s.cli)

/-! The bits that the writes set, and those they keep. -/

theorem testBit_or32 (v w : UInt32) (i : ℕ) :
    (v ||| w).toNat.testBit i = (v.toNat.testBit i || w.toNat.testBit i) := by
  rw [UInt32.toNat_or, Nat.testBit_or]

theorem testBit_or64 (v w : UInt64) (i : ℕ) :
    (v ||| w).toNat.testBit i = (v.toNat.testBit i || w.toNat.testBit i) := by
  rw [UInt64.toNat_or, Nat.testBit_or]

variable {l : BootLayout} {c : Control} {m : Mem}

def flatCode : Segment := ⟨0x08, 0x00CF9B000000FFFF⟩
def flatData : Segment := ⟨0x10, 0x00CF93000000FFFF⟩
def longCode : Segment := ⟨0x18, 0x00209B0000000000⟩
def longData : Segment := ⟨0x20, 0x0000930000000000⟩

theorem flatCode_big : flatCode.big = true := by decide

theorem flatCode_long : flatCode.long = false := by decide

theorem longCode_long : longCode.long = true := by decide

def switchedControl (l : BootLayout) (c : Control) : Control :=
  { c with cr0 := c.cr0 ||| 1, gdtBase := l.bootGdt, gdtLimit := 23, interrupts := false }

def protectedControl (l : BootLayout) (c : Control) : Control :=
  ((switchedControl l c).withCode flatCode).withData flatData

theorem switchedControl_pe : (switchedControl l c).pe = true := by
  rw [Control.pe, switchedControl, testBit_or32]
  exact Bool.or_true _

theorem switchedControl_pg : (switchedControl l c).pg = c.pg := by
  rw [Control.pg, switchedControl, testBit_or32]
  exact Bool.or_false _

theorem bits_of_codeSize (hpg : c.pg = false) {n : ℕ} (hsize : c.codeSize = n) (a : ℕ) :
    State.bits n a ⟨c, m⟩ = .ok ⟨c, m⟩ := by
  obtain ⟨m', hrun, hm'⟩ := (Identity.physical hpg (a + 1)).bits (.self (m := m) trivial)
    (Nat.lt_succ_self a) hsize
  rw [hrun, hm'.eq_of_empty]

theorem switchedControl_longActive (hpg : c.pg = false) :
    (switchedControl l c).longActive = false := by
  rw [Control.longActive, switchedControl_pg, hpg]
  rfl

/-- Between the write that turns protection on and the far jump the code is still 16-bit. -/
theorem switchedControl_codeSize (hpg : c.pg = false) (hbig : c.cs.big = false) :
    (switchedControl l c).codeSize = 16 := by
  have hcs : (switchedControl l c).cs.big = false := hbig
  rw [Control.codeSize_of_flat switchedControl_pe, hcs]
  · rfl
  · rw [switchedControl_longActive hpg]
    rfl

theorem flatControl_codeSize (hpg : c.pg = false) :
    ((switchedControl l c).withCode flatCode).codeSize = 32 := by
  rw [Control.codeSize_of_flat]
  · exact if_pos flatCode_big
  · rw [Control.pe_withCode, switchedControl_pe]
  · rw [Control.longActive_withCode, switchedControl_longActive hpg]
    rfl

theorem movCr0_switchedControl (hpg : c.pg = false) :
    State.movCr0 (c.cr0 ||| 1)
      ⟨{ c with gdtBase := l.bootGdt, gdtLimit := 23, interrupts := false }, m⟩ =
        .ok ⟨switchedControl l c, m⟩ := by
  apply State.movCr0_eq (switchedControl_pe (l := l))
  intro hpaging
  have hon : c.pg = true := (switchedControl_pg (l := l)).symm.trans hpaging
  rw [hpg] at hon
  cases hon

def switchedMem (l : BootLayout) (m : Mem) : Mem :=
  setBits (setBits m (l.bootGdt + 13) 1) (l.bootGdt + 21) 1

/-- Memory with the descriptors marked that the two stages load. -/
def loadedMem (l : BootLayout) (m : Mem) : Mem :=
  setBits (setBits (switchedMem l m) (l.gdt64 + 29) 1) (l.gdt64 + 37) 1

theorem farJmp_flatCode (hpg : c.pg = false) (hgdt : Holds m l.bootGdt gdtDescriptors) :
    State.farJmp 0x08 ⟨switchedControl l c, m⟩ =
      .ok ⟨(switchedControl l c).withCode flatCode, setBits m (l.bootGdt + 13) 1⟩ := by
  have hident := Identity.physical ((switchedControl_pg (l := l)).trans hpg) (l.bootGdt + 16)
  have hi : (0x08 : UInt16).toNat = 8 * 1 := rfl
  have hword : load64 m (l.bootGdt + 8 * 1) = 0x00CF9A000000FFFF := hgdt 1 (by decide)
  have hseg : (⟨0x08, load64 m (l.bootGdt + 8 * 1)⟩ : Segment) = ⟨0x08, 0x00CF9A000000FFFF⟩ := by
    rw [hword]
  obtain ⟨m', hrun, hm'⟩ := hident.farJmp (.self trivial) hi le_rfl
    (fun _ _ _ => Set.notMem_empty _) Nat.one_pos (Nat.le_add_right 15 8) hseg (by decide)
    (by decide) (by decide)
  rw [hrun, hm'.eq_of_empty]
  rfl

theorem movSegments_flatData (hpg : c.pg = false)
    (hword : load64 m (l.bootGdt + 8 * 2) = 0x00CF92000000FFFF) :
    State.movSegments 0x10 ⟨(switchedControl l c).withCode flatCode, m⟩ =
      .ok ⟨protectedControl l c, setBits m (l.bootGdt + 21) 1⟩ := by
  have hpg' : ((switchedControl l c).withCode flatCode).pg = false := by
    rw [Control.pg_withCode, switchedControl_pg, hpg]
  have hi : (0x10 : UInt16).toNat = 8 * 2 := rfl
  have hseg : (⟨0x10, load64 m (l.bootGdt + 8 * 2)⟩ : Segment) = ⟨0x10, 0x00CF92000000FFFF⟩ := by
    rw [hword]
  obtain ⟨m', hrun, hm'⟩ := (Identity.physical hpg' (l.bootGdt + 24)).movSegments (.self trivial)
    hi le_rfl (fun _ _ _ => Set.notMem_empty _) Nat.two_pos (le_refl 23) hseg (by decide)
    (by decide)
  rw [hrun, hm'.eq_of_empty]
  rfl

theorem enterProtected_eq (hpe : c.pe = false) (hpg : c.pg = false) (hbig : c.cs.big = false)
    (hgdt : Holds m l.bootGdt gdtDescriptors) :
    enterProtected l ⟨c, m⟩ = .ok ⟨protectedControl l c, switchedMem l m⟩ := by
  have hpg' : (switchedControl l c).pg = false := switchedControl_pg.trans hpg
  have hflat : ((switchedControl l c).withCode flatCode).pg = false := hpg'
  have hreal := bits_of_codeSize (m := m) hpg (Control.codeSize_of_real hpe) 0x7C00
  have hstill := bits_of_codeSize (m := m) hpg' (switchedControl_codeSize hpg hbig) 0x7C00
  have hcode := bits_of_codeSize (m := setBits m (l.bootGdt + 13) 1) hflat
    (flatControl_codeSize hpg) 0x7C00
  have hword : load64 m (l.bootGdt + 8 * 2) = 0x00CF92000000FFFF := hgdt 2 (by decide)
  have hdata : load64 (setBits m (l.bootGdt + 13) 1) (l.bootGdt + 8 * 2) = 0x00CF92000000FFFF :=
    (load64_congr fun b hlo _ => setBits_of_ne _ (by omega)).trans hword
  rw [enterProtected, hreal]
  simp only [bind, Except.bind, State.cli, State.lgdt, movCr0_switchedControl hpg, hstill,
    farJmp_flatCode hpg hgdt, hcode]
  exact movSegments_flatData hpg hdata

def wideControl (c : Control) : Control :=
  { c with
    cr3 := 0x70000
    cr4 := c.cr4 ||| (1 : UInt32) <<< 5
    efer := c.efer ||| (1 : UInt64) <<< 8 }

def pagedControl (c : Control) : Control :=
  { wideControl c with cr0 := c.cr0 ||| (1 : UInt32) <<< 31 }

def loadedControl (l : BootLayout) (c : Control) : Control :=
  { pagedControl c with gdtBase := l.gdt64, gdtLimit := 39 }

def longControl (l : BootLayout) (c : Control) : Control := (loadedControl l c).withCode longCode

theorem pagedControl_pe (hpe : c.pe = true) : (pagedControl c).pe = true := by
  rw [Control.pe, pagedControl, testBit_or32]
  exact Bool.or_eq_true_iff.mpr (.inl hpe)

theorem pagedControl_pg : (pagedControl c).pg = true := by
  rw [Control.pg, pagedControl, testBit_or32]
  exact Bool.or_true _

theorem pagedControl_lme : (pagedControl c).lme = true := by
  rw [Control.lme, pagedControl, wideControl, testBit_or64]
  exact Bool.or_true _

theorem wideControl_pae : (wideControl c).pae = true := by
  rw [Control.pae, wideControl, testBit_or32]
  exact Bool.or_true _

theorem pagedControl_longActive : (pagedControl c).longActive = true := by
  rw [Control.longActive, pagedControl_pg, pagedControl_lme]
  rfl

theorem longControl_pe (hpe : c.pe = true) : (longControl l c).pe = true := by
  rw [longControl, Control.pe_withCode]
  exact pagedControl_pe hpe

theorem longControl_longActive : (longControl l c).longActive = true := by
  rw [longControl, Control.longActive_withCode]
  exact pagedControl_longActive

theorem longControl_pg : (longControl l c).pg = true := by
  rw [longControl, Control.pg_withCode]
  exact pagedControl_pg

theorem longControl_codeSize (hpe : c.pe = true) : (longControl l c).codeSize = 64 :=
  Control.codeSize_of_long (longControl_pe hpe) longControl_longActive longCode_long

/-- The addresses of the tables the walk reads. -/
def stage2Tables : Set ℕ := {a | 0x70000 ≤ a ∧ a < 0x73000}

theorem notMem_stage2Tables {b : ℕ} (hb : b < 0x70000 ∨ 0x73000 ≤ b) : b ∉ stage2Tables := by
  rintro ⟨hlo, hhi⟩
  omega

theorem lt_or_le_of_notMem {b : ℕ} (hb : b ∉ stage2Tables) : b < 0x70000 ∨ 0x73000 ≤ b := by
  by_contra hin
  exact hb ⟨by omega, by omega⟩

theorem identity_paged (hpg : c.pg = true) (hcr3 : c.cr3 = 0x70000) (m₀ : Mem) :
    Identity c (TablesOf m₀) stage2Tables 0x40000000 := by
  have hroot : c.cr3.toUInt64 = pml4 := by
    rw [hcr3]
    rfl
  constructor
  case translate =>
    intro m hm a ha
    have hnat : (UInt64.ofNat a).toNat = a := by
      rw [UInt64.toNat_ofNat']
      omega
    rw [State.translate]
    dsimp only
    rw [hpg, if_neg Bool.noConfusion, hroot, hm.walk_low (by omega), hnat]
  case marks =>
    intro m hm a _ write
    obtain ⟨htables, hsame⟩ := hm.pageMark write (UInt64.ofNat a)
    rw [Control.marks, hpg, if_pos rfl, hroot]
    exact ⟨htables, fun b hb => hsame b (lt_or_le_of_notMem hb)⟩
  case update =>
    intro m hm a ha v
    have haway := lt_or_le_of_notMem ha
    exact hm.congr fun b _ _ => unmarked_congr (Function.update_of_ne (by omega) _ _)

/-- To stage 2 and the kernel, which leave the tables alone, the memory `m` is `seen`. -/
abbrev BacksPaged (m₀ seen m : Mem) : Prop := Backs (TablesOf m₀) stage2Tables seen m

theorem movCr0_wideControl (hpe : c.pe = true) (hcs : c.cs = flatCode) :
    State.movCr0 (c.cr0 ||| (1 : UInt32) <<< 31) ⟨wideControl c, m⟩ =
      .ok ⟨pagedControl c, m⟩ := by
  have hlong : (wideControl c).cs.long = false := by
    rw [show (wideControl c).cs = flatCode from hcs]
    exact flatCode_long
  have hprotected : (c.cr0 ||| (1 : UInt32) <<< 31).toNat.testBit 0 = true := by
    rw [testBit_or32]
    exact Bool.or_eq_true_iff.mpr (.inl hpe)
  rw [@State.movCr0_eq _ ⟨wideControl c, m⟩ hprotected (fun _ _ _ => ⟨wideControl_pae, hlong⟩)]
  rfl

/-- Up to the far jump the code is 32-bit, now in compatibility mode. -/
theorem pagedControl_codeSize (hpe : c.pe = true) (hcs : c.cs = flatCode) :
    (pagedControl c).codeSize = 32 := by
  have hflat : (pagedControl c).cs = flatCode := hcs
  rw [Control.codeSize_of_flat (pagedControl_pe hpe), hflat, flatCode_big]
  · rfl
  · rw [hflat, flatCode_long, Bool.and_false]

variable {m₀ seen : Mem}

/-- Both tables of descriptors lie below the page tables, apart from each other. -/
theorem BootLayout.gdts_below (l : BootLayout) :
    l.bootGdt + 24 ≤ 0x10000 ∧ 0x10000 ≤ l.gdt64 ∧ l.gdt64 + 40 ≤ 0x70000 := by
  have hboot := l.bootGdt_mem
  have hgdt := l.gdt64_mem
  have hbss := l.bssStop_le
  have hcount := l.count_mem
  omega

theorem BootLayout.gdt64_away (l : BootLayout) {b : ℕ} (hhi : b < l.gdt64 + 40) :
    b ∉ stage2Tables := by
  obtain ⟨_, _, hgdt⟩ := l.gdts_below
  exact notMem_stage2Tables (by omega)

theorem BootLayout.gdt64_le (l : BootLayout) : l.gdt64 + 40 ≤ 0x40000000 :=
  Nat.le_trans l.gdts_below.2.2 (by decide)

theorem farJmp_longCode (hm : BacksPaged m₀ seen m)
    (hword : load64 seen (l.gdt64 + 8 * 3) = 0x00209A0000000000) :
    ∃ m', State.farJmp 0x18 ⟨loadedControl l c, m⟩ = .ok ⟨longControl l c, m'⟩ ∧
      BacksPaged m₀ (setBits seen (l.gdt64 + 29) 1) m' := by
  have hle := l.gdt64_le
  have hident : Identity (loadedControl l c) (TablesOf m₀) stage2Tables 0x40000000 :=
    @identity_paged (loadedControl l c) pagedControl_pg rfl m₀
  have hi : (0x18 : UInt16).toNat = 8 * 3 := rfl
  have hseg : (⟨0x18, load64 seen (l.gdt64 + 8 * 3)⟩ : Segment) = ⟨0x18, 0x00209A0000000000⟩ := by
    rw [hword]
  exact hident.farJmp hm hi (Nat.le_trans (Nat.le_add_right _ 8) hle)
    (fun b _ hhi => l.gdt64_away (Nat.lt_of_lt_of_le hhi (Nat.le_add_right _ 8))) (Nat.succ_pos 2)
    (Nat.le_add_right 31 8) hseg (by decide) (by decide) (by decide)

theorem enterLongMode_eq (hpe : c.pe = true) (hpg : c.pg = false) (hcs : c.cs = flatCode)
    (hm : BacksPaged m₀ seen m)
    (hword : load64 seen (l.gdt64 + 8 * 3) = 0x00209A0000000000) :
    ∃ m', enterLongMode l ⟨c, m⟩ = .ok ⟨longControl l c, m'⟩ ∧
      BacksPaged m₀ (setBits seen (l.gdt64 + 29) 1) m' := by
  have hpaged := l.paged_mem
  have hentry := l.longEntry_mem
  have hbss := l.bssStop_le
  have hcount := l.count_mem
  obtain ⟨m₁, hsame, hm₁⟩ : ∃ m', State.bits 32 l.paged ⟨pagedControl c, m⟩ =
      .ok ⟨pagedControl c, m'⟩ ∧ BacksPaged m₀ seen m' :=
    (identity_paged pagedControl_pg rfl m₀).bits hm (by omega) (pagedControl_codeSize hpe hcs)
  obtain ⟨m₂, hjump, hm₂⟩ := @farJmp_longCode l c m₁ m₀ seen hm₁ hword
  obtain ⟨m₃, hlast, hm₃⟩ := (identity_paged (c := longControl l c) longControl_pg rfl m₀).bits hm₂
    (show l.longEntry < 0x40000000 by omega) (longControl_codeSize hpe)
  have hcr4 := @State.movCr4_of_unpaged ⟨{ c with cr3 := 0x70000 }, m⟩ hpg
  have hefer := @State.wrmsrEfer_of_unpaged ⟨{ c with
    cr3 := 0x70000, cr4 := c.cr4 ||| (1 : UInt32) <<< 5 }, m⟩ hpg
  have hpaging := @movCr0_wideControl _ m hpe hcs
  rw [wideControl] at hpaging
  rw [loadedControl] at hjump
  refine ⟨m₃, ?_, hm₃⟩
  rw [enterLongMode]
  simp only [bind, Except.bind, State.movCr3, hcr4, hefer, hpaging, hsame, State.lgdt, hjump]
  exact hlast

theorem movSegments_longData (hpg : c.pg = true) (hcr3 : c.cr3 = 0x70000)
    (hbase : c.gdtBase = l.gdt64) (hlimit : c.gdtLimit = 39) (hm : BacksPaged m₀ seen m)
    (hword : load64 seen (l.gdt64 + 8 * 4) = 0x0000920000000000) :
    ∃ m', State.movSegments 0x20 ⟨c, m⟩ = .ok ⟨c.withData longData, m'⟩ ∧
      BacksPaged m₀ (setBits seen (l.gdt64 + 37) 1) m' := by
  have hle := l.gdt64_le
  have hi : (0x20 : UInt16).toNat = 8 * 4 := rfl
  have hseg : (⟨0x20, load64 seen (c.gdtBase + 8 * 4)⟩ : Segment) = ⟨0x20, 0x0000920000000000⟩ := by
    rw [hbase, hword]
  rw [← hbase] at hle ⊢
  exact (identity_paged hpg hcr3 m₀).movSegments hm hi hle
    (fun b _ hhi => l.gdt64_away (hbase ▸ hhi)) (Nat.succ_pos 3) hlimit.ge hseg (by decide)
    (by decide)

theorem storeLE_word (m : Mem) (a : ℕ) {n : ℕ} (hn : n < 2 ^ 32) :
    ByteMem.storeLE m a n 4 = store32 m a (UInt32.ofNat n) := by
  rw [store32, UInt32.toNat_ofNat', Nat.mod_eq_of_lt hn]

/-- Through the tables `long_entry` does to memory what `stage2` says. -/
theorem longEntry_eq (ret : UInt64) (hpg : c.pg = true) (hcr3 : c.cr3 = 0x70000)
    (hbase : c.gdtBase = l.gdt64) (hlimit : c.gdtLimit = 39) (hm : BacksPaged m₀ seen m)
    (hword : load64 seen (l.gdt64 + 8 * 4) = 0x0000920000000000) :
    ∃ m', longEntry l ret ⟨c, m⟩ = .ok ⟨c.withData longData, m'⟩ ∧
      BacksPaged m₀ (ByteMem.storeLE (copyMap l.toKernelLayout (X86.repStosb 0
        (l.bssStop - l.bssStart) l.bssStart (setBits seen (l.gdt64 + 37) 1)))
        (stack64Top - 8) ret.toNat 8) m' := by
  have hload := l.load_le
  have hbss := l.bssStop_le
  have hcount := l.count_mem
  have hentries := l.entries_mem
  have hbuf := e820Buf_toNat
  have hmax : e820Max = 64 := rfl
  have hstart : e820CountAddr = 0x5000 := rfl
  have htop : stack64Top = 0x90000 := rfl
  have hident : Identity (c.withData longData) (TablesOf m₀) stage2Tables 0x40000000 :=
    @identity_paged (c.withData longData) hpg hcr3 m₀
  obtain ⟨m₁, hdata, hm₁⟩ := movSegments_longData hpg hcr3 hbase hlimit hm hword
  obtain ⟨m₂, hzero, hm₂⟩ := hident.repStosb hm₁ 0
    (show l.bssStart + (l.bssStop - l.bssStart) ≤ 0x40000000 by omega)
    (fun b _ _ => notMem_stage2Tables (by omega))
  generalize X86.repStosb 0 (l.bssStop - l.bssStart) l.bssStart (setBits seen (l.gdt64 + 37) 1) =
    zeroed at hm₂ ⊢
  obtain ⟨m₃, hbyte, hm₃⟩ := hident.loadByte hm₂ (show e820CountAddr < 0x40000000 by omega)
    (notMem_stage2Tables (by omega))
  have hclamp : (if (zeroed e820CountAddr).toNat ≤ e820Max then (zeroed e820CountAddr).toNat
      else e820Max) = clampedCount zeroed := by
    rw [clampedCount, Nat.min_def]
  have hle := clampedCount_le zeroed
  obtain ⟨m₄, hstore, hm₄⟩ := hident.storeLE hm₃ (clampedCount zeroed) (a := l.memmapCount)
    (n := 4) (by omega) (fun b _ _ => notMem_stage2Tables (by omega))
  rw [storeLE_word zeroed l.memmapCount (by omega)] at hm₄
  obtain ⟨m₅, hcopy, hm₅⟩ := hident.repMovsb hm₄
    (show e820Buf.toNat + clampedCount zeroed * 24 ≤ 0x40000000 by omega)
    (show l.memmapEntries + clampedCount zeroed * 24 ≤ 0x40000000 by omega)
    (fun b _ _ => notMem_stage2Tables (by omega)) (fun b _ _ => notMem_stage2Tables (by omega))
  rw [← copyMap_eq] at hm₅
  obtain ⟨m₆, hcopied, hm₆⟩ : ∃ m', (if clampedCount zeroed = 0 then pure ⟨c.withData longData, m₄⟩
      else State.repMovsb (clampedCount zeroed * 24) e820Buf.toNat l.memmapEntries
        ⟨c.withData longData, m₄⟩) = .ok ⟨c.withData longData, m'⟩ ∧
      BacksPaged m₀ (copyMap l.toKernelLayout zeroed) m' := by
    split_ifs with hnone
    · refine ⟨m₄, rfl, ?_⟩
      rw [copyMap_eq, hnone]
      rw [hnone] at hm₄
      exact hm₄
    · exact ⟨m₅, hcopy, hm₅⟩
  obtain ⟨m₇, hpush, hm₇⟩ := hident.storeLE hm₆ ret.toNat (a := stack64Top - 8) (n := 8)
    (by omega) (fun b _ _ => notMem_stage2Tables (by omega))
  refine ⟨m₇, ?_, hm₇⟩
  rw [longEntry, hdata]
  simp only [bind, Except.bind, hzero, hbyte, hclamp, hstore]
  split_ifs at hcopied ⊢
  · rw [hcopied]
    exact hpush
  · rw [hcopied]
    exact hpush

theorem storeLE_cell (m : Mem) (edi : ℕ) (char : UInt8) :
    ByteMem.storeLE m edi (char.toNat + 256 * 0x4F) 2 edi = char ∧
      ByteMem.storeLE m edi (char.toNat + 256 * 0x4F) 2 (edi + 1) = 0x4F := by
  have hlt := char.toNat_lt
  have hhigh : (char.toNat + 256 * 0x4F) / 256 = 0x4F := by omega
  constructor
  · rw [ByteMem.storeLE, Function.update_self, ← UInt8.toNat_inj, UInt8.toNat_ofNat']
    omega
  · rw [ByteMem.storeLE, Function.update_of_ne (by omega), ByteMem.storeLE, Function.update_self,
      hhigh]
    rfl

theorem printNolm_eq (hpg : c.pg = false) (text : List UInt8) (edi : ℕ) (m : Mem) :
    ∃ m', printNolm text edi ⟨c, m⟩ = .ok ⟨c, m'⟩ ∧
      (∀ k (hk : k < text.length), m' (edi + 2 * k) = text[k] ∧ m' (edi + 2 * k + 1) = 0x4F) ∧
      ∀ b, b < edi ∨ edi + 2 * text.length ≤ b → m' b = m b := by
  induction text generalizing edi m with
  | nil => exact ⟨m, rfl, fun k hk => absurd hk (Nat.not_lt_zero k), fun _ _ => rfl⟩
  | cons char text ih =>
    obtain ⟨m', hrest, hcells, hframe⟩ := ih (edi + 2)
      (ByteMem.storeLE m edi (char.toNat + 256 * 0x4F) 2)
    obtain ⟨m₁, hstore, hm₁⟩ := (Identity.physical hpg (edi + 2)).storeLE (.self (m := m) trivial)
      (char.toNat + 256 * 0x4F) le_rfl (fun _ _ _ => Set.notMem_empty _)
    rw [hm₁.eq_of_empty] at hstore
    refine ⟨m', ?_, fun k hk => ?_, fun b hb => ?_⟩
    · rw [printNolm, hstore]
      exact hrest
    · cases k with
      | zero =>
        rw [hframe _ (.inl (by omega)), hframe _ (.inl (by omega))]
        exact storeLE_cell m edi char
      | succ k =>
        have hplace : edi + 2 * (k + 1) = edi + 2 + 2 * k := by omega
        rw [hplace]
        exact hcells k (Nat.lt_of_succ_lt_succ hk)
    · rw [List.length_cons] at hb
      rw [hframe b (by omega), storeLE_of_outside _ _ (by omega)]

/-- What `kmain` finds when it is called: 64-bit code with interrupts off, the control registers as
they were but for the bits set on the way, the first 1 GB mapped to itself, the stack as the calling
convention wants it, and below the return address the memory that `stage2` describes, with the
descriptors that were loaded marked and the tables as they were built but for marks. -/
structure AtKmain (l : BootLayout) (ret : UInt64) (c : Control) (m : Mem) (s : State) (rsp : ℕ) :
    Prop where
  codeSize : s.ctl.codeSize = 64
  cr0 : s.ctl.cr0 = c.cr0 ||| 0x80000001
  cr4 : s.ctl.cr4 = c.cr4 ||| 0x20
  efer : s.ctl.efer = c.efer ||| 0x100
  code : s.ctl.cs = longCode
  data : s.ctl.ss = longData ∧ s.ctl.ds = longData ∧ s.ctl.es = longData
  interrupts : s.ctl.interrupts = false
  identity : ∀ a < 0x40000000, s.translate a = .ok (a, true)
  stack : rsp = 0x8FFF8 ∧ (rsp + 8) % 16 = 0
  pushed : load64 s.mem rsp = ret
  mem : ∀ b ∉ stage2Tables, (b < rsp ∨ rsp + 8 ≤ b) →
    s.mem b = loadedMem l (stage2 l.toKernelLayout m) b
  tables : ∀ b ∈ stage2Tables, unmarked s.mem b = unmarked (stage2 l.toKernelLayout m) b

/-- What is left to see on a processor without long mode: the message, in protected mode. -/
structure Refused (l : BootLayout) (c : Control) (m : Mem) (s : State) : Prop where
  cr0 : s.ctl.cr0 = c.cr0 ||| 1
  kept : s.ctl.cr3 = c.cr3 ∧ s.ctl.cr4 = c.cr4 ∧ s.ctl.efer = c.efer
  interrupts : s.ctl.interrupts = false
  message : ∀ k (hk : k < errNolm.length),
    s.mem (0xB8000 + 2 * k) = errNolm[k] ∧ s.mem (0xB8000 + 2 * k + 1) = 0x4F
  mem : ∀ b, b < 0xB8000 ∨ 0xB8000 + 2 * errNolm.length ≤ b → s.mem b = switchedMem l m b

theorem protectedControl_pe : (protectedControl l c).pe = true := by
  rw [protectedControl, Control.pe_withData, Control.pe_withCode]
  exact switchedControl_pe

theorem protectedControl_pg : (protectedControl l c).pg = c.pg := by
  rw [protectedControl, Control.pg_withData, Control.pg_withCode]
  exact switchedControl_pg

/-- The descriptors loaded later on may as well be marked in front of stage 2, and those marked in
front of it may as well be marked behind it. -/
theorem stage2_loadedMem (l : BootLayout) (m : Mem) :
    stage2 l.toKernelLayout (loadedMem l m) = loadedMem l (stage2 l.toKernelLayout m) := by
  have hboot := l.bootGdt_mem
  have hgdt := l.gdt64_mem
  have hload := l.load_le
  have hbss := l.bssStop_le
  have hcount := l.count_mem
  rw [loadedMem, switchedMem, loadedMem, switchedMem]
  simp (disch := omega) only [stage2_setBits]

theorem buildPageTables_loadedMem (l : BootLayout) (m : Mem) :
    buildPageTables (loadedMem l m) =
      setBits (setBits (buildPageTables (switchedMem l m)) (l.gdt64 + 29) 1) (l.gdt64 + 37) 1 := by
  obtain ⟨_, _, hgdt⟩ := l.gdts_below
  rw [loadedMem, buildPageTables_setBits _ _ (by omega), buildPageTables_setBits _ _ (by omega)]

theorem loadedMem_of_tables (l : BootLayout) (m : Mem) {b : ℕ} (hb : b ∈ stage2Tables) :
    loadedMem l m b = m b := by
  obtain ⟨hlo, _⟩ := hb
  obtain ⟨hboot, _, hgdt⟩ := l.gdts_below
  simp (disch := omega) only [loadedMem, switchedMem, setBits_of_ne]

theorem tablesOf_loadedMem (l : BootLayout) (m : Mem) :
    TablesOf (loadedMem l m) (buildPageTables (switchedMem l m)) := by
  obtain ⟨_, _, hgdt⟩ := l.gdts_below
  apply (tablesOf_buildPageTables (loadedMem l m)).congr
  intro b hlo hhi
  apply unmarked_congr
  rw [buildPageTables_loadedMem, setBits_of_ne _ (by omega), setBits_of_ne _ (by omega)]

/-- What stage 1 and the tables leave of the 64-bit descriptors. -/
theorem load64_gdt64 (l : BootLayout) (m : Mem) {i : ℕ} (hi : i < 5) :
    load64 (buildPageTables (switchedMem l m)) (l.gdt64 + 8 * i) =
      load64 m (l.gdt64 + 8 * i) := by
  obtain ⟨hboot, hlo, hgdt⟩ := l.gdts_below
  apply load64_congr
  intro b hge hhi
  rw [buildPageTables_of_outside _ (by omega), switchedMem, setBits_of_ne _ (by omega),
    setBits_of_ne _ (by omega)]

theorem atKmain (l : BootLayout) (ret : UInt64) (c : Control) (m : Mem) {m' : Mem}
    (hm : BacksPaged (loadedMem l m) (ByteMem.storeLE (stage2 l.toKernelLayout (loadedMem l m))
      (stack64Top - 8) ret.toNat 8) m') :
    AtKmain l ret c m ⟨(longControl l (protectedControl l c)).withData longData, m'⟩ 0x8FFF8 := by
  have hplace : stack64Top - 8 = 0x8FFF8 := rfl
  have hbits : (1 : UInt32) ||| (1 : UInt32) <<< 31 = 0x80000001 := by decide
  rw [hplace] at hm
  constructor
  case codeSize =>
    have hsize := longControl_codeSize (l := l) (protectedControl_pe (l := l) (c := c))
    exact hsize
  case cr0 =>
    have hcr0 : c.cr0 ||| (1 : UInt32) ||| (1 : UInt32) <<< 31 = c.cr0 ||| 0x80000001 := by
      rw [UInt32.or_assoc, hbits]
    exact hcr0
  case cr4 => rfl
  case efer => rfl
  case code => rfl
  case data => exact ⟨rfl, rfl, rfl⟩
  case interrupts => rfl
  case identity =>
    have hident : Identity ((longControl l (protectedControl l c)).withData longData)
        (TablesOf (loadedMem l m)) stage2Tables 0x40000000 :=
      @identity_paged ((longControl l (protectedControl l c)).withData longData)
        (longControl_pg (l := l)) rfl _
    exact fun a ha => hident.translate hm.holds a ha
  case stack => exact ⟨rfl, rfl⟩
  case pushed =>
    have hsame : load64 m' 0x8FFF8 = load64 (ByteMem.storeLE
        (stage2 l.toKernelLayout (loadedMem l m)) 0x8FFF8 ret.toNat 8) 0x8FFF8 :=
      load64_congr fun b hlo _ => hm.eqOn (notMem_stage2Tables (by omega))
    exact hsame.trans (load64_store64_self _ _ ret)
  case mem =>
    intro b hb hrsp
    rw [← stage2_loadedMem]
    exact (hm.eqOn hb).trans (storeLE_of_outside _ _ hrsp)
  case tables =>
    intro b hb
    have hbuilt := stage2_tables l.toKernelLayout (loadedMem l m) (.inl l.bssStop_le) b hb.1 hb.2
    have hsame := unmarked_congr (loadedMem_of_tables l (stage2 l.toKernelLayout m) hb)
    rw [hm.holds b hb.1 hb.2, ← hbuilt, stage2_loadedMem, hsame]

theorem protectedControl_codeSize (hpg : c.pg = false) : (protectedControl l c).codeSize = 32 := by
  rw [Control.codeSize_of_flat protectedControl_pe]
  · exact if_pos flatCode_big
  · rw [Control.longActive, protectedControl_pg, hpg]
    rfl

theorem bootKernel_kmain {cpu : Cpuid} (hcpu : cpu.hasLongMode = true) (ret : UInt64)
    (hpe : c.pe = false) (hpg : c.pg = false) (hbig : c.cs.big = false)
    (hboot : Holds m l.bootGdt gdtDescriptors) (hgdt : Holds m l.gdt64 gdt64Descriptors) :
    ∃ s rsp, bootKernel l cpu ret ⟨c, m⟩ = .ok (.kmain s rsp) ∧ AtKmain l ret c m s rsp := by
  have hpg' : (protectedControl l c).pg = false := protectedControl_pg.trans hpg
  have hprotected := enterProtected_eq hpe hpg hbig hboot
  have hentry := bits_of_codeSize (m := switchedMem l m) hpg' (protectedControl_codeSize hpg)
    0x10000
  have hcode := (load64_gdt64 l m (by decide : 3 < 5)).trans (hgdt 3 (by decide))
  have hdata := (load64_gdt64 l m (by decide : 4 < 5)).trans (hgdt 4 (by decide))
  have hmarked : load64 (setBits (buildPageTables (switchedMem l m)) (l.gdt64 + 29) 1)
      (l.gdt64 + 8 * 4) = 0x0000920000000000 :=
    (load64_congr fun b hlo _ => setBits_of_ne _ (by omega)).trans hdata
  obtain ⟨m₁, hlong, hm₁⟩ := enterLongMode_eq (l := l) protectedControl_pe hpg' rfl
    ⟨tablesOf_loadedMem l m, fun _ _ => rfl⟩ hcode
  obtain ⟨m₂, hlast, hm₂⟩ := longEntry_eq (l := l) (c := longControl l (protectedControl l c)) ret
    longControl_pg rfl rfl rfl hm₁ hmarked
  rw [← buildPageTables_loadedMem] at hm₂
  refine ⟨_, _, ?_, atKmain l ret c m hm₂⟩
  rw [bootKernel, hprotected]
  simp only [bind, Except.bind, hentry, hcpu, hlong, hlast]
  rfl

theorem bootKernel_halted {cpu : Cpuid} (hcpu : cpu.hasLongMode = false) (ret : UInt64)
    (hpe : c.pe = false) (hpg : c.pg = false) (hbig : c.cs.big = false)
    (hboot : Holds m l.bootGdt gdtDescriptors) :
    ∃ s, bootKernel l cpu ret ⟨c, m⟩ = .ok (.halted s) ∧ Refused l c m s := by
  have hpg' : (protectedControl l c).pg = false := protectedControl_pg.trans hpg
  have hprotected := enterProtected_eq hpe hpg hbig hboot
  have hentry := bits_of_codeSize (m := switchedMem l m) hpg' (protectedControl_codeSize hpg)
    0x10000
  obtain ⟨m', hprint, hmessage, hframe⟩ := printNolm_eq hpg' errNolm 0xB8000 (switchedMem l m)
  refine ⟨State.cli ⟨protectedControl l c, m'⟩, ?_, rfl, ⟨rfl, rfl, rfl⟩, rfl, hmessage, hframe⟩
  rw [bootKernel, hprotected]
  simp only [bind, Except.bind, hentry, hcpu, hprint]
  rfl

/-- A layout with the globals behind 64 KB of code. -/
def smallLayout : BootLayout where
  bssStart := 0x20000
  bssStop := 0x21000
  memmapCount := 0x20000
  memmapEntries := 0x20020
  load_le := by decide
  count_mem := by decide
  entries_mem := by decide
  apart := by decide
  bootGdt := 0x7D40
  gdt64 := 0x100C0
  paged := 0x1006C
  longEntry := 0x100F0
  bootGdt_mem := by decide
  gdt64_mem := by decide
  paged_mem := by decide
  longEntry_mem := by decide
  bssStop_le := by decide

/-- Real mode as the firmware leaves it, caches off. -/
def firmwareControl : Control where
  cr0 := 0x60000010
  cr3 := 0
  cr4 := 0
  efer := 0
  gdtBase := 0
  gdtLimit := 0xFFFF
  interrupts := true
  cs := ⟨0, 0x00009B000000FFFF⟩
  ss := ⟨0, 0x000093000000FFFF⟩
  ds := ⟨0, 0x000093000000FFFF⟩
  es := ⟨0, 0x000093000000FFFF⟩
  fs := ⟨0, 0x000093000000FFFF⟩
  gs := ⟨0, 0x000093000000FFFF⟩

/-- Memory with the two descriptor tables and nothing else. -/
def tablesOnly : Mem :=
  let m := store64 (store64 (fun _ => 0) 0x7D48 0x00CF9A000000FFFF) 0x7D50 0x00CF92000000FFFF
  let m := store64 (store64 m 0x100C8 0x00CF9A000000FFFF) 0x100D0 0x00CF92000000FFFF
  store64 (store64 m 0x100D8 0x00209A0000000000) 0x100E0 0x0000920000000000

/-- Whatever the control registers and memory held in real mode, no step of the boot faults or runs
code of the wrong size: with long mode on offer `kmain` is called in 64-bit code on its stack, in
the memory that `stage2` describes but for the processor's marks, and without it the message is on
the screen and the processor is still in protected mode. -/
theorem boot_reaches_kmain (l : BootLayout) (cpu : Cpuid) (ret : UInt64) (c : Control) (m : Mem)
    (hpe : c.pe = false) (hpg : c.pg = false) (hbig : c.cs.big = false)
    (hboot : Holds m l.bootGdt gdtDescriptors) (hgdt : Holds m l.gdt64 gdt64Descriptors) :
    (cpu.hasLongMode = true → ∃ s rsp, bootKernel l cpu ret ⟨c, m⟩ = .ok (.kmain s rsp) ∧
      AtKmain l ret c m s rsp) ∧
    (cpu.hasLongMode = false → ∃ s, bootKernel l cpu ret ⟨c, m⟩ = .ok (.halted s) ∧
      Refused l c m s) :=
  ⟨fun hcpu => bootKernel_kmain hcpu ret hpe hpg hbig hboot hgdt,
    fun hcpu => bootKernel_halted hcpu ret hpe hpg hbig hboot⟩

theorem boot_reaches_kmain_smallLayout :
    ∃ s rsp, bootKernel smallLayout ⟨0x80000008, 0x20100800⟩ 0x10200
        ⟨firmwareControl, tablesOnly⟩ = .ok (.kmain s rsp) ∧
      AtKmain smallLayout 0x10200 firmwareControl tablesOnly s rsp :=
  (boot_reaches_kmain smallLayout ⟨0x80000008, 0x20100800⟩ 0x10200 firmwareControl tablesOnly
    (by decide) (by decide) (by decide) (by decide) (by decide)).1 (by decide)

end Nadir
