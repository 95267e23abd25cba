import Nadir.Lib.Amd64
import Nadir.Lib.Loop

/-!
# The interrupt descriptor table

256 gates of 16 bytes that start as zeros. `idt_init` fills in the exception gates and loads the
table, `idt_install_irqs` fills in the gates of the 16 lines. Each gate gives back the address of
its stub, and the gates from 48 on stay not present.
-/

namespace Nadir

open Amd64 ByteMem CountedLoop

def idtFlagPresentInt : UInt8 := 0x8E
def kernelCs : UInt16 := 0x18
abbrev idtExceptionCount : ℕ := 32
abbrev idtIrqBase : ℕ := 32
abbrev idtIrqCount : ℕ := 16

/-- Where the table `idt` lies: its 4096 bytes do not wrap. -/
structure IdtTable where
  base : UInt64
  fits : base.toNat + 4096 ≤ 2 ^ 64

/-- The stores into `struct idt_entry`, which is packed. -/
def idtSetGate (idt : ℕ) (vector : UInt8) (handler : UInt64) (selector : UInt16)
    (ist flags : UInt8) (m : Mem) : Mem :=
  let e := idt + 16 * vector.toNat
  let m := store16 m e (handler &&& 0xFFFF).toUInt16
  let m := store16 m (e + 2) selector
  let m := Function.update m (e + 4) (ist &&& 0x07)
  let m := Function.update m (e + 5) flags
  let m := store16 m (e + 6) ((handler >>> 16) &&& 0xFFFF).toUInt16
  let m := store32 m (e + 8) ((handler >>> 32) &&& 0xFFFFFFFF).toUInt32
  store32 m (e + 12) 0

/-- The loop of `idt_init` and of `idt_install_irqs`. -/
def setGates (idt lo n : ℕ) (table : ℕ → UInt64) (m : Mem) : Mem :=
  forLoop 0 n (fun i m =>
    idtSetGate idt (UInt8.ofNat (lo + i)) (table i) kernelCs 0 idtFlagPresentInt m) m

/-- `isr_stub_table`: the stubs by number. -/
def isrStubTable : List ℕ :=
  [0, 1, 2, 3, 4, 5, 6, 7, 8, 9, 10, 11, 12, 13, 14, 15,
    16, 17, 18, 19, 20, 21, 22, 23, 24, 25, 26, 27, 28, 29, 30, 31]

def irqStubTable : List ℕ := [32, 33, 34, 35, 36, 37, 38, 39, 40, 41, 42, 43, 44, 45, 46, 47]

/-- `stub v` is the address of `isr_stub_v`. -/
def idtInit (idt : IdtTable) (stub : ℕ → UInt64) (s : Cpu) : Cpu :=
  { s with
    mem := setGates idt.base.toNat 0 idtExceptionCount (fun i => stub isrStubTable[i]!) s.mem
    idtr := ⟨4095, idt.base⟩ }

def idtInstallIrqs (idt : IdtTable) (stub : ℕ → UInt64) (s : Cpu) : Cpu :=
  { s with
    mem := setGates idt.base.toNat idtIrqBase idtIrqCount (fun i => stub irqStubTable[i]!) s.mem }

theorem readGate_congr {m m' : Mem} {a : ℕ} (h : ∀ b, a ≤ b → b < a + 16 → m b = m' b) :
    readGate m a = readGate m' a := by
  have hlow : load16 m a = load16 m' a := load16_congr (fun b hlo hhi => h b hlo (by omega))
  have hselector : load16 m (a + 2) = load16 m' (a + 2) :=
    load16_congr (fun b hlo hhi => h b (by omega) (by omega))
  have hmid : load16 m (a + 6) = load16 m' (a + 6) :=
    load16_congr (fun b hlo hhi => h b (by omega) (by omega))
  have hhigh : load32 m (a + 8) = load32 m' (a + 8) :=
    load32_eq_of_bytes (fun k hk => h (a + 8 + k) (by omega) (by omega))
  simp only [readGate, hlow, hselector, hmid, hhigh, h (a + 4) (by omega) (by omega),
    h (a + 5) (by omega) (by omega)]

theorem idtSetGate_of_outside (idt : ℕ) (vector : UInt8) (handler : UInt64) (selector : UInt16)
    (ist flags : UInt8) (m : Mem) {b : ℕ}
    (h : b < idt + 16 * vector.toNat ∨ idt + 16 * vector.toNat + 16 ≤ b) :
    idtSetGate idt vector handler selector ist flags m b = m b := by
  simp only [idtSetGate]
  rw [store32_of_outside _ _ (by omega), store32_of_outside _ _ (by omega),
    store16_of_outside _ _ (by omega), Function.update_of_ne (by omega),
    Function.update_of_ne (by omega), store16_of_outside _ _ (by omega),
    store16_of_outside _ _ (by omega)]

theorem gateOffset_parts (h : UInt64) :
    UInt64.ofNat ((h &&& 0xFFFF).toUInt16.toNat + 2 ^ 16 * ((h >>> 16) &&& 0xFFFF).toUInt16.toNat +
      2 ^ 32 * ((h >>> 32) &&& 0xFFFFFFFF).toUInt32.toNat) = h := by
  have hlt := h.toNat_lt
  have hlow : ∀ n : ℕ, n &&& 0xFFFF = n % 65536 := fun n => Nat.and_two_pow_sub_one_eq_mod n 16
  have hhigh : ∀ n : ℕ, n &&& 0xFFFFFFFF = n % 4294967296 :=
    fun n => Nat.and_two_pow_sub_one_eq_mod n 32
  have hmid : (h >>> 16).toNat = h.toNat / 65536 := by
    rw [UInt64.toNat_shiftRight]
    exact Nat.shiftRight_eq_div_pow h.toNat 16
  have htop : (h >>> 32).toNat = h.toNat / 4294967296 := by
    rw [UInt64.toNat_shiftRight]
    exact Nat.shiftRight_eq_div_pow h.toNat 32
  rw [← UInt64.toNat_inj, UInt64.toNat_ofNat']
  simp only [UInt64.toNat_toUInt16, UInt64.toNat_toUInt32, UInt64.toNat_and,
    UInt64.reduceToNat, hlow, hhigh, hmid, htop]
  omega

theorem readGate_idtSetGate (idt : ℕ) (vector : UInt8) (handler : UInt64) (selector : UInt16)
    (ist flags : UInt8) (m : Mem) :
    readGate (idtSetGate idt vector handler selector ist flags m) (idt + 16 * vector.toNat) =
      ⟨handler, selector, ist &&& 0x07, flags⟩ := by
  generalize hm' : idtSetGate idt vector handler selector ist flags m = m'
  simp only [idtSetGate] at hm'
  generalize idt + 16 * vector.toNat = e at hm' ⊢
  let m₁ := store16 m e (handler &&& 0xFFFF).toUInt16
  let m₂ := Function.update (Function.update (store16 m₁ (e + 2) selector) (e + 4) (ist &&& 0x07))
    (e + 5) flags
  have hlow : load16 m' e = (handler &&& 0xFFFF).toUInt16 := by
    rw [← hm']
    refine (load16_congr (fun b hlo hhi => ?_)).trans (load16_store16_self m e _)
    rw [store32_of_outside _ _ (by omega), store32_of_outside _ _ (by omega),
      store16_of_outside _ _ (by omega), Function.update_of_ne (by omega),
      Function.update_of_ne (by omega), store16_of_outside _ _ (by omega)]
  have hselector : load16 m' (e + 2) = selector := by
    rw [← hm']
    refine (load16_congr (fun b hlo hhi => ?_)).trans (load16_store16_self m₁ (e + 2) _)
    rw [store32_of_outside _ _ (by omega), store32_of_outside _ _ (by omega),
      store16_of_outside _ _ (by omega), Function.update_of_ne (by omega),
      Function.update_of_ne (by omega)]
  have hist : m' (e + 4) = ist &&& 0x07 := by
    rw [← hm', store32_of_outside _ _ (by omega), store32_of_outside _ _ (by omega),
      store16_of_outside _ _ (by omega), Function.update_of_ne (by omega), Function.update_self]
  have hflags : m' (e + 5) = flags := by
    rw [← hm', store32_of_outside _ _ (by omega), store32_of_outside _ _ (by omega),
      store16_of_outside _ _ (by omega), Function.update_self]
  have hmid : load16 m' (e + 6) = ((handler >>> 16) &&& 0xFFFF).toUInt16 := by
    rw [← hm']
    refine (load16_congr (fun b hlo hhi => ?_)).trans (load16_store16_self m₂ (e + 6) _)
    rw [store32_of_outside _ _ (by omega), store32_of_outside _ _ (by omega)]
  have hhigh : load32 m' (e + 8) = ((handler >>> 32) &&& 0xFFFFFFFF).toUInt32 := by
    rw [← hm', load32_store32_of_disjoint _ _ (by omega), load32_store32_self]
  simp only [readGate, hlow, hselector, hist, hflags, hmid, hhigh, gateOffset_parts]

def gateAt (idt : IdtTable) (m : Mem) (v : ℕ) : Gate := readGate m (idt.base.toNat + 16 * v)

theorem gateAt_congr {idt : IdtTable} {m m' : Mem} {v : ℕ} (hv : v < 256)
    (h : ∀ b, idt.base.toNat ≤ b → b < idt.base.toNat + 4096 → m b = m' b) :
    gateAt idt m v = gateAt idt m' v :=
  readGate_congr (fun b hlo hhi => h b (by omega) (by omega))

theorem gateAt_setGates (idt : IdtTable) {lo n : ℕ} (hvector : lo + n ≤ 256) (table : ℕ → UInt64)
    (m : Mem) (v : ℕ) :
    gateAt idt (setGates idt.base.toNat lo n table m) v =
      if lo ≤ v ∧ v < lo + n then ⟨table (v - lo), kernelCs, 0, idtFlagPresentInt⟩
      else gateAt idt m v := by
  refine forLoop_induction (fun i m' => gateAt idt m' v =
    if lo ≤ v ∧ v < lo + i then ⟨table (v - lo), kernelCs, 0, idtFlagPresentInt⟩
    else gateAt idt m v) (Nat.zero_le n) ?_ ?_
  · rw [if_neg (by omega)]
  · intro i t _ hi ih
    have hplace : (UInt8.ofNat (lo + i)).toNat = lo + i := by
      rw [UInt8.toNat_ofNat']
      omega
    by_cases hv : v = lo + i
    · have hset := readGate_idtSetGate idt.base.toNat (UInt8.ofNat (lo + i)) (table i) kernelCs 0
        idtFlagPresentInt t
      rw [hplace] at hset
      rw [if_pos (by omega), hv, Nat.add_sub_cancel_left]
      exact hset
    · have hother : gateAt idt (idtSetGate idt.base.toNat (UInt8.ofNat (lo + i)) (table i) kernelCs
          0 idtFlagPresentInt t) v = gateAt idt t v := by
        apply readGate_congr
        intro b hlo hhi
        apply idtSetGate_of_outside
        rw [hplace]
        omega
      rw [hother, ih]
      have hiff : (lo ≤ v ∧ v < lo + i) ↔ (lo ≤ v ∧ v < lo + (i + 1)) := by omega
      simp only [hiff]

/-- The table before `idt_init`: the bytes of `.bss` are zeros. -/
def ZeroedTable (idt : IdtTable) (m : Mem) : Prop :=
  ∀ b, idt.base.toNat ≤ b → b < idt.base.toNat + 4096 → m b = 0

/-- What `idt_init` and `idt_install_irqs` leave behind. -/
def builtIdt (idt : IdtTable) (stub : ℕ → UInt64) (s : Cpu) : Cpu :=
  idtInstallIrqs idt stub (idtInit idt stub s)

theorem isrStubTable_eq : ∀ i < 32, isrStubTable[i]! = i := by decide

theorem irqStubTable_eq : ∀ i < 16, irqStubTable[i]! = 32 + i := by decide

theorem gateAt_zeroed {idt : IdtTable} {m : Mem} (hzero : ZeroedTable idt m) {v : ℕ}
    (hv : v < 256) : gateAt idt m v = ⟨0, 0, 0, 0⟩ :=
  @gateAt_congr idt m (fun _ => 0) v hv hzero

theorem gateAt_builtIdt {idt : IdtTable} {s : Cpu} (hzero : ZeroedTable idt s.mem)
    (stub : ℕ → UInt64) {v : ℕ} (hv : v < 256) :
    gateAt idt (builtIdt idt stub s).mem v =
      if v < 48 then ⟨stub v, kernelCs, 0, idtFlagPresentInt⟩ else ⟨0, 0, 0, 0⟩ := by
  simp only [builtIdt, idtInstallIrqs, idtInit]
  rw [gateAt_setGates idt (by decide), gateAt_setGates idt (by decide), gateAt_zeroed hzero hv]
  unfold idtIrqBase idtIrqCount idtExceptionCount
  by_cases hirq : 32 ≤ v ∧ v < 48
  · have hstub : irqStubTable[v - 32]! = v := by
      rw [irqStubTable_eq _ (by omega)]
      omega
    rw [if_pos hirq, if_pos hirq.2, hstub]
  · rw [if_neg hirq]
    by_cases hexception : v < 32
    · rw [if_pos (by omega), if_pos (by omega), Nat.sub_zero, isrStubTable_eq _ hexception]
    · rw [if_neg (by omega), if_neg (by omega)]

end Nadir
