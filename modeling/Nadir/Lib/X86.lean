import Nadir.Lib.Mem

/-!
# The real-mode part of an x86 processor

A 32-bit register is given by the parts that have names: its upper word, high byte and low byte.
An interrupt service may leave anything in the registers, the data segments and the flags, so
those form one record that a service answers with. Flags are kept where later code reads them:
carry and zero.
-/

namespace X86

open ByteMem

@[ext] structure Reg where
  upper : UInt16
  high : UInt8
  low : UInt8
  deriving DecidableEq, Repr

namespace Reg

/-- The 16-bit register, `ax` of `eax`. -/
def word (r : Reg) : UInt16 := UInt16.ofNat (256 * r.high.toNat + r.low.toNat)

def setWord (v : UInt16) (r : Reg) : Reg :=
  ⟨r.upper, UInt8.ofNat (v.toNat / 256), UInt8.ofNat v.toNat⟩

def dword (r : Reg) : UInt32 :=
  UInt32.ofNat (65536 * r.upper.toNat + 256 * r.high.toNat + r.low.toNat)

def ofDword (v : UInt32) : Reg :=
  ⟨UInt16.ofNat (v.toNat / 65536), UInt8.ofNat (v.toNat / 256), UInt8.ofNat v.toNat⟩

theorem word_toNat (r : Reg) : r.word.toNat = 256 * r.high.toNat + r.low.toNat := by
  have hhigh := r.high.toNat_lt
  have hlow := r.low.toNat_lt
  rw [word, UInt16.toNat_ofNat']
  omega

@[simp] theorem word_setWord (v : UInt16) (r : Reg) : (r.setWord v).word = v := by
  have hv := v.toNat_lt
  rw [← UInt16.toNat_inj, word_toNat, setWord, UInt8.toNat_ofNat', UInt8.toNat_ofNat']
  omega

@[simp] theorem low_setWord (v : UInt16) (r : Reg) :
    (r.setWord v).low = UInt8.ofNat v.toNat := rfl

theorem dword_toNat (r : Reg) :
    r.dword.toNat = 65536 * r.upper.toNat + 256 * r.high.toNat + r.low.toNat := by
  have hupper := r.upper.toNat_lt
  have hhigh := r.high.toNat_lt
  have hlow := r.low.toNat_lt
  rw [dword, UInt32.toNat_ofNat']
  omega

@[simp] theorem dword_ofDword (v : UInt32) : (ofDword v).dword = v := by
  have hv := v.toNat_lt
  rw [← UInt32.toNat_inj, dword_toNat, ofDword, UInt8.toNat_ofNat', UInt8.toNat_ofNat',
    UInt16.toNat_ofNat']
  omega

end Reg

/-- What an interrupt service may change besides memory. -/
structure Regs where
  eax : Reg
  ebx : Reg
  ecx : Reg
  edx : Reg
  edi : Reg
  ds : UInt16
  es : UInt16
  cf : Bool
  zf : Bool
  deriving DecidableEq, Repr

structure Cpu extends Regs where
  mem : Mem

/-- The linear address of `segment:offset`. -/
def linear (segment offset : UInt16) : ℕ := 16 * segment.toNat + offset.toNat

namespace Cpu

variable (s : Cpu)

/-! Memory operands are addressed by DS and a constant offset. -/

def load8 (offset : ℕ) : UInt8 := s.mem (16 * s.ds.toNat + offset)

def load16 (offset : ℕ) : UInt16 := ByteMem.load16 s.mem (16 * s.ds.toNat + offset)

def store8 (offset : ℕ) (v : UInt8) : Cpu :=
  { s with mem := Function.update s.mem (16 * s.ds.toNat + offset) v }

def store16 (offset : ℕ) (v : UInt16) : Cpu :=
  { s with mem := ByteMem.store16 s.mem (16 * s.ds.toNat + offset) v }

def load32 (offset : ℕ) : UInt32 := ByteMem.load32 s.mem (16 * s.ds.toNat + offset)

def store32 (offset : ℕ) (v : UInt32) : Cpu :=
  { s with mem := ByteMem.store32 s.mem (16 * s.ds.toNat + offset) v }

/-! With DS zero an offset is an address. -/

variable {s}

theorem load16_of_ds (hds : s.ds = 0) (offset : ℕ) :
    s.load16 offset = ByteMem.load16 s.mem offset := by
  rw [load16, hds, UInt16.toNat_zero, Nat.mul_zero, Nat.zero_add]

theorem load8_of_ds (hds : s.ds = 0) (offset : ℕ) : s.load8 offset = s.mem offset := by
  rw [load8, hds, UInt16.toNat_zero, Nat.mul_zero, Nat.zero_add]

theorem store16_of_ds (hds : s.ds = 0) (offset : ℕ) (v : UInt16) :
    s.store16 offset v = { s with mem := ByteMem.store16 s.mem offset v } := by
  rw [store16, hds, UInt16.toNat_zero, Nat.mul_zero, Nat.zero_add]

theorem store8_of_ds (hds : s.ds = 0) (offset : ℕ) (v : UInt8) :
    s.store8 offset v = { s with mem := Function.update s.mem offset v } := by
  rw [store8, hds, UInt16.toNat_zero, Nat.mul_zero, Nat.zero_add]

theorem store32_of_ds (hds : s.ds = 0) (offset : ℕ) (v : UInt32) :
    s.store32 offset v = { s with mem := ByteMem.store32 s.mem offset v } := by
  rw [store32, hds, UInt16.toNat_zero, Nat.mul_zero, Nat.zero_add]

variable (s)

/-- `xor ax, ax` clears the carry. -/
def xorAx : Cpu := { s with eax := s.eax.setWord 0, cf := false, zf := true }

def movDsAx : Cpu := { s with ds := s.eax.word }

def movEsAx : Cpu := { s with es := s.eax.word }

def mulCl : Cpu :=
  { s with eax := s.eax.setWord (UInt16.ofNat (s.eax.low.toNat * s.ecx.low.toNat)) }

/-- `stosd`, upwards: EAX to ES:DI. -/
def stosd : Cpu :=
  { s with
    mem := ByteMem.store32 s.mem (linear s.es s.edi.word) s.eax.dword
    edi := s.edi.setWord (s.edi.word + 4) }

/-- `div word [m]`: the quotient of DX:AX to AX, the remainder to DX. The quotient fits where DX
is below the divisor, as it is in every division of a cleared DX by a positive divisor. -/
def divWord (divisor : UInt16) : Cpu :=
  let dividend := 65536 * s.edx.word.toNat + s.eax.word.toNat
  { s with
    eax := s.eax.setWord (UInt16.ofNat (dividend / divisor.toNat))
    edx := s.edx.setWord (UInt16.ofNat (dividend % divisor.toNat)) }

theorem divWord_of_zero {s : Cpu} {divisor : UInt16} (hdx : s.edx.word = 0) :
    s.divWord divisor = { s with
      eax := s.eax.setWord (UInt16.ofNat (s.eax.word.toNat / divisor.toNat))
      edx := s.edx.setWord (UInt16.ofNat (s.eax.word.toNat % divisor.toNat)) } := by
  simp only [divWord, hdx, UInt16.toNat_zero, Nat.mul_zero, Nat.zero_add]

def addWord (offset : ℕ) (v : UInt16) : Cpu :=
  let sum := s.load16 offset + v
  { s.store16 offset sum with
    cf := decide (65536 ≤ (s.load16 offset).toNat + v.toNat)
    zf := sum == 0 }

/-- `inc` and `dec` leave the carry alone. -/
def incWord (offset : ℕ) : Cpu :=
  let v := s.load16 offset + 1
  { s.store16 offset v with zf := v == 0 }

def decWord (offset : ℕ) : Cpu :=
  let v := s.load16 offset - 1
  { s.store16 offset v with zf := v == 0 }

def incByte (offset : ℕ) : Cpu :=
  let v := s.load8 offset + 1
  { s.store8 offset v with zf := v == 0 }

def decByte (offset : ℕ) : Cpu :=
  let v := s.load8 offset - 1
  { s.store8 offset v with zf := v == 0 }

variable {s}

theorem addWord_mem (hds : s.ds = 0) (offset : ℕ) (v : UInt16) :
    (s.addWord offset v).mem =
      ByteMem.store16 s.mem offset (ByteMem.load16 s.mem offset + v) := by
  simp only [addWord, load16_of_ds hds, store16_of_ds hds]

theorem addWord_cf (hds : s.ds = 0) (offset : ℕ) (v : UInt16) :
    (s.addWord offset v).cf =
      decide (65536 ≤ (ByteMem.load16 s.mem offset).toNat + v.toNat) := by
  simp only [addWord, load16_of_ds hds]

theorem incWord_mem (hds : s.ds = 0) (offset : ℕ) :
    (s.incWord offset).mem =
      ByteMem.store16 s.mem offset (ByteMem.load16 s.mem offset + 1) := by
  simp only [incWord, load16_of_ds hds, store16_of_ds hds]

theorem decWord_mem (hds : s.ds = 0) (offset : ℕ) :
    (s.decWord offset).mem =
      ByteMem.store16 s.mem offset (ByteMem.load16 s.mem offset - 1) := by
  simp only [decWord, load16_of_ds hds, store16_of_ds hds]

theorem decWord_zf (hds : s.ds = 0) (offset : ℕ) :
    (s.decWord offset).zf = (ByteMem.load16 s.mem offset - 1 == 0) := by
  simp only [decWord, load16_of_ds hds]

theorem incByte_of_ds (hds : s.ds = 0) (offset : ℕ) :
    s.incByte offset = { s with
      mem := Function.update s.mem offset (s.mem offset + 1)
      zf := s.mem offset + 1 == 0 } := by
  simp only [incByte, load8_of_ds hds, store8_of_ds hds]

theorem incByte_mem (hds : s.ds = 0) (offset : ℕ) :
    (s.incByte offset).mem = Function.update s.mem offset (s.mem offset + 1) := by
  rw [incByte_of_ds hds]

@[simp] theorem addWord_ds (s : Cpu) (offset : ℕ) (v : UInt16) :
    (s.addWord offset v).ds = s.ds := rfl

@[simp] theorem incWord_ds (s : Cpu) (offset : ℕ) : (s.incWord offset).ds = s.ds := rfl

@[simp] theorem decWord_ds (s : Cpu) (offset : ℕ) : (s.decWord offset).ds = s.ds := rfl

end Cpu

/-! Repeated string instructions, upwards. -/

/-- `rep movsb`: `n` bytes from `src` to `dst`, one after the other. -/
def repMovsb : ℕ → ℕ → ℕ → Mem → Mem
  | 0, _, _, m => m
  | n + 1, src, dst, m => repMovsb n (src + 1) (dst + 1) (Function.update m dst (m src))

def repStosb (v : UInt8) : ℕ → ℕ → Mem → Mem
  | 0, _, m => m
  | n + 1, dst, m => repStosb v n (dst + 1) (Function.update m dst v)

def repStosd (v : UInt32) : ℕ → ℕ → Mem → Mem
  | 0, _, m => m
  | n + 1, dst, m => repStosd v n (dst + 4) (ByteMem.store32 m dst v)

theorem repMovsb_of_outside {n src dst : ℕ} {m : Mem} {b : ℕ} (h : b < dst ∨ dst + n ≤ b) :
    repMovsb n src dst m b = m b := by
  induction n generalizing src dst m with
  | zero => rfl
  | succ n ih => rw [repMovsb, ih (by omega), Function.update_of_ne (by omega)]

theorem repMovsb_of_lt {n src dst : ℕ} {m : Mem} (hapart : src + n ≤ dst ∨ dst + n ≤ src) {k : ℕ}
    (hk : k < n) : repMovsb n src dst m (dst + k) = m (src + k) := by
  induction n generalizing src dst m k with
  | zero => exact absurd hk (Nat.not_lt_zero k)
  | succ n ih =>
    rw [repMovsb]
    cases k with
    | zero => rw [repMovsb_of_outside (by omega), Nat.add_zero, Function.update_self, Nat.add_zero]
    | succ k =>
      have hdst : dst + (k + 1) = dst + 1 + k := by omega
      have hsrc : src + (k + 1) = src + 1 + k := by omega
      rw [hdst, hsrc, ih (by omega) (by omega), Function.update_of_ne (by omega)]

theorem repStosb_of_outside {v : UInt8} {n dst : ℕ} {m : Mem} {b : ℕ}
    (h : b < dst ∨ dst + n ≤ b) : repStosb v n dst m b = m b := by
  induction n generalizing dst m with
  | zero => rfl
  | succ n ih => rw [repStosb, ih (by omega), Function.update_of_ne (by omega)]

theorem repStosb_of_lt {v : UInt8} {n dst : ℕ} {m : Mem} {b : ℕ} (hlo : dst ≤ b)
    (hhi : b < dst + n) : repStosb v n dst m b = v := by
  induction n generalizing dst m with
  | zero => omega
  | succ n ih =>
    rw [repStosb]
    rcases Nat.eq_or_lt_of_le hlo with rfl | hlt
    · rw [repStosb_of_outside (by omega), Function.update_self]
    · exact ih hlt (by omega)

theorem repStosd_of_outside {v : UInt32} {n dst : ℕ} {m : Mem} {b : ℕ}
    (h : b < dst ∨ dst + 4 * n ≤ b) : repStosd v n dst m b = m b := by
  induction n generalizing dst m with
  | zero => rfl
  | succ n ih => rw [repStosd, ih (by omega), store32_of_outside _ _ (by omega)]

theorem repMovsb_setBits {n src dst a : ℕ} {m : Mem} {bits : UInt8} (hsrc : a < src ∨ src + n ≤ a)
    (hdst : a < dst ∨ dst + n ≤ a) :
    repMovsb n src dst (setBits m a bits) = setBits (repMovsb n src dst m) a bits := by
  induction n generalizing src dst m with
  | zero => rfl
  | succ n ih =>
    rw [repMovsb, repMovsb, setBits_of_ne _ (by omega), update_setBits _ _ _ (by omega),
      ih (by omega) (by omega)]

theorem repStosb_setBits {v : UInt8} {n dst a : ℕ} {m : Mem} {bits : UInt8}
    (h : a < dst ∨ dst + n ≤ a) :
    repStosb v n dst (setBits m a bits) = setBits (repStosb v n dst m) a bits := by
  induction n generalizing dst m with
  | zero => rfl
  | succ n ih => rw [repStosb, repStosb, update_setBits _ _ _ (by omega), ih (by omega)]

theorem repStosd_setBits {v : UInt32} {n dst a : ℕ} {m : Mem} {bits : UInt8}
    (h : a < dst ∨ dst + 4 * n ≤ a) :
    repStosd v n dst (setBits m a bits) = setBits (repStosd v n dst m) a bits := by
  induction n generalizing dst m with
  | zero => rfl
  | succ n ih => rw [repStosd, repStosd, store32_setBits _ _ _ (by omega), ih (by omega)]

theorem load32_repStosd {v : UInt32} {n dst : ℕ} {m : Mem} {a : ℕ} (ha : dst % 4 = a % 4) :
    ByteMem.load32 (repStosd v n dst m) a =
      if dst ≤ a ∧ a < dst + 4 * n then v else ByteMem.load32 m a := by
  induction n generalizing dst m with
  | zero => rw [repStosd, if_neg (by omega)]
  | succ n ih =>
    rw [repStosd, ih (by omega), load32_store32_of_aligned m v ha]
    split_ifs <;> first | rfl | omega

end X86
