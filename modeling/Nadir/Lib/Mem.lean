import Mathlib.Logic.Function.Basic
import Mathlib.Data.Nat.Notation
import Mathlib.Algebra.Group.Nat.Even

/-!
# Byte memory with little-endian words

Memory is a byte at every address. `loadLE m a n` reads `n` bytes as one number, lowest byte
first, and `storeLE m a v n` writes the low `n` bytes of `v`. A store reads back, and is invisible
outside its own bytes.
-/

namespace ByteMem

abbrev Mem := ℕ → UInt8

def loadLE (m : Mem) (a : ℕ) : ℕ → ℕ
  | 0 => 0
  | n + 1 => (m a).toNat + 256 * loadLE m (a + 1) n

def storeLE (m : Mem) (a v : ℕ) : ℕ → Mem
  | 0 => m
  | n + 1 => Function.update (storeLE m (a + 1) (v / 256) n) a (UInt8.ofNat v)

theorem loadLE_lt (m : Mem) (a n : ℕ) : loadLE m a n < 256 ^ n := by
  induction n generalizing a with
  | zero => simp [loadLE]
  | succ n ih =>
    have hbyte := (m a).toNat_lt
    have hrest := ih (a + 1)
    rw [loadLE, pow_succ]
    omega

theorem loadLE_congr {m m' : Mem} {a n : ℕ} (h : ∀ b, a ≤ b → b < a + n → m b = m' b) :
    loadLE m a n = loadLE m' a n := by
  induction n generalizing a with
  | zero => rfl
  | succ n ih =>
    rw [loadLE, loadLE, h a le_rfl (by omega),
      ih (fun b hlo hhi => h b (by omega) (by omega))]

theorem storeLE_of_outside (m : Mem) {a b : ℕ} (v : ℕ) {n : ℕ} (h : b < a ∨ a + n ≤ b) :
    storeLE m a v n b = m b := by
  induction n generalizing a v with
  | zero => rfl
  | succ n ih =>
    rw [storeLE, Function.update_of_ne (by omega), ih _ (by omega)]

theorem loadLE_storeLE_self (m : Mem) (a v n : ℕ) :
    loadLE (storeLE m a v n) a n = v % 256 ^ n := by
  induction n generalizing a v with
  | zero => simp [loadLE, Nat.mod_one]
  | succ n ih =>
    have hrest : loadLE (storeLE m a v (n + 1)) (a + 1) n =
        loadLE (storeLE m (a + 1) (v / 256) n) (a + 1) n := by
      apply loadLE_congr
      intro b hlo _
      rw [storeLE, Function.update_of_ne (by omega)]
    have hbyte : (UInt8.ofNat v).toNat = v % 256 := UInt8.toNat_ofNat'
    rw [loadLE, hrest, ih, storeLE, Function.update_self, hbyte, pow_succ', Nat.mod_mul]

theorem loadLE_storeLE_of_disjoint (m : Mem) {a b n k : ℕ} (v : ℕ)
    (h : b + k ≤ a ∨ a + n ≤ b) : loadLE (storeLE m a v n) b k = loadLE m b k :=
  loadLE_congr (fun _ _ _ => storeLE_of_outside m v (by omega))

/-- Memory with some bits of a byte set. -/
def setBits (m : Mem) (a : ℕ) (bits : UInt8) : Mem := Function.update m a (m a ||| bits)

theorem setBits_of_ne {m : Mem} {a b : ℕ} (bits : UInt8) (h : b ≠ a) : setBits m a bits b = m b :=
  Function.update_of_ne h _ m

/-! Bits set in one place and writes to another do not disturb each other. -/

theorem update_setBits (m : Mem) {a b : ℕ} (bits v : UInt8) (h : a ≠ b) :
    Function.update (setBits m a bits) b v = setBits (Function.update m b v) a bits := by
  rw [setBits, setBits, Function.update_comm h, Function.update_of_ne h]

theorem storeLE_setBits (m : Mem) {a b n : ℕ} (bits : UInt8) (v : ℕ) (h : a < b ∨ b + n ≤ a) :
    storeLE (setBits m a bits) b v n = setBits (storeLE m b v n) a bits := by
  induction n generalizing b v with
  | zero => rfl
  | succ n ih => rw [storeLE, storeLE, ih _ (by omega), update_setBits _ _ _ (by omega)]

theorem loadLE_eq_of_bytes {m m' : Mem} {a a' n : ℕ} (h : ∀ k < n, m (a + k) = m' (a' + k)) :
    loadLE m a n = loadLE m' a' n := by
  induction n generalizing a a' with
  | zero => rfl
  | succ n ih =>
    have hfirst := h 0 (Nat.succ_pos n)
    rw [Nat.add_zero, Nat.add_zero] at hfirst
    have hrest : ∀ k < n, m (a + 1 + k) = m' (a' + 1 + k) := by
      intro k hk
      have hbyte := h (k + 1) (Nat.succ_lt_succ hk)
      rwa [Nat.add_comm k 1, ← Nat.add_assoc, ← Nat.add_assoc] at hbyte
    rw [loadLE, loadLE, hfirst, ih hrest]

theorem loadLE_add (m : Mem) (a n k : ℕ) :
    loadLE m a (n + k) = loadLE m a n + 256 ^ n * loadLE m (a + n) k := by
  induction n generalizing a with
  | zero => simp [loadLE]
  | succ n ih =>
    have hplace : a + 1 + n = a + (n + 1) := by omega
    rw [Nat.succ_add, loadLE, loadLE, ih, hplace, pow_succ']
    simp only [Nat.mul_add, Nat.mul_assoc, Nat.add_assoc]

/-! The 64-bit words the rest of the development reads and writes. -/

def load64 (m : Mem) (a : ℕ) : UInt64 := UInt64.ofNat (loadLE m a 8)

def store64 (m : Mem) (a : ℕ) (v : UInt64) : Mem := storeLE m a v.toNat 8

@[simp] theorem load64_store64_self (m : Mem) (a : ℕ) (v : UInt64) :
    load64 (store64 m a v) a = v := by
  have hlt : v.toNat < 256 ^ 8 := v.toNat_lt
  rw [load64, store64, loadLE_storeLE_self, Nat.mod_eq_of_lt hlt, UInt64.ofNat_toNat]

theorem load64_store64_of_disjoint (m : Mem) {a b : ℕ} (v : UInt64)
    (h : b + 8 ≤ a ∨ a + 8 ≤ b) : load64 (store64 m a v) b = load64 m b := by
  rw [load64, store64, loadLE_storeLE_of_disjoint m _ h, load64]

theorem store64_of_outside (m : Mem) {a b : ℕ} (v : UInt64) (h : b < a ∨ a + 8 ≤ b) :
    store64 m a v b = m b := storeLE_of_outside m _ h

theorem load64_congr {m m' : Mem} {a : ℕ} (h : ∀ b, a ≤ b → b < a + 8 → m b = m' b) :
    load64 m a = load64 m' a := congrArg UInt64.ofNat (loadLE_congr h)

theorem load64_pair_congr {m m' : Mem} {a : ℕ} (h : ∀ b, a ≤ b → b < a + 16 → m b = m' b) :
    load64 m a = load64 m' a ∧ load64 m (a + 8) = load64 m' (a + 8) :=
  ⟨load64_congr (fun b hlo hhi => h b hlo (by omega)),
    load64_congr (fun b hlo hhi => h b (by omega) (by omega))⟩

/-! The same for 16-bit words. -/

def load16 (m : Mem) (a : ℕ) : UInt16 := UInt16.ofNat (loadLE m a 2)

def store16 (m : Mem) (a : ℕ) (v : UInt16) : Mem := storeLE m a v.toNat 2

@[simp] theorem load16_store16_self (m : Mem) (a : ℕ) (v : UInt16) :
    load16 (store16 m a v) a = v := by
  have hlt : v.toNat < 256 ^ 2 := v.toNat_lt
  rw [load16, store16, loadLE_storeLE_self, Nat.mod_eq_of_lt hlt, UInt16.ofNat_toNat]

theorem load16_store16_of_disjoint (m : Mem) {a b : ℕ} (v : UInt16)
    (h : b + 2 ≤ a ∨ a + 2 ≤ b) : load16 (store16 m a v) b = load16 m b := by
  rw [load16, store16, loadLE_storeLE_of_disjoint m _ h, load16]

theorem store16_of_outside (m : Mem) {a b : ℕ} (v : UInt16) (h : b < a ∨ a + 2 ≤ b) :
    store16 m a v b = m b := storeLE_of_outside m _ h

theorem load16_congr {m m' : Mem} {a : ℕ} (h : ∀ b, a ≤ b → b < a + 2 → m b = m' b) :
    load16 m a = load16 m' a := congrArg UInt16.ofNat (loadLE_congr h)

/-! The same for 32-bit words. -/

def load32 (m : Mem) (a : ℕ) : UInt32 := UInt32.ofNat (loadLE m a 4)

def store32 (m : Mem) (a : ℕ) (v : UInt32) : Mem := storeLE m a v.toNat 4

@[simp] theorem load32_store32_self (m : Mem) (a : ℕ) (v : UInt32) :
    load32 (store32 m a v) a = v := by
  have hlt : v.toNat < 256 ^ 4 := v.toNat_lt
  rw [load32, store32, loadLE_storeLE_self, Nat.mod_eq_of_lt hlt, UInt32.ofNat_toNat]

theorem load32_store32_of_disjoint (m : Mem) {a b : ℕ} (v : UInt32)
    (h : b + 4 ≤ a ∨ a + 4 ≤ b) : load32 (store32 m a v) b = load32 m b := by
  rw [load32, store32, loadLE_storeLE_of_disjoint m _ h, load32]

theorem load32_store32_of_aligned (m : Mem) {a b : ℕ} (v : UInt32) (h : a % 4 = b % 4) :
    load32 (store32 m a v) b = if b = a then v else load32 m b := by
  split_ifs with heq
  · rw [heq, load32_store32_self]
  · exact load32_store32_of_disjoint m v (by omega)

theorem store32_of_outside (m : Mem) {a b : ℕ} (v : UInt32) (h : b < a ∨ a + 4 ≤ b) :
    store32 m a v b = m b := storeLE_of_outside m _ h

theorem store32_setBits (m : Mem) {a b : ℕ} (bits : UInt8) (v : UInt32) (h : a < b ∨ b + 4 ≤ a) :
    store32 (setBits m a bits) b v = setBits (store32 m b v) a bits :=
  storeLE_setBits m bits _ h

theorem load32_eq_of_bytes {m m' : Mem} {a a' : ℕ} (h : ∀ k < 4, m (a + k) = m' (a' + k)) :
    load32 m a = load32 m' a' := congrArg UInt32.ofNat (loadLE_eq_of_bytes h)

theorem load32_toNat (m : Mem) (a : ℕ) : (load32 m a).toNat = loadLE m a 4 := by
  have hlt : loadLE m a 4 < 2 ^ 32 := loadLE_lt m a 4
  rw [load32, UInt32.toNat_ofNat', Nat.mod_eq_of_lt hlt]

theorem load64_toNat (m : Mem) (a : ℕ) :
    (load64 m a).toNat = (load32 m a).toNat + 2 ^ 32 * (load32 m (a + 4)).toNat := by
  have hlt : loadLE m a 8 < 2 ^ 64 := loadLE_lt m a 8
  rw [load64, UInt64.toNat_ofNat', Nat.mod_eq_of_lt hlt, load32_toNat, load32_toNat]
  exact loadLE_add m a 4 4

end ByteMem
