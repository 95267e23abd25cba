import Nadir.Klog.Decimal

/-!
# Printed numbers

`klog_dec` prints the decimal numeral of a number and `console_puthex64` its sixteen hexadecimal
digits. Both read back to the number, so no two numbers are printed alike.
-/

namespace Nadir

open Numeral

/-- Decimal digits, of which the first is a zero only in the numeral of zero. -/
structure IsDecimal (s : List Int8) : Prop where
  ne_nil : s ≠ []
  digits : ∀ c ∈ s, chr '0' ≤ c ∧ c ≤ chr '9'
  lead : s.head? = some (chr '0') → s = [chr '0']

def IsUpperHex (c : Int8) : Prop :=
  chr '0' ≤ c ∧ c ≤ chr '9' ∨ chr 'A' ≤ c ∧ c ≤ chr 'F'

instance : DecidablePred IsUpperHex := fun _ => inferInstanceAs (Decidable (_ ∨ _))

def hexDigitValue (c : Int8) : ℕ := c.toInt.toNat - if c ≤ chr '9' then 48 else 55

def hexValue (s : List Int8) : ℕ := s.foldl (fun n c => 16 * n + hexDigitValue c) 0

def upperHex (c : Char) : Int8 := chr c.toUpper

section Decimal

theorem chr_inj_zero {c : Char} (hc : c.isDigit = true) (h : chr c = chr '0') : c = '0' := by
  obtain ⟨hvalue, _⟩ := chr_toInt hc
  have hzero : (chr '0').toInt = 48 := rfl
  rw [h, hzero] at hvalue
  exact Char.toNat_inj.mp (Int.ofNat.inj hvalue.symm)

theorem isDecimal_toDigits (n : ℕ) : IsDecimal (ascii (Nat.toDigits 10 n)) := by
  constructor
  · exact fun h => Nat.toDigits_ne_nil (List.map_eq_nil_iff.mp h)
  · intro ch hch
    obtain ⟨c, hc, rfl⟩ := List.mem_map.mp hch
    obtain ⟨hvalue, hlo, hhi⟩ := chr_toInt (isDigit_toDigits hc)
    have hzero : (chr '0').toInt = 48 := rfl
    have hnine : (chr '9').toInt = 57 := rfl
    rw [Int8.le_iff_toInt_le, Int8.le_iff_toInt_le, hvalue, hzero, hnine]
    omega
  · intro hlead
    rcases Nat.eq_zero_or_pos n with rfl | hpos
    · rfl
    · obtain ⟨c, s, hdigits⟩ := List.exists_cons_of_ne_nil (@Nat.toDigits_ne_nil n 10)
      have hhead := @toDigits_head_ne_zero 10 (by omega) n hpos.ne'
      have hdigit := @isDigit_toDigits n c (hdigits ▸ List.mem_cons_self)
      rw [hdigits, ascii_cons, List.head?_cons, Option.some_inj] at hlead
      rw [hdigits, List.head?_cons, chr_inj_zero hdigit hlead] at hhead
      exact absurd rfl hhead

theorem klogDec_eq (v : UInt64) (buf : CharBuf 20) :
    klogDec v buf = some (ascii (Nat.toDigits 10 v.toNat)) ∧
      (Nat.toDigits 10 v.toNat).length ≤ 20 := by
  have hv := v.toNat_lt
  have hlen : (Nat.toDigits 10 v.toNat).length ≤ 20 :=
    (Nat.length_toDigits_le_iff (by omega) (by omega)).mpr (by omega)
  refine ⟨?_, hlen⟩
  by_cases hzero : v = 0
  · subst hzero
    rfl
  · obtain ⟨buf', hloop, htake⟩ := decLoop_collects hzero le_rfl hlen buf
    have hprint := printDown_eq buf' hlen
    rw [htake, List.reverse_reverse] at hprint
    rw [klogDec, if_neg hzero, hloop, Option.bind_some, hprint]

theorem digitsValue_toDigits (n : ℕ) : digitsValue (ascii (Nat.toDigits 10 n)) = n := by
  rw [digitsValue_ascii (fun _ => isDigit_toDigits), Nat.ofDigitChars_ten_toDigits]

end Decimal

section Hex

theorem hexDigits_getElem {d : ℕ} (hd : d < 16) :
    hexDigits[d]? = some (upperHex d.digitChar) := by
  have hall : ∀ k < 16, hexDigits[k]? = some (upperHex (Nat.digitChar k)) := by decide
  exact hall d hd

theorem nibble_toNat (v : UInt64) {k : ℕ} (hk : k < 16) :
    (v >>> UInt64.ofInt (4 * k) &&& 0xF).toNat = v.toNat / 16 ^ k % 16 := by
  have hshift : (UInt64.ofInt (4 * k)).toNat = 4 * k := by
    rw [UInt64.ofInt, UInt64.toNat_ofNat']
    omega
  have hpow : 16 ^ k = 2 ^ (4 * k) := Nat.pow_mul 2 4 k ▸ rfl
  have hmask : v.toNat / 2 ^ (4 * k) &&& 15 = v.toNat / 2 ^ (4 * k) % 16 :=
    Nat.and_two_pow_sub_one_eq_mod _ 4
  rw [UInt64.toNat_and, UInt64.toNat_shiftRight, hshift, Nat.mod_eq_of_lt (by omega),
    Nat.shiftRight_eq_div_pow, hpow]
  exact hmask

theorem hexLoop_eq (v : UInt64) {k : ℕ} (hk : k ≤ 16) :
    hexLoop v (4 * k - 4) = some ((fixedDigits 16 k v.toNat).map upperHex) := by
  induction k with
  | zero =>
    rw [hexLoop, dif_neg (by omega)]
    rfl
  | succ k ih =>
    have hshift : (4 * (k + 1 : ℕ) - 4 : ℤ) = 4 * k := by omega
    rw [hshift, hexLoop, dif_pos (by omega), nibble_toNat v hk,
      hexDigits_getElem (Nat.mod_lt _ (by omega)), Option.bind_some, ih (Nat.le_of_succ_le hk)]
    rfl

theorem consolePuthex64_eq (v : UInt64) :
    consolePuthex64 v =
      some (ascii ['0', 'x'] ++ (fixedDigits 16 16 v.toNat).map upperHex) := by
  have hloop := hexLoop_eq v (le_refl 16)
  have hstart : (4 * (16 : ℕ) - 4 : ℤ) = 60 := rfl
  rw [hstart] at hloop
  rw [consolePuthex64, hloop]
  rfl

theorem isUpperHex_of_mem {n : ℕ} {c : Int8} (hc : c ∈ (fixedDigits 16 16 n).map upperHex) :
    IsUpperHex c := by
  have hall : ∀ d < 16, IsUpperHex (upperHex (Nat.digitChar d)) := by decide
  obtain ⟨x, hx, rfl⟩ := List.mem_map.mp hc
  obtain ⟨d, hd, rfl⟩ := mem_fixedDigits (by omega) hx
  exact hall d hd

theorem hexValue_fixedDigits (v : UInt64) :
    hexValue ((fixedDigits 16 16 v.toNat).map upperHex) = v.toNat := by
  have hval : ∀ d < 16, hexDigitValue (upperHex (Nat.digitChar d)) = d := by decide
  rw [hexValue, foldl_fixedDigits upperHex hexDigitValue (by omega) hval, Nat.mul_zero,
    Nat.zero_add]
  exact Nat.mod_eq_of_lt v.toNat_lt

end Hex

/-- `klog_dec` prints the decimal numeral of its argument and `console_puthex64` its sixteen
upper-case digits; both read back to the argument, and no other argument prints the same. -/
theorem printedNumbers_exact (v : UInt64) (buf : CharBuf 20) :
    (∃ s, klogDec v buf = some s ∧ IsDecimal s ∧ s.length ≤ 20 ∧ digitsValue s = v.toNat) ∧
    (∃ s, consolePuthex64 v = some (ascii ['0', 'x'] ++ s) ∧ s.length = 16 ∧
      (∀ c ∈ s, IsUpperHex c) ∧ hexValue s = v.toNat) ∧
    (∀ v' buf', klogDec v buf = klogDec v' buf' → v = v') ∧
    ∀ v', consolePuthex64 v = consolePuthex64 v' → v = v' := by
  obtain ⟨hdec, hlen⟩ := klogDec_eq v buf
  have hhex := consolePuthex64_eq v
  refine ⟨⟨_, hdec, isDecimal_toDigits _, ?_, digitsValue_toDigits _⟩,
    ⟨_, hhex, ?_, fun c => isUpperHex_of_mem, hexValue_fixedDigits v⟩, fun v' buf' h => ?_,
    fun v' h => ?_⟩
  · rw [ascii, List.length_map]
    exact hlen
  · rw [List.length_map, length_fixedDigits]
  · rw [hdec, (klogDec_eq v' buf').1, Option.some_inj] at h
    have hread := digitsValue_toDigits v.toNat
    rw [h, digitsValue_toDigits] at hread
    exact UInt64.toNat_inj.mp hread.symm
  · rw [hhex, consolePuthex64_eq v', Option.some_inj, List.append_cancel_left_eq] at h
    have hread := hexValue_fixedDigits v
    rw [h, hexValue_fixedDigits] at hread
    exact UInt64.toNat_inj.mp hread.symm

end Nadir
