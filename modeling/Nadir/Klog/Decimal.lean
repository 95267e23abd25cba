import Nadir.Klog.Basic
import Nadir.Lib.Digits

/-!
# Decimal numbers in a buffer

The loop stores the digits of a number lowest first, so that printing the buffer from its end gives
the numeral. Reading the characters of a numeral gives back the number.
-/

namespace Nadir

open Numeral

def digitsValue (s : List Int8) : ℕ := s.foldl (fun n c => 10 * n + (c.toInt.toNat - 48)) 0

theorem digit_eq {d : UInt64} (hd : d.toNat < 10) : digit d = chr (Nat.digitChar d.toNat) := by
  have hall : ∀ k < 10, digit (UInt64.ofNat k) = chr (Nat.digitChar k) := by decide
  have hdigit := hall d.toNat hd
  rwa [UInt64.ofNat_toNat] at hdigit

section Buffer

variable {size : ℕ}

theorem CharBuf.store_spec (buf : CharBuf size) {n : ℕ} (hn : n < size) (c : Int8) :
    ∃ buf', buf.store n c = some buf' ∧
      buf'.toList.take (n + 1) = buf.toList.take n ++ [c] := by
  refine ⟨buf.set n c, dif_pos hn, ?_⟩
  rw [Vector.toList_set, List.take_add_one, List.take_set_of_le le_rfl,
    List.getElem?_set_self (by simpa using hn)]
  rfl

theorem printDown_eq (buf : CharBuf size) {n : ℕ} (hn : n ≤ size) :
    printDown buf n = some (buf.toList.take n).reverse := by
  induction n with
  | zero => rfl
  | succ n ih =>
    have hlt : n < buf.toList.length := by
      rw [Vector.length_toList]
      exact hn
    have hload : buf[n]? = some buf.toList[n] := by
      rw [← Vector.getElem?_toList, List.getElem?_eq_getElem hlt]
    rw [printDown, hload, ih (Nat.le_of_succ_le hn), List.take_add_one,
      List.getElem?_eq_getElem hlt, List.reverse_append]
    rfl

theorem decLoop_spec {limit n : ℕ} {v : UInt64} {buf : CharBuf size} (hsize : limit ≤ size)
    (hfit : n + (Nat.digits 10 v.toNat).length ≤ limit) :
    ∃ buf', decLoop limit n v buf = some (n + (Nat.digits 10 v.toNat).length, buf') ∧
      buf'.toList.take (n + (Nat.digits 10 v.toNat).length) =
        buf.toList.take n ++ ascii ((Nat.digits 10 v.toNat).map Nat.digitChar) := by
  induction hdigits : Nat.digits 10 v.toNat generalizing n v buf with
  | nil =>
    have hzero : v = 0 := UInt64.toNat_inj.mp (Nat.digits_eq_nil_iff_eq_zero.mp hdigits)
    refine ⟨buf, ?_, (List.append_nil _).symm⟩
    rw [decLoop, dif_neg (fun h => h.1 hzero)]
    rfl
  | cons d ds ih =>
    have hv : v.toNat ≠ 0 := by
      intro hzero
      rw [hzero, Nat.digits_zero] at hdigits
      cases hdigits
    have hv' : v ≠ 0 := fun h => hv (UInt64.toNat_inj.mpr h)
    rw [hdigits, List.length_cons] at hfit
    rw [Nat.digits_eq_cons_digits_div (by omega) hv] at hdigits
    obtain ⟨hd, hds⟩ := List.cons.inj hdigits
    have hdiv : (v / 10).toNat = v.toNat / 10 := UInt64.toNat_div v 10
    have hmod : (v % 10).toNat = d := (UInt64.toNat_mod v 10).trans hd
    have hdlt : (v % 10).toNat < 10 := by
      rw [hmod, ← hd]
      exact Nat.mod_lt _ (by omega)
    rw [← hdiv] at hds
    obtain ⟨buf₁, hstore, htake₁⟩ := buf.store_spec (show n < size by omega) (digit (v % 10))
    obtain ⟨buf₂, hrest, htake₂⟩ := @ih (n + 1) (v / 10) buf₁ (by rw [hds]; omega) hds
    have hlen : n + 1 + ds.length = n + (d :: ds).length := by
      rw [List.length_cons]
      omega
    rw [hlen] at hrest htake₂
    refine ⟨buf₂, ?_, ?_⟩
    · rw [decLoop, dif_pos ⟨hv', by omega⟩, hstore]
      exact hrest
    · rw [htake₂, htake₁, digit_eq hdlt, hmod, List.append_assoc]
      rfl

/-- Where the numeral fits the limit, the buffer holds all of it, last digit first. -/
theorem decLoop_collects {limit : ℕ} {v : UInt64} (hv : v ≠ 0) (hsize : limit ≤ size)
    (hfit : (Nat.toDigits 10 v.toNat).length ≤ limit) (buf : CharBuf size) :
    ∃ buf', decLoop limit 0 v buf = some ((Nat.toDigits 10 v.toNat).length, buf') ∧
      buf'.toList.take (Nat.toDigits 10 v.toNat).length =
        (ascii (Nat.toDigits 10 v.toNat)).reverse := by
  have hne : v.toNat ≠ 0 := fun h => hv (UInt64.toNat_inj.mp h)
  have hnumeral := toDigits_eq_reverse (show 1 < 10 by omega) hne
  have hcount : (Nat.toDigits 10 v.toNat).length = (Nat.digits 10 v.toNat).length := by
    rw [hnumeral, List.length_reverse, List.length_map]
  rw [hcount] at hfit ⊢
  obtain ⟨buf', hloop, htake⟩ := @decLoop_spec size limit 0 v buf hsize (by omega)
  rw [Nat.zero_add] at hloop htake
  refine ⟨buf', hloop, ?_⟩
  rw [htake, hnumeral, ascii_reverse, List.reverse_reverse]
  rfl

end Buffer

theorem chr_toInt {c : Char} (hc : c.isDigit = true) :
    (chr c).toInt = c.toNat ∧ 48 ≤ c.toNat ∧ c.toNat ≤ 57 := by
  have hrange : 48 ≤ c.toNat ∧ c.toNat ≤ 57 := by
    simpa [Char.isDigit, UInt32.le_iff_toNat_le] using hc
  have hall : ∀ n < 58, (UInt8.ofNat n).toInt8.toInt = n := by decide
  exact ⟨hall c.toNat (by omega), hrange⟩

theorem digitsValue_ascii {s : List Char} (hs : ∀ c ∈ s, c.isDigit = true) :
    digitsValue (ascii s) = Nat.ofDigitChars 10 s 0 := by
  suffices h : ∀ n, (ascii s).foldl (fun n c => 10 * n + (c.toInt.toNat - 48)) n =
      Nat.ofDigitChars 10 s n from h 0
  induction s with
  | nil => exact fun _ => rfl
  | cons c s ih =>
    rw [List.forall_mem_cons] at hs
    intro n
    rw [ascii_cons, List.foldl_cons, ih hs.2, Nat.ofDigitChars_cons, (chr_toInt hs.1).1]
    rfl

theorem isDigit_toDigits {n : ℕ} {c : Char} (hc : c ∈ Nat.toDigits 10 n) : c.isDigit = true :=
  Nat.isDigit_of_mem_toDigits (by omega) (by omega) hc

end Nadir
