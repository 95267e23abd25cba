import Mathlib.Data.Nat.Digits.Defs

/-!
# Numerals by division

A numeral comes out of a number lowest digit first, by dividing by the base until nothing is left,
or highest digit first, by dividing by ever smaller powers of the base. The second way has a fixed
width and pads with zeros.
-/

namespace Numeral

variable {b : ℕ}

theorem toDigits_eq_reverse (hb : 1 < b) {n : ℕ} (hn : n ≠ 0) :
    Nat.toDigits b n = ((Nat.digits b n).map Nat.digitChar).reverse := by
  induction n using Nat.strong_induction_on with
  | _ n ih =>
    rw [Nat.digits_eq_cons_digits_div hb hn, List.map_cons, List.reverse_cons,
      Nat.toDigits_eq_if hb]
    by_cases hlt : n < b
    · rw [if_pos hlt, Nat.mod_eq_of_lt hlt, Nat.div_eq_of_lt hlt, Nat.digits_zero]
      rfl
    · have hdiv : n / b ≠ 0 := Nat.div_ne_zero_iff.mpr ⟨by omega, Nat.le_of_not_lt hlt⟩
      rw [if_neg hlt, ih _ (Nat.div_lt_self (Nat.pos_of_ne_zero hn) hb) hdiv]

theorem toDigits_head_ne_zero (hb : 1 < b) {n : ℕ} (hn : n ≠ 0) :
    (Nat.toDigits b n).head? ≠ some '0' := by
  induction n using Nat.strong_induction_on with
  | _ n ih =>
    by_cases hlt : n < b
    · rw [Nat.toDigits_of_lt_base hlt]
      simpa using hn
    · have hdiv : n / b ≠ 0 := Nat.div_ne_zero_iff.mpr ⟨by omega, Nat.le_of_not_lt hlt⟩
      have hhead : (Nat.toDigits b (n / b) ++ [(n % b).digitChar]).head? =
          (Nat.toDigits b (n / b)).head? := by
        rw [List.head?_append, Option.or_of_isSome]
        exact List.isSome_head?.mpr Nat.toDigits_ne_nil
      rw [Nat.toDigits_of_base_le hb (Nat.le_of_not_lt hlt), hhead]
      exact ih (n / b) (Nat.div_lt_self (Nat.pos_of_ne_zero hn) hb) hdiv

/-- The `w` lowest digits, highest first. -/
def fixedDigits (b : ℕ) : ℕ → ℕ → List Char
  | 0, _ => []
  | w + 1, n => (n / b ^ w % b).digitChar :: fixedDigits b w n

@[simp] theorem length_fixedDigits (w n : ℕ) : (fixedDigits b w n).length = w := by
  induction w with
  | zero => rfl
  | succ w ih => rw [fixedDigits, List.length_cons, ih]

theorem fixedDigits_succ (w n : ℕ) :
    fixedDigits b (w + 1) n = fixedDigits b w (n / b) ++ [(n % b).digitChar] := by
  induction w with
  | zero => simp [fixedDigits]
  | succ w ih =>
    rw [fixedDigits, ih, fixedDigits, List.cons_append, Nat.div_div_eq_div_mul, pow_succ']

theorem mem_fixedDigits {w n : ℕ} {c : Char} (hb : 0 < b) (hc : c ∈ fixedDigits b w n) :
    ∃ d < b, c = d.digitChar := by
  induction w with
  | zero => cases hc
  | succ w ih =>
    rw [fixedDigits, List.mem_cons] at hc
    rcases hc with rfl | hc
    · exact ⟨_, Nat.mod_lt _ hb, rfl⟩
    · exact ih hc

theorem foldl_fixedDigits {α : Type*} (f : Char → α) (val : α → ℕ) (hb : 0 < b)
    (hval : ∀ d < b, val (f d.digitChar) = d) (w n m : ℕ) :
    ((fixedDigits b w n).map f).foldl (fun m c => b * m + val c) m = b ^ w * m + n % b ^ w := by
  induction w generalizing m with
  | zero => simp [fixedDigits, Nat.mod_one]
  | succ w ih =>
    rw [fixedDigits, List.map_cons, List.foldl_cons, ih, hval _ (Nat.mod_lt _ hb),
      Nat.mod_pow_succ, pow_succ, Nat.mul_add, Nat.mul_assoc]
    omega

theorem leftpad_append_singleton {α : Type*} (w : ℕ) (a c : α) (l : List α) :
    (l ++ [c]).leftpad (w + 1) a = l.leftpad w a ++ [c] := by
  rw [List.leftpad, List.leftpad, List.length_append, List.length_singleton,
    Nat.add_sub_add_right, List.append_assoc]

theorem fixedDigits_eq_leftpad (hb : 1 < b) {w n : ℕ} (hw : w ≠ 0) (hn : n < b ^ w) :
    fixedDigits b w n = (Nat.toDigits b n).leftpad w '0' := by
  induction w generalizing n with
  | zero => exact absurd rfl hw
  | succ w ih =>
    rw [fixedDigits_succ]
    rcases Nat.eq_zero_or_pos w with rfl | hpos
    · have hlt : n < b := by rwa [zero_add, pow_one] at hn
      rw [Nat.toDigits_of_lt_base hlt, Nat.mod_eq_of_lt hlt]
      rfl
    · have hdiv : n / b < b ^ w := by
        rw [Nat.div_lt_iff_lt_mul (by omega), ← pow_succ]
        exact hn
      rw [ih hpos.ne' hdiv, ← leftpad_append_singleton]
      by_cases hlt : n < b
      · have hzeros : (['0', n.digitChar] : List Char).leftpad (w + 1) '0' =
            [n.digitChar].leftpad (w + 1) '0' := by
          obtain ⟨k, rfl⟩ := Nat.exists_eq_succ_of_ne_zero hpos.ne'
          simp [List.leftpad, List.replicate_succ']
        rw [Nat.div_eq_of_lt hlt, Nat.toDigits_zero, Nat.mod_eq_of_lt hlt,
          Nat.toDigits_of_lt_base hlt]
        exact hzeros
      · rw [Nat.toDigits_of_base_le hb (Nat.le_of_not_lt hlt)]

theorem ofDigitChars_leftpad (w n : ℕ) :
    Nat.ofDigitChars 10 ((Nat.toDigits 10 n).leftpad w '0') 0 = n := by
  rw [List.leftpad, Nat.ofDigitChars_append, Nat.ofDigitChars_replicate_zero, Nat.mul_zero,
    Nat.ofDigitChars_ten_toDigits]

end Numeral
