import Nadir.Klog.Decimal

/-!
# The timestamp of a log line

The seconds are collected lowest digit first and printed from the end of the buffer, the fraction
is printed highest digit first. Together they are the decimal numeral of the ticks, and the field
reads back to the ticks it was printed for.
-/

namespace Nadir

open Numeral

def microDigits (t : ℕ) : List Char := (Nat.toDigits 10 (t % 100 * 10000)).leftpad 6 '0'

def timeField (t : ℕ) : List Char :=
  (Nat.toDigits 10 (t / 100) ++ '.' :: microDigits t).leftpad klogTimeWidth ' '

/-- The microseconds that a field shows. -/
def fieldMicros (s : List Int8) : ℕ :=
  let s := s.dropWhile (fun c => c = chr ' ')
  10 ^ 6 * digitsValue (s.takeWhile (fun c => c ≠ chr '.')) +
    digitsValue ((s.dropWhile (fun c => c ≠ chr '.')).drop 1)

theorem padLoop_eq (len : ℕ) : padLoop len = List.replicate (klogTimeWidth - len) (chr ' ') := by
  induction hpad : klogTimeWidth - len generalizing len with
  | zero =>
    rw [padLoop, if_neg (by omega)]
    rfl
  | succ k ih =>
    rw [padLoop, if_pos (by omega), ih (len + 1) (by omega)]
    rfl

theorem tenPow_toNat {k : ℕ} (hk : k < 20) : (UInt64.ofNat (10 ^ k)).toNat = 10 ^ k := by
  have hle : 10 ^ k ≤ 10 ^ 19 := Nat.pow_le_pow_right (by omega) (Nat.le_of_lt_succ hk)
  rw [UInt64.toNat_ofNat', Nat.mod_eq_of_lt]
  omega

theorem fracLoop_zero (frac : UInt64) : fracLoop frac 0 = [] := by
  rw [fracLoop, dif_neg (by decide)]

theorem fracLoop_tenPow (frac : UInt64) {k : ℕ} (hk : k < 20) :
    fracLoop frac (UInt64.ofNat (10 ^ k)) =
      chr (Nat.digitChar (frac.toNat / 10 ^ k % 10)) ::
        fracLoop frac (UInt64.ofNat (10 ^ k) / 10) := by
  have hpos : UInt64.ofNat (10 ^ k) > 0 := by
    rw [gt_iff_lt, UInt64.lt_iff_toNat_lt, tenPow_toNat hk]
    exact Nat.pow_pos (by omega)
  have hvalue : (frac / UInt64.ofNat (10 ^ k) % 10).toNat = frac.toNat / 10 ^ k % 10 := by
    rw [UInt64.toNat_mod, UInt64.toNat_div, tenPow_toNat hk]
    rfl
  have hlt : (frac / UInt64.ofNat (10 ^ k) % 10).toNat < 10 := by
    rw [hvalue]
    exact Nat.mod_lt _ (by omega)
  rw [fracLoop, dif_pos hpos, digit_eq hlt, hvalue]

theorem fracLoop_eq (frac : UInt64) {k : ℕ} (hk : k < 20) :
    fracLoop frac (UInt64.ofNat (10 ^ k)) = ascii (fixedDigits 10 (k + 1) frac.toNat) := by
  induction k with
  | zero =>
    have hend : UInt64.ofNat (10 ^ 0) / 10 = 0 := by decide
    rw [fracLoop_tenPow frac hk, hend, fracLoop_zero]
    rfl
  | succ k ih =>
    have hnext : UInt64.ofNat (10 ^ (k + 1)) / 10 = UInt64.ofNat (10 ^ k) := by
      rw [← UInt64.toNat_inj, UInt64.toNat_div, tenPow_toNat hk,
        tenPow_toNat (Nat.lt_of_succ_lt hk), pow_succ]
      exact Nat.mul_div_cancel _ (by omega)
    rw [fracLoop_tenPow frac hk, hnext, ih (Nat.lt_of_succ_lt hk)]
    rfl

theorem seconds_collected (secs : UInt64) (hsecs : secs.toNat < 10 ^ 20) (num : CharBuf 22) :
    ∃ buf, (if secs = 0 then (num.store 0 (chr '0')).map fun num => (1, num)
        else decLoop 20 0 secs num) = some ((Nat.toDigits 10 secs.toNat).length, buf) ∧
      (Nat.toDigits 10 secs.toNat).length ≤ 20 ∧
      buf.toList.take (Nat.toDigits 10 secs.toNat).length =
        (ascii (Nat.toDigits 10 secs.toNat)).reverse := by
  have hlen : (Nat.toDigits 10 secs.toNat).length ≤ 20 :=
    (Nat.length_toDigits_le_iff (by omega) (by omega)).mpr hsecs
  by_cases hzero : secs = 0
  · obtain ⟨buf, hstore, htake⟩ := num.store_spec (Nat.succ_pos 21) (chr '0')
    subst hzero
    rw [if_pos rfl, hstore]
    exact ⟨buf, rfl, by decide, htake⟩
  · obtain ⟨buf, hloop, htake⟩ := decLoop_collects hzero (show 20 ≤ 22 by omega) hlen num
    rw [if_neg hzero]
    exact ⟨buf, hloop, hlen, htake⟩

theorem microDigits_eq (t : ℕ) : microDigits t = fixedDigits 10 6 (t % 100 * 10000) :=
  (fixedDigits_eq_leftpad (by omega) (by omega) (by omega)).symm

theorem length_microDigits (t : ℕ) : (microDigits t).length = 6 := by
  rw [microDigits_eq, length_fixedDigits]

theorem klogPrefix_eq (ticks : UInt64) (subsystem : List Int8) (num : CharBuf 22) :
    klogPrefix ticks subsystem num =
      some (ascii ('[' :: timeField ticks.toNat ++ [']', ' ']) ++ cString subsystem ++
        ascii [':', ' ']) := by
  have hticks := ticks.toNat_lt
  have hsecs : (ticks / pitHz).toNat = ticks.toNat / 100 := UInt64.toNat_div ticks pitHz
  have hfrac : (ticks % pitHz * 10000).toNat = ticks.toNat % 100 * 10000 := by
    have hmod : (ticks % pitHz).toNat = ticks.toNat % 100 := UInt64.toNat_mod ticks pitHz
    rw [UInt64.toNat_mul, hmod]
    simp only [UInt64.reduceToNat]
    omega
  have hloop := fracLoop_eq (ticks % pitHz * 10000) (show 5 < 20 by omega)
  rw [hfrac, ← microDigits_eq] at hloop
  have hbound : (ticks / pitHz).toNat < 10 ^ 20 := by
    rw [hsecs]
    omega
  obtain ⟨buf, hcollect, hlen, htake⟩ := seconds_collected (ticks / pitHz) hbound num
  rw [hsecs] at hcollect hlen htake
  have hprint := printDown_eq buf (hlen.trans (by omega))
  rw [htake, List.reverse_reverse] at hprint
  have hpad : padLoop ((Nat.toDigits 10 (ticks.toNat / 100)).length + 7) =
      List.replicate (klogTimeWidth -
        (Nat.toDigits 10 (ticks.toNat / 100) ++ '.' :: microDigits ticks.toNat).length)
        (chr ' ') := by
    rw [padLoop_eq, List.length_append, List.length_cons, length_microDigits]
  have hdiv : UInt64.ofNat (10 ^ 5) = 100000 := by decide
  rw [hdiv] at hloop
  rw [klogPrefix, hcollect, Option.bind_some]
  dsimp only
  rw [hprint, Option.map_some, hloop, hpad]
  simp [timeField, List.leftpad]

/-! Reading a field back. -/

theorem chr_ne_of_isDigit {c : Char} (hc : c.isDigit = true) :
    chr c ≠ chr ' ' ∧ chr c ≠ chr '.' := by
  obtain ⟨hvalue, hlo, _⟩ := chr_toInt hc
  have hspace : (chr ' ').toInt = 32 := rfl
  have hpoint : (chr '.').toInt = 46 := rfl
  constructor
  · intro h
    rw [h, hspace] at hvalue
    omega
  · intro h
    rw [h, hpoint] at hvalue
    omega

theorem isDigit_microDigits {t : ℕ} {c : Char} (hc : c ∈ microDigits t) : c.isDigit = true := by
  rw [microDigits, List.leftpad, List.mem_append] at hc
  rcases hc with hzero | hdigit
  · rw [List.eq_of_mem_replicate hzero]
    rfl
  · exact isDigit_toDigits hdigit

theorem dropSpaces_timeField (t : ℕ) :
    (ascii (timeField t)).dropWhile (fun c => c = chr ' ') =
      ascii (Nat.toDigits 10 (t / 100)) ++ chr '.' :: ascii (microDigits t) := by
  obtain ⟨c, s, hfirst⟩ := List.exists_cons_of_ne_nil (@Nat.toDigits_ne_nil (t / 100) 10)
  have hmem : c ∈ Nat.toDigits 10 (t / 100) := hfirst ▸ List.mem_cons_self
  have hdigit := isDigit_toDigits hmem
  rw [timeField, List.leftpad, ascii_append, ascii_replicate, List.dropWhile_append_of_pos,
    ascii_append, ascii_cons, hfirst, ascii_cons, List.cons_append, List.dropWhile_cons_of_neg]
  · simpa using (chr_ne_of_isDigit hdigit).1
  · intro a ha
    simpa using List.eq_of_mem_replicate ha

theorem fieldMicros_timeField (t : ℕ) : 100 * fieldMicros (ascii (timeField t)) = 10 ^ 6 * t := by
  have hpoint : ∀ ch ∈ ascii (Nat.toDigits 10 (t / 100)), decide (ch ≠ chr '.') = true := by
    intro ch hch
    obtain ⟨c, hc, rfl⟩ := List.mem_map.mp hch
    exact decide_eq_true (chr_ne_of_isDigit (isDigit_toDigits hc)).2
  have hbefore : (ascii (Nat.toDigits 10 (t / 100)) ++ chr '.' :: ascii (microDigits t)).takeWhile
      (fun ch => ch ≠ chr '.') = ascii (Nat.toDigits 10 (t / 100)) := by
    rw [List.takeWhile_append_of_pos hpoint]
    simp
  have hbehind : (ascii (Nat.toDigits 10 (t / 100)) ++ chr '.' :: ascii (microDigits t)).dropWhile
      (fun ch => ch ≠ chr '.') = chr '.' :: ascii (microDigits t) := by
    rw [List.dropWhile_append_of_pos hpoint]
    simp
  have hsecs := @digitsValue_ascii (Nat.toDigits 10 (t / 100)) (fun _ => isDigit_toDigits)
  have hfrac := @digitsValue_ascii (microDigits t) (fun _ => isDigit_microDigits)
  rw [Nat.ofDigitChars_ten_toDigits] at hsecs
  rw [microDigits, ofDigitChars_leftpad, ← microDigits] at hfrac
  rw [fieldMicros, dropSpaces_timeField, hbefore, hbehind, List.drop_one, List.tail_cons, hsecs,
    hfrac]
  omega

/-- For every tick count `klog_prefix` prints the padded numeral of the seconds, a point and six
digits; the field reads back to the ticks, so no two tick counts share one. -/
theorem klogPrefix_exact (ticks : UInt64) (subsystem : List Int8) (num : CharBuf 22) :
    klogPrefix ticks subsystem num =
      some (ascii ('[' :: timeField ticks.toNat ++ [']', ' ']) ++ cString subsystem ++
        ascii [':', ' ']) ∧
    (microDigits ticks.toNat).length = 6 ∧
    100 * fieldMicros (ascii (timeField ticks.toNat)) = 10 ^ 6 * ticks.toNat ∧
    ∀ ticks' : UInt64,
      ascii (timeField ticks.toNat) = ascii (timeField ticks'.toNat) → ticks = ticks' := by
  refine ⟨klogPrefix_eq ticks subsystem num, length_microDigits _, fieldMicros_timeField _,
    fun ticks' hsame => ?_⟩
  have hread := fieldMicros_timeField ticks.toNat
  rw [hsame, fieldMicros_timeField] at hread
  exact UInt64.toNat_inj.mp (by omega)

end Nadir
