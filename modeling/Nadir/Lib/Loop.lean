import Mathlib.Order.Interval.Finset.Nat

/-!
# Counted loops

`forLoop lo hi body s` runs `body lo`, `body (lo + 1)`, ..., `body (hi - 1)` on the state `s`,
which is the C loop `for (i = lo; i < hi; i++)`. The state at the loop's iteration boundary `k`
is `forLoop lo k body s`, so a fact proved for every upper bound is a fact about every boundary.

Loops whose body adds one index to a set, or removes one from it, add or remove the whole
interval of indices.
-/

namespace CountedLoop

variable {σ τ : Type*}

def forLoop (lo hi : ℕ) (body : ℕ → σ → σ) (s : σ) : σ :=
  (List.range' lo (hi - lo)).foldl (fun s i => body i s) s

@[simp] theorem forLoop_self (lo : ℕ) (body : ℕ → σ → σ) (s : σ) : forLoop lo lo body s = s := by
  simp [forLoop]

theorem forLoop_of_le {lo hi : ℕ} (h : hi ≤ lo) (body : ℕ → σ → σ) (s : σ) :
    forLoop lo hi body s = s := by
  simp [forLoop, Nat.sub_eq_zero_of_le h]

theorem forLoop_succ {lo hi : ℕ} (h : lo ≤ hi) (body : ℕ → σ → σ) (s : σ) :
    forLoop lo (hi + 1) body s = body hi (forLoop lo hi body s) := by
  have hsub : hi + 1 - lo = (hi - lo) + 1 := by omega
  have hadd : lo + (hi - lo) = hi := by omega
  simp only [forLoop, hsub, List.range'_1_concat, List.foldl_append, List.foldl_cons,
    List.foldl_nil, hadd]

/-- The invariant rule: `P i` holds at the boundary before iteration `i`. -/
theorem forLoop_induction {lo hi : ℕ} {body : ℕ → σ → σ} {s : σ} (P : ℕ → σ → Prop)
    (hle : lo ≤ hi) (hstart : P lo s)
    (hstep : ∀ i t, lo ≤ i → i < hi → P i t → P (i + 1) (body i t)) :
    P hi (forLoop lo hi body s) := by
  induction hi, hle using Nat.le_induction with
  | base => simpa using hstart
  | succ hi hle ih =>
    rw [forLoop_succ hle]
    exact hstep hi _ hle (Nat.lt_succ_self hi)
      (ih (fun i t hlo hhi => hstep i t hlo (Nat.lt_succ_of_lt hhi)))

theorem forLoop_inv {lo hi : ℕ} {body : ℕ → σ → σ} {s : σ} (P : σ → Prop) (hstart : P s)
    (hstep : ∀ i t, lo ≤ i → i < hi → P t → P (body i t)) : P (forLoop lo hi body s) := by
  rcases le_total lo hi with hle | hle
  · exact forLoop_induction (fun _ t => P t) hle hstart hstep
  · rwa [forLoop_of_le hle]

/-- Two loops whose bodies correspond under `f` end in states that correspond under `f`. -/
theorem forLoop_map {lo hi : ℕ} {body : ℕ → σ → σ} {body' : ℕ → τ → τ} {s : σ} (f : σ → τ)
    (hstep : ∀ i t, lo ≤ i → i < hi → f (body i t) = body' i (f t)) :
    f (forLoop lo hi body s) = forLoop lo hi body' (f s) := by
  rcases le_total lo hi with hle | hle
  · induction hi, hle using Nat.le_induction with
    | base => simp
    | succ hi hle ih =>
      rw [forLoop_succ hle, forLoop_succ hle, hstep hi _ hle (Nat.lt_succ_self hi),
        ih (fun i t hlo hhi => hstep i t hlo (Nat.lt_succ_of_lt hhi))]
  · rw [forLoop_of_le hle, forLoop_of_le hle]

theorem forLoop_insert (lo hi : ℕ) (S : Finset ℕ) :
    forLoop lo hi (fun i T => insert i T) S = S ∪ Finset.Ico lo hi := by
  rcases le_total lo hi with hle | hle
  · induction hi, hle using Nat.le_induction with
    | base => simp
    | succ hi hle ih =>
      rw [forLoop_succ hle, ih]
      ext x
      simp only [Finset.mem_insert, Finset.mem_union, Finset.mem_Ico]
      by_cases hx : x ∈ S
      · simp only [hx, true_or, or_true]
      · simp only [hx, false_or]
        omega
  · rw [forLoop_of_le hle, Finset.Ico_eq_empty_of_le hle, Finset.union_empty]

theorem forLoop_erase (lo hi : ℕ) (S : Finset ℕ) :
    forLoop lo hi (fun i T => T.erase i) S = S \ Finset.Ico lo hi := by
  rcases le_total lo hi with hle | hle
  · induction hi, hle using Nat.le_induction with
    | base => simp
    | succ hi hle ih =>
      rw [forLoop_succ hle, ih]
      ext x
      simp only [Finset.mem_erase, Finset.mem_sdiff, Finset.mem_Ico]
      by_cases hx : x ∈ S
      · simp only [hx, true_and]
        omega
      · simp only [hx, false_and, and_false]
  · rw [forLoop_of_le hle, Finset.Ico_eq_empty_of_le hle, Finset.sdiff_empty]

theorem mem_forLoop_union {α : Type*} [DecidableEq α] (n : ℕ) (A : ℕ → Finset α) (S : Finset α)
    (x : α) : x ∈ forLoop 0 n (fun i T => T ∪ A i) S ↔ x ∈ S ∨ ∃ i < n, x ∈ A i := by
  induction n with
  | zero => simp
  | succ n ih =>
    rw [forLoop_succ (Nat.zero_le n), Finset.mem_union, ih, or_assoc]
    simp only [Nat.lt_succ_iff_lt_or_eq, or_and_right, exists_or, exists_eq_left]

theorem mem_forLoop_sdiff {α : Type*} [DecidableEq α] (n : ℕ) (A : ℕ → Finset α) (S : Finset α)
    (x : α) : x ∈ forLoop 0 n (fun i T => T \ A i) S ↔ x ∈ S ∧ ∀ i < n, x ∉ A i := by
  induction n with
  | zero => simp
  | succ n ih =>
    rw [forLoop_succ (Nat.zero_le n), Finset.mem_sdiff, ih, and_assoc]
    simp only [Nat.lt_succ_iff_lt_or_eq, or_imp, forall_and, forall_eq]

end CountedLoop
