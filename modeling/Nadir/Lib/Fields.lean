import Mathlib.Data.List.Basic

/-!
# Text in fields and records

A field ends before the first occurrence of its separator, and a text falls into the records that a
terminator ends. What was put together from parts without the separator comes apart again into the
same parts.
-/

namespace Fields

variable {α : Type*} [DecidableEq α]

/-- The text up to the first `sep`. -/
def before (sep : α) (s : List α) : List α := s.takeWhile (fun c => c ≠ sep)

def behind (sep : α) (s : List α) : List α := (s.dropWhile (fun c => c ≠ sep)).tail

/-- The records of a text, each ended by `sep`; what is left behind the last one is a record too. -/
def records (sep : α) : List α → List (List α)
  | [] => []
  | c :: s =>
    if c = sep then [] :: records sep s
    else match records sep s with
      | [] => [[c]]
      | r :: rs => (c :: r) :: rs

variable {sep : α} {xs : List α}

theorem before_append (h : sep ∉ xs) (ys : List α) : before sep (xs ++ sep :: ys) = xs := by
  have hall : ∀ c ∈ xs, decide (c ≠ sep) = true := by
    intro c hc
    exact decide_eq_true fun heq => h (heq ▸ hc)
  rw [before, List.takeWhile_append_of_pos hall, List.takeWhile_cons_of_neg (by simp),
    List.append_nil]

theorem behind_append (h : sep ∉ xs) (ys : List α) : behind sep (xs ++ sep :: ys) = ys := by
  have hall : ∀ c ∈ xs, decide (c ≠ sep) = true := by
    intro c hc
    exact decide_eq_true fun heq => h (heq ▸ hc)
  rw [behind, List.dropWhile_append_of_pos hall, List.dropWhile_cons_of_neg (by simp)]
  rfl

theorem records_append (h : sep ∉ xs) (ys : List α) :
    records sep (xs ++ sep :: ys) = xs :: records sep ys := by
  induction xs with
  | nil => exact if_pos rfl
  | cons c xs ih =>
    rw [List.mem_cons, not_or] at h
    rw [List.cons_append, records, if_neg (Ne.symm h.1), ih h.2]

theorem records_flatMap {β : Type*} (f : β → List α) (bs : List β) (h : ∀ b ∈ bs, sep ∉ f b) :
    records sep (bs.flatMap fun b => f b ++ [sep]) = bs.map f := by
  induction bs with
  | nil => rfl
  | cons b bs ih =>
    rw [List.forall_mem_cons] at h
    rw [List.flatMap_cons, List.append_assoc, List.singleton_append, records_append h.1, ih h.2]
    rfl

end Fields
