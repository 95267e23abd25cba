import Mathlib.Data.List.Basic
import Mathlib.Logic.Function.Iterate

/-!
# Runs of a labelled transition system

`Steps step s as t` is a run from `s` to `t` with the labels `as`. A property that every step
with a label in `P` keeps is kept by every run whose labels all lie in `P`. A deterministic system
is a step function; a run of it that has come to rest is the only one that has.
-/

namespace Transition

variable {σ α : Type*}

inductive Steps (step : σ → α → σ → Prop) : σ → List α → σ → Prop
  | nil (s : σ) : Steps step s [] s
  | cons {s t u : σ} {a : α} {as : List α} (hstep : step s a t) (hrest : Steps step t as u) :
      Steps step s (a :: as) u

namespace Steps

variable {step : σ → α → σ → Prop} {s t u : σ} {as bs : List α}

theorem invariant_of_labels {I : σ → Prop} {P : α → Prop}
    (hI : ∀ s a t, I s → P a → step s a t → I t) (h : Steps step s as t) (hs : I s)
    (hP : ∀ a ∈ as, P a) : I t := by
  induction h with
  | nil s => exact hs
  | cons hstep _ ih =>
    rw [List.forall_mem_cons] at hP
    exact ih (hI _ _ _ hs hP.1 hstep) hP.2

theorem invariant {I : σ → Prop} (hI : ∀ s a t, I s → step s a t → I t)
    (h : Steps step s as t) (hs : I s) : I t :=
  @invariant_of_labels _ _ _ _ _ _ I (fun _ => True) (fun s a t h _ => hI s a t h) h hs
    (fun _ _ => trivial)

theorem append (h : Steps step s as t) (h' : Steps step t bs u) : Steps step s (as ++ bs) u := by
  induction h with
  | nil s => exact h'
  | cons hstep _ ih => exact .cons hstep (ih h')

theorem append_inv (h : Steps step s (as ++ bs) u) :
    ∃ t, Steps step s as t ∧ Steps step t bs u := by
  induction as generalizing s with
  | nil => exact ⟨s, .nil s, h⟩
  | cons a as ih =>
    cases h with
    | cons hstep hrest =>
      obtain ⟨t, hfirst, hlast⟩ := ih hrest
      exact ⟨t, .cons hstep hfirst, hlast⟩

end Steps

theorem iterate_eq_of_fixed {f : σ → σ} {x : σ} {j k : ℕ} (hj : f (f^[j] x) = f^[j] x)
    (hk : f (f^[k] x) = f^[k] x) : f^[j] x = f^[k] x := by
  rcases Nat.le_total j k with hle | hle
  · have hstay := Function.iterate_fixed hj (k - j)
    rw [← Function.iterate_add_apply, Nat.sub_add_cancel hle] at hstay
    exact hstay.symm
  · have hstay := Function.iterate_fixed hk (j - k)
    rw [← Function.iterate_add_apply, Nat.sub_add_cancel hle] at hstay
    exact hstay

end Transition
