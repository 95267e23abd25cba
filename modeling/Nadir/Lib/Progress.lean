import Nadir.Lib.Transition

/-!
# Progress under fair schedules

Some of the labels help in a state: a step with such a label does a part of the work that is left.
No other step adds work, and one that does none of it leaves the labels that help as they are. A run
that keeps coming back to all of the labels then comes to its end.
-/

namespace Transition

variable {σ α : Type*}

/-- The labels contain `n` rounds, one behind the other. -/
inductive Rounds (round : List α → Prop) : ℕ → List α → Prop
  | zero (as : List α) : Rounds round 0 as
  | succ {n : ℕ} {as bs : List α} (hround : round as) (hrest : Rounds round n bs) :
      Rounds round (n + 1) (as ++ bs)

/-- Within the invariant `I` and under the labels in `P` the work comes to an end. -/
structure Progress (step : σ → α → σ → Prop) (I : σ → Prop) (P : α → Prop) (done : σ → Prop)
    (helps : σ → α → Prop) (work : σ → ℕ) : Prop where
  keeps : ∀ {s a t}, I s → P a → step s a t → I t
  stays : ∀ {s a t}, I s → P a → step s a t → done s → done t
  advances : ∀ {s a t}, I s → P a → step s a t → ¬done s →
    work t < work s ∨ work t = work s ∧ ¬helps s a ∧ ∀ b, helps s b → helps t b

namespace Progress

variable {step : σ → α → σ → Prop} {I : σ → Prop} {P : α → Prop} {done : σ → Prop}
  {helps : σ → α → Prop} {work : σ → ℕ} {round : List α → Prop} {s t : σ} {as : List α}

theorem done_of_steps (h : Progress step I P done helps work) (hsteps : Steps step s as t)
    (hs : I s) (hP : ∀ a ∈ as, P a) (hdone : done s) : done t := by
  have hall : I t ∧ done t := by
    refine hsteps.invariant_of_labels (I := fun s => I s ∧ done s) ?_ ⟨hs, hdone⟩ hP
    intro s a t hs ha hstep
    exact ⟨h.keeps hs.1 ha hstep, h.stays hs.1 ha hstep hs.2⟩
  exact hall.2

theorem work_le (h : Progress step I P done helps work) (hsteps : Steps step s as t)
    (hs : I s) (hP : ∀ a ∈ as, P a) : done t ∨ work t ≤ work s := by
  induction hsteps with
  | nil s => exact Or.inr (Nat.le_refl _)
  | @cons s u t a as hstep hrest ih =>
    rw [List.forall_mem_cons] at hP
    have hu := h.keeps hs hP.1 hstep
    by_cases hdone : done s
    · exact Or.inl (h.done_of_steps hrest hu hP.2 (h.stays hs hP.1 hstep hdone))
    · have hle : work u ≤ work s :=
        (h.advances hs hP.1 hstep hdone).elim Nat.le_of_lt fun h => Nat.le_of_eq h.1
      exact (ih hu hP.2).imp_right fun hrest => Nat.le_trans hrest hle

theorem work_lt (h : Progress step I P done helps work) (hsteps : Steps step s as t)
    (hs : I s) (hP : ∀ a ∈ as, P a) (hhelps : ∃ a ∈ as, helps s a) :
    done t ∨ work t < work s := by
  induction hsteps with
  | nil s =>
    obtain ⟨a, ha, _⟩ := hhelps
    cases ha
  | @cons s u t a as hstep hrest ih =>
    rw [List.forall_mem_cons] at hP
    have hu := h.keeps hs hP.1 hstep
    by_cases hdone : done s
    · exact Or.inl (h.done_of_steps hrest hu hP.2 (h.stays hs hP.1 hstep hdone))
    rcases h.advances hs hP.1 hstep hdone with hlt | ⟨hsame, hnot, hkeep⟩
    · exact (h.work_le hrest hu hP.2).imp_right fun hle => Nat.lt_of_le_of_lt hle hlt
    · obtain ⟨b, hb, hbhelps⟩ := hhelps
      have hbrest : b ∈ as := (List.mem_cons.mp hb).resolve_left fun heq => hnot (heq ▸ hbhelps)
      rw [← hsame]
      exact ih hu hP.2 ⟨b, hbrest, hkeep b hbhelps⟩

/-- After more rounds than there was work the run has come to its end. -/
theorem done_of_rounds (h : Progress step I P done helps work)
    (hround : ∀ s as, I s → round as → ¬done s → ∃ a ∈ as, helps s a) {n : ℕ}
    (hrounds : Rounds round n as) (hsteps : Steps step s as t) (hs : I s) (hP : ∀ a ∈ as, P a)
    (hn : work s < n) : done t := by
  induction hrounds generalizing s with
  | zero as => exact absurd hn (Nat.not_lt_zero _)
  | @succ n as bs hfirst _ ih =>
    obtain ⟨u, hsu, hut⟩ := hsteps.append_inv
    rw [List.forall_mem_append] at hP
    have hu : I u := hsu.invariant_of_labels (fun _ _ _ => h.keeps) hs hP.1
    by_cases hdone : done s
    · exact h.done_of_steps hut hu hP.2 (h.done_of_steps hsu hs hP.1 hdone)
    rcases h.work_lt hsu hs hP.1 (hround s as hs hfirst hdone) with hdone' | hlt
    · exact h.done_of_steps hut hu hP.2 hdone'
    · exact ih hut hu hP.2 (by omega)

end Progress

theorem Steps.foldl (f : σ → α → σ) (s : σ) (as : List α) :
    Steps (fun s a t => t = f s a) s as (as.foldl f s) := by
  induction as generalizing s with
  | nil => exact .nil s
  | cons a as ih => exact .cons rfl (ih (f s a))

end Transition
