import Nadir.Lib.Tiling

/-!
# First-fit allocation over runs

An arena is an interval tiled by free and live runs. `fit` takes the first free run that is long
enough, whole or cut in front, and leaves the remainder in its place; releasing puts a live run
at the head of the free list. Both keep the tiling.
-/

namespace Tiling

/-- The run taken for `need` cells and the free list that remains. -/
def fit (need : ℕ) : List Run → Option (Run × List Run)
  | [] => none
  | r :: rs =>
    if need ≤ r.len then
      some (⟨r.start, need⟩,
        if need < r.len then ⟨r.start + need, r.len - need⟩ :: rs else rs)
    else (fit need rs).map (fun p => (p.1, r :: p.2))

theorem fit_cons_of_lt {need : ℕ} {r : Run} (h : r.len < need) (rs : List Run) :
    fit need (r :: rs) = (fit need rs).map (fun p => (p.1, r :: p.2)) :=
  if_neg (Nat.not_le_of_lt h)

theorem fit_len {need : ℕ} {rs rest : List Run} {r : Run} (h : fit need rs = some (r, rest)) :
    r.len = need := by
  induction rs generalizing rest with
  | nil => cases h
  | cons s rs ih =>
    by_cases hfit : need ≤ s.len
    · rw [fit, if_pos hfit] at h
      cases h
      rfl
    · rw [fit, if_neg hfit, Option.map_eq_some_iff] at h
      obtain ⟨p, hp, heq⟩ := h
      cases heq
      exact ih hp

theorem fit_eq_none_iff {need : ℕ} {rs : List Run} :
    fit need rs = none ↔ ∀ r ∈ rs, r.len < need := by
  induction rs with
  | nil => simp [fit]
  | cons s rs ih =>
    rw [List.forall_mem_cons, ← ih]
    by_cases hfit : need ≤ s.len
    · rw [fit, if_pos hfit]
      simp [Nat.not_lt.mpr hfit]
    · rw [fit, if_neg hfit, Option.map_eq_none_iff]
      simp [Nat.lt_of_not_le hfit]

/-- The first run that fits is cut in its place, or leaves the list when it fits exactly. -/
theorem fit_append_cons {need : ℕ} {before after : List Run} {r : Run}
    (hbefore : ∀ q ∈ before, q.len < need) (hr : need ≤ r.len) :
    fit need (before ++ r :: after) = some (⟨r.start, need⟩, before ++
      ((if r.len = need then [] else [⟨r.start + need, r.len - need⟩]) ++ after)) := by
  induction before with
  | nil =>
    rw [List.nil_append, List.nil_append, fit, if_pos hr]
    by_cases hexact : r.len = need
    · rw [if_pos hexact, if_neg (by omega), List.nil_append]
    · rw [if_neg hexact, if_pos (by omega), List.singleton_append]
  | cons q before ih =>
    rw [List.forall_mem_cons] at hbefore
    rw [List.cons_append, fit_cons_of_lt hbefore.1, ih hbefore.2]
    rfl

theorem fit_starts {need : ℕ} {rs rest : List Run} {t : Run} (h : fit need rs = some (t, rest))
    {r : Run} (hr : r ∈ rs) : ∃ q ∈ t :: rest, q.start = r.start := by
  induction rs generalizing rest with
  | nil => cases h
  | cons s rs ih =>
    by_cases hfit : need ≤ s.len
    · rw [fit, if_pos hfit] at h
      cases h
      rcases List.mem_cons.mp hr with rfl | hr
      · exact ⟨_, List.mem_cons_self, rfl⟩
      · apply Exists.intro r
        refine ⟨List.mem_cons_of_mem _ ?_, rfl⟩
        split_ifs
        · exact List.mem_cons_of_mem _ hr
        · exact hr
    · rw [fit, if_neg hfit, Option.map_eq_some_iff] at h
      obtain ⟨p, hp, heq⟩ := h
      cases heq
      rcases List.mem_cons.mp hr with rfl | hr
      · exact ⟨r, List.mem_cons_of_mem _ List.mem_cons_self, rfl⟩
      · obtain ⟨q, hq, hstart⟩ := ih hp hr
        rcases List.mem_cons.mp hq with rfl | hq
        · exact ⟨_, List.mem_cons_self, hstart⟩
        · exact ⟨q, List.mem_cons_of_mem _ (List.mem_cons_of_mem _ hq), hstart⟩

/-- Taking a run from the free list keeps the tiling, with the taken run among the live ones. -/
theorem Tiles.fit {lo n need : ℕ} {rs rest live : List Run} {r : Run}
    (ht : Tiles lo n (rs ++ live)) (hneed : 0 < need) (h : Tiling.fit need rs = some (r, rest)) :
    Tiles lo n (rest ++ r :: live) := by
  induction rs generalizing rest live with
  | nil => cases h
  | cons s rs ih =>
    by_cases hfit : need ≤ s.len
    · rw [Tiling.fit, if_pos hfit] at h
      cases h
      by_cases hcut : need < s.len
      · rw [if_pos hcut]
        exact (ht.split hneed hcut).perm
          (@List.perm_middle _ _ (⟨s.start + need, s.len - need⟩ :: rs) live).symm
      · have hlen : need = s.len := by omega
        rw [if_neg hcut, hlen]
        exact ht.perm List.perm_middle.symm
    · rw [Tiling.fit, if_neg hfit, Option.map_eq_some_iff] at h
      obtain ⟨p, hp, heq⟩ := h
      cases heq
      have hmoved : Tiles lo n (rs ++ s :: live) := ht.perm List.perm_middle.symm
      have hrest := ih hmoved hp
      apply hrest.perm
      calc (p.2 ++ p.1 :: s :: live).Perm (p.2 ++ s :: p.1 :: live) :=
            (List.Perm.swap _ _ _).append_left _
        List.Perm _ (s :: (p.2 ++ p.1 :: live)) := List.perm_middle

/-- Runs are cut and never joined: a bound on the lengths stays one. -/
theorem fit_len_le {need m : ℕ} {rs rest : List Run} {t : Run}
    (h : fit need rs = some (t, rest)) (hm : ∀ r ∈ rs, r.len ≤ m) :
    t.len ≤ m ∧ ∀ r ∈ rest, r.len ≤ m := by
  induction rs generalizing rest with
  | nil => cases h
  | cons s rs ih =>
    rw [List.forall_mem_cons] at hm
    by_cases hfit : need ≤ s.len
    · rw [fit, if_pos hfit] at h
      cases h
      refine ⟨hfit.trans hm.1, fun r hr => ?_⟩
      split_ifs at hr
      · rcases List.mem_cons.mp hr with rfl | hr
        · exact (Nat.sub_le _ _).trans hm.1
        · exact hm.2 r hr
      · exact hm.2 r hr
    · rw [fit, if_neg hfit, Option.map_eq_some_iff] at h
      obtain ⟨p, hp, heq⟩ := h
      cases heq
      obtain ⟨htaken, hrest⟩ := ih hp hm.2
      exact ⟨htaken, List.forall_mem_cons.mpr ⟨hm.1, hrest⟩⟩

/-- An interval tiled by free and live runs. -/
structure Arena (lo n : ℕ) where
  free : List Run
  live : List Run
  tiles : Tiles lo n (free ++ live)

namespace Arena

variable {lo n : ℕ}

def start (hn : 0 < n) : Arena lo n := ⟨[⟨lo, n⟩], [], Tiles.single hn⟩

def empty (lo : ℕ) : Arena lo 0 := ⟨[], [], Tiles.nil lo⟩

def alloc (a : Arena lo n) {need : ℕ} (hneed : 0 < need) {r : Run} {rest : List Run}
    (h : fit need a.free = some (r, rest)) : Arena lo n :=
  ⟨rest, r :: a.live, a.tiles.fit hneed h⟩

def release (a : Arena lo n) (r : Run) (h : r ∈ a.live) : Arena lo n where
  free := r :: a.free
  live := a.live.erase r
  tiles := a.tiles.perm <| calc
    (a.free ++ a.live).Perm (a.free ++ r :: a.live.erase r) :=
      (List.perm_cons_erase h).append_left _
    List.Perm _ (r :: (a.free ++ a.live.erase r)) := List.perm_middle

variable (a : Arena lo n)

theorem totalLen_free_add_live : totalLen a.free + totalLen a.live = n := by
  rw [← totalLen_append, a.tiles.totalLen_eq]

theorem bounds_free {r : Run} (hr : r ∈ a.free) : lo ≤ r.start ∧ r.start + r.len ≤ lo + n :=
  a.tiles.bounds (List.mem_append_left _ hr)

theorem bounds_live {r : Run} (hr : r ∈ a.live) : lo ≤ r.start ∧ r.start + r.len ≤ lo + n :=
  a.tiles.bounds (List.mem_append_right _ hr)

theorem apart_free_live {r s : Run} (hr : r ∈ a.free) (hs : s ∈ a.live) : r.Apart s :=
  (List.pairwise_append.mp a.tiles.pairwise).2.2 r hr s hs

/-- A run of the arena starts at `x`. -/
def StartsAt (x : ℕ) : Prop := ∃ r ∈ a.free ++ a.live, r.start = x

variable {a} in
theorem StartsAt.alloc {x need : ℕ} (hx : a.StartsAt x) (hneed : 0 < need) {t : Run}
    {rest : List Run} (h : fit need a.free = some (t, rest)) :
    (a.alloc hneed h).StartsAt x := by
  obtain ⟨r, hr, rfl⟩ := hx
  rcases List.mem_append.mp hr with hfree | hlive
  · obtain ⟨q, hq, hstart⟩ := fit_starts h hfree
    rcases List.mem_cons.mp hq with rfl | hq
    · exact ⟨q, List.mem_append_right _ List.mem_cons_self, hstart⟩
    · exact ⟨q, List.mem_append_left _ hq, hstart⟩
  · exact ⟨r, List.mem_append_right _ (List.mem_cons_of_mem _ hlive), rfl⟩

variable {a} in
theorem StartsAt.release {x : ℕ} (hx : a.StartsAt x) {q : Run} (h : q ∈ a.live) :
    (a.release q h).StartsAt x := by
  obtain ⟨r, hr, rfl⟩ := hx
  have hperm : (a.free ++ a.live).Perm (q :: a.free ++ a.live.erase q) := calc
    (a.free ++ a.live).Perm (a.free ++ q :: a.live.erase q) :=
      (List.perm_cons_erase h).append_left _
    List.Perm _ (q :: (a.free ++ a.live.erase q)) := List.perm_middle
  exact ⟨r, hperm.mem_iff.mp hr, rfl⟩

/-- No run has more than `m` cells. -/
def Within (m : ℕ) : Prop := ∀ r ∈ a.free ++ a.live, r.len ≤ m

variable {a} in
theorem Within.alloc {m need : ℕ} (hm : a.Within m) (hneed : 0 < need) {t : Run} {rest : List Run}
    (h : fit need a.free = some (t, rest)) : (a.alloc hneed h).Within m := by
  rw [Within, List.forall_mem_append] at hm ⊢
  obtain ⟨htaken, hrest⟩ := fit_len_le h hm.1
  exact ⟨hrest, List.forall_mem_cons.mpr ⟨htaken, hm.2⟩⟩

variable {a} in
theorem Within.release {m : ℕ} (hm : a.Within m) {r : Run} (h : r ∈ a.live) :
    (a.release r h).Within m := by
  rw [Within, List.forall_mem_append] at hm ⊢
  exact ⟨List.forall_mem_cons.mpr ⟨hm.2 r h, hm.1⟩,
    fun q hq => hm.2 q (List.mem_of_mem_erase hq)⟩

theorem pairwise_free : a.free.Pairwise Run.Apart := (List.pairwise_append.mp a.tiles.pairwise).1

end Arena

end Tiling
