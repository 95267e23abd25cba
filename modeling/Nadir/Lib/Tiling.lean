import Mathlib.Data.List.Nodup
import Mathlib.Data.List.Perm.Basic
import Mathlib.Data.Nat.Notation
import Mathlib.Algebra.Order.BigOperators.Group.List
import Mathlib.Algebra.Order.Ring.Nat
import Mathlib.Data.List.Pairwise

/-!
# Tilings of an interval by runs

A run is a non-empty interval of cells. A list of runs tiles `[lo, lo + n)` when its cells are,
up to order, exactly the cells of the interval, each once. Reordering the runs and cutting one of
them keep the tiling; from it the runs are pairwise apart and their lengths add up to `n`.
-/

namespace Tiling

/-- The cells `start, ..., start + len - 1`. -/
@[ext] structure Run where
  start : ℕ
  len : ℕ
  deriving DecidableEq, Repr

def Run.cells (r : Run) : List ℕ := List.range' r.start r.len

def Run.Contains (r : Run) (x : ℕ) : Prop := r.start ≤ x ∧ x < r.start + r.len

def Run.Apart (r s : Run) : Prop := r.start + r.len ≤ s.start ∨ s.start + s.len ≤ r.start

instance : Std.Symm Run.Apart := ⟨fun _ _ h => Or.symm h⟩

theorem Run.mem_cells (r : Run) (x : ℕ) : x ∈ r.cells ↔ r.Contains x := by
  rw [Run.cells, List.mem_range'_1, Run.Contains]

def totalLen (rs : List Run) : ℕ := (rs.map Run.len).sum

@[simp] theorem totalLen_nil : totalLen [] = 0 := rfl

@[simp] theorem totalLen_cons (r : Run) (rs : List Run) :
    totalLen (r :: rs) = r.len + totalLen rs := by simp [totalLen]

@[simp] theorem totalLen_append (rs ss : List Run) :
    totalLen (rs ++ ss) = totalLen rs + totalLen ss := by simp [totalLen]

theorem totalLen_perm {rs ss : List Run} (h : rs.Perm ss) : totalLen rs = totalLen ss :=
  (h.map Run.len).sum_eq

/-- The runs are non-empty and their cells are those of `[lo, lo + n)`, each once. -/
structure Tiles (lo n : ℕ) (rs : List Run) : Prop where
  pos : ∀ r ∈ rs, 0 < r.len
  cells : (rs.flatMap Run.cells).Perm (List.range' lo n)

namespace Tiles

variable {lo n : ℕ} {rs ss : List Run}

theorem nil (lo : ℕ) : Tiles lo 0 [] := ⟨fun _ hr => absurd hr List.not_mem_nil, List.Perm.nil⟩

theorem single (hn : 0 < n) : Tiles lo n [⟨lo, n⟩] := by
  constructor
  · intro r hr
    rw [List.mem_singleton.mp hr]
    exact hn
  · simp [Run.cells]

theorem perm (h : Tiles lo n rs) (hp : rs.Perm ss) : Tiles lo n ss :=
  ⟨fun r hr => h.pos r (hp.mem_iff.mpr hr), ((hp.flatMap_right Run.cells).symm).trans h.cells⟩

theorem split {start len k : ℕ} (h : Tiles lo n (⟨start, len⟩ :: rs)) (hk : 0 < k)
    (hlt : k < len) : Tiles lo n (⟨start, k⟩ :: ⟨start + k, len - k⟩ :: rs) := by
  constructor
  · intro r hr
    rcases List.mem_cons.mp hr with rfl | hr
    · exact hk
    rcases List.mem_cons.mp hr with rfl | hr
    · exact Nat.sub_pos_of_lt hlt
    · exact h.pos r (List.mem_cons_of_mem _ hr)
  · have hcut : List.range' start k ++ List.range' (start + k) (len - k) =
        List.range' start len := by
      rw [List.range'_append_1, Nat.add_sub_cancel' hlt.le]
    have hcells := h.cells
    rw [List.flatMap_cons] at hcells
    rw [List.flatMap_cons, List.flatMap_cons, ← List.append_assoc]
    simpa only [Run.cells, hcut] using hcells

theorem totalLen_eq (h : Tiles lo n rs) : totalLen rs = n := by
  have hlen := h.cells.length_eq
  rw [List.length_flatMap, List.length_range'] at hlen
  rw [← hlen, totalLen]
  congr 1
  apply List.map_congr_left
  intro r _
  rw [Run.cells, List.length_range']

theorem mem_iff (h : Tiles lo n rs) (x : ℕ) :
    (∃ r ∈ rs, r.Contains x) ↔ lo ≤ x ∧ x < lo + n := by
  rw [← List.mem_range'_1, ← h.cells.mem_iff, List.mem_flatMap]
  simp only [Run.mem_cells]

theorem bounds (h : Tiles lo n rs) {r : Run} (hr : r ∈ rs) :
    lo ≤ r.start ∧ r.start + r.len ≤ lo + n := by
  have hpos := h.pos r hr
  have hfirst := (h.mem_iff r.start).mp ⟨r, hr, le_rfl, by omega⟩
  have hlast := (h.mem_iff (r.start + r.len - 1)).mp
    ⟨r, hr, by omega, by omega⟩
  omega

theorem pairwise (h : Tiles lo n rs) : rs.Pairwise Run.Apart := by
  have hnodup : (rs.flatMap Run.cells).Nodup := h.cells.nodup_iff.mpr List.nodup_range'
  have hdisjoint := (List.nodup_flatMap.mp hnodup).2
  apply hdisjoint.imp_of_mem
  intro r s hr hs hrs
  have hposr := h.pos r hr
  have hposs := h.pos s hs
  by_contra hover
  rw [Run.Apart, not_or, not_le, not_le] at hover
  have hmax : ∃ x, r.Contains x ∧ s.Contains x :=
    ⟨max r.start s.start, by unfold Run.Contains; omega, by unfold Run.Contains; omega⟩
  obtain ⟨x, hxr, hxs⟩ := hmax
  exact hrs ((r.mem_cells x).mpr hxr) ((s.mem_cells x).mpr hxs)

theorem nodup_starts (h : Tiles lo n rs) : (rs.map Run.start).Nodup := by
  rw [List.Nodup, List.pairwise_map]
  apply h.pairwise.imp_of_mem
  intro r s hr hs hapart heq
  have hposr := h.pos r hr
  have hposs := h.pos s hs
  unfold Run.Apart at hapart
  omega

theorem nodup (h : Tiles lo n rs) : rs.Nodup := h.nodup_starts.of_map

theorem apart (h : Tiles lo n rs) {r s : Run} (hr : r ∈ rs) (hs : s ∈ rs) (hne : r ≠ s) :
    r.Apart s :=
  h.pairwise.forall hr hs hne

end Tiles

end Tiling
