import Mathlib.Data.Nat.Notation
import Mathlib.Logic.Function.Basic
import Mathlib.Tactic.SplitIfs

/-!
# Pages of text

A page has rows of a fixed width and no last row. Glyphs are laid out from the top left; a new row
starts after the last column of a row and at every line break. Nothing is ever laid out behind the
position of the next glyph. A screen of a fixed height shows the last rows of the page.
-/

namespace TextPage

variable {α : Type*}

structure Page (α : Type*) where
  cells : ℕ → ℕ → Option α
  row : ℕ
  col : ℕ

namespace Page

def empty : Page α := ⟨fun _ _ => none, 0, 0⟩

def newline (p : Page α) : Page α := { p with row := p.row + 1, col := 0 }

/-- Lays out one glyph; after the last of the `width` columns a new row starts. -/
def write (width : ℕ) (a : α) (p : Page α) : Page α :=
  let cells := Function.update p.cells p.row (Function.update (p.cells p.row) p.col (some a))
  if p.col + 1 < width then { p with cells := cells, col := p.col + 1 }
  else { cells := cells, row := p.row + 1, col := 0 }

/-- Lays out a glyph or a line break. -/
def put (width : ℕ) (p : Page α) : Option α → Page α
  | none => p.newline
  | some a => p.write width a

def layout (width : ℕ) (xs : List (Option α)) : Page α := xs.foldl (put width) empty

/-- The first row of the page on a screen of `height` rows. -/
def top (height : ℕ) (p : Page α) : ℕ := p.row - (height - 1)

/-- The next position is in the row, and nothing lies behind it. -/
structure Ok (width : ℕ) (p : Page α) : Prop where
  col : p.col < width
  blank : ∀ r j, p.row < r ∨ r = p.row ∧ p.col ≤ j → p.cells r j = none

variable {width : ℕ} {p : Page α}

theorem write_cells (a : α) (p : Page α) (r j : ℕ) :
    (p.write width a).cells r j = if r = p.row ∧ j = p.col then some a else p.cells r j := by
  have hcells : (p.write width a).cells =
      Function.update p.cells p.row (Function.update (p.cells p.row) p.col (some a)) := by
    unfold write
    split_ifs <;> rfl
  rw [hcells]
  by_cases hr : r = p.row
  · rw [hr, Function.update_self]
    by_cases hj : j = p.col
    · rw [hj, Function.update_self, if_pos ⟨rfl, rfl⟩]
    · rw [Function.update_of_ne hj, if_neg (fun h => hj h.2)]
  · rw [Function.update_of_ne hr, if_neg (fun h => hr h.1)]

theorem write_row (a : α) (p : Page α) :
    (p.write width a).row = if p.col + 1 < width then p.row else p.row + 1 := by
  unfold write
  split_ifs <;> rfl

theorem write_col (a : α) (p : Page α) :
    (p.write width a).col = if p.col + 1 < width then p.col + 1 else 0 := by
  unfold write
  split_ifs <;> rfl

theorem ok_empty (h : 0 < width) : (empty : Page α).Ok width := ⟨h, fun _ _ _ => rfl⟩

theorem Ok.newline (hp : p.Ok width) : p.newline.Ok width := by
  constructor
  · exact Nat.zero_lt_of_lt hp.col
  · intro r j h
    apply hp.blank r j
    change p.row + 1 < r ∨ r = p.row + 1 ∧ 0 ≤ j at h
    omega

theorem Ok.write (hp : p.Ok width) (a : α) : (p.write width a).Ok width := by
  have hcol := hp.col
  constructor
  · rw [write_col]
    split_ifs with hlt
    · exact hlt
    · exact Nat.zero_lt_of_lt hcol
  · intro r j h
    rw [write_row, write_col] at h
    rw [write_cells]
    have hbehind : p.row < r ∨ r = p.row ∧ p.col + 1 ≤ j := by
      split_ifs at h with hlt
      · exact h
      · omega
    rw [if_neg (by omega), hp.blank r j (by omega)]

theorem Ok.put (hp : p.Ok width) (x : Option α) : (p.put width x).Ok width := by
  cases x with
  | none => exact hp.newline
  | some a => exact hp.write a

end Page

end TextPage
