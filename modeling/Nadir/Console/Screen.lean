import Nadir.Console.Basic

/-!
# What a character does to the screen

Between two calls the console is given by its cells and the offset of the cursor: row, column and
CRT registers all follow from the offset. A glyph and a line break move the cursor forward, a
backspace moves it one cell back, and the cells move up a row when the cursor runs off the screen.
-/

namespace Nadir

abbrev vgaCells : ℕ := 2000

/-- The console with these cells, the cursor and the CRT registers at this offset. -/
def screenAt (v : ℕ → UInt16) (k : ℕ) : Console where
  vga := v
  cursorRow := UInt8.ofNat (k / vgaWidth)
  cursorCol := UInt8.ofNat (k % vgaWidth)
  crtIndex := vgaCrtCursorHigh
  crtHigh := UInt8.ofNat (k / 256)
  crtLow := UInt8.ofNat (k % 256)

theorem screenAt_row (v : ℕ → UInt16) {k : ℕ} (hk : k < vgaCells) :
    (screenAt v k).cursorRow.toNat = k / vgaWidth := by
  unfold vgaCells at hk
  have hrow : (screenAt v k).cursorRow.toNat = k / vgaWidth % 2 ^ 8 := UInt8.toNat_ofNat'
  unfold vgaWidth at *
  omega

theorem screenAt_col (v : ℕ → UInt16) (k : ℕ) :
    (screenAt v k).cursorCol.toNat = k % vgaWidth := by
  have hcol : (screenAt v k).cursorCol.toNat = k % vgaWidth % 2 ^ 8 := UInt8.toNat_ofNat'
  unfold vgaWidth at *
  omega

theorem screenAt_offset (v : ℕ → UInt16) {k : ℕ} (hk : k < vgaCells) :
    (screenAt v k).offset = k := by
  rw [Console.offset, screenAt_row v hk, screenAt_col]
  unfold vgaWidth
  omega

theorem screenAt_crt (v : ℕ → UInt16) {k : ℕ} (hk : k < vgaCells) :
    256 * (screenAt v k).crtHigh.toNat + (screenAt v k).crtLow.toNat = k := by
  unfold vgaCells at hk
  have hhigh : (screenAt v k).crtHigh.toNat = k / 256 % 2 ^ 8 := UInt8.toNat_ofNat'
  have hlow : (screenAt v k).crtLow.toNat = k % 256 % 2 ^ 8 := UInt8.toNat_ofNat'
  omega

theorem updateHwCursor_eq (v : ℕ → UInt16) (row col : UInt8) (hrow : row.toNat < vgaHeight)
    (hcol : col.toNat < vgaWidth) (index high low : UInt8) :
    updateHwCursor ⟨v, row, col, index, high, low⟩ =
      screenAt v (row.toNat * vgaWidth + col.toNat) := by
  unfold vgaHeight vgaWidth at *
  have hset : updateHwCursor ⟨v, row, col, index, high, low⟩ =
      ⟨v, row, col, vgaCrtCursorHigh,
        ((UInt16.ofNat (row.toNat * 80 + col.toNat) >>> 8) &&& 0xFF).toUInt8,
        (UInt16.ofNat (row.toNat * 80 + col.toNat) &&& 0xFF).toUInt8⟩ := rfl
  generalize hk : row.toNat * 80 + col.toNat = k at hset ⊢
  have hpos : (UInt16.ofNat k).toNat = k := by
    rw [UInt16.toNat_ofNat']
    omega
  have hmask : ∀ n : ℕ, n &&& 0xFF = n % 256 := fun n => Nat.and_two_pow_sub_one_eq_mod n 8
  have hlow : (UInt16.ofNat k &&& 0xFF).toUInt8 = UInt8.ofNat (k % 256) := by
    rw [← UInt8.toNat_inj, UInt16.toNat_toUInt8, UInt16.toNat_and, hpos, UInt8.toNat_ofNat']
    simp only [UInt16.reduceToNat, hmask]
  have hhigh : ((UInt16.ofNat k >>> 8) &&& 0xFF).toUInt8 = UInt8.ofNat (k / 256) := by
    have hshift : (UInt16.ofNat k >>> 8).toNat = k / 256 := by
      rw [UInt16.toNat_shiftRight, hpos]
      exact Nat.shiftRight_eq_div_pow _ 8
    rw [← UInt8.toNat_inj, UInt16.toNat_toUInt8, UInt16.toNat_and, hshift, UInt8.toNat_ofNat']
    simp only [UInt16.reduceToNat, hmask]
    omega
  have hrow' : row = UInt8.ofNat (k / 80) := by
    rw [← UInt8.toNat_inj, UInt8.toNat_ofNat']
    omega
  have hcol' : col = UInt8.ofNat (k % 80) := by
    rw [← UInt8.toNat_inj, UInt8.toNat_ofNat']
    omega
  rw [hset, hlow, hhigh, hrow', hcol']
  rfl

theorem consoleClear_eq (c : Console) :
    consoleClear c = some (screenAt (blanked c.vga 0 vgaCells) 0) := by
  rw [consoleClear, fillBlank_eq c (Nat.le_of_eq (Nat.zero_add _)), Option.map_some]
  exact congrArg some (updateHwCursor_eq _ 0 0 (Nat.succ_pos 24) (Nat.succ_pos 79) _ _ _)

/-- The console with the cursor moved on to the offset `k`: past the last cell the rows move up. -/
def settle (v : ℕ → UInt16) (k : ℕ) : Console :=
  if k < vgaCells then screenAt v k else screenAt (scrolled v) (k - vgaWidth)

theorem putcharEnd_eq (v : ℕ → UInt16) (row col : UInt8) (hcol : col.toNat < vgaWidth)
    (hk : row.toNat * vgaWidth + col.toNat ≤ vgaCells) (index high low : UInt8) :
    putcharEnd ⟨v, row, col, index, high, low⟩ =
      some (settle v (row.toNat * vgaWidth + col.toNat)) := by
  rw [putcharEnd, settle]
  dsimp only
  by_cases hbottom : row.toNat ≥ vgaHeight
  · have hlast : (24 : UInt8).toNat * vgaWidth + col.toNat =
        row.toNat * vgaWidth + col.toNat - vgaWidth := by
      have hrow : (24 : UInt8).toNat = 24 := rfl
      unfold vgaCells vgaHeight vgaWidth at *
      omega
    have hpast : ¬row.toNat * vgaWidth + col.toNat < vgaCells := by
      unfold vgaCells vgaHeight vgaWidth at *
      omega
    rw [if_pos hbottom, if_neg hpast, scroll_eq, Option.map_some, ← hlast]
    exact congrArg some (updateHwCursor_eq _ 24 col (Nat.lt_succ_self 24) hcol _ _ _)
  · have hlt : row.toNat * vgaWidth + col.toNat < vgaCells := by
      unfold vgaCells vgaHeight vgaWidth at *
      omega
    rw [if_neg hbottom, if_pos hlt, updateHwCursor_eq v row col (Nat.lt_of_not_le hbottom) hcol]

section Putchar

variable (v : ℕ → UInt16) {k : ℕ} (hk : k < vgaCells)
include hk

theorem screenAt_nextRow :
    ((screenAt v k).cursorRow + 1).toNat * vgaWidth = (k / vgaWidth + 1) * vgaWidth := by
  rw [UInt8.toNat_add, screenAt_row v hk, UInt8.toNat_one]
  unfold vgaCells vgaWidth at *
  omega

theorem putchar_newline :
    consolePutchar 10 (screenAt v k) = some (settle v ((k / vgaWidth + 1) * vgaWidth)) := by
  have hnext := screenAt_nextRow v hk
  have hplace : ((screenAt v k).cursorRow + 1).toNat * vgaWidth + (0 : UInt8).toNat =
      (k / vgaWidth + 1) * vgaWidth := hnext
  have hle : (k / vgaWidth + 1) * vgaWidth ≤ vgaCells := by
    unfold vgaCells vgaWidth at *
    omega
  rw [consolePutchar, if_pos rfl, putcharEnd_eq _ _ 0 (Nat.succ_pos 79) (hplace ▸ hle), hplace]
  rfl

theorem putchar_glyph {ch : Int8} (hbreak : ch ≠ 10) (hback : ch ≠ 8) :
    consolePutchar ch (screenAt v k) =
      some (settle (Function.update v k (vgaCell ch)) (k + 1)) := by
  have hrow := screenAt_row v hk
  have hcol := screenAt_col v k
  have hcell : k < vgaWidth * vgaHeight := hk
  have hright : ((screenAt v k).cursorCol + 1).toNat = k % vgaWidth + 1 := by
    rw [UInt8.toNat_add, hcol, UInt8.toNat_one]
    unfold vgaWidth
    omega
  rw [consolePutchar, if_neg hbreak, if_neg hback, putcharGlyph, Console.store,
    screenAt_offset v hk, if_pos hcell, Option.bind_some]
  dsimp only
  rw [hright]
  by_cases hwrap : k % vgaWidth + 1 ≥ vgaWidth
  · have hplace : ((screenAt v k).cursorRow + 1).toNat * vgaWidth + (0 : UInt8).toNat = k + 1 := by
      rw [screenAt_nextRow v hk]
      unfold vgaWidth at *
      show (k / 80 + 1) * 80 + 0 = k + 1
      omega
    rw [if_pos hwrap, putcharEnd_eq _ _ 0 (Nat.succ_pos 79) (hplace ▸ hk), hplace]
    rfl
  · have hplace : (screenAt v k).cursorRow.toNat * vgaWidth +
        ((screenAt v k).cursorCol + 1).toNat = k + 1 := by
      rw [hrow, hright]
      unfold vgaWidth
      omega
    rw [if_neg hwrap, putcharEnd_eq _ _ _ (by rw [hright]; omega) (hplace ▸ hk), hplace]
    rfl

end Putchar

theorem putchar_backspace_zero (v : ℕ → UInt16) :
    consolePutchar 8 (screenAt v 0) = some (screenAt v 0) := rfl

theorem blank_under_cursor (v : ℕ → UInt16) (row col : UInt8) {k : ℕ} (hk : k < vgaCells)
    (hcol : col.toNat < vgaWidth) (hplace : row.toNat * vgaWidth + col.toNat = k)
    (index high low : UInt8) :
    ((⟨v, row, col, index, high, low⟩ : Console).store k vgaBlank).bind putcharEnd =
      some (screenAt (Function.update v k vgaBlank) k) := by
  have hcell : k < vgaWidth * vgaHeight := hk
  have hsettle : settle (Function.update v k vgaBlank) k =
      screenAt (Function.update v k vgaBlank) k := if_pos hk
  rw [Console.store, if_pos hcell, Option.bind_some,
    putcharEnd_eq _ _ _ hcol (hplace ▸ hk.le), hplace, hsettle]

theorem putchar_backspace_left (v : ℕ → UInt16) {k : ℕ} (hk : k + 1 < vgaCells)
    (hleft : 0 < (k + 1) % vgaWidth) :
    consolePutchar 8 (screenAt v (k + 1)) =
      some (screenAt (Function.update v k vgaBlank) k) := by
  have hrow := screenAt_row v hk
  have hcol := screenAt_col v (k + 1)
  have hpos : 0 < (screenAt v (k + 1)).cursorCol.toNat := by rwa [hcol]
  have hcursor : (screenAt v (k + 1)).cursorCol > 0 := UInt8.lt_iff_toNat_lt.mpr hpos
  have hone : 1 ≤ (screenAt v (k + 1)).cursorCol := UInt8.le_iff_toNat_le.mpr hpos
  have hsub : ((screenAt v (k + 1)).cursorCol - 1).toNat = (k + 1) % vgaWidth - 1 := by
    rw [UInt8.toNat_sub_of_le _ _ hone, hcol, UInt8.toNat_one]
  have hlt : ((screenAt v (k + 1)).cursorCol - 1).toNat < vgaWidth := by
    rw [hsub]
    unfold vgaWidth
    omega
  have hplace : (screenAt v (k + 1)).cursorRow.toNat * vgaWidth +
      ((screenAt v (k + 1)).cursorCol - 1).toNat = k := by
    rw [hrow, hsub]
    unfold vgaWidth at *
    omega
  have hten : ¬(8 : Int8) = 10 := by decide
  rw [consolePutchar, if_neg hten, if_pos rfl, if_pos hcursor]
  dsimp only
  rw [Console.offset, hplace]
  exact blank_under_cursor v _ _ (Nat.lt_of_succ_lt hk) hlt hplace _ _ _

theorem putchar_backspace_up (v : ℕ → UInt16) {k : ℕ} (hk : k + 1 < vgaCells)
    (hfirst : (k + 1) % vgaWidth = 0) :
    consolePutchar 8 (screenAt v (k + 1)) =
      some (screenAt (Function.update v k vgaBlank) k) := by
  have hrow := screenAt_row v hk
  have hcol : ¬(screenAt v (k + 1)).cursorCol > 0 := by
    rw [gt_iff_lt, UInt8.lt_iff_toNat_lt, screenAt_col v (k + 1), hfirst]
    exact Nat.lt_irrefl 0
  have hpos : 0 < (screenAt v (k + 1)).cursorRow.toNat := by
    rw [hrow]
    unfold vgaWidth at *
    omega
  have hup : (screenAt v (k + 1)).cursorRow > 0 := UInt8.lt_iff_toNat_lt.mpr hpos
  have hone : 1 ≤ (screenAt v (k + 1)).cursorRow := UInt8.le_iff_toNat_le.mpr hpos
  have hsub : ((screenAt v (k + 1)).cursorRow - 1).toNat = (k + 1) / vgaWidth - 1 := by
    rw [UInt8.toNat_sub_of_le _ _ hone, hrow, UInt8.toNat_one]
  have hplace : ((screenAt v (k + 1)).cursorRow - 1).toNat * vgaWidth + (79 : UInt8).toNat =
      k := by
    have hlast : (79 : UInt8).toNat = 79 := rfl
    rw [hsub, hlast]
    unfold vgaWidth at *
    omega
  have hten : ¬(8 : Int8) = 10 := by decide
  rw [consolePutchar, if_neg hten, if_pos rfl, if_neg hcol, if_pos hup]
  dsimp only
  rw [Console.offset, hplace]
  exact blank_under_cursor v _ 79 (Nat.lt_of_succ_lt hk) (Nat.lt_succ_self 79) hplace _ _ _

theorem putchar_backspace_succ (v : ℕ → UInt16) {k : ℕ} (hk : k + 1 < vgaCells) :
    consolePutchar 8 (screenAt v (k + 1)) =
      some (screenAt (Function.update v k vgaBlank) k) := by
  rcases Nat.eq_zero_or_pos ((k + 1) % vgaWidth) with hfirst | hleft
  · exact putchar_backspace_up v hk hfirst
  · exact putchar_backspace_left v hk hleft

/-- The row of the cursor when `console_putchar` compares it with the bottom line. -/
def putcharRow (ch : Int8) (c : Console) : UInt8 :=
  if ch = 10 then c.cursorRow + 1
  else if ch = 8 then
    if c.cursorCol > 0 then c.cursorRow
    else if c.cursorRow > 0 then c.cursorRow - 1
    else c.cursorRow
  else if (c.cursorCol + 1).toNat ≥ vgaWidth then c.cursorRow + 1
  else c.cursorRow

/-- The character makes `console_putchar` scroll. -/
def Scrolls (ch : Int8) (c : Console) : Prop := (putcharRow ch c).toNat ≥ vgaHeight

/-- Neither a line break nor a backspace. -/
def IsGlyph (ch : Int8) : Prop := ch ≠ 10 ∧ ch ≠ 8

instance (ch : Int8) : Decidable (IsGlyph ch) := inferInstanceAs (Decidable (_ ∧ _))

theorem not_scrolls_iff (v : ℕ → UInt16) {k : ℕ} (hk : k < vgaCells) {ch : Int8}
    (hch : IsGlyph ch) : ¬Scrolls ch (screenAt v k) ↔ k + 1 < vgaCells := by
  have hrow := screenAt_row v hk
  have hcol := screenAt_col v k
  rw [Scrolls, putcharRow, if_neg hch.1, if_neg hch.2]
  unfold vgaCells vgaHeight vgaWidth at *
  have hright : ((screenAt v k).cursorCol + 1).toNat = k % 80 + 1 := by
    rw [UInt8.toNat_add, hcol, UInt8.toNat_one]
    omega
  have hdown : ((screenAt v k).cursorRow + 1).toNat = k / 80 + 1 := by
    rw [UInt8.toNat_add, hrow, UInt8.toNat_one]
    omega
  split_ifs with hwrap
  · omega
  · omega

end Nadir
