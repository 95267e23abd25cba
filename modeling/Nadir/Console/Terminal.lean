import Nadir.Console.Basic
import Nadir.Lib.Page

/-!
# The screen shows an unbounded page

A string without backspaces is laid out on a page of 80 columns that never ends. The screen shows
the last 25 rows of it, and the cursor stands where the next character goes. Scrolling by one row
and moving the window down by one row are the same.
-/

namespace Nadir

open TextPage

def glyph (cell : UInt16) : UInt8 := cell.toUInt8

/-- A character on the page: a line break or a glyph. -/
def pageItem (ch : Int8) : Option UInt8 := if ch = 10 then none else some ch.toUInt8

/-- The screen shows the rows of the page from `t` on. -/
structure Console.ShowsFrom (c : Console) (p : Page UInt8) (t : ℕ) : Prop where
  row : c.cursorRow.toNat + t = p.row
  col : c.cursorCol.toNat = p.col
  cell : ∀ i < vgaHeight, ∀ j < vgaWidth,
    glyph (c.vga (i * vgaWidth + j)) = (p.cells (t + i) j).getD 0x20

/-- The screen shows the last rows of the page. -/
def Console.Shows (c : Console) (p : Page UInt8) : Prop := c.ShowsFrom p (p.top vgaHeight)

theorem glyph_vgaCell (ch : Int8) : glyph (vgaCell ch) = ch.toUInt8 := by
  rw [← UInt8.toBitVec_inj]
  ext k hk
  have hsign : (BitVec.signExtend 32 ch.toBitVec).getLsbD k = ch.toBitVec[k] := by
    rw [BitVec.getLsbD_signExtend, BitVec.getLsbD_eq_getElem hk]
    simp [hk, Nat.lt_trans hk (by omega : 8 < 32)]
  simpa [glyph, vgaCell, colorDefault] using hsign

theorem glyph_vgaBlank : glyph vgaBlank = 0x20 := rfl

@[simp] theorem Console.outb_vga (port : UInt16) (v : UInt8) (c : Console) :
    (c.outb port v).vga = c.vga := by
  unfold outb
  split_ifs <;> rfl

@[simp] theorem Console.outb_cursorRow (port : UInt16) (v : UInt8) (c : Console) :
    (c.outb port v).cursorRow = c.cursorRow := by
  unfold outb
  split_ifs <;> rfl

@[simp] theorem Console.outb_cursorCol (port : UInt16) (v : UInt8) (c : Console) :
    (c.outb port v).cursorCol = c.cursorCol := by
  unfold outb
  split_ifs <;> rfl

theorem Console.ShowsFrom.updateHwCursor {c : Console} {p : Page UInt8} {t : ℕ}
    (h : c.ShowsFrom p t) : (Nadir.updateHwCursor c).ShowsFrom p t := by
  constructor
  · simpa [Nadir.updateHwCursor] using h.row
  · simpa [Nadir.updateHwCursor] using h.col
  · simpa [Nadir.updateHwCursor] using h.cell

/-- The window after `scroll` starts one row further down; its last row is not laid out yet. -/
theorem Console.ShowsFrom.scroll {c : Console} {p : Page UInt8} {t : ℕ} (h : c.ShowsFrom p t)
    (hp : p.Ok vgaWidth) (hrow : c.cursorRow.toNat = vgaHeight) (hcol : p.col = 0) :
    ({ c with vga := scrolled c.vga, cursorRow := 24 } : Console).ShowsFrom p (t + 1) := by
  have hr : vgaHeight + t = p.row := hrow ▸ h.row
  unfold vgaHeight at hr
  constructor
  · change 24 + (t + 1) = p.row
    omega
  · exact h.col
  · intro i hi j hj
    dsimp only
    rcases Nat.lt_or_ge (i + 1) vgaHeight with hlt | hge
    · have hindex : t + 1 + i = t + (i + 1) := by omega
      rw [scrolled_of_lt c.vga hlt hj, hindex]
      exact h.cell (i + 1) hlt j hj
    · have hlast : i = vgaHeight - 1 := by omega
      have hbehind : p.row < t + 1 + i ∨ t + 1 + i = p.row ∧ p.col ≤ j := by
        unfold vgaHeight at hlast
        omega
      rw [hp.blank _ _ hbehind, hlast, scrolled_last c.vga hj]
      exact glyph_vgaBlank

theorem Console.ShowsFrom.putcharEnd {c : Console} {p : Page UInt8} {t : ℕ}
    (h : c.ShowsFrom p t) (hp : p.Ok vgaWidth) (hrow : c.cursorRow.toNat ≤ vgaHeight)
    (hcol : c.cursorRow.toNat = vgaHeight → p.col = 0)
    (ht : t = 0 ∨ vgaHeight - 1 ≤ c.cursorRow.toNat) :
    ∃ c', Nadir.putcharEnd c = some c' ∧ c'.Shows p := by
  have hr := h.row
  unfold Nadir.putcharEnd
  by_cases hbottom : c.cursorRow.toNat ≥ vgaHeight
  · have hfull : c.cursorRow.toNat = vgaHeight := Nat.le_antisymm hrow hbottom
    have htop : p.top vgaHeight = t + 1 := by
      unfold Page.top vgaHeight at *
      omega
    rw [if_pos hbottom, scroll_eq]
    refine ⟨_, rfl, ?_⟩
    rw [Console.Shows, htop]
    exact (h.scroll hp hfull (hcol hfull)).updateHwCursor
  · have htop : p.top vgaHeight = t := by
      unfold Page.top vgaHeight at *
      omega
    rw [if_neg hbottom]
    refine ⟨_, rfl, ?_⟩
    rw [Console.Shows, htop]
    exact h.updateHwCursor

theorem Console.store_of_lt {i : ℕ} (h : i < vgaWidth * vgaHeight) (v : UInt16) (c : Console) :
    c.store i v = some { c with vga := Function.update c.vga i v } := if_pos h

theorem vgaIndex_inj {i j r k : ℕ} (hj : j < vgaWidth) (hk : k < vgaWidth) :
    i * vgaWidth + j = r * vgaWidth + k ↔ i = r ∧ j = k := by
  unfold vgaWidth at *
  omega

theorem Console.Shows.row_lt {c : Console} {p : Page UInt8} (h : c.Shows p) :
    c.cursorRow.toNat < vgaHeight := by
  have hrow := h.row
  unfold Page.top vgaHeight at *
  omega

theorem Console.Shows.top_eq {c : Console} {p : Page UInt8} (h : c.Shows p) :
    p.top vgaHeight = 0 ∨ vgaHeight - 1 ≤ c.cursorRow.toNat := by
  have hrow := h.row
  unfold Page.top vgaHeight at *
  omega

theorem Console.Shows.nextRow_toNat {c : Console} {p : Page UInt8} (h : c.Shows p) :
    (c.cursorRow + 1).toNat = c.cursorRow.toNat + 1 := by
  have hlow := h.row_lt
  unfold vgaHeight at hlow
  rw [UInt8.toNat_add, UInt8.toNat_one]
  omega

theorem Console.Shows.newline {c : Console} {p : Page UInt8} (h : c.Shows p)
    (hp : p.Ok vgaWidth) :
    ∃ c', Nadir.putcharEnd { c with cursorRow := c.cursorRow + 1, cursorCol := 0 } = some c' ∧
      c'.Shows p.newline := by
  have hrow := h.row
  have hlow := h.row_lt
  have htop := h.top_eq
  have hnext := h.nextRow_toNat
  have hshows : ({ c with cursorRow := c.cursorRow + 1, cursorCol := 0 } : Console).ShowsFrom
      p.newline (p.top vgaHeight) := by
    constructor
    · change (c.cursorRow + 1).toNat + p.top vgaHeight = p.row + 1
      omega
    · rfl
    · exact h.cell
  apply hshows.putcharEnd hp.newline
  · dsimp only
    omega
  · exact fun _ => rfl
  · dsimp only
    omega

/-- A glyph stored under the cursor is the page's next glyph. -/
theorem Console.Shows.cell_write {c : Console} {p : Page UInt8} (h : c.Shows p)
    (hp : p.Ok vgaWidth) (ch : Int8) {i j : ℕ} (hi : i < vgaHeight) (hj : j < vgaWidth) :
    glyph (Function.update c.vga c.offset (vgaCell ch) (i * vgaWidth + j)) =
      ((p.write vgaWidth ch.toUInt8).cells (p.top vgaHeight + i) j).getD 0x20 := by
  have hrow := h.row
  have hcol := h.col
  have hwidth : c.cursorCol.toNat < vgaWidth := hcol ▸ hp.col
  rw [Page.write_cells]
  by_cases hhere : i = c.cursorRow.toNat ∧ j = c.cursorCol.toNat
  · have hindex : i * vgaWidth + j = c.offset := by rw [hhere.1, hhere.2, Console.offset]
    rw [hindex, Function.update_self, if_pos (by omega), glyph_vgaCell, Option.getD_some]
  · have hindex : i * vgaWidth + j ≠ c.offset := fun heq => hhere ((vgaIndex_inj hj hwidth).mp heq)
    rw [Function.update_of_ne hindex, if_neg (by omega)]
    exact h.cell i hi j hj

theorem Console.Shows.showsFrom_write {c : Console} {p : Page UInt8} (h : c.Shows p)
    (hp : p.Ok vgaWidth) (ch : Int8) (row col : UInt8)
    (hrow : row.toNat + p.top vgaHeight = (p.write vgaWidth ch.toUInt8).row)
    (hcol : col.toNat = (p.write vgaWidth ch.toUInt8).col) :
    ({ c with
      vga := Function.update c.vga c.offset (vgaCell ch),
      cursorRow := row,
      cursorCol := col } : Console).ShowsFrom (p.write vgaWidth ch.toUInt8)
        (p.top vgaHeight) :=
  ⟨hrow, hcol, fun _ hi _ hj => h.cell_write hp ch hi hj⟩

theorem Console.Shows.write {c : Console} {p : Page UInt8} (h : c.Shows p)
    (hp : p.Ok vgaWidth) (ch : Int8) :
    ∃ c', putcharGlyph ch c = some c' ∧ c'.Shows (p.write vgaWidth ch.toUInt8) := by
  have hrow := h.row
  have hcol := h.col
  have hlow := h.row_lt
  have htop := h.top_eq
  have hnext := h.nextRow_toNat
  have hwidth : c.cursorCol.toNat < vgaWidth := hcol ▸ hp.col
  have hindex : c.offset < vgaWidth * vgaHeight := by
    unfold Console.offset vgaWidth vgaHeight at *
    omega
  have hright : (c.cursorCol + 1).toNat = c.cursorCol.toNat + 1 := by
    unfold vgaWidth at hwidth
    rw [UInt8.toNat_add, UInt8.toNat_one]
    omega
  have hpage := hp.write ch.toUInt8
  have hpageRow := @Page.write_row _ vgaWidth ch.toUInt8 p
  have hpageCol := @Page.write_col _ vgaWidth ch.toUInt8 p
  rw [putcharGlyph, Console.store_of_lt hindex, Option.bind_some]
  dsimp only
  rw [hright]
  by_cases hwrap : c.cursorCol.toNat + 1 ≥ vgaWidth
  · rw [if_neg (by omega)] at hpageRow hpageCol
    rw [if_pos hwrap]
    have hshows := h.showsFrom_write hp ch (c.cursorRow + 1) 0 (by omega) hpageCol.symm
    apply hshows.putcharEnd hpage
    · dsimp only
      omega
    · exact fun _ => hpageCol
    · dsimp only
      omega
  · rw [if_pos (by omega)] at hpageRow hpageCol
    rw [if_neg hwrap]
    have hshows := h.showsFrom_write hp ch c.cursorRow (c.cursorCol + 1) (by omega) (by omega)
    apply hshows.putcharEnd hpage
    · exact hlow.le
    · intro hfull
      exact absurd hfull hlow.ne
    · exact htop

theorem Console.Shows.putchar {c : Console} {p : Page UInt8} (h : c.Shows p)
    (hp : p.Ok vgaWidth) {ch : Int8} (hch : ch ≠ 8) :
    ∃ c', consolePutchar ch c = some c' ∧ c'.Shows (p.put vgaWidth (pageItem ch)) := by
  rw [consolePutchar, pageItem]
  by_cases hbreak : ch = 10
  · rw [if_pos hbreak, if_pos hbreak]
    exact h.newline hp
  · rw [if_neg hbreak, if_neg hbreak, if_neg hch]
    exact h.write hp ch

theorem Console.Shows.print {c : Console} {p : Page UInt8} (h : c.Shows p)
    (hp : p.Ok vgaWidth) {s : List Int8} (hs : 8 ∉ s) :
    ∃ c', consolePrint s c = some c' ∧
      c'.Shows ((s.map pageItem).foldl (Page.put vgaWidth) p) := by
  induction s generalizing c p with
  | nil => exact ⟨c, rfl, h⟩
  | cons ch s ih =>
    rw [List.mem_cons, not_or] at hs
    obtain ⟨c', hput, hshows⟩ := h.putchar hp (Ne.symm hs.1)
    obtain ⟨c'', hprint, hfinal⟩ := ih hshows (hp.put (pageItem ch)) hs.2
    have hrun : consolePrint (ch :: s) c = some c'' := by
      rw [consolePrint, hput]
      exact hprint
    exact ⟨c'', hrun, hfinal⟩

theorem consoleClear_shows (c : Console) :
    ∃ c', consoleClear c = some c' ∧ c'.Shows Page.empty := by
  rw [consoleClear, fillBlank_eq c (Nat.le_of_eq (Nat.zero_add _))]
  refine ⟨_, rfl, Console.ShowsFrom.updateHwCursor ⟨rfl, rfl, fun i hi j hj => ?_⟩⟩
  have hblank : blanked c.vga 0 (vgaWidth * vgaHeight) (i * vgaWidth + j) = vgaBlank := by
    apply if_pos
    unfold vgaWidth vgaHeight at *
    omega
  dsimp only
  rw [hblank]
  exact glyph_vgaBlank

/-- After `console_clear` and any string without backspaces the screen shows the last 25 rows of
the string's page, and the cursor is at the page's next position. -/
theorem console_shows_page (c₀ : Console) (s : List Int8) (hs : 8 ∉ s) :
    ∃ c, (consoleClear c₀).bind (consolePrint s) = some c ∧
      c.Shows (Page.layout vgaWidth (s.map pageItem)) := by
  obtain ⟨c, hclear, hshows⟩ := consoleClear_shows c₀
  have hwidth : 0 < vgaWidth := by
    unfold vgaWidth
    omega
  obtain ⟨c', hprint, hpage⟩ := hshows.print (Page.ok_empty hwidth) hs
  have hrun : (consoleClear c₀).bind (consolePrint s) = some c' := by
    rw [hclear]
    exact hprint
  exact ⟨c', hrun, hpage⟩

/-- Two lines: `H`, a line break and `i`. -/
theorem console_shows_page_two_lines :
    ∃ c, (consoleClear ⟨fun _ => 0, 0, 0, 0, 0, 0⟩).bind (consolePrint [72, 10, 105]) = some c ∧
      c.Shows (Page.layout vgaWidth ([72, 10, 105].map pageItem)) :=
  console_shows_page ⟨fun _ => 0, 0, 0, 0, 0, 0⟩ [72, 10, 105] (by decide)

end Nadir
