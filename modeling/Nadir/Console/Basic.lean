import Nadir.Lib.Loop

/-!
# The text console

A screen of 25 rows of 80 cells in video memory, a cursor, and the two CRT registers that hold
the cursor's offset. An access to video memory outside the 2000 cells has no result. Characters
are signed bytes, which widen with their sign when they are joined with the colour.
-/

namespace Nadir

open CountedLoop

abbrev vgaWidth : ℕ := 80
abbrev vgaHeight : ℕ := 25
def colorDefault : UInt32 := 0x0F
def vgaCrtIndex : UInt16 := 0x3D4
def vgaCrtData : UInt16 := 0x3D5
def vgaCrtCursorHigh : UInt8 := 0x0E
def vgaCrtCursorLow : UInt8 := 0x0F

/-- The screen, the cursor and the CRT controller's index and cursor registers. -/
structure Console where
  vga : ℕ → UInt16
  cursorRow : UInt8
  cursorCol : UInt8
  crtIndex : UInt8
  crtHigh : UInt8
  crtLow : UInt8

namespace Console

def load (i : ℕ) (c : Console) : Option UInt16 :=
  if i < vgaWidth * vgaHeight then some (c.vga i) else none

def store (i : ℕ) (v : UInt16) (c : Console) : Option Console :=
  if i < vgaWidth * vgaHeight then some { c with vga := Function.update c.vga i v } else none

/-- The index port selects a register, the data port writes the one selected. -/
def outb (port : UInt16) (v : UInt8) (c : Console) : Console :=
  if port = vgaCrtIndex then { c with crtIndex := v }
  else if port = vgaCrtData then
    if c.crtIndex = vgaCrtCursorHigh then { c with crtHigh := v }
    else if c.crtIndex = vgaCrtCursorLow then { c with crtLow := v }
    else c
  else c

def offset (c : Console) : ℕ := c.cursorRow.toNat * vgaWidth + c.cursorCol.toNat

end Console

/-- `(COLOR_DEFAULT << 8) | c`, cut to a cell. -/
def vgaCell (ch : Int8) : UInt16 := (colorDefault <<< 8 ||| ch.toInt32.toUInt32).toUInt16

def vgaBlank : UInt16 := vgaCell 0x20

def updateHwCursor (c : Console) : Console :=
  let pos := UInt16.ofNat c.offset
  let c := c.outb vgaCrtIndex vgaCrtCursorLow
  let c := c.outb vgaCrtData (pos &&& 0xFF).toUInt8
  let c := c.outb vgaCrtIndex vgaCrtCursorHigh
  c.outb vgaCrtData ((pos >>> 8) &&& 0xFF).toUInt8

/-- The inner loop body of `scroll`. -/
def scrollCell (row col : ℕ) (c : Console) : Option Console :=
  (c.load (row * vgaWidth + col)).bind fun v => c.store ((row - 1) * vgaWidth + col) v

def scrollRow (row : ℕ) (s : Option Console) : Option Console :=
  forLoop 0 vgaWidth (fun col s => s.bind (scrollCell row col)) s

def fillBlank (lo n : ℕ) (s : Option Console) : Option Console :=
  forLoop 0 n (fun i s => s.bind (Console.store (lo + i) vgaBlank)) s

def scroll (c : Console) : Option Console :=
  fillBlank ((vgaHeight - 1) * vgaWidth) vgaWidth (forLoop 1 vgaHeight scrollRow (some c))

def consoleClear (c : Console) : Option Console :=
  (fillBlank 0 (vgaWidth * vgaHeight) (some c)).map fun c =>
    updateHwCursor { c with cursorRow := 0, cursorCol := 0 }

/-- The end of `console_putchar`: past the bottom line it scrolls and stays on the last line. -/
def putcharEnd (c : Console) : Option Console :=
  if c.cursorRow.toNat ≥ vgaHeight then
    (scroll c).map fun c => updateHwCursor { c with cursorRow := 24 }
  else some (updateHwCursor c)

/-- Stores the character under the cursor and moves on, to the next line after the last column. -/
def putcharGlyph (ch : Int8) (c : Console) : Option Console :=
  (c.store c.offset (vgaCell ch)).bind fun c =>
    let c := { c with cursorCol := c.cursorCol + 1 }
    putcharEnd (if c.cursorCol.toNat ≥ vgaWidth then
      { c with cursorCol := 0, cursorRow := c.cursorRow + 1 } else c)

def consolePutchar (ch : Int8) (c : Console) : Option Console :=
  if ch = 10 then putcharEnd { c with cursorRow := c.cursorRow + 1, cursorCol := 0 }
  else if ch = 8 then
    if c.cursorCol > 0 then
      let c := { c with cursorCol := c.cursorCol - 1 }
      (c.store c.offset vgaBlank).bind putcharEnd
    else if c.cursorRow > 0 then
      let c := { c with cursorRow := c.cursorRow - 1, cursorCol := 79 }
      (c.store c.offset vgaBlank).bind putcharEnd
    else some c
  else putcharGlyph ch c

def consolePrint : List Int8 → Console → Option Console
  | [], c => some c
  | ch :: s, c => (consolePutchar ch c).bind (consolePrint s)

/-! What the loops do to the cells. -/

/-- The first `n` cells have taken over the cells one row below them. -/
def shifted (v : ℕ → UInt16) (n : ℕ) : ℕ → UInt16 :=
  fun k => if k < n then v (k + vgaWidth) else v k

def blanked (v : ℕ → UInt16) (lo n : ℕ) : ℕ → UInt16 :=
  fun k => if lo ≤ k ∧ k < lo + n then vgaBlank else v k

def scrolled (v : ℕ → UInt16) : ℕ → UInt16 :=
  blanked (shifted v ((vgaHeight - 1) * vgaWidth)) ((vgaHeight - 1) * vgaWidth) vgaWidth

theorem update_shifted (v : ℕ → UInt16) (n : ℕ) :
    Function.update (shifted v n) n (v (n + vgaWidth)) = shifted v (n + 1) := by
  funext k
  by_cases hk : k = n
  · rw [hk, Function.update_self, shifted, if_pos (Nat.lt_succ_self n)]
  · have hiff : k < n ↔ k < n + 1 := by omega
    simp only [Function.update_of_ne hk, shifted, hiff]

theorem update_blanked (v : ℕ → UInt16) (lo n : ℕ) :
    Function.update (blanked v lo n) (lo + n) vgaBlank = blanked v lo (n + 1) := by
  funext k
  by_cases hk : k = lo + n
  · rw [hk, Function.update_self, blanked, if_pos (by omega)]
  · have hiff : lo ≤ k ∧ k < lo + n ↔ lo ≤ k ∧ k < lo + (n + 1) := by omega
    simp only [Function.update_of_ne hk, blanked, hiff]

theorem fillBlank_eq (c : Console) {lo n : ℕ} (h : lo + n ≤ vgaWidth * vgaHeight) :
    fillBlank lo n (some c) = some { c with vga := blanked c.vga lo n } := by
  induction n with
  | zero =>
    have hnone : blanked c.vga lo 0 = c.vga := by
      funext k
      exact if_neg (by omega)
    rw [hnone]
    exact forLoop_self 0 _ _
  | succ n ih =>
    rw [fillBlank, forLoop_succ (Nat.zero_le n), ← fillBlank, ih (by omega), Option.bind_some,
      Console.store, if_pos (by omega)]
    dsimp only
    rw [update_blanked]

theorem scrollCell_shifted (c : Console) {row col : ℕ} (hrow : 1 ≤ row) (hrow' : row < vgaHeight)
    (hcol : col < vgaWidth) :
    scrollCell row col { c with vga := shifted c.vga ((row - 1) * vgaWidth + col) } =
      some { c with vga := shifted c.vga ((row - 1) * vgaWidth + col + 1) } := by
  have hnext : row * vgaWidth + col = (row - 1) * vgaWidth + col + vgaWidth := by
    unfold vgaWidth
    omega
  have hsource : (row - 1) * vgaWidth + col + vgaWidth < vgaWidth * vgaHeight := by
    unfold vgaWidth vgaHeight at *
    omega
  have htarget : (row - 1) * vgaWidth + col < vgaWidth * vgaHeight := by omega
  have hread : shifted c.vga ((row - 1) * vgaWidth + col)
      ((row - 1) * vgaWidth + col + vgaWidth) = c.vga ((row - 1) * vgaWidth + col + vgaWidth) :=
    if_neg (by omega)
  rw [scrollCell, Console.load, hnext, if_pos hsource, Option.bind_some, Console.store,
    if_pos htarget]
  dsimp only
  rw [hread, update_shifted]

theorem scrollRow_shifted (c : Console) {row : ℕ} (hrow : 1 ≤ row) (hrow' : row < vgaHeight) :
    scrollRow row (some { c with vga := shifted c.vga ((row - 1) * vgaWidth) }) =
      some { c with vga := shifted c.vga (row * vgaWidth) } := by
  have hloop := @forLoop_induction _ 0 vgaWidth (fun col s => s.bind (scrollCell row col))
    (some { c with vga := shifted c.vga ((row - 1) * vgaWidth) })
    (fun col s => s = some { c with vga := shifted c.vga ((row - 1) * vgaWidth + col) })
    (Nat.zero_le _) rfl (fun col s _ hcol hs => by
      rw [hs, Option.bind_some, scrollCell_shifted c hrow hrow' hcol]
      rfl)
  have hrowEnd : (row - 1) * vgaWidth + vgaWidth = row * vgaWidth := by
    unfold vgaWidth
    omega
  rw [scrollRow, hloop, hrowEnd]

theorem scroll_eq (c : Console) : scroll c = some { c with vga := scrolled c.vga } := by
  have hrows : 1 ≤ vgaHeight := by
    unfold vgaHeight
    omega
  have hlast : (vgaHeight - 1) * vgaWidth + vgaWidth ≤ vgaWidth * vgaHeight := by
    unfold vgaWidth vgaHeight
    omega
  have hloop := @forLoop_induction _ 1 vgaHeight scrollRow (some c)
    (fun row s => s = some { c with vga := shifted c.vga ((row - 1) * vgaWidth) })
    hrows rfl (fun row s hrow hrow' hs => by
      rw [hs, scrollRow_shifted c hrow hrow']
      rfl)
  rw [scroll, hloop, fillBlank_eq _ hlast]
  rfl

theorem scrolled_of_lt (v : ℕ → UInt16) {i j : ℕ} (hi : i + 1 < vgaHeight) (hj : j < vgaWidth) :
    scrolled v (i * vgaWidth + j) = v ((i + 1) * vgaWidth + j) := by
  have hnext : i * vgaWidth + j + vgaWidth = (i + 1) * vgaWidth + j := by
    unfold vgaWidth
    omega
  have hcopied : i * vgaWidth + j < (vgaHeight - 1) * vgaWidth := by
    unfold vgaWidth vgaHeight at *
    omega
  rw [scrolled, blanked, if_neg (by omega), shifted, if_pos hcopied, hnext]

theorem scrolled_last (v : ℕ → UInt16) {j : ℕ} (hj : j < vgaWidth) :
    scrolled v ((vgaHeight - 1) * vgaWidth + j) = vgaBlank :=
  if_pos ⟨Nat.le_add_right _ j, Nat.add_lt_add_left hj _⟩

end Nadir
