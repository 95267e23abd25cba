import Nadir.Console.Invariant

/-!
# Backspaces undo what was echoed

A glyph covers a blank cell, so the backspace after it restores the screen. Only at the last cell
the screen has moved up in between.
-/

namespace Nadir

/-- Printing the string never scrolls. -/
def NoScroll : List Int8 → Console → Prop
  | [], _ => True
  | ch :: w, c => ¬Scrolls ch c ∧ ∀ c', consolePutchar ch c = some c' → NoScroll w c'

/-- `c'` shows `c` one row further up, over a blank row, with the cursor at the end of the row
above that. -/
structure MovedUp (c c' : Console) : Prop where
  cell : ∀ i, i + 1 < vgaHeight → ∀ j < vgaWidth,
    c'.vga (i * vgaWidth + j) = c.vga ((i + 1) * vgaWidth + j)
  last : ∀ j < vgaWidth, c'.vga ((vgaHeight - 1) * vgaWidth + j) = 0x0F20
  row : c'.cursorRow = 23
  col : c'.cursorCol = 79
  crt : 256 * c'.crtHigh.toNat + c'.crtLow.toNat = 23 * vgaWidth + 79

theorem consolePrint_append (s t : List Int8) (c : Console) :
    consolePrint (s ++ t) c = (consolePrint s c).bind (consolePrint t) := by
  induction s generalizing c with
  | nil => rfl
  | cons ch s ih =>
    rw [List.cons_append, consolePrint, consolePrint, Option.bind_assoc]
    exact congrArg _ (funext ih)

theorem putchar_glyph_on (v : ℕ → UInt16) {k : ℕ} (hk : k + 1 < vgaCells) {ch : Int8}
    (hch : IsGlyph ch) :
    consolePutchar ch (screenAt v k) =
      some (screenAt (Function.update v k (vgaCell ch)) (k + 1)) := by
  rw [putchar_glyph v (Nat.lt_of_succ_lt hk) hch.1 hch.2, settle, if_pos hk]

theorem noScroll_iff (v : ℕ → UInt16) {k : ℕ} (hk : k < vgaCells) {w : List Int8}
    (hw : ∀ ch ∈ w, IsGlyph ch) : NoScroll w (screenAt v k) ↔ k + w.length < vgaCells := by
  induction w generalizing v k with
  | nil => exact iff_of_true trivial hk
  | cons ch w ih =>
    rw [List.forall_mem_cons] at hw
    rw [NoScroll, not_scrolls_iff v hk hw.1, List.length_cons]
    by_cases hnext : k + 1 < vgaCells
    · have hrest := ih (Function.update v k (vgaCell ch)) hnext hw.2
      simp only [putchar_glyph_on v hnext hw.1, Option.some_inj, forall_eq', hrest]
      omega
    · omega

theorem backspace_glyph {v : ℕ → UInt16} {k : ℕ} (h : BlankFrom v k) (hk : k + 1 < vgaCells)
    (cell : UInt16) :
    consolePutchar 8 (screenAt (Function.update v k cell) (k + 1)) = some (screenAt v k) := by
  have hback : Function.update (Function.update v k cell) k vgaBlank = v := by
    rw [Function.update_idem, ← h.blank k le_rfl h.lt, Function.update_eq_self]
  rw [putchar_backspace_succ _ hk, hback]

theorem print_backspaces {v : ℕ → UInt16} {k : ℕ} (h : BlankFrom v k) {w : List Int8}
    (hw : ∀ ch ∈ w, IsGlyph ch) (hfit : k + w.length < vgaCells) :
    consolePrint (w ++ List.replicate w.length 8) (screenAt v k) = some (screenAt v k) := by
  induction w generalizing v k with
  | nil => rfl
  | cons ch w ih =>
    rw [List.forall_mem_cons] at hw
    rw [List.length_cons] at hfit
    have hk : k + 1 < vgaCells := by omega
    have hnext : BlankFrom (Function.update v k (vgaCell ch)) (k + 1) :=
      ⟨hk, h.write (vgaCell ch)⟩
    -- the innermost backspaces undo the rest of the string, the last one undoes its first glyph
    have hinner := ih hnext hw.2 (by omega)
    rw [List.length_cons, List.replicate_succ', ← List.append_assoc, consolePrint_append,
      List.cons_append, consolePrint, putchar_glyph_on v hk hw.1, Option.bind_some, hinner,
      Option.bind_some, consolePrint, backspace_glyph h hk]
    rfl

theorem print_glyphs (v : ℕ → UInt16) {k : ℕ} {w : List Int8} (hw : ∀ ch ∈ w, IsGlyph ch)
    (hfit : k + w.length < vgaCells) :
    ∃ v', consolePrint w (screenAt v k) = some (screenAt v' (k + w.length)) := by
  induction w generalizing v k with
  | nil => exact ⟨v, rfl⟩
  | cons ch w ih =>
    rw [List.forall_mem_cons] at hw
    rw [List.length_cons] at hfit
    obtain ⟨v', hrest⟩ := ih (Function.update v k (vgaCell ch)) hw.2
      (show k + 1 + w.length < vgaCells by omega)
    have hplace : k + (ch :: w).length = k + 1 + w.length := by
      rw [List.length_cons]
      omega
    refine ⟨v', ?_⟩
    rw [consolePrint, putchar_glyph_on v (by omega) hw.1, Option.bind_some, hrest, hplace]

theorem backspace_last {v : ℕ → UInt16} (h : BlankFrom v 1999) {ch : Int8} (hch : IsGlyph ch) :
    ∃ c', consolePrint [ch, 8] (screenAt v 1999) = some c' ∧ MovedUp (screenAt v 1999) c' := by
  have hsettle : settle (Function.update v 1999 (vgaCell ch)) (1999 + 1) =
      screenAt (scrolled (Function.update v 1999 (vgaCell ch))) (1919 + 1) := rfl
  have hlast : 1919 + 1 < vgaCells := by
    unfold vgaCells
    omega
  refine ⟨screenAt (Function.update (scrolled (Function.update v 1999 (vgaCell ch))) 1919
    vgaBlank) 1919, ?_, ?_⟩
  · rw [consolePrint, putchar_glyph v h.lt hch.1 hch.2, hsettle, Option.bind_some, consolePrint,
      putchar_backspace_succ _ hlast]
    rfl
  refine ⟨fun i hi j hj => ?_, fun j hj => ?_, rfl, rfl, rfl⟩
  · change Function.update (scrolled (Function.update v 1999 (vgaCell ch))) 1919 vgaBlank _ =
      v ((i + 1) * vgaWidth + j)
    by_cases hhere : i * vgaWidth + j = 1919
    · have hbelow : (i + 1) * vgaWidth + j = 1999 := by
        unfold vgaWidth at *
        omega
      rw [hhere, hbelow, Function.update_self, h.blank 1999 le_rfl h.lt]
    · have hbelow : (i + 1) * vgaWidth + j ≠ 1999 := by
        unfold vgaWidth at *
        omega
      rw [Function.update_of_ne hhere, scrolled_of_lt _ hi hj, Function.update_of_ne hbelow]
  · have hrow : (vgaHeight - 1) * vgaWidth + j ≠ 1919 := by
      unfold vgaHeight vgaWidth
      omega
    change Function.update (scrolled (Function.update v 1999 (vgaCell ch))) 1919 vgaBlank _ = 0x0F20
    rw [Function.update_of_ne hrow, scrolled_last _ hj, vgaBlank_eq]

theorem screenAt_last {v : ℕ → UInt16} {k : ℕ} (hk : k < vgaCells)
    (hrow : (screenAt v k).cursorRow = 24) (hcol : (screenAt v k).cursorCol = 79) : k = 1999 := by
  have hoffset := screenAt_offset v hk
  rw [Console.offset, hrow, hcol] at hoffset
  exact hoffset.symm

/-- After `console_clear` and any characters: as many backspaces as glyphs restore the console,
unless a glyph scrolled; and one glyph at the last cell leaves the screen moved up. -/
theorem console_backspace_undoes (c₀ : Console) (s w : List Int8) (hw : ∀ ch ∈ w, IsGlyph ch) :
    ∃ c, (consoleClear c₀).bind (consolePrint s) = some c ∧
      (NoScroll w c → consolePrint (w ++ List.replicate w.length 8) c = some c) ∧
      (c.cursorRow = 24 → c.cursorCol = 79 → ∀ ch, IsGlyph ch →
        ∃ c', consolePrint [ch, 8] c = some c' ∧ MovedUp c c') := by
  obtain ⟨c, hrun, v, k, rfl, hblank⟩ := console_resting c₀ s
  refine ⟨_, hrun, fun hno => ?_, fun hrow hcol ch hch => ?_⟩
  · exact print_backspaces hblank hw ((noScroll_iff v hblank.lt hw).mp hno)
  · have hlast := screenAt_last hblank.lt hrow hcol
    subst hlast
    exact backspace_last hblank hch

/-- On the cleared screen: `hi` is undone, and a glyph behind 1999 others moves the screen up. -/
theorem console_backspace_undoes_ends :
    (∃ c, (consoleClear ⟨fun _ => 0, 0, 0, 0, 0, 0⟩).bind (consolePrint []) = some c ∧
      consolePrint [104, 105, 8, 8] c = some c) ∧
    ∃ c, (consoleClear ⟨fun _ => 0, 0, 0, 0, 0, 0⟩).bind
        (consolePrint (List.replicate 1999 97)) = some c ∧
      ∃ c', consolePrint [98, 8] c = some c' ∧ MovedUp c c' := by
  constructor
  · have hw : ∀ ch ∈ ([104, 105] : List Int8), IsGlyph ch := by
      rw [List.forall_mem_cons, List.forall_mem_singleton]
      exact ⟨by decide, by decide⟩
    obtain ⟨c, hrun, hundo, _⟩ :=
      console_backspace_undoes ⟨fun _ => 0, 0, 0, 0, 0, 0⟩ [] [104, 105] hw
    have hclear := hrun
    rw [consoleClear_eq, Option.bind_some, consolePrint, Option.some_inj] at hclear
    have hfit : NoScroll [104, 105] c := by
      rw [← hclear, noScroll_iff _ (Nat.succ_pos 1999) hw]
      exact Nat.le_add_left 3 1997
    exact ⟨c, hrun, hundo hfit⟩
  · obtain ⟨c, hrun, _, hcorner⟩ := console_backspace_undoes ⟨fun _ => 0, 0, 0, 0, 0, 0⟩
      (List.replicate 1999 97) [] (fun _ hch => absurd hch List.not_mem_nil)
    have hw : ∀ ch ∈ List.replicate 1999 (97 : Int8), IsGlyph ch := by
      intro ch hch
      rw [List.eq_of_mem_replicate hch]
      exact ⟨by decide, by decide⟩
    obtain ⟨v, hprint⟩ := print_glyphs (blanked (fun _ => 0) 0 vgaCells) hw
      (show 0 + (List.replicate 1999 (97 : Int8)).length < vgaCells by
        rw [List.length_replicate]
        exact Nat.lt_succ_self 1999)
    have hfull := hrun
    rw [consoleClear_eq, Option.bind_some, hprint, Option.some_inj, List.length_replicate] at hfull
    exact ⟨c, hrun, hcorner (hfull ▸ rfl) (hfull ▸ rfl) 98 ⟨by decide, by decide⟩⟩

end Nadir
