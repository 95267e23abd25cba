import Nadir.Console.Invariant

/-!
# The colour of the cells

A cell is a character under a colour. The character is signed, and its sign covers the colour when
the two are joined: from 0x80 on every cell comes out with the attribute 0xFF.
-/

namespace Nadir

def cellAttr (cell : UInt16) : UInt16 := cell >>> 8

/-- Every cell of the screen has the default colour. -/
def Coloured (v : ℕ → UInt16) : Prop := ∀ i < vgaCells, cellAttr (v i) = 0x0F

instance (ch : Int8) (c : Console) : Decidable (Scrolls ch c) :=
  inferInstanceAs (Decidable (_ ≥ _))

/-- Where a glyph stands once it is printed. -/
def glyphIndex (ch : Int8) (c : Console) : ℕ :=
  if Scrolls ch c then c.offset - vgaWidth else c.offset

/-- The glyph is stored as its byte in the default colour. -/
def StoredExactly (ch : Int8) (c c' : Console) : Prop :=
  IsGlyph ch → c'.vga (glyphIndex ch c) = 0x0F00 + ch.toUInt8.toUInt16

/-- Through the whole run of the characters the cells keep the default colour, and every glyph is
stored as its byte. -/
def KeepsColour : List Int8 → Console → Prop
  | [], c => Coloured c.vga
  | ch :: s, c => Coloured c.vga ∧
      ∀ c', consolePutchar ch c = some c' → StoredExactly ch c c' ∧ KeepsColour s c'

theorem vgaCell_byte (b : Fin 256) :
    (vgaCell (UInt8.ofFin b).toInt8 = 0x0F00 + (UInt8.ofFin b).toUInt16 ↔
      0 ≤ (UInt8.ofFin b).toInt8) ∧
    (cellAttr (vgaCell (UInt8.ofFin b).toInt8) = 0x0F ↔ 0 ≤ (UInt8.ofFin b).toInt8) := by
  revert b
  decide +kernel

theorem vgaCell_eq_iff (ch : Int8) : vgaCell ch = 0x0F00 + ch.toUInt8.toUInt16 ↔ 0 ≤ ch :=
  (vgaCell_byte ch.toUInt8.toFin).1

theorem cellAttr_vgaCell_iff (ch : Int8) : cellAttr (vgaCell ch) = 0x0F ↔ 0 ≤ ch :=
  (vgaCell_byte ch.toUInt8.toFin).2

theorem cellAttr_vgaBlank : cellAttr vgaBlank = 0x0F := rfl

theorem Coloured.update {v : ℕ → UInt16} (h : Coloured v) (k : ℕ) {cell : UInt16}
    (hcell : cellAttr cell = 0x0F) : Coloured (Function.update v k cell) := by
  intro i hi
  by_cases hhere : i = k
  · rw [hhere, Function.update_self, hcell]
  · rw [Function.update_of_ne hhere]
    exact h i hi

theorem Coloured.scrolled {v : ℕ → UInt16} (h : Coloured v) : Coloured (scrolled v) := by
  intro i hi
  rcases Nat.lt_or_ge i (vgaCells - vgaWidth) with hlt | hge
  · have hbelow : i + vgaWidth < vgaCells := Nat.add_lt_of_lt_sub hlt
    have hup := scrolled_up v (Nat.le_add_left vgaWidth i) hbelow
    rw [Nat.add_sub_cancel] at hup
    rw [hup]
    exact h _ hbelow
  · rw [scrolled_blank v hge hi, cellAttr_vgaBlank]

theorem Coloured.settle {v : ℕ → UInt16} (h : Coloured v) (k : ℕ) :
    Coloured (settle v k).vga := by
  unfold Nadir.settle
  split_ifs
  · exact h
  · exact h.scrolled

theorem consoleClear_coloured {c c' : Console} (h : consoleClear c = some c') :
    Coloured c'.vga := by
  rw [consoleClear_eq, Option.some_inj] at h
  subst h
  intro i hi
  have hblank : blanked c.vga 0 vgaCells i = vgaBlank := if_pos (by omega)
  change cellAttr (blanked c.vga 0 vgaCells i) = 0x0F
  rw [hblank, cellAttr_vgaBlank]

theorem putchar_coloured {ch : Int8} {c c' : Console} (hc : Resting c) (hcol : Coloured c.vga)
    (hch : 0 ≤ ch) (hput : consolePutchar ch c = some c') : Coloured c'.vga := by
  obtain ⟨v, k, rfl, hblank⟩ := hc
  have hlt := hblank.lt
  have hv : Coloured v := hcol
  by_cases hbreak : ch = 10
  · subst hbreak
    rw [putchar_newline v hlt, Option.some_inj] at hput
    subst hput
    exact hv.settle _
  by_cases hback : ch = 8
  · subst hback
    cases k with
    | zero =>
      rw [putchar_backspace_zero, Option.some_inj] at hput
      subst hput
      exact hv
    | succ k =>
      rw [putchar_backspace_succ v hlt, Option.some_inj] at hput
      subst hput
      exact hv.update k cellAttr_vgaBlank
  · rw [putchar_glyph v hlt hbreak hback, Option.some_inj] at hput
    subst hput
    exact (hv.update k ((cellAttr_vgaCell_iff ch).mpr hch)).settle _

theorem vga_glyphIndex {ch : Int8} {c c' : Console} (hc : Resting c) (hch : IsGlyph ch)
    (hput : consolePutchar ch c = some c') : c'.vga (glyphIndex ch c) = vgaCell ch := by
  obtain ⟨v, k, rfl, hblank⟩ := hc
  have hlt := hblank.lt
  have hscroll := not_scrolls_iff v hlt hch
  rw [putchar_glyph v hlt hch.1 hch.2, Option.some_inj] at hput
  subst hput
  rw [glyphIndex, settle, screenAt_offset v hlt]
  by_cases hfit : k + 1 < vgaCells
  · rw [if_pos hfit, if_neg (hscroll.mpr hfit)]
    exact Function.update_self k (vgaCell ch) v
  · have htop : vgaWidth ≤ k := by
      unfold vgaCells vgaWidth at *
      omega
    rw [if_neg hfit, if_pos (not_not.mp fun h => hfit (hscroll.mp h))]
    change scrolled (Function.update v k (vgaCell ch)) (k - vgaWidth) = vgaCell ch
    rw [scrolled_up _ htop hlt, Function.update_self]

theorem storedExactly_iff {ch : Int8} {c c' : Console} (hc : Resting c)
    (hput : consolePutchar ch c = some c') : StoredExactly ch c c' ↔ (IsGlyph ch → 0 ≤ ch) := by
  unfold StoredExactly
  refine forall_congr' fun hch => ?_
  rw [vga_glyphIndex hc hch hput, vgaCell_eq_iff]

theorem nonneg_of_isGlyph_imp {ch : Int8} (h : IsGlyph ch → 0 ≤ ch) : 0 ≤ ch := by
  by_cases hbreak : ch = 10
  · rw [hbreak]
    decide
  by_cases hback : ch = 8
  · rw [hback]
    decide
  · exact h ⟨hbreak, hback⟩

theorem keepsColour_iff_of_resting {s : List Int8} {c : Console} (hc : Resting c)
    (hcol : Coloured c.vga) : KeepsColour s c ↔ ∀ ch ∈ s, 0 ≤ ch := by
  induction s generalizing c with
  | nil => exact iff_of_true hcol (fun _ hch => absurd hch List.not_mem_nil)
  | cons ch s ih =>
    obtain ⟨c', hput, hnext⟩ := putchar_resting ch hc
    rw [List.forall_mem_cons, KeepsColour]
    simp only [hput, Option.some_inj, forall_eq', storedExactly_iff hc hput]
    constructor
    · rintro ⟨_, hstored, hrest⟩
      have hch := nonneg_of_isGlyph_imp hstored
      exact ⟨hch, (ih hnext (putchar_coloured hc hcol hch hput)).mp hrest⟩
    · rintro ⟨hch, hrest⟩
      exact ⟨hcol, fun _ => hch, (ih hnext (putchar_coloured hc hcol hch hput)).mpr hrest⟩

/-- After `console_clear` the colour is kept through exactly the runs of characters that are not
negative. -/
theorem keepsColour_iff (c₀ : Console) (s : List Int8) :
    ∃ c, consoleClear c₀ = some c ∧ (KeepsColour s c ↔ ∀ ch ∈ s, 0 ≤ ch) := by
  obtain ⟨c, hclear, hc⟩ := consoleClear_resting c₀
  exact ⟨c, hclear, keepsColour_iff_of_resting hc (consoleClear_coloured hclear)⟩

/-- The byte 0x80 on the cleared screen. -/
theorem not_keepsColour_byte80 :
    ∃ c, consoleClear ⟨fun _ => 0, 0, 0, 0, 0, 0⟩ = some c ∧ ¬KeepsColour [-128] c := by
  obtain ⟨c, hclear, hc⟩ := consoleClear_resting ⟨fun _ => 0, 0, 0, 0, 0, 0⟩
  refine ⟨c, hclear, fun h => ?_⟩
  have hneg := (keepsColour_iff_of_resting hc (consoleClear_coloured hclear)).mp h
  exact absurd (hneg (-128) (List.mem_singleton_self _)) (by decide)

end Nadir
