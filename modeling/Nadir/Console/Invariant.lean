import Nadir.Console.Screen

/-!
# The invariant of the console

From `console_clear` on the cursor stays on the screen, the CRT registers follow it, and every cell
from the cursor on is blank. What is printed therefore never covers a character; one goes only by
a backspace or over the top.
-/

namespace Nadir

/-- The cursor at `k` is on the screen, and nothing stands from there on. -/
structure BlankFrom (v : ℕ → UInt16) (k : ℕ) : Prop where
  lt : k < vgaCells
  blank : ∀ i, k ≤ i → i < vgaCells → v i = vgaBlank

def Resting (c : Console) : Prop := ∃ v k, c = screenAt v k ∧ BlankFrom v k

/-- What holds of the console in every state. -/
structure Console.Ok (c : Console) : Prop where
  row : c.cursorRow.toNat < vgaHeight
  col : c.cursorCol.toNat < vgaWidth
  crt : 256 * c.crtHigh.toNat + c.crtLow.toNat = c.offset
  blank : ∀ i, c.offset ≤ i → i < vgaCells → c.vga i = 0x0F20

/-- Every cell that shows something is kept, but the one before the cursor by a backspace, and the
first row when the screen moves up. -/
def KeepsVisible (ch : Int8) (c c' : Console) : Prop :=
  if ch = 8 then ∀ i, i + 1 ≠ c.offset → c'.vga i = c.vga i
  else ∃ d, (d = 0 ∨ d = vgaWidth ∧ c.cursorRow.toNat + 1 = vgaHeight) ∧
    ∀ i < vgaCells, c.vga i ≠ 0x0F20 → d ≤ i → c'.vga (i - d) = c.vga i

theorem vgaBlank_eq : vgaBlank = 0x0F20 := rfl

theorem screenAt_ok {v : ℕ → UInt16} {k : ℕ} (h : BlankFrom v k) : (screenAt v k).Ok := by
  have hlt := h.lt
  constructor
  · rw [screenAt_row v hlt]
    unfold vgaCells vgaHeight vgaWidth at *
    omega
  · rw [screenAt_col]
    exact Nat.mod_lt k (Nat.succ_pos 79)
  · rw [screenAt_crt v hlt, screenAt_offset v hlt]
  · intro i hi hcell
    rw [screenAt_offset v hlt] at hi
    exact h.blank i hi hcell

theorem Resting.ok {c : Console} (h : Resting c) : c.Ok := by
  obtain ⟨v, k, rfl, hblank⟩ := h
  exact screenAt_ok hblank

theorem consoleClear_resting (c : Console) : ∃ c', consoleClear c = some c' ∧ Resting c' := by
  refine ⟨_, consoleClear_eq c, _, 0, rfl, Nat.succ_pos 1999, fun i _ hi => ?_⟩
  apply if_pos
  rw [Nat.zero_add]
  exact ⟨Nat.zero_le i, hi⟩

theorem scrolled_blank (v : ℕ → UInt16) {i : ℕ} (hlow : vgaCells - vgaWidth ≤ i)
    (hi : i < vgaCells) : scrolled v i = vgaBlank := by
  apply if_pos
  unfold vgaCells vgaHeight vgaWidth at *
  omega

theorem scrolled_up (v : ℕ → UInt16) {i : ℕ} (htop : vgaWidth ≤ i) (hi : i < vgaCells) :
    scrolled v (i - vgaWidth) = v i := by
  have hback : i - vgaWidth + vgaWidth = i := Nat.sub_add_cancel htop
  have hcopied : i - vgaWidth < (vgaHeight - 1) * vgaWidth := by
    unfold vgaCells vgaHeight vgaWidth at *
    omega
  rw [scrolled, blanked, if_neg (by omega), shifted, if_pos hcopied, hback]

theorem settle_resting {v : ℕ → UInt16} {k : ℕ} (hk : k ≤ vgaCells)
    (hblank : ∀ i, k ≤ i → i < vgaCells → v i = vgaBlank) : Resting (settle v k) := by
  unfold settle
  by_cases hlt : k < vgaCells
  · rw [if_pos hlt]
    exact ⟨v, k, rfl, hlt, hblank⟩
  · have hend : k = vgaCells := Nat.le_antisymm hk (Nat.le_of_not_lt hlt)
    rw [if_neg hlt, hend]
    refine ⟨scrolled v, vgaCells - vgaWidth, rfl, ?_, fun i hi hcell => scrolled_blank v hi hcell⟩
    unfold vgaCells vgaWidth
    omega

theorem nextRow_le {k : ℕ} (hk : k < vgaCells) :
    k ≤ (k / vgaWidth + 1) * vgaWidth ∧ (k / vgaWidth + 1) * vgaWidth ≤ vgaCells := by
  unfold vgaCells vgaWidth at *
  omega

theorem BlankFrom.write {v : ℕ → UInt16} {k : ℕ} (h : BlankFrom v k) (cell : UInt16) (i : ℕ)
    (hi : k + 1 ≤ i) (hcell : i < vgaCells) : Function.update v k cell i = vgaBlank := by
  rw [Function.update_of_ne (Nat.ne_of_gt hi)]
  exact h.blank i (Nat.le_of_succ_le hi) hcell

theorem BlankFrom.erase {v : ℕ → UInt16} {k : ℕ} (h : BlankFrom v (k + 1)) :
    BlankFrom (Function.update v k vgaBlank) k := by
  refine ⟨Nat.lt_of_succ_lt h.lt, fun i hi hcell => ?_⟩
  rcases Nat.eq_or_lt_of_le hi with heq | hlt
  · rw [← heq, Function.update_self]
  · rw [Function.update_of_ne (Nat.ne_of_gt hlt)]
    exact h.blank i hlt hcell

/-- What one character does: the four cases are those of `console_putchar`. -/
theorem putchar_resting (ch : Int8) {c : Console} (h : Resting c) :
    ∃ c', consolePutchar ch c = some c' ∧ Resting c' := by
  obtain ⟨v, k, rfl, hblank⟩ := h
  have hlt := hblank.lt
  by_cases hbreak : ch = 10
  · subst hbreak
    obtain ⟨hle, hend⟩ := nextRow_le hlt
    exact ⟨_, putchar_newline v hlt,
      settle_resting hend fun i hi hcell => hblank.blank i (hle.trans hi) hcell⟩
  by_cases hback : ch = 8
  · subst hback
    cases k with
    | zero => exact ⟨_, putchar_backspace_zero v, v, 0, rfl, hblank⟩
    | succ k => exact ⟨_, putchar_backspace_succ v hlt, _, k, rfl, hblank.erase⟩
  · exact ⟨_, putchar_glyph v hlt hbreak hback,
      settle_resting hlt fun i hi hcell => hblank.write (vgaCell ch) i hi hcell⟩

theorem consolePrint_rule {I : Console → Prop} {P : Int8 → Prop}
    (hI : ∀ c ch, I c → P ch → ∃ c', consolePutchar ch c = some c' ∧ I c')
    {s : List Int8} (hs : ∀ ch ∈ s, P ch) {c : Console} (hc : I c) :
    ∃ c', consolePrint s c = some c' ∧ I c' := by
  induction s generalizing c with
  | nil => exact ⟨c, rfl, hc⟩
  | cons ch s ih =>
    rw [List.forall_mem_cons] at hs
    obtain ⟨c', hput, hnext⟩ := hI c ch hc hs.1
    obtain ⟨c'', hprint, hlast⟩ := ih hs.2 hnext
    refine ⟨c'', ?_, hlast⟩
    rw [consolePrint, hput]
    exact hprint

theorem consolePrint_resting (s : List Int8) {c : Console} (h : Resting c) :
    ∃ c', consolePrint s c = some c' ∧ Resting c' :=
  consolePrint_rule (fun _ ch hc _ => putchar_resting ch hc) (fun _ _ => trivial) h

theorem console_resting (c₀ : Console) (s : List Int8) :
    ∃ c, (consoleClear c₀).bind (consolePrint s) = some c ∧ Resting c := by
  obtain ⟨c, hclear, hc⟩ := consoleClear_resting c₀
  rw [hclear]
  exact consolePrint_resting s hc

theorem settle_keeps (v : ℕ → UInt16) {k : ℕ} :
    ∃ d, (d = 0 ∨ d = vgaWidth ∧ vgaCells ≤ k) ∧
      ∀ i < vgaCells, d ≤ i → (settle v k).vga (i - d) = v i := by
  unfold settle
  by_cases hlt : k < vgaCells
  · rw [if_pos hlt]
    exact ⟨0, Or.inl rfl, fun _ _ _ => rfl⟩
  · rw [if_neg hlt]
    exact ⟨vgaWidth, Or.inr ⟨rfl, Nat.le_of_not_lt hlt⟩, fun i hi htop => scrolled_up v htop hi⟩

theorem keepsVisible_settle {v w : ℕ → UInt16} {k k' : ℕ} {ch : Int8} (hk : k < vgaCells)
    (hback : ch ≠ 8) (hkeep : ∀ i < vgaCells, v i ≠ vgaBlank → w i = v i)
    (hrow : k' ≤ (k / vgaWidth + 1) * vgaWidth) :
    KeepsVisible ch (screenAt v k) (settle w k') := by
  obtain ⟨d, hd, hcells⟩ := @settle_keeps w k'
  rw [KeepsVisible, if_neg hback]
  refine ⟨d, hd.imp_right fun h => ⟨h.1, ?_⟩, fun i hi hseen htop => ?_⟩
  · have hpast := h.2
    rw [screenAt_row v hk]
    unfold vgaCells vgaHeight vgaWidth at *
    omega
  · rw [hcells i hi htop]
    exact hkeep i hi hseen

theorem putchar_keepsVisible {ch : Int8} {c c' : Console} (h : Resting c)
    (hput : consolePutchar ch c = some c') : KeepsVisible ch c c' := by
  obtain ⟨v, k, rfl, hblank⟩ := h
  have hlt := hblank.lt
  by_cases hbreak : ch = 10
  · subst hbreak
    rw [putchar_newline v hlt, Option.some_inj] at hput
    subst hput
    exact keepsVisible_settle hlt (by decide) (fun _ _ _ => rfl) le_rfl
  by_cases hback : ch = 8
  · subst hback
    rw [KeepsVisible, if_pos rfl, screenAt_offset v hlt]
    cases k with
    | zero =>
      rw [putchar_backspace_zero, Option.some_inj] at hput
      subst hput
      exact fun _ _ => rfl
    | succ k =>
      rw [putchar_backspace_succ v hlt, Option.some_inj] at hput
      subst hput
      exact fun i hi => Function.update_of_ne (fun heq => hi (congrArg Nat.succ heq)) _ _
  · rw [putchar_glyph v hlt hbreak hback, Option.some_inj] at hput
    subst hput
    apply keepsVisible_settle hlt hback
    · intro i hi hseen
      -- the cell under the cursor is blank, so the glyph covers nothing
      apply Function.update_of_ne
      intro heq
      exact hseen (hblank.blank i heq.ge hi)
    · unfold vgaWidth
      omega

/-- After `console_clear` and any characters the state is in order, and the next character has a
result that keeps what is visible. -/
theorem console_ok (c₀ : Console) (s : List Int8) :
    ∃ c, (consoleClear c₀).bind (consolePrint s) = some c ∧ c.Ok ∧
      ∀ ch, ∃ c', consolePutchar ch c = some c' ∧ KeepsVisible ch c c' := by
  obtain ⟨c, hrun, hc⟩ := console_resting c₀ s
  refine ⟨c, hrun, hc.ok, fun ch => ?_⟩
  obtain ⟨c', hput, _⟩ := putchar_resting ch hc
  exact ⟨c', hput, putchar_keepsVisible hc hput⟩

end Nadir
