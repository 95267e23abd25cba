import Nadir.Keyboard.Decoder
import Mathlib.Data.List.Induction
import Mathlib.Algebra.Ring.Parity

/-!
# Held keys

Which keys are down, and how often a key was pressed, is a matter of the scancode history alone:
the prefix byte and the byte behind it belong to extended keys, and of the other bytes a make code
presses its key unless the key is down already, which makes it a repeat. The decoder knows less:
one latch for the two Shift keys, and a lock that every make code toggles.
-/

namespace Nadir

/-- A key: whether it is down, and how often it was pressed. -/
structure Key where
  down : Bool
  presses : ℕ
  deriving DecidableEq, Repr

namespace Key

def up : Key := ⟨false, 0⟩

/-- The make code of a key that is down is a repeat. -/
def make (k : Key) : Key := ⟨true, if k.down then k.presses else k.presses + 1⟩

def release (k : Key) : Key := ⟨false, k.presses⟩

/-- What a code that is not extended does to the key with make code `key`. -/
def event (key code : UInt8) (k : Key) : Key :=
  if code = key then k.make else if code = key ||| scRelease then k.release else k

end Key

/-- Whether the last byte is the prefix; `pre` is the answer for the bytes before. -/
def endsInPrefix (pre : Bool) (codes : List UInt8) : Bool :=
  codes.foldl (fun _ code => code == scExtended) pre

/-- The bytes that neither are the prefix nor follow one. -/
def unextended : Bool → List UInt8 → List UInt8
  | _, [] => []
  | pre, code :: codes =>
    (if code = scExtended ∨ pre then [] else [code]) ++ unextended (code == scExtended) codes

/-- After this history the code belongs to an extended key. -/
def Extended (history : List UInt8) (code : UInt8) : Prop :=
  code = scExtended ∨ endsInPrefix false history

instance (history : List UInt8) (code : UInt8) : Decidable (Extended history code) :=
  inferInstanceAs (Decidable (_ ∨ _))

/-- The key with make code `key` after a history of scancodes. -/
def keyAfter (key : UInt8) (history : List UInt8) : Key :=
  (unextended false history).foldl (fun k code => k.event key code) Key.up

/-- Left Shift or right Shift is down. -/
def ShiftDown (history : List UInt8) : Prop :=
  (keyAfter scLshift history).down ∨ (keyAfter scRshift history).down

instance (history : List UInt8) : Decidable (ShiftDown history) :=
  inferInstanceAs (Decidable (_ ∨ _))

/-- The last event of a Shift key is a make. -/
def shiftLatch (history : List UInt8) : Bool :=
  (unextended false history).foldl (fun latch code =>
    if code = scLshift ∨ code = scRshift then true
    else if code = scLshift ||| scRelease ∨ code = scRshift ||| scRelease then false
    else latch) false

theorem endsInPrefix_append_singleton (pre : Bool) (history : List UInt8) (code : UInt8) :
    endsInPrefix pre (history ++ [code]) = (code == scExtended) := by
  rw [endsInPrefix, List.foldl_append]
  rfl

theorem unextended_append_singleton (pre : Bool) (history : List UInt8) (code : UInt8) :
    unextended pre (history ++ [code]) =
      unextended pre history ++ unextended (endsInPrefix pre history) [code] := by
  induction history generalizing pre with
  | nil => rfl
  | cons c history ih =>
    have hrest : endsInPrefix pre (c :: history) = endsInPrefix (c == scExtended) history := rfl
    rw [List.cons_append, unextended, unextended, ih, hrest, List.append_assoc]

theorem unextended_of_extended {history : List UInt8} {code : UInt8} (h : Extended history code) :
    unextended false (history ++ [code]) = unextended false history := by
  unfold Extended at h
  have hnone : unextended (endsInPrefix false history) [code] = [] := by
    rw [unextended, if_pos h]
    rfl
  rw [unextended_append_singleton, hnone, List.append_nil]

theorem unextended_of_not {history : List UInt8} {code : UInt8} (h : ¬Extended history code) :
    unextended false (history ++ [code]) = unextended false history ++ [code] := by
  unfold Extended at h
  have hone : unextended (endsInPrefix false history) [code] = [code] := by
    rw [unextended, if_neg h]
    rfl
  rw [unextended_append_singleton, hone]

theorem keyAfter_append_singleton (key : UInt8) (history : List UInt8) (code : UInt8) :
    keyAfter key (history ++ [code]) =
      if Extended history code then keyAfter key history
      else (keyAfter key history).event key code := by
  by_cases hext : Extended history code
  · rw [if_pos hext, keyAfter, unextended_of_extended hext, keyAfter]
  · rw [if_neg hext, keyAfter, unextended_of_not hext, List.foldl_append]
    rfl

theorem shiftLatch_append_singleton (history : List UInt8) (code : UInt8) :
    shiftLatch (history ++ [code]) =
      if Extended history code then shiftLatch history
      else if code = scLshift ∨ code = scRshift then true
      else if code = scLshift ||| scRelease ∨ code = scRshift ||| scRelease then false
      else shiftLatch history := by
  by_cases hext : Extended history code
  · rw [if_pos hext, shiftLatch, unextended_of_extended hext, shiftLatch]
  · rw [if_neg hext, shiftLatch, unextended_of_not hext, List.foldl_append]
    rfl

theorem shiftDown_of_latch {history : List UInt8} (h : shiftLatch history) :
    ShiftDown history := by
  induction history using List.reverseRecOn with
  | nil => cases h
  | append_singleton history code ih =>
    rw [shiftLatch_append_singleton] at h
    unfold ShiftDown at ih ⊢
    rw [keyAfter_append_singleton, keyAfter_append_singleton]
    by_cases hext : Extended history code
    · rw [if_pos hext] at h ⊢
      rw [if_pos hext]
      exact ih h
    rw [if_neg hext] at h ⊢
    rw [if_neg hext]
    by_cases hmake : code = scLshift ∨ code = scRshift
    · rcases hmake with rfl | rfl
      · exact Or.inl rfl
      · exact Or.inr rfl
    rw [if_neg hmake] at h
    by_cases hbreak : code = scLshift ||| scRelease ∨ code = scRshift ||| scRelease
    · rw [if_pos hbreak] at h
      cases h
    rw [if_neg hbreak] at h
    rw [not_or] at hmake hbreak
    rw [Key.event, if_neg hmake.1, if_neg hbreak.1, Key.event, if_neg hmake.2, if_neg hbreak.2]
    exact ih h

namespace Decoder

theorem release_shift_iff : ∀ code : UInt8, code &&& scRelease ≠ 0 →
    (code &&& ~~~scRelease = scLshift ∨ code &&& ~~~scRelease = scRshift ↔
      code = scLshift ||| scRelease ∨ code = scRshift ||| scRelease) := by
  have hall : ∀ n : Fin 256, UInt8.ofFin n &&& scRelease ≠ 0 →
      (UInt8.ofFin n &&& ~~~scRelease = scLshift ∨ UInt8.ofFin n &&& ~~~scRelease = scRshift ↔
        UInt8.ofFin n = scLshift ||| scRelease ∨ UInt8.ofFin n = scRshift ||| scRelease) := by
    decide +kernel
  intro code
  exact hall code.toFin

theorem kE0_after (history : List UInt8) :
    (after history).kE0 = if endsInPrefix false history then 1 else 0 := by
  induction history using List.reverseRecOn with
  | nil => rfl
  | append_singleton history code ih =>
    rw [after_append_singleton, endsInPrefix_append_singleton]
    by_cases hext : code = scExtended
    · rw [next, if_pos hext, if_pos (beq_iff_eq.mpr hext)]
    rw [if_neg (fun h => hext (beq_iff_eq.mp h)), next, if_neg hext]
    split_ifs with he0
    · rfl
    all_goals exact not_not.mp he0

theorem next_of_extended {history : List UInt8} {code : UInt8} (h : Extended history code) :
    ((after history).next code).kShift = (after history).kShift ∧
      ((after history).next code).kCaps = (after history).kCaps := by
  by_cases hprefix : code = scExtended
  · rw [next, if_pos hprefix]
    exact ⟨rfl, rfl⟩
  · have he0 := kE0_after history
    rw [if_pos (h.resolve_left hprefix)] at he0
    rw [next, if_neg hprefix, he0, if_pos (by decide)]
    exact ⟨rfl, rfl⟩

theorem next_of_break {d : Decoder} {code : UInt8} (hplain : code ≠ scExtended)
    (he0 : d.kE0 = 0) (hbreak : code &&& scRelease ≠ 0) :
    (d.next code).kShift =
        (if code = scLshift ||| scRelease ∨ code = scRshift ||| scRelease then 0 else d.kShift) ∧
      (d.next code).kCaps = d.kCaps := by
  have hshift := release_shift_iff code hbreak
  rw [next, if_neg hplain, if_neg (not_not_intro he0), if_pos hbreak]
  by_cases hrelease : code = scLshift ||| scRelease ∨ code = scRshift ||| scRelease
  · rw [if_pos (hshift.mpr hrelease), if_pos hrelease]
    exact ⟨rfl, rfl⟩
  · rw [if_neg (fun hr => hrelease (hshift.mp hr)), if_neg hrelease]
    exact ⟨rfl, rfl⟩

theorem next_of_make {d : Decoder} {code : UInt8} (hplain : code ≠ scExtended)
    (he0 : d.kE0 = 0) (hmake : code &&& scRelease = 0) :
    (d.next code).kShift = (if code = scLshift ∨ code = scRshift then 1 else d.kShift) ∧
      (d.next code).kCaps =
        if code = scCaps then if d.kCaps = 0 then 1 else 0 else d.kCaps := by
  rw [next, if_neg hplain, if_neg (not_not_intro he0), if_neg (not_not_intro hmake)]
  by_cases hshift : code = scLshift ∨ code = scRshift
  · have hcaps : code ≠ scCaps := by
      rcases hshift with rfl | rfl
      · decide
      · decide
    rw [if_pos hshift, if_pos hshift, if_neg hcaps]
    exact ⟨rfl, rfl⟩
  · rw [if_neg hshift, if_neg hshift]
    by_cases hcaps : code = scCaps
    · rw [if_pos hcaps, if_pos hcaps]
      exact ⟨rfl, rfl⟩
    · rw [if_neg hcaps, if_neg hcaps]
      exact ⟨rfl, rfl⟩

theorem next_of_not_extended {history : List UInt8} {code : UInt8} (h : ¬Extended history code) :
    ((after history).next code).kShift =
        (if code = scLshift ∨ code = scRshift then 1
        else if code = scLshift ||| scRelease ∨ code = scRshift ||| scRelease then 0
        else (after history).kShift) ∧
      ((after history).next code).kCaps =
        if code = scCaps then if (after history).kCaps = 0 then 1 else 0
        else (after history).kCaps := by
  rw [Extended, not_or] at h
  have he0 := kE0_after history
  rw [if_neg h.2] at he0
  by_cases hbreak : code &&& scRelease = 0
  · have hrelease : ¬(code = scLshift ||| scRelease ∨ code = scRshift ||| scRelease) := by
      rintro (rfl | rfl)
      · cases hbreak
      · cases hbreak
    rw [if_neg hrelease]
    exact next_of_make h.1 he0 hbreak
  · have hcodes : code ≠ scLshift ∧ code ≠ scRshift ∧ code ≠ scCaps := by
      refine ⟨?_, ?_, ?_⟩
      all_goals
        rintro rfl
        exact hbreak rfl
    rw [if_neg (not_or.mpr ⟨hcodes.1, hcodes.2.1⟩), if_neg hcodes.2.2]
    exact next_of_break h.1 he0 hbreak

theorem kShift_after (history : List UInt8) :
    (after history).kShift = if shiftLatch history then 1 else 0 := by
  induction history using List.reverseRecOn with
  | nil => rfl
  | append_singleton history code ih =>
    rw [after_append_singleton, shiftLatch_append_singleton]
    by_cases hext : Extended history code
    · rw [(next_of_extended hext).1, if_pos hext, ih]
    rw [(next_of_not_extended hext).1, if_neg hext, ih]
    by_cases hmake : code = scLshift ∨ code = scRshift
    · rw [if_pos hmake, if_pos hmake, if_pos rfl]
    rw [if_neg hmake, if_neg hmake]
    by_cases hbreak : code = scLshift ||| scRelease ∨ code = scRshift ||| scRelease
    · rw [if_pos hbreak, if_pos hbreak, if_neg Bool.false_ne_true]
    · rw [if_neg hbreak, if_neg hbreak]

theorem kCaps_after (history : List UInt8) :
    (after history).kCaps = 0 ∨ (after history).kCaps = 1 := by
  induction history using List.reverseRecOn with
  | nil => exact Or.inl rfl
  | append_singleton history code ih =>
    rw [after_append_singleton]
    by_cases hext : Extended history code
    · rw [(next_of_extended hext).2]
      exact ih
    rw [(next_of_not_extended hext).2]
    split_ifs
    · exact Or.inr rfl
    · exact Or.inl rfl
    · exact ih

end Decoder

end Nadir
