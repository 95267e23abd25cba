import Nadir.Keyboard.Basic
import Mathlib.Tactic.SplitIfs

/-!
# Decoding is a function of the scancode history

The handler's only other state is `k_shift`, `k_caps` and `k_e0`. A decoder over these three
tells which byte a scancode stands for and which state follows, and the handler queues that byte
and keeps that state whatever the ring holds.
-/

namespace Nadir

/-- The state only the interrupt handler touches. -/
structure Decoder where
  kShift : UInt8
  kCaps : UInt8
  kE0 : UInt8
  deriving DecidableEq, Repr

def Keyboard.decoder (k : Keyboard) : Decoder := ⟨k.kShift, k.kCaps, k.kE0⟩

def Keyboard.withDecoder (d : Decoder) (k : Keyboard) : Keyboard :=
  { k with kShift := d.kShift, kCaps := d.kCaps, kE0 := d.kE0 }

namespace Decoder

def start : Decoder := ⟨0, 0, 0⟩

def next (code : UInt8) (d : Decoder) : Decoder :=
  if code = scExtended then { d with kE0 := 1 }
  else if d.kE0 ≠ 0 then { d with kE0 := 0 }
  else if code &&& scRelease ≠ 0 then
    if code &&& ~~~scRelease = scLshift ∨ code &&& ~~~scRelease = scRshift then
      { d with kShift := 0 }
    else d
  else if code = scLshift ∨ code = scRshift then { d with kShift := 1 }
  else if code = scCaps then { d with kCaps := if d.kCaps = 0 then 1 else 0 }
  else d

/-- The scancode is a make code of a key that is neither extended nor a modifier. -/
def Plain (code : UInt8) (d : Decoder) : Prop :=
  code ≠ scExtended ∧ d.kE0 = 0 ∧ code &&& scRelease = 0 ∧
    ¬ (code = scLshift ∨ code = scRshift) ∧ code ≠ scCaps ∧ code.toNat < 128

instance (code : UInt8) (d : Decoder) : Decidable (d.Plain code) :=
  inferInstanceAs (Decidable (_ ∧ _))

def symbol (code : UInt8) (d : Decoder) : UInt8 :=
  let base := kUnshifted[code.toNat]!
  if 'a'.toUInt8 ≤ base ∧ base ≤ 'z'.toUInt8 then
    if (d.kShift != 0) != (d.kCaps != 0) then base - 'a'.toUInt8 + 'A'.toUInt8 else base
  else if d.kShift ≠ 0 then
    if kShifted[code.toNat]! ≠ 0 then kShifted[code.toNat]! else base
  else base

/-- The byte the scancode stands for, if any. -/
def byte (code : UInt8) (d : Decoder) : Option UInt8 :=
  if d.Plain code ∧ kUnshifted[code.toNat]! ≠ 0 then some (d.symbol code) else none

theorem upper_ne_zero {base : UInt8} (hlo : 'a'.toUInt8 ≤ base) (hhi : base ≤ 'z'.toUInt8) :
    base - 'a'.toUInt8 + 'A'.toUInt8 ≠ 0 := by
  intro hzero
  have hnat := congrArg UInt8.toNat hzero
  rw [UInt8.le_iff_toNat_le] at hlo hhi
  rw [UInt8.toNat_add, UInt8.toNat_sub_of_le _ _ (UInt8.le_iff_toNat_le.mpr hlo),
    UInt8.toNat_zero] at hnat
  have ha : 'a'.toUInt8.toNat = 97 := rfl
  have hz : 'z'.toUInt8.toNat = 122 := rfl
  have hA : 'A'.toUInt8.toNat = 65 := rfl
  omega

theorem byte_ne_zero {code c : UInt8} {d : Decoder} (h : d.byte code = some c) : c ≠ 0 := by
  unfold byte at h
  split_ifs at h with hmapped
  cases h
  have hbase := hmapped.2
  unfold symbol
  dsimp only
  split_ifs with hletter hupper hshift hshifted
  · exact upper_ne_zero hletter.1 hletter.2
  · exact hbase
  · exact hshifted
  · exact hbase
  · exact hbase

theorem next_of_plain {code : UInt8} {d : Decoder} (h : d.Plain code) : d.next code = d := by
  obtain ⟨hext, he0, hmake, hshift, hcaps, _⟩ := h
  rw [next, if_neg hext, if_neg (not_not_intro he0), if_neg (not_not_intro hmake), if_neg hshift,
    if_neg hcaps]

def after (history : List UInt8) : Decoder := history.foldl (fun d code => d.next code) start

theorem after_append_singleton (history : List UInt8) (code : UInt8) :
    after (history ++ [code]) = (after history).next code := by
  rw [after, List.foldl_append]
  rfl

end Decoder

/-- The byte a scancode stands for after a history of scancodes. -/
def translate (history : List UInt8) (code : UInt8) : Option UInt8 :=
  (Decoder.after history).byte code

def deliver : Option UInt8 → Keyboard → Keyboard
  | none, k => k
  | some c, k => enqueue c k

theorem keyboardOnIrq_of_plain {code : UInt8} {k : Keyboard} (hplain : k.decoder.Plain code) :
    keyboardOnIrq code k =
      deliver (k.decoder.byte code) (k.withDecoder (k.decoder.next code)) := by
  have hsame : k.withDecoder k.decoder = k := rfl
  rw [Decoder.next_of_plain hplain, hsame]
  obtain ⟨hext, he0, hmake, hshift, hcaps, hlt⟩ := id hplain
  change k.kE0 = 0 at he0
  rw [keyboardOnIrq, if_neg hext, if_neg (not_not_intro he0), if_neg (not_not_intro hmake),
    if_neg hshift, if_neg hcaps, if_neg (Nat.not_le_of_lt hlt)]
  by_cases hbase : kUnshifted[code.toNat]! = 0
  · have hnone : k.decoder.byte code = none := if_neg (fun h => h.2 hbase)
    rw [hnone]
    exact if_pos hbase
  · have hsome : k.decoder.byte code = some (k.decoder.symbol code) := if_pos ⟨hplain, hbase⟩
    rw [hsome]
    exact if_neg hbase

theorem keyboardOnIrq_of_not_plain {code : UInt8} {k : Keyboard}
    (hplain : ¬k.decoder.Plain code) :
    keyboardOnIrq code k = k.withDecoder (k.decoder.next code) := by
  have he0 : k.decoder.kE0 = k.kE0 := rfl
  rw [keyboardOnIrq, Decoder.next, he0]
  by_cases hext : code = scExtended
  · rw [if_pos hext, if_pos hext]
    rfl
  rw [if_neg hext, if_neg hext]
  by_cases hpending : k.kE0 ≠ 0
  · rw [if_pos hpending, if_pos hpending]
    rfl
  rw [if_neg hpending, if_neg hpending]
  by_cases hbreak : code &&& scRelease ≠ 0
  · rw [if_pos hbreak, if_pos hbreak]
    by_cases hshift : code &&& ~~~scRelease = scLshift ∨ code &&& ~~~scRelease = scRshift
    · rw [if_pos hshift, if_pos hshift]
      rfl
    · rw [if_neg hshift, if_neg hshift]
      rfl
  rw [if_neg hbreak, if_neg hbreak]
  by_cases hshift : code = scLshift ∨ code = scRshift
  · rw [if_pos hshift, if_pos hshift]
    rfl
  rw [if_neg hshift, if_neg hshift]
  by_cases hcaps : code = scCaps
  · rw [if_pos hcaps, if_pos hcaps]
    rfl
  rw [if_neg hcaps, if_neg hcaps]
  have hlarge : code.toNat ≥ 128 := Nat.le_of_not_lt (fun hlt =>
    hplain ⟨hext, Decidable.not_not.mp hpending, Decidable.not_not.mp hbreak, hshift, hcaps, hlt⟩)
  rw [if_pos hlarge]
  rfl

/-- The handler advances the decoder and queues what the decoder says. -/
theorem keyboardOnIrq_eq (code : UInt8) (k : Keyboard) :
    keyboardOnIrq code k =
      deliver (k.decoder.byte code) (k.withDecoder (k.decoder.next code)) := by
  by_cases hplain : k.decoder.Plain code
  · exact keyboardOnIrq_of_plain hplain
  · have hnone : k.decoder.byte code = none := if_neg (fun h => hplain h.1)
    rw [hnone, deliver]
    exact keyboardOnIrq_of_not_plain hplain

end Nadir
