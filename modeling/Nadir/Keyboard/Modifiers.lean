import Nadir.Keyboard.Fifo
import Nadir.Keyboard.Held

/-!
# What Shift and CapsLock do to the bytes

The byte for a key follows the Shift keys that are down exactly when no key is typed between the
releases of two overlapping Shift keys, and the lock follows the presses of CapsLock exactly when
the keyboard does not repeat its make code.
-/

namespace Nadir

open RingBuffer

/-- The scancode is a make code of a key that has a byte and is not extended. -/
def Types (history : List UInt8) (code : UInt8) : Prop :=
  ¬Extended history code ∧ code &&& scRelease = 0 ∧ kUnshifted[code.toNat]! ≠ 0

instance (history : List UInt8) (code : UInt8) : Decidable (Types history code) :=
  inferInstanceAs (Decidable (_ ∧ _))

def Letter (code : UInt8) : Prop :=
  'a'.toUInt8 ≤ kUnshifted[code.toNat]! ∧ kUnshifted[code.toNat]! ≤ 'z'.toUInt8

instance (code : UInt8) : Decidable (Letter code) := inferInstanceAs (Decidable (_ ∧ _))

/-- The symbol of a key: a letter is upper case when exactly one of Shift and CapsLock is on, any
other key has its shifted symbol when Shift is. -/
def symbolOf (shift caps : Bool) (code : UInt8) : UInt8 :=
  if (if Letter code then shift != caps else shift) then kShifted[code.toNat]!
  else kUnshifted[code.toNat]!

/-- In every run the byte that the handler queues for a key is its symbol for the Shift keys that
are down and the driver's lock. -/
def ShiftFollowsKeys (stream : List UInt8) : Prop :=
  ∀ s : Session, s.Reached → ∀ code, s.history ++ [code] <+: stream → Types s.history code →
    keyboardOnIrq code s.kbd =
      enqueue (symbolOf (ShiftDown s.history) (s.kbd.kCaps != 0) code) s.kbd

/-- Whenever a key with two symbols is typed while a Shift key is down, the last event of a Shift
key is a make. -/
def ShiftsApart (stream : List UInt8) : Prop :=
  ∀ history code, history ++ [code] <+: stream → Types history code →
    kShifted[code.toNat]! ≠ kUnshifted[code.toNat]! → ShiftDown history → shiftLatch history

theorem kShifted_of_mapped {code : UInt8} (h : kUnshifted[code.toNat]! ≠ 0) :
    code.toNat < 128 ∧ ¬(code = scLshift ∨ code = scRshift) ∧ code ≠ scCaps ∧
      kShifted[code.toNat]! ≠ 0 ∧
      (Letter code → kUnshifted[code.toNat]! - 'a'.toUInt8 + 'A'.toUInt8 =
        kShifted[code.toNat]!) := by
  have hall : ∀ n : Fin 256, kUnshifted[(UInt8.ofFin n).toNat]! ≠ 0 →
      (UInt8.ofFin n).toNat < 128 ∧ ¬(UInt8.ofFin n = scLshift ∨ UInt8.ofFin n = scRshift) ∧
        UInt8.ofFin n ≠ scCaps ∧ kShifted[(UInt8.ofFin n).toNat]! ≠ 0 ∧
        (Letter (UInt8.ofFin n) →
          kUnshifted[(UInt8.ofFin n).toNat]! - 'a'.toUInt8 + 'A'.toUInt8 =
            kShifted[(UInt8.ofFin n).toNat]!) := by
    decide +kernel
  exact hall code.toFin h

theorem translate_of_types {history : List UInt8} {code : UInt8} (h : Types history code) :
    translate history code =
      some (symbolOf (shiftLatch history) ((Decoder.after history).kCaps != 0) code) := by
  obtain ⟨hext, hmake, hmapped⟩ := h
  obtain ⟨hlt, hshift, hcaps, hshifted, hupper⟩ := kShifted_of_mapped hmapped
  rw [Extended, not_or] at hext
  have he0 := Decoder.kE0_after history
  rw [if_neg hext.2] at he0
  have hplain : (Decoder.after history).Plain code := ⟨hext.1, he0, hmake, hshift, hcaps, hlt⟩
  have hlatch : ((Decoder.after history).kShift != 0) = shiftLatch history := by
    rw [Decoder.kShift_after]
    cases shiftLatch history
    · rfl
    · rfl
  have hlatch' : (Decoder.after history).kShift ≠ 0 ↔ shiftLatch history = true := by
    rw [← hlatch, bne_iff_ne]
  rw [translate, Decoder.byte, if_pos ⟨hplain, hmapped⟩, Decoder.symbol, symbolOf]
  by_cases hletter : Letter code
  · rw [if_pos hletter, hlatch, hupper hletter]
    unfold Letter at hletter
    rw [if_pos hletter]
  · rw [if_neg hletter]
    unfold Letter at hletter
    rw [if_neg hletter]
    by_cases hshiftOn : (Decoder.after history).kShift ≠ 0
    · rw [if_pos hshiftOn, if_pos hshifted, if_pos (hlatch'.mp hshiftOn)]
    · rw [if_neg hshiftOn, if_neg (fun h => hshiftOn (hlatch'.mpr h))]

theorem symbolOf_inj {code : UInt8} (h : kShifted[code.toNat]! ≠ kUnshifted[code.toNat]!)
    (caps : Bool) {shift shift' : Bool} :
    symbolOf shift caps code = symbolOf shift' caps code ↔ shift = shift' := by
  unfold symbolOf
  cases caps <;> cases shift <;> cases shift' <;> by_cases hletter : Letter code <;>
    simp [hletter, h, h.symm]

theorem Session.Reached.kCaps {s : Session} (h : s.Reached) :
    s.kbd.kCaps = (Decoder.after s.history).kCaps := by
  obtain ⟨r, hr⟩ := h.represents
  exact congrArg Decoder.kCaps hr.decoder

theorem Session.Reached.keyboardOnIrq_of_types {s : Session} (h : s.Reached) {code : UInt8}
    (htypes : Types s.history code) :
    keyboardOnIrq code s.kbd =
      enqueue (symbolOf (shiftLatch s.history) (s.kbd.kCaps != 0) code) s.kbd := by
  obtain ⟨r, hr⟩ := h.represents
  have hbyte := translate_of_types htypes
  have hplain : s.kbd.decoder.Plain code := by
    rw [translate, ← hr.decoder, Decoder.byte] at hbyte
    split_ifs at hbyte with hmapped
    exact hmapped.1
  rw [keyboardOnIrq_eq, Decoder.next_of_plain hplain, hr.decoder, ← translate, hbyte, h.kCaps]
  rw [← hr.decoder]
  rfl

theorem exists_reached_enqueue_inj (history : List UInt8) :
    ∃ s : Session, s.Reached ∧ s.history = history ∧
      ∀ c c', enqueue c s.kbd = enqueue c' s.kbd → c = c' := by
  obtain ⟨s, _, hs, hhistory, _, hempty⟩ := Session.Reached.exists_of_history history
  obtain ⟨r, hr⟩ := hs.represents
  refine ⟨s, hs, hhistory, fun c c' => hr.kbd.enqueue_inj ?_⟩
  rw [Ring.full_iff, Ring.count, hr.empty_iff.mp hempty, if_pos le_rfl, Nat.sub_self]
  decide

/-- The bytes follow the Shift keys in exactly the streams that never type between the releases
of two overlapping Shift keys. -/
theorem shiftFollowsKeys_iff (stream : List UInt8) :
    ShiftFollowsKeys stream ↔ ShiftsApart stream := by
  constructor
  · intro h history code hprefix htypes htwo hdown
    obtain ⟨s, hs, rfl, hinj⟩ := exists_reached_enqueue_inj history
    have hbyte := h s hs code hprefix htypes
    rw [hs.keyboardOnIrq_of_types htypes] at hbyte
    rw [(symbolOf_inj htwo _).mp (hinj _ _ hbyte)]
    exact decide_eq_true hdown
  · intro h s hs code hprefix htypes
    rw [hs.keyboardOnIrq_of_types htypes]
    by_cases htwo : kShifted[code.toNat]! = kUnshifted[code.toNat]!
    · simp only [symbolOf, htwo, ite_self]
    · have hlatch : shiftLatch s.history = decide (ShiftDown s.history) := by
        rw [Bool.eq_iff_iff, decide_eq_true_iff]
        constructor
        · exact shiftDown_of_latch
        · exact h s.history code hprefix htypes htwo
      rw [hlatch]

/-- Left Shift down, right Shift down and up again, then the key `1`. -/
theorem not_shiftFollowsKeys_overlap : ¬ShiftFollowsKeys [0x2A, 0x36, 0xB6, 0x02] := by
  intro h
  obtain ⟨s, hs, hhistory, hinj⟩ := exists_reached_enqueue_inj [0x2A, 0x36, 0xB6]
  have htypes : Types s.history 0x02 := by
    rw [hhistory]
    decide +kernel
  have hbyte := h s hs 0x02 (hhistory ▸ List.prefix_refl _) htypes
  rw [hs.keyboardOnIrq_of_types htypes] at hbyte
  have hsymbol := hinj _ _ hbyte
  rw [symbolOf_inj (by decide +kernel), hhistory] at hsymbol
  exact absurd hsymbol (by decide +kernel)

/-- In every run the lock is on exactly when the number of presses is odd. -/
def LockFollowsPresses (stream : List UInt8) : Prop :=
  ∀ s : Session, s.Reached → s.history <+: stream →
    (s.kbd.kCaps = 1 ↔ Odd (keyAfter scCaps s.history).presses)

/-- No make code of CapsLock is a repeat. -/
def CapsNotRepeated (stream : List UInt8) : Prop :=
  ∀ history, history ++ [scCaps] <+: stream → ¬Extended history scCaps →
    (keyAfter scCaps history).down = false

theorem kCaps_append_singleton {history : List UInt8} {code : UInt8}
    (h : (Decoder.after history).kCaps = 1 ↔ Odd (keyAfter scCaps history).presses)
    (hcode : code = scCaps → ¬Extended history code → (keyAfter scCaps history).down = false) :
    (Decoder.after (history ++ [code])).kCaps = 1 ↔
      Odd (keyAfter scCaps (history ++ [code])).presses := by
  rw [Decoder.after_append_singleton, keyAfter_append_singleton]
  by_cases hext : Extended history code
  · rw [(Decoder.next_of_extended hext).2, if_pos hext]
    exact h
  rw [(Decoder.next_of_not_extended hext).2, if_neg hext]
  by_cases hcaps : code = scCaps
  · have hpress := hcode hcaps hext
    rw [if_pos hcaps, Key.event, if_pos hcaps, Key.make, hpress, if_neg Bool.false_ne_true,
      Nat.odd_add_one, ← h]
    rcases Decoder.kCaps_after history with hzero | hone
    · rw [hzero]
      decide
    · rw [hone]
      decide
  · rw [if_neg hcaps, Key.event, if_neg hcaps]
    split_ifs
    · exact h
    · exact h

theorem not_kCaps_append_repeat {history : List UInt8}
    (h : (Decoder.after history).kCaps = 1 ↔ Odd (keyAfter scCaps history).presses)
    (hext : ¬Extended history scCaps) (hdown : (keyAfter scCaps history).down = true) :
    ¬((Decoder.after (history ++ [scCaps])).kCaps = 1 ↔
      Odd (keyAfter scCaps (history ++ [scCaps])).presses) := by
  rw [Decoder.after_append_singleton, keyAfter_append_singleton,
    (Decoder.next_of_not_extended hext).2, if_neg hext, if_pos rfl, Key.event, if_pos rfl,
    Key.make, hdown, if_pos rfl, ← h]
  rcases Decoder.kCaps_after history with hzero | hone
  · rw [hzero]
    decide
  · rw [hone]
    decide

theorem lockFollowsPresses_of_history (stream : List UInt8) :
    LockFollowsPresses stream ↔ ∀ history, history <+: stream →
      ((Decoder.after history).kCaps = 1 ↔ Odd (keyAfter scCaps history).presses) := by
  constructor
  · intro h history hprefix
    obtain ⟨s, _, hs, rfl, _⟩ := Session.Reached.exists_of_history history
    rw [← hs.kCaps]
    exact h s hs hprefix
  · intro h s hs hprefix
    rw [hs.kCaps]
    exact h s.history hprefix

/-- The lock follows the presses in exactly the streams without a repeat of CapsLock. -/
theorem lockFollowsPresses_iff (stream : List UInt8) :
    LockFollowsPresses stream ↔ CapsNotRepeated stream := by
  rw [lockFollowsPresses_of_history]
  constructor
  · intro h history hprefix hext
    have hshort : history <+: stream := (List.prefix_append history _).trans hprefix
    cases hdown : (keyAfter scCaps history).down with
    | false => rfl
    | true => exact absurd (h _ hprefix) (not_kCaps_append_repeat (h history hshort) hext hdown)
  · intro h history hprefix
    induction history using List.reverseRecOn with
    | nil => decide
    | append_singleton history code ih =>
      have hshort : history <+: stream := (List.prefix_append history _).trans hprefix
      apply kCaps_append_singleton (ih hshort)
      rintro rfl hext
      exact h history hprefix hext

/-- CapsLock held down until its make code is repeated. -/
theorem not_lockFollowsPresses_repeat : ¬LockFollowsPresses [0x3A, 0x3A] := by
  intro h
  rw [lockFollowsPresses_of_history] at h
  exact absurd (h [0x3A, 0x3A] (List.prefix_refl _)) (by decide)

end Nadir
