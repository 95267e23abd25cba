import Nadir.Keyboard.Fifo
import Nadir.Keyboard.Modifiers

/-!
# What can be typed

Whatever scancodes come, the bytes they stand for are printable ASCII, backspace, tab and line feed;
and after whatever scancodes came, every text of these characters has keystrokes that type it. The
handler queues the bytes as far as the ring has room.
-/

namespace Nadir

open RingBuffer

/-- Printable ASCII, backspace, tab and line feed. -/
def Typeable (c : UInt8) : Prop := (0x20 ≤ c ∧ c ≤ 0x7E) ∨ c = 8 ∨ c = 9 ∨ c = 10

instance : DecidablePred Typeable := fun _ => inferInstanceAs (Decidable (_ ∨ _))

namespace Decoder

def bytes : Decoder → List UInt8 → List UInt8
  | _, [] => []
  | d, code :: codes => (d.byte code).toList ++ (d.next code).bytes codes

def run (d : Decoder) (codes : List UInt8) : Decoder := codes.foldl (fun d code => d.next code) d

theorem bytes_append (d : Decoder) (codes codes' : List UInt8) :
    d.bytes (codes ++ codes') = d.bytes codes ++ (d.run codes).bytes codes' := by
  induction codes generalizing d with
  | nil => rfl
  | cons code codes ih =>
    rw [List.cons_append, bytes, bytes, ih, List.append_assoc]
    rfl

theorem run_append (d : Decoder) (codes codes' : List UInt8) :
    d.run (codes ++ codes') = (d.run codes).run codes' := List.foldl_append

theorem typeable_of_mapped {code : UInt8} (h : kUnshifted[code.toNat]! ≠ 0) :
    Typeable kUnshifted[code.toNat]! ∧ Typeable kShifted[code.toNat]! := by
  have hall : ∀ n : Fin 256, kUnshifted[(UInt8.ofFin n).toNat]! ≠ 0 →
      Typeable kUnshifted[(UInt8.ofFin n).toNat]! ∧
        Typeable kShifted[(UInt8.ofFin n).toNat]! := by
    decide +kernel
  exact hall code.toFin h

theorem typeable_of_byte {code c : UInt8} {d : Decoder} (h : d.byte code = some c) :
    Typeable c := by
  unfold byte at h
  split_ifs at h with hmapped
  cases h
  obtain ⟨hbase, hshifted⟩ := typeable_of_mapped hmapped.2
  have hupper := (kShifted_of_mapped hmapped.2).2.2.2.2
  unfold symbol
  dsimp only
  split_ifs with hletter
  · rw [hupper hletter]
    exact hshifted
  · exact hbase
  · exact hshifted
  · exact hbase
  · exact hbase

theorem typeable_of_mem_bytes {d : Decoder} {codes : List UInt8} {c : UInt8}
    (h : c ∈ d.bytes codes) : Typeable c := by
  induction codes generalizing d with
  | nil => exact absurd h List.not_mem_nil
  | cons code codes ih =>
    rw [bytes, List.mem_append, Option.mem_toList] at h
    rcases h with hbyte | hrest
    · exact typeable_of_byte hbyte
    · exact ih hrest

end Decoder

/-- The make code of the key with a symbol in the table. -/
def keyOf (table : Vector UInt8 128) (c : UInt8) : Option UInt8 :=
  ((List.range 128).find? fun i => table[i]! == c).map UInt8.ofNat

def press (code : UInt8) : List UInt8 := [code, code ||| scRelease]

/-- The key pressed while left Shift is down. -/
def pressShifted (code : UInt8) : List UInt8 :=
  scLshift :: (press code ++ [scLshift ||| scRelease])

/-- The keystrokes for a character; with CapsLock on a letter takes the other case of Shift. -/
def keystrokes (caps : Bool) (c : UInt8) : List UInt8 :=
  match keyOf kUnshifted c, keyOf kShifted c with
  | some code, _ => if Letter code ∧ caps then pressShifted code else press code
  | none, some code => if Letter code ∧ caps then press code else pressShifted code
  | none, none => []

/-- The scancodes that type a text in any state of the decoder: the release of left Shift, twice in
case the last byte was the prefix, and then the characters. -/
def typing (d : Decoder) (text : List UInt8) : List UInt8 :=
  [scLshift ||| scRelease, scLshift ||| scRelease] ++ text.flatMap (keystrokes (d.kCaps != 0))

namespace Decoder

def idle (caps : Bool) : Decoder := ⟨0, if caps then 1 else 0, 0⟩

theorem keystrokes_spec (caps : Bool) {c : UInt8} (h : Typeable c) :
    (idle caps).bytes (keystrokes caps c) = [c] ∧
      (idle caps).run (keystrokes caps c) = idle caps := by
  have hall : ∀ caps : Bool, ∀ n : Fin 256, Typeable (UInt8.ofFin n) →
      (idle caps).bytes (keystrokes caps (UInt8.ofFin n)) = [UInt8.ofFin n] ∧
        (idle caps).run (keystrokes caps (UInt8.ofFin n)) = idle caps := by
    decide +kernel
  exact hall caps c.toFin h

theorem bytes_text (caps : Bool) {text : List UInt8} (h : ∀ c ∈ text, Typeable c) :
    (idle caps).bytes (text.flatMap (keystrokes caps)) = text ∧
      (idle caps).run (text.flatMap (keystrokes caps)) = idle caps := by
  induction text with
  | nil => exact ⟨rfl, rfl⟩
  | cons c text ih =>
    rw [List.forall_mem_cons] at h
    obtain ⟨hbytes, hrun⟩ := keystrokes_spec caps h.1
    obtain ⟨hrest, hend⟩ := ih h.2
    rw [List.flatMap_cons, bytes_append, run_append, hbytes, hrun, hrest, hend]
    exact ⟨rfl, rfl⟩

/-- The first release may only end a prefix, the second releases Shift. -/
theorem release_spec (d : Decoder) :
    d.bytes [scLshift ||| scRelease, scLshift ||| scRelease] = [] ∧
      d.run [scLshift ||| scRelease, scLshift ||| scRelease] = ⟨0, d.kCaps, 0⟩ := by
  have hbyte : ∀ d : Decoder, d.byte (scLshift ||| scRelease) = none := by
    intro d
    apply if_neg
    rintro ⟨⟨_, _, hmake, _⟩, _⟩
    exact absurd hmake (by decide)
  have hnext : ∀ d : Decoder, d.next (scLshift ||| scRelease) =
      if d.kE0 ≠ 0 then { d with kE0 := 0 } else { d with kShift := 0 } := fun _ => rfl
  constructor
  · rw [bytes, bytes, hbyte, hbyte]
    rfl
  · rw [run, List.foldl_cons, List.foldl_cons, List.foldl_nil, hnext d]
    obtain ⟨shift, caps, e0⟩ := d
    by_cases he0 : e0 = 0
    · rw [if_neg (not_not_intro he0), hnext, if_neg (not_not_intro he0), he0]
    · rw [if_pos he0, hnext, if_neg (not_not_intro rfl)]

theorem typing_spec {d : Decoder} (hcaps : d.kCaps = 0 ∨ d.kCaps = 1) {text : List UInt8}
    (h : ∀ c ∈ text, Typeable c) :
    d.bytes (typing d text) = text ∧ d.run (typing d text) = ⟨0, d.kCaps, 0⟩ := by
  have hidle : (⟨0, d.kCaps, 0⟩ : Decoder) = idle (d.kCaps != 0) := by
    rcases hcaps with hzero | hone
    · rw [hzero]
      rfl
    · rw [hone]
      rfl
  obtain ⟨hnone, hreleased⟩ := d.release_spec
  obtain ⟨hbytes, hrun⟩ := bytes_text (d.kCaps != 0) h
  rw [typing, bytes_append, run_append, hnone, hreleased, hidle, hbytes, hrun]
  exact ⟨rfl, rfl⟩

end Decoder

theorem Keyboard.Represents.enqueue {k : Keyboard} {r : Ring UInt8 128}
    (h : k.Represents r) (c : UInt8) :
    ∃ r' : Ring UInt8 128, (Nadir.enqueue c k).Represents r' ∧
      r'.toList = (r.toList ++ [c]).take 127 := by
  have hlength := r.length_toList
  have hlt := r.count_lt
  by_cases hfull : r.Full
  · refine ⟨r, (h.enqueue_of_full hfull c).symm ▸ h, ?_⟩
    rw [Ring.full_iff] at hfull
    rw [List.take_left' (by omega)]
  · have hlist := Ring.toList_push hfull c
    refine ⟨r.push c, h.enqueue_of_not_full hfull c, ?_⟩
    rw [Ring.full_iff] at hfull
    rw [hlist, List.take_of_length_le]
    rw [List.length_append, List.length_singleton]
    omega

def Keyboard.afterIrqs (k : Keyboard) (codes : List UInt8) : Keyboard :=
  codes.foldl (fun k code => keyboardOnIrq code k) k

theorem take_append_take {α : Type*} (n : ℕ) (xs ys : List α) :
    (xs.take n ++ ys).take n = (xs ++ ys).take n := by
  rw [List.take_append, List.take_append, List.take_take, List.length_take, min_self]
  rcases Nat.le_total n xs.length with hle | hle
  · rw [Nat.min_eq_left hle, Nat.sub_self, Nat.sub_eq_zero_of_le hle]
  · rw [Nat.min_eq_right hle]

theorem Keyboard.Represents.afterIrqs {k : Keyboard} {r : Ring UInt8 128}
    (h : k.Represents r) (codes : List UInt8) :
    ∃ r' : Ring UInt8 128, (k.afterIrqs codes).Represents r' ∧
      (k.afterIrqs codes).decoder = k.decoder.run codes ∧
      r'.toList = (r.toList ++ k.decoder.bytes codes).take 127 := by
  induction codes generalizing k r with
  | nil =>
    have hlength := r.length_toList
    have hlt := r.count_lt
    refine ⟨r, h, rfl, ?_⟩
    rw [Decoder.bytes, List.append_nil, List.take_of_length_le (by omega)]
  | cons code codes ih =>
    have hirq := keyboardOnIrq_eq code k
    have hmoved := h.withDecoder (k.decoder.next code)
    have hdecoder : (keyboardOnIrq code k).decoder = k.decoder.next code := by
      rw [hirq, decoder_deliver]
      rfl
    obtain ⟨r₁, hr₁, hlist₁⟩ : ∃ r₁ : Ring UInt8 128,
        (keyboardOnIrq code k).Represents r₁ ∧
          r₁.toList = (r.toList ++ (k.decoder.byte code).toList).take 127 := by
      rw [hirq]
      cases k.decoder.byte code with
      | none =>
        have hlength := r.length_toList
        have hlt := r.count_lt
        refine ⟨r, hmoved, ?_⟩
        rw [Option.toList_none, List.append_nil, List.take_of_length_le (by omega)]
      | some c => exact hmoved.enqueue c
    obtain ⟨r', hr', hrun, hlist⟩ := ih hr₁
    rw [hdecoder] at hrun hlist
    refine ⟨r', hr', hrun, ?_⟩
    rw [hlist, hlist₁, take_append_take, Decoder.bytes, List.append_assoc]

/-- After any scancodes: further ones add the bytes they stand for to those queued, as far as 127
find room; each of these bytes is printable, a backspace, a tab or a line feed; and any text of
such characters can be typed, whatever was left held down or half received, with Shift up in the
end and CapsLock as before. -/
theorem keyboard_types (buf : Vector UInt8 128) (history : List UInt8) :
    (∀ codes, queued ((keyboardInit buf).afterIrqs (history ++ codes)) =
      (queued ((keyboardInit buf).afterIrqs history) ++
        (Decoder.after history).bytes codes).take 127) ∧
    (∀ codes, ∀ c ∈ (Decoder.after history).bytes codes, Typeable c) ∧
    ∀ text, (∀ c ∈ text, Typeable c) →
      (Decoder.after history).bytes (typing (Decoder.after history) text) = text ∧
      Decoder.after (history ++ typing (Decoder.after history) text) =
        ⟨0, (Decoder.after history).kCaps, 0⟩ := by
  refine ⟨fun codes => ?_, fun codes c hc => Decoder.typeable_of_mem_bytes hc, fun text htext => ?_⟩
  · have hstart : (keyboardInit buf).Represents ⟨fun i => buf[i.val], 0, 0⟩ :=
      ⟨rfl, rfl, fun _ => rfl⟩
    obtain ⟨r, hr, hdecoder, _⟩ := hstart.afterIrqs history
    obtain ⟨r', hr', _, hlist⟩ := hr.afterIrqs codes
    have hsame : (keyboardInit buf).afterIrqs (history ++ codes) =
        ((keyboardInit buf).afterIrqs history).afterIrqs codes := List.foldl_append
    rw [hsame, hr'.queued_eq, hr.queued_eq, hlist, hdecoder]
    rfl
  · obtain ⟨hbytes, hrun⟩ := Decoder.typing_spec (Decoder.kCaps_after history) htext
    exact ⟨hbytes, (Decoder.run_append Decoder.start history _).trans hrun⟩

end Nadir
