import Nadir.Keyboard.Decoder
import Nadir.Lib.Ring
import Nadir.Lib.Transition
import Mathlib.Data.List.Induction

/-!
# The keyboard ring is a lossless queue

The interrupt runs whole, but between any two steps of the consumer. The driver's buffer and
indices represent a `Ring`, on which the handler pushes and the consumer pops. Bytes returned and
bytes queued are then the bytes that arrived while fewer than 127 were queued, in order.
-/

namespace Nadir

open RingBuffer Transition

/-- The number of bytes between `k_tail` and `k_head`, and the bytes. -/
def queuedCount (k : Keyboard) : ℕ := (k.kHead.toNat + 128 - k.kTail.toNat) % 128

def queued (k : Keyboard) : List UInt8 :=
  (List.range (queuedCount k)).map (fun i => k.kBuf[(k.kTail.toNat + i) % 128]!)

/-- The driver's buffer and indices are those of the ring. -/
structure Keyboard.Represents (k : Keyboard) (r : Ring UInt8 128) : Prop where
  head : k.kHead.toNat = r.head
  tail : k.kTail.toNat = r.tail
  slot : ∀ i : Fin 128, k.kBuf[i.val] = r.slot i

namespace Keyboard.Represents

variable {k : Keyboard} {r : Ring UInt8 128}

theorem count_eq (h : k.Represents r) : queuedCount k = r.count := by
  have hhead := r.head.isLt
  have htail := r.tail.isLt
  rw [queuedCount, h.head, h.tail]
  unfold Ring.count
  split_ifs <;> omega

theorem slot_eq (h : k.Represents r) (i : Fin 128) : k.kBuf[i.val]! = r.slot i := by
  rw [getElem!_pos k.kBuf i.val i.isLt, h.slot i]

theorem queued_eq (h : k.Represents r) : queued k = r.toList := by
  rw [queued, h.count_eq, h.tail, Ring.toList]
  apply List.map_congr_left
  intro i _
  exact h.slot_eq (advance r.tail i)

theorem head_eq_tail_iff (h : k.Represents r) : k.kHead = k.kTail ↔ r.head = r.tail := by
  rw [← UInt8.toNat_inj, h.head, h.tail, Fin.ext_iff]

theorem ringNext_toNat {i : UInt8} {j : Fin 128} (h : i.toNat = j) :
    (ringNext i).toNat = advance j 1 := by
  rw [ringNext, h, UInt8.toNat_ofNat', kbdBufSize]
  change _ = (j.val + 1) % 128
  omega

theorem withDecoder (h : k.Represents r) (d : Decoder) : (k.withDecoder d).Represents r :=
  ⟨h.head, h.tail, h.slot⟩

theorem full_iff (h : k.Represents r) : ringNext k.kHead = k.kTail ↔ r.Full := by
  rw [← UInt8.toNat_inj, ringNext_toNat h.head, h.tail, Ring.Full, Fin.ext_iff]

theorem enqueue_of_full (h : k.Represents r) (hfull : r.Full) (c : UInt8) : enqueue c k = k :=
  if_pos (h.full_iff.mpr hfull)

theorem enqueue_of_not_full (h : k.Represents r) (hfull : ¬ r.Full) (c : UInt8) :
    (enqueue c k).Represents (r.push c) := by
  have hne : ringNext k.kHead ≠ k.kTail := fun heq => hfull (h.full_iff.mp heq)
  have heq : enqueue c k =
      { k with kBuf := k.kBuf.setIfInBounds k.kHead.toNat c, kHead := ringNext k.kHead } :=
    if_neg hne
  rw [heq]
  refine ⟨ringNext_toNat h.head, h.tail, fun i => ?_⟩
  change (k.kBuf.setIfInBounds k.kHead.toNat c)[i.val] = Function.update r.slot r.head c i
  rw [Vector.getElem_setIfInBounds, h.head]
  by_cases hi : i = r.head
  · rw [hi, if_pos rfl, Function.update_self]
  · rw [if_neg (fun hval => hi (Fin.ext hval.symm)), Function.update_of_ne hi, h.slot i]

theorem dequeueRead_eq (h : k.Represents r) : dequeueRead k = r.slot r.tail := by
  rw [dequeueRead, h.tail, h.slot_eq]

theorem dequeueStore (h : k.Represents r) : (dequeueStore k).Represents r.pop :=
  ⟨h.head, ringNext_toNat h.tail, h.slot⟩

end Keyboard.Represents

/-- Where the consumer is: between calls, about to read the slot, or about to store the tail.
`ready` says that the last `keyboard_has_key` before the call answered nonzero. -/
inductive Consumer where
  | idle (ready : Bool)
  | reading (ready : Bool)
  | storing (ready : Bool) (c : UInt8)

/-- A finished `keyboard_dequeue`: the byte taken, or none when the ring was empty. -/
structure Dequeued where
  ready : Bool
  taken : Option UInt8

def Dequeued.value (d : Dequeued) : UInt8 := d.taken.getD 0

/-- The driver, the consumer, its finished calls, the scancodes delivered, and the bytes that
arrived while fewer than 127 were queued. -/
structure Session where
  kbd : Keyboard
  consumer : Consumer
  calls : List Dequeued
  history : List UInt8
  arrived : List UInt8

inductive KeyEvent where
  | irq (code : UInt8)
  | hasKey
  | compare
  | read
  | store

/-- The byte an interrupt brings, if there is room for it. -/
def Session.arriving (s : Session) (code : UInt8) : List UInt8 :=
  if queuedCount s.kbd < 127 then (translate s.history code).toList else []

inductive SessionStep : Session → KeyEvent → Session → Prop
  | irq {s : Session} (code : UInt8) :
      SessionStep s (.irq code) { s with
        kbd := keyboardOnIrq code s.kbd
        history := s.history ++ [code]
        arrived := s.arrived ++ s.arriving code }
  | hasKey {s : Session} {ready : Bool} (hc : s.consumer = .idle ready) :
      SessionStep s .hasKey { s with consumer := .idle (keyboardHasKey s.kbd) }
  | compareEmpty {s : Session} {ready : Bool} (hc : s.consumer = .idle ready)
      (hempty : dequeueEmpty s.kbd = true) :
      SessionStep s .compare { s with
        consumer := .idle false
        calls := s.calls ++ [⟨ready, none⟩] }
  | compare {s : Session} {ready : Bool} (hc : s.consumer = .idle ready)
      (hempty : dequeueEmpty s.kbd = false) :
      SessionStep s .compare { s with consumer := .reading ready }
  | read {s : Session} {ready : Bool} (hc : s.consumer = .reading ready) :
      SessionStep s .read { s with consumer := .storing ready (dequeueRead s.kbd) }
  | store {s : Session} {ready : Bool} {c : UInt8} (hc : s.consumer = .storing ready c) :
      SessionStep s .store { s with
        kbd := dequeueStore s.kbd
        consumer := .idle false
        calls := s.calls ++ [⟨ready, some c⟩] }

/-- Without an interrupt in between the steps of a dequeue add up to the whole call. -/
theorem keyboardDequeue_steps {s : Session} {ready : Bool} (hc : s.consumer = .idle ready) :
    ∃ events s', Steps SessionStep s events s' ∧ s'.kbd = (keyboardDequeue s.kbd).1 ∧
      s'.calls.map Dequeued.value = s.calls.map Dequeued.value ++ [(keyboardDequeue s.kbd).2] := by
  cases hempty : dequeueEmpty s.kbd with
  | true =>
    have hcall : keyboardDequeue s.kbd = (s.kbd, 0) := if_pos hempty
    refine ⟨_, _, .cons (.compareEmpty hc hempty) (.nil _), ?_, ?_⟩
    · rw [hcall]
    · rw [hcall, List.map_append]
      rfl
  | false =>
    have hcall : keyboardDequeue s.kbd = (dequeueStore s.kbd, dequeueRead s.kbd) :=
      if_neg (by rw [hempty]; exact Bool.false_ne_true)
    refine ⟨_, _, .cons (.compare hc hempty) (.cons (.read rfl) (.cons (.store rfl) (.nil _))),
      ?_, ?_⟩
    · rw [hcall]
    · rw [hcall, List.map_append]
      rfl

/-- After `keyboard_init`, whatever the buffer held. -/
def Session.start (buf : Vector UInt8 128) : Session := ⟨keyboardInit buf, .idle false, [], [], []⟩

/-- The bytes returned by the dequeues that found the ring non-empty. -/
def Session.returned (s : Session) : List UInt8 := s.calls.filterMap Dequeued.taken

/-- What the consumer has already seen of the ring still holds. -/
def Consumer.Holds (r : Ring UInt8 128) : Consumer → Prop
  | .idle ready => ready = true → r.head ≠ r.tail
  | .reading _ => r.head ≠ r.tail
  | .storing _ c => r.head ≠ r.tail ∧ c = r.slot r.tail

theorem Consumer.Holds.push {r : Ring UInt8 128} {consumer : Consumer} (h : consumer.Holds r)
    (hfull : ¬ r.Full) (c : UInt8) : consumer.Holds (r.push c) := by
  have hne := Ring.push_head_ne_tail hfull c
  cases consumer with
  | idle ready => exact fun _ => hne
  | reading ready => exact hne
  | storing ready d => exact ⟨hne, h.2.trans (Ring.slot_tail_push h.1 c).symm⟩

structure Session.Represents (s : Session) (r : Ring UInt8 128) : Prop where
  kbd : s.kbd.Represents r
  decoder : s.kbd.decoder = Decoder.after s.history
  fifo : s.returned ++ r.toList = s.arrived
  nonzero : ∀ c ∈ s.arrived, c ≠ 0
  consumer : s.consumer.Holds r
  calls : ∀ d ∈ s.calls, d.ready = true → d.value ≠ 0

/-- The session represents some ring. -/
def Session.Sound (s : Session) : Prop := ∃ r, s.Represents r

theorem Session.represents_start (buf : Vector UInt8 128) :
    (Session.start buf).Represents ⟨fun i => buf[i.val], 0, 0⟩ :=
  ⟨⟨rfl, rfl, fun _ => rfl⟩, rfl, rfl, fun _ hc => absurd hc List.not_mem_nil,
    fun hready => absurd hready Bool.false_ne_true, fun _ hd => absurd hd List.not_mem_nil⟩

theorem Session.Represents.keyboardOnIrq {s : Session} {r : Ring UInt8 128} (h : s.Represents r)
    (code : UInt8) :
    Nadir.keyboardOnIrq code s.kbd = deliver (translate s.history code)
      (s.kbd.withDecoder (Decoder.after (s.history ++ [code]))) := by
  rw [keyboardOnIrq_eq, h.decoder, translate, Decoder.after_append_singleton]

theorem decoder_deliver (c : Option UInt8) (k : Keyboard) :
    (deliver c k).decoder = k.decoder := by
  cases c with
  | none => rfl
  | some c =>
    rw [deliver, enqueue]
    split_ifs <;> rfl

theorem Session.Represents.irq_dropped {s : Session} {r : Ring UInt8 128} (h : s.Represents r)
    {code : UInt8} (hkbd : (Nadir.keyboardOnIrq code s.kbd).Represents r)
    (hdecoder : (Nadir.keyboardOnIrq code s.kbd).decoder = Decoder.after (s.history ++ [code]))
    (harriving : s.arriving code = []) :
    Session.Represents { s with
      kbd := Nadir.keyboardOnIrq code s.kbd
      history := s.history ++ [code]
      arrived := s.arrived ++ s.arriving code } r := by
  rw [harriving, List.append_nil]
  exact ⟨hkbd, hdecoder, h.fifo, h.nonzero, h.consumer, h.calls⟩

theorem Session.Represents.irq {s : Session} {r : Ring UInt8 128} (h : s.Represents r)
    (code : UInt8) :
    ∃ r', Session.Represents { s with
      kbd := Nadir.keyboardOnIrq code s.kbd
      history := s.history ++ [code]
      arrived := s.arrived ++ s.arriving code } r' := by
  have hdecoder : (Nadir.keyboardOnIrq code s.kbd).decoder =
      Decoder.after (s.history ++ [code]) := by
    rw [h.keyboardOnIrq, decoder_deliver]
    rfl
  have hkbd := h.kbd.withDecoder (Decoder.after (s.history ++ [code]))
  have hirq := h.keyboardOnIrq code
  have harriving : s.arriving code =
      if queuedCount s.kbd < 127 then (translate s.history code).toList else [] := rfl
  rw [h.kbd.count_eq] at harriving
  cases hbyte : translate s.history code with
  | none =>
    rw [hbyte, deliver] at hirq
    rw [hbyte, Option.toList_none, ite_self] at harriving
    exact ⟨r, h.irq_dropped (hirq ▸ hkbd) hdecoder harriving⟩
  | some c =>
    rw [hbyte, deliver] at hirq
    rw [hbyte] at harriving
    have hroom := r.count_lt
    by_cases hfull : r.Full
    · rw [hkbd.enqueue_of_full hfull] at hirq
      rw [Ring.full_iff] at hfull
      rw [if_neg (by omega)] at harriving
      exact ⟨r, h.irq_dropped (hirq ▸ hkbd) hdecoder harriving⟩
    · have hpush := hkbd.enqueue_of_not_full hfull c
      have hholds := h.consumer.push hfull c
      have hlist := Ring.toList_push hfull c
      rw [Ring.full_iff] at hfull
      rw [if_pos (by omega)] at harriving
      refine ⟨r.push c, ⟨hirq ▸ hpush, hdecoder, ?_, ?_, hholds, h.calls⟩⟩
      · rw [harriving, hlist, ← h.fifo, List.append_assoc]
        rfl
      · intro d hd
        rw [harriving, Option.toList_some, List.mem_append, List.mem_singleton] at hd
        rcases hd with hd | rfl
        · exact h.nonzero d hd
        · exact Decoder.byte_ne_zero hbyte

theorem Session.Represents.empty_iff {s : Session} {r : Ring UInt8 128} (h : s.Represents r) :
    dequeueEmpty s.kbd = true ↔ r.head = r.tail := by
  rw [dequeueEmpty, beq_iff_eq, h.kbd.head_eq_tail_iff]

theorem Session.Represents.hasKey_iff {s : Session} {r : Ring UInt8 128} (h : s.Represents r) :
    keyboardHasKey s.kbd = true ↔ r.head ≠ r.tail := by
  rw [keyboardHasKey, bne_iff_ne, Ne, h.kbd.head_eq_tail_iff]

theorem Session.Represents.store {s : Session} {r : Ring UInt8 128} (h : s.Represents r)
    {ready : Bool} {c : UInt8} (hc : s.consumer = .storing ready c) :
    Session.Represents { s with
      kbd := dequeueStore s.kbd
      consumer := .idle false
      calls := s.calls ++ [⟨ready, some c⟩] } r.pop := by
  have hholds := h.consumer
  rw [hc] at hholds
  obtain ⟨hne, hslot⟩ := hholds
  have hlist := Ring.toList_eq_cons hne
  have hfifo := h.fifo
  rw [hlist, ← hslot] at hfifo
  have hcne : c ≠ 0 := by
    apply h.nonzero
    rw [← hfifo]
    exact List.mem_append_right _ List.mem_cons_self
  refine ⟨h.kbd.dequeueStore, h.decoder, ?_, h.nonzero,
    fun hready => absurd hready Bool.false_ne_true, ?_⟩
  · rw [← hfifo, Session.returned, List.filterMap_append, List.append_assoc]
    rfl
  · intro d hd
    rcases List.mem_append.mp hd with hd | hd
    · exact h.calls d hd
    · rw [List.mem_singleton.mp hd]
      exact fun _ => hcne

theorem Session.Represents.step {s s' : Session} {r : Ring UInt8 128} {e : KeyEvent}
    (h : s.Represents r) (hstep : SessionStep s e s') : s'.Sound := by
  cases hstep with
  | irq code => exact h.irq code
  | hasKey hc =>
    refine ⟨r, ⟨h.kbd, h.decoder, h.fifo, h.nonzero, ?_, h.calls⟩⟩
    exact h.hasKey_iff.mp
  | @compareEmpty ready hc hempty =>
    have hholds := h.consumer
    rw [hc] at hholds
    refine ⟨r, ⟨h.kbd, h.decoder, ?_, h.nonzero, fun hready => absurd hready Bool.false_ne_true,
      fun d hd => ?_⟩⟩
    · rw [← h.fifo, Session.returned, List.filterMap_append]
      exact congrArg (· ++ r.toList) (List.append_nil _)
    · rcases List.mem_append.mp hd with hd | hd
      · exact h.calls d hd
      · rw [List.mem_singleton.mp hd]
        exact fun hready => absurd (h.empty_iff.mp hempty) (hholds hready)
  | compare hc hempty =>
    refine ⟨r, ⟨h.kbd, h.decoder, h.fifo, h.nonzero, fun heq => ?_, h.calls⟩⟩
    rw [h.empty_iff.mpr heq] at hempty
    cases hempty
  | read hc =>
    have hholds := h.consumer
    rw [hc] at hholds
    exact ⟨r, ⟨h.kbd, h.decoder, h.fifo, h.nonzero, ⟨hholds, h.kbd.dequeueRead_eq⟩, h.calls⟩⟩
  | store hc => exact ⟨r.pop, h.store hc⟩

/-- What holds at every moment of a session. -/
structure Session.Fifo (s : Session) : Prop where
  fifo : s.returned ++ queued s.kbd = s.arrived
  head_lt : s.kbd.kHead < 128
  tail_lt : s.kbd.kTail < 128
  length_le : (queued s.kbd).length ≤ 127
  nonzero : ∀ c ∈ queued s.kbd, c ≠ 0
  ready : ∀ d ∈ s.calls, d.ready = true → d.value ≠ 0
  irq : ∀ code, keyboardOnIrq code s.kbd = deliver (translate s.history code)
    (s.kbd.withDecoder (Decoder.after (s.history ++ [code])))

theorem Session.Represents.fifo_of {s : Session} {r : Ring UInt8 128} (h : s.Represents r) :
    s.Fifo := by
  have hqueued := h.kbd.queued_eq
  refine ⟨hqueued ▸ h.fifo, ?_, ?_, ?_, fun c hc => ?_, h.calls, h.keyboardOnIrq⟩
  · rw [UInt8.lt_iff_toNat_lt, h.kbd.head]
    exact r.head.isLt
  · rw [UInt8.lt_iff_toNat_lt, h.kbd.tail]
    exact r.tail.isLt
  · have hlt := r.count_lt
    rw [hqueued, r.length_toList]
    omega
  · apply h.nonzero
    rw [← h.fifo]
    exact List.mem_append_right _ (hqueued ▸ hc)

theorem Session.sound_of_run {buf : Vector UInt8 128} {events : List KeyEvent} {s : Session}
    (h : Steps SessionStep (Session.start buf) events s) : s.Sound := by
  apply h.invariant _ ⟨_, Session.represents_start buf⟩
  intro t e u ⟨r, hr⟩ hstep
  exact hr.step hstep

/-- Along every interleaving of interrupts and consumer steps the ring is a lossless queue of the
bytes that arrived while fewer than 127 were queued, and a dequeue after a nonzero
`keyboard_has_key` returns a byte. -/
theorem keyboard_fifo (buf : Vector UInt8 128) {events : List KeyEvent} {s : Session}
    (h : Steps SessionStep (Session.start buf) events s) : s.Fifo := by
  obtain ⟨r, hr⟩ := Session.sound_of_run h
  exact hr.fifo_of

/-- The A key pressed, then polled and taken, with the B key pressed in the middle of the call. -/
theorem keyboard_fifo_press :
    ∃ s, Steps SessionStep (Session.start (Vector.replicate 128 0))
        [.irq 0x1E, .hasKey, .compare, .read, .irq 0x30, .store] s ∧
      s.returned = [0x61] ∧ s.Fifo := by
  have hrun : Steps SessionStep (Session.start (Vector.replicate 128 0))
      [.irq 0x1E, .hasKey, .compare, .read, .irq 0x30, .store] _ :=
    .cons (.irq 0x1E) <| .cons (.hasKey rfl) <| .cons (.compare rfl (by decide +kernel)) <|
      .cons (.read rfl) <| .cons (.irq 0x30) <| .cons (.store rfl) <| .nil _
  exact ⟨_, hrun, by decide +kernel, keyboard_fifo _ hrun⟩

/-! Every history of scancodes comes about, with a consumer that keeps the ring empty. -/

/-- A run from `keyboard_init` on, with any buffer, reaches the session. -/
def Session.Reached (s : Session) : Prop :=
  ∃ buf events, Steps SessionStep (Session.start buf) events s

namespace Session.Reached

variable {s : Session}

theorem represents (h : s.Reached) : ∃ r, s.Represents r := by
  obtain ⟨buf, events, hrun⟩ := h
  exact sound_of_run hrun

theorem steps (h : s.Reached) {events : List KeyEvent} {t : Session}
    (hrun : Steps SessionStep s events t) : t.Reached := by
  obtain ⟨buf, before, hbefore⟩ := h
  exact ⟨buf, before ++ events, hbefore.append hrun⟩

theorem exists_drained (h : s.Reached) {ready : Bool} (hc : s.consumer = .idle ready) :
    ∃ (t : Session) (ready' : Bool), t.Reached ∧ t.history = s.history ∧ t.consumer = .idle ready' ∧
      dequeueEmpty t.kbd = true := by
  obtain ⟨r, hr⟩ := h.represents
  induction hn : r.count generalizing s r ready with
  | zero =>
    refine ⟨s, ready, h, rfl, hc, hr.empty_iff.mpr ?_⟩
    by_contra hne
    have hcount := Ring.count_pop hne
    omega
  | succ n ih =>
    have hempty : dequeueEmpty s.kbd = false := by
      rw [← Bool.not_eq_true, hr.empty_iff]
      intro heq
      rw [Ring.count, heq, if_pos le_rfl, Nat.sub_self] at hn
      cases hn
    have hrun : Steps SessionStep s [.compare, .read, .store] _ :=
      .cons (.compare hc hempty) (.cons (.read rfl) (.cons (.store rfl) (.nil _)))
    obtain ⟨r', hr'⟩ := (h.steps hrun).represents
    have hne : r.head ≠ r.tail := fun heq => by
      rw [hr.empty_iff.mpr heq] at hempty
      cases hempty
    have hpop : r'.count = r.pop.count := by
      rw [← hr'.kbd.count_eq, ← hr.kbd.dequeueStore.count_eq]
    have hcount := Ring.count_pop hne
    have hdrained := ih (h.steps hrun) rfl r' hr' (by omega)
    exact hdrained

theorem exists_of_history (history : List UInt8) :
    ∃ (s : Session) (ready : Bool), s.Reached ∧ s.history = history ∧ s.consumer = .idle ready ∧
      dequeueEmpty s.kbd = true := by
  induction history using List.reverseRecOn with
  | nil =>
    exact ⟨.start (Vector.replicate 128 0), false, ⟨_, [], .nil _⟩, rfl, rfl, rfl⟩
  | append_singleton history code ih =>
    obtain ⟨s, ready, hs, hhistory, hc, _⟩ := ih
    obtain ⟨t, ready', ht, hsame, hct, hempty⟩ :=
      (hs.steps (.cons (.irq code) (.nil _))).exists_drained hc
    exact ⟨t, ready', ht, hsame.trans (congrArg (· ++ [code]) hhistory), hct, hempty⟩

end Session.Reached

theorem Keyboard.Represents.enqueue_inj {k : Keyboard} {r : Ring UInt8 128} (h : k.Represents r)
    (hfull : ¬r.Full) {c c' : UInt8} (heq : enqueue c k = enqueue c' k) : c = c' := by
  have hslot := (h.enqueue_of_not_full hfull c).slot r.head
  rw [heq, (h.enqueue_of_not_full hfull c').slot r.head] at hslot
  have hself : ∀ c, (r.push c).slot r.head = c := fun c => Function.update_self ..
  rw [hself, hself] at hslot
  exact hslot.symm

end Nadir
