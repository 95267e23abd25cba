import Nadir.Serial.Basic
import Nadir.Lib.Bits

/-!
# Nothing sent is lost

`serial_init` programs the port from whatever state it was left in. After it a byte is only written
when the queue is empty, so that the bytes on the line, those on their way there and those still to
be written are the characters of the strings, whenever the line takes the next byte.
-/

namespace Nadir

open Transition Wire ByteBits

/-- The port as `serial_init` programs it: 38400 baud, eight bits, no parity, queue on. -/
structure Uart.Programmed (u : Uart) : Prop where
  divisor : 256 * u.divisorHigh.toNat + u.divisorLow.toNat = 115200 / 38400
  lcr : u.lcr = 0x03
  fcr : u.fcr = 0xC7
  mcr : u.mcr = 0x0B

/-- The port and the characters that `serial_puts` still has to send. -/
structure Sending where
  port : Com1
  rest : List Int8

namespace Sending

/-- One pass of the wait loop of `serial_putchar`; once the byte is written, the next character is
due. -/
def poll (s : Sending) : Sending :=
  match s.rest with
  | [] => s
  | c :: rest => (serialPutchar c s.port).elim s fun port => ⟨port, rest⟩

def step (s : Sending) : LineEvent → Sending
  | .poll => s.poll
  | .shift => { s with port := s.port.map Uart.shift }

def run (s : Sending) (events : List LineEvent) : Sending := events.foldl step s

end Sending

def bytes (s : List Int8) : List UInt8 := s.map Int8.toUInt8

namespace Uart

theorem lsr_and_txEmpty (u : Uart) : u.lsr &&& lsrTxEmpty = 0 ↔ u.tx.queue ≠ [] := by
  have hmask : lsrTxEmpty = 1 <<< UInt8.ofNat 5 := rfl
  have htest : (u.lsr &&& lsrTxEmpty != 0) = u.tx.queue.isEmpty := by
    rw [lsr, hmask, and_mask_ne_zero _ (by omega)]
    split_ifs with hempty
    · rw [or_mask_getLsbD _ (by omega), hempty]
      simp
    · rw [and_not_mask_getLsbD _ (by omega) (by omega), Bool.eq_false_iff.mpr hempty]
      simp
  rw [← not_iff_not, ← Ne, ← bne_iff_ne, htest, List.isEmpty_iff, not_not]

theorem Programmed.not_dlab {u : Uart} (h : u.Programmed) : ¬u.Dlab := by
  rw [Dlab, h.lcr]
  decide

theorem Programmed.size_eq {u : Uart} (h : u.Programmed) : u.size = 16 := by
  have hon : u.FifoOn := by
    rw [FifoOn, h.fcr]
    decide
  exact if_pos hon

theorem Programmed.of_tx {u : Uart} (h : u.Programmed) (tx : Transmitter UInt8) :
    ({ u with tx := tx } : Uart).Programmed := ⟨h.divisor, h.lcr, h.fcr, h.mcr⟩

theorem Programmed.write_eq {u : Uart} (h : u.Programmed) (v : UInt8) :
    u.outb comData v = { u with tx := u.tx.push 16 v } := by
  rw [outb_data, if_neg h.not_dlab, h.size_eq]

end Uart

theorem serialPutchar_some {u : Uart} (h : u.Programmed) (c : Int8) :
    serialPutchar c (some u) =
      if u.tx.queue = [] then some (some { u with tx := ⟨[c.toUInt8], u.tx.wire⟩ }) else none := by
  have hlsr : Com1.inbLsr (some u) = u.lsr := rfl
  have houtb : Com1.outb comData c.toUInt8 (some u) = some (u.outb comData c.toUInt8) := rfl
  rw [serialPutchar, hlsr, houtb, h.write_eq]
  by_cases hqueue : u.tx.queue = []
  · have hready := mt u.lsr_and_txEmpty.mp (not_not_intro hqueue)
    rw [if_pos hqueue, if_neg hready, Transmitter.push_of_empty (by omega) _ hqueue]
  · rw [if_neg hqueue, if_pos (u.lsr_and_txEmpty.mpr hqueue)]

/-- The port has the registers of `u` and the transmitter of `t`, and the same bytes are due. -/
structure Sending.Represents (s : Sending) (u : Uart) (t : Sender UInt8) : Prop where
  port : s.port = some { u with tx := t.tx }
  rest : bytes s.rest = t.rest

namespace Sending.Represents

variable {s : Sending} {u : Uart} {t : Sender UInt8}

theorem poll (h : s.Represents u t) (hu : u.Programmed) : s.poll.Represents u (t.poll 16) := by
  obtain ⟨port, rest⟩ := s
  obtain ⟨hport, hrest⟩ := h
  dsimp only at hport hrest
  subst hport
  cases rest with
  | nil =>
    rw [Sender.poll_of_nil hrest.symm]
    exact ⟨rfl, hrest⟩
  | cons c rest =>
    have hput := serialPutchar_some (hu.of_tx t.tx) c
    by_cases hqueue : t.tx.queue = []
    · rw [if_pos hqueue] at hput
      rw [Sending.poll, Sender.poll_of_empty (by omega) hqueue hrest.symm]
      dsimp only
      rw [hput]
      exact ⟨rfl, rfl⟩
    · rw [if_neg hqueue] at hput
      rw [Sending.poll, Sender.poll_of_busy hqueue]
      dsimp only
      rw [hput]
      exact ⟨rfl, hrest⟩

theorem step (h : s.Represents u t) (hu : u.Programmed) (e : LineEvent) :
    (s.step e).Represents u (t.step 16 e) := by
  cases e with
  | poll => exact h.poll hu
  | shift =>
    refine ⟨?_, h.rest⟩
    rw [Sending.step, h.port]
    rfl

theorem run (h : s.Represents u t) (hu : u.Programmed) (events : List LineEvent) :
    (s.run events).Represents u (t.run 16 events) := by
  induction events generalizing s t with
  | nil => exact h
  | cons e events ih => exact ih (h.step hu e)

end Sending.Represents

def Uart.afterInit (u : Uart) : Uart where
  ier := if u.Dlab then u.ier else 0
  divisorLow := 3
  divisorHigh := 0
  fcr := 0xC7
  lcr := 0x03
  mcr := 0x0B
  status := u.status
  tx := u.tx.clear

theorem Uart.fifoControl_clear (u : Uart) :
    u.fifoControl 0xC7 = { u with fcr := 0xC7, tx := u.tx.clear } := by
  have hkeep : ¬((0xC7 : UInt8) &&& 0x04 = 0) := by decide
  have hon : (0xC7 : UInt8) &&& 0x01 ≠ 0 := by decide
  rw [fifoControl]
  dsimp only
  rw [if_pos hon, if_neg (fun h => hkeep h.2)]

theorem Uart.outb_divisor (u : Uart) :
    ((u.outb comLctl 0x80).outb comData 0x03).outb comIer 0x00 =
      { u with lcr := 0x80, divisorLow := 3, divisorHigh := 0 } := by
  have hdlab : ∀ v : Uart, v.lcr = 0x80 → v.Dlab := by
    intro v hv
    rw [Dlab, hv]
    decide
  rw [outb_lctl, outb_data, if_pos (hdlab _ rfl), outb_ier, if_pos (hdlab _ rfl)]

theorem serialInit_some (u : Uart) : serialInit (some u) = some u.afterInit := by
  have hwrites : serialInit (some u) = some ((((((u.outb comIer 0x00).outb comLctl 0x80).outb
      comData 0x03).outb comIer 0x00).outb comLctl 0x03).outb comFifo 0xC7 |>.outb comMctl 0x0B) :=
    rfl
  rw [hwrites, Uart.outb_divisor, Uart.outb_lctl, Uart.outb_fifo, Uart.fifoControl_clear,
    Uart.outb_mctl, Uart.outb_ier, Uart.afterInit]
  by_cases hdlab : u.Dlab
  · rw [if_pos hdlab, if_pos hdlab]
  · rw [if_neg hdlab, if_neg hdlab]

theorem Uart.programmed_afterInit (u : Uart) : u.afterInit.Programmed := ⟨rfl, rfl, rfl, rfl⟩

/-- From any state of the port, and whatever the order of the polls and of the bytes that go out:
`serial_init` and any `serial_puts` leave the programmed port with the characters of the strings on
the line, on their way or still due, in order and one byte at most in the queue; if polls and bytes
keep coming, none is due in the end. An interrupt stays enabled exactly when the port was left with
the divisor selected and some interrupt enabled: the first write of `serial_init` then misses the
interrupt enable register. -/
theorem serial_sends (u : Uart) (strings : List (Option (List Int8))) (events : List LineEvent) :
    ∃ v, (Sending.run ⟨serialInit (some u), strings.flatMap serialPuts⟩ events).port = some v ∧
      v.Programmed ∧ v.tx.queue.length ≤ 1 ∧ (v.ier = 0 ↔ ¬u.Dlab ∨ u.ier = 0) ∧
      v.tx.wire ++ v.tx.queue ++
          bytes (Sending.run ⟨serialInit (some u), strings.flatMap serialPuts⟩ events).rest =
        u.tx.wire ++ bytes (strings.flatMap serialPuts) ∧
      ∀ n, 2 * (strings.flatMap serialPuts).length < n →
        Rounds (fun es => .poll ∈ es ∧ .shift ∈ es) n events →
        (Sending.run ⟨serialInit (some u), strings.flatMap serialPuts⟩ events).rest = [] := by
  generalize strings.flatMap serialPuts = text
  have hu := u.programmed_afterInit
  let t : Sender UInt8 := ⟨u.tx.clear, bytes text⟩
  have hstart : (Sending.mk (serialInit (some u)) text).Represents u.afterInit t :=
    ⟨serialInit_some u, rfl⟩
  have hrun := hstart.run hu events
  have hsent := Sender.run_sent (show 0 < 16 by omega) t events
  have hlength := Sender.run_length_le (show 0 < 16 by omega) t events
  refine ⟨_, hrun.port, hu.of_tx _, ?_, ?_, ?_, fun n hn hrounds => ?_⟩
  · exact hlength
  · change (if u.Dlab then u.ier else 0) = 0 ↔ _
    by_cases hdlab : u.Dlab
    · rw [if_pos hdlab]
      exact ⟨Or.inr, fun h => h.resolve_left (not_not_intro hdlab)⟩
    · rw [if_neg hdlab]
      exact ⟨fun _ => Or.inl hdlab, fun _ => rfl⟩
  · rw [hrun.rest]
    rw [Transmitter.sent, Transmitter.sent] at hsent
    rw [hsent]
    exact congrArg (· ++ bytes text) (List.append_nil u.tx.wire)
  · have hwork : t.work < n := by
      change 2 * (bytes text).length + 0 < n
      rw [bytes, List.length_map]
      omega
    have hdone := Sender.run_done (show 0 < 16 by omega) hwork hrounds
    rw [← hrun.rest, bytes, List.map_eq_nil_iff] at hdone
    exact hdone

end Nadir
