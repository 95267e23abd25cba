import Nadir.Lib.Progress

/-!
# Polled transmitters

Elements wait in a queue of `size` places until they go out on a wire, one at a time and in order;
a push onto a full queue loses the element. A sender that pushes only when it has seen the queue
empty loses none, whatever the order of its polls and of the shifts onto the wire, and it comes to
an end when both keep coming.
-/

namespace Wire

open Transition

variable {α : Type*}

structure Transmitter (α : Type*) where
  queue : List α
  wire : List α

namespace Transmitter

def push (size : ℕ) (a : α) (t : Transmitter α) : Transmitter α :=
  if t.queue.length < size then { t with queue := t.queue ++ [a] } else t

/-- The first element of the queue goes out. -/
def shift (t : Transmitter α) : Transmitter α :=
  ⟨t.queue.tail, t.wire ++ t.queue.head?.toList⟩

def clear (t : Transmitter α) : Transmitter α := { t with queue := [] }

/-- What is on the wire, followed by what is on its way there. -/
def sent (t : Transmitter α) : List α := t.wire ++ t.queue

theorem sent_shift (t : Transmitter α) : t.shift.sent = t.sent := by
  obtain ⟨queue, wire⟩ := t
  cases queue with
  | nil => simp [sent, shift]
  | cons a queue => simp [sent, shift]

theorem push_of_empty {size : ℕ} (hsize : 0 < size) (a : α) {t : Transmitter α}
    (h : t.queue = []) : t.push size a = { t with queue := [a] } := by
  rw [push, if_pos (by rw [h]; exact hsize), h]
  rfl

theorem length_shift (t : Transmitter α) : t.shift.queue.length = t.queue.length - 1 :=
  List.length_tail

end Transmitter

/-- A sender looks at the queue, or an element goes out on the wire. -/
inductive LineEvent where
  | poll
  | shift
  deriving DecidableEq, Repr

/-- The transmitter and what its user still has to push. -/
structure Sender (α : Type*) where
  tx : Transmitter α
  rest : List α

namespace Sender

def poll (size : ℕ) (s : Sender α) : Sender α :=
  match s.rest with
  | [] => s
  | a :: rest => if s.tx.queue.isEmpty then ⟨s.tx.push size a, rest⟩ else s

def step (size : ℕ) (s : Sender α) : LineEvent → Sender α
  | .poll => s.poll size
  | .shift => { s with tx := s.tx.shift }

def run (size : ℕ) (s : Sender α) (events : List LineEvent) : Sender α :=
  events.foldl (step size) s

/-- An upper bound on the polls and shifts that still have something to do. -/
def work (s : Sender α) : ℕ := 2 * s.rest.length + s.tx.queue.length

variable {size : ℕ} {s : Sender α}

theorem poll_of_nil (h : s.rest = []) : s.poll size = s := by
  rw [poll, h]

theorem poll_of_busy (h : s.tx.queue ≠ []) : s.poll size = s := by
  rw [poll]
  split
  · rfl
  · rw [if_neg (by rwa [List.isEmpty_iff])]

theorem poll_of_empty (hsize : 0 < size) (h : s.tx.queue = []) {a : α} {rest : List α}
    (hrest : s.rest = a :: rest) : s.poll size = ⟨{ s.tx with queue := [a] }, rest⟩ := by
  rw [poll, hrest]
  dsimp only
  rw [if_pos (by rw [h]; rfl), Transmitter.push_of_empty hsize a h]

theorem poll_cases (hsize : 0 < size) (s : Sender α) :
    s.poll size = s ∧ (s.rest = [] ∨ s.tx.queue ≠ []) ∨
    ∃ a rest, s.rest = a :: rest ∧ s.tx.queue = [] ∧
      s.poll size = ⟨{ s.tx with queue := [a] }, rest⟩ := by
  by_cases hqueue : s.tx.queue = []
  · cases hrest : s.rest with
    | nil => exact Or.inl ⟨poll_of_nil hrest, Or.inl rfl⟩
    | cons a rest => exact Or.inr ⟨a, rest, rfl, hqueue, poll_of_empty hsize hqueue hrest⟩
  · exact Or.inl ⟨poll_of_busy hqueue, Or.inr hqueue⟩

theorem step_sent (hsize : 0 < size) (s : Sender α) (e : LineEvent) :
    (s.step size e).tx.sent ++ (s.step size e).rest = s.tx.sent ++ s.rest := by
  cases e with
  | shift => exact congrArg (· ++ s.rest) s.tx.sent_shift
  | poll =>
    rw [step]
    rcases poll_cases hsize s with ⟨hsame, _⟩ | ⟨a, rest, hrest, hqueue, hpush⟩
    · rw [hsame]
    · rw [hpush, hrest, Transmitter.sent, Transmitter.sent, hqueue, List.append_nil,
        List.append_assoc]
      rfl

theorem step_length_le (hsize : 0 < size) (s : Sender α) (e : LineEvent) :
    (s.step size e).tx.queue.length ≤ max 1 s.tx.queue.length := by
  cases e with
  | shift =>
    have hlength := s.tx.length_shift
    change s.tx.shift.queue.length ≤ _
    omega
  | poll =>
    rw [step]
    rcases poll_cases hsize s with ⟨hsame, _⟩ | ⟨a, rest, _, _, hpush⟩
    · rw [hsame]
      exact Nat.le_max_right _ _
    · rw [hpush]
      exact Nat.le_max_left _ _

/-- Nothing is lost or put out of order by any events. -/
theorem run_sent (hsize : 0 < size) (s : Sender α) (events : List LineEvent) :
    (s.run size events).tx.sent ++ (s.run size events).rest = s.tx.sent ++ s.rest := by
  induction events generalizing s with
  | nil => rfl
  | cons e events ih => exact (ih (s.step size e)).trans (step_sent hsize s e)

theorem run_length_le (hsize : 0 < size) (s : Sender α) (events : List LineEvent) :
    (s.run size events).tx.queue.length ≤ max 1 s.tx.queue.length := by
  induction events generalizing s with
  | nil => exact Nat.le_max_right _ _
  | cons e events ih =>
    have hrun := ih (s.step size e)
    have hstep := step_length_le hsize s e
    change ((s.step size e).run size events).tx.queue.length ≤ _
    omega

/-- A shift helps as long as something is queued, a poll when nothing is. -/
def Helps (s : Sender α) : LineEvent → Prop
  | .poll => s.tx.queue = []
  | .shift => s.tx.queue ≠ []

theorem progress (hsize : 0 < size) :
    Progress (fun (s : Sender α) e t => t = s.step size e) (fun _ => True) (fun _ => True)
      (fun s => s.rest = []) Helps work := by
  refine ⟨fun _ _ _ => trivial, ?_, ?_⟩
  · rintro s e t _ _ rfl hdone
    cases e with
    | shift => exact hdone
    | poll =>
      rw [step, poll_of_nil hdone]
      exact hdone
  · rintro s e t _ _ rfl hdone
    cases e with
    | shift =>
      by_cases hqueue : s.tx.queue = []
      · have hshift : s.step size .shift = s := by
          obtain ⟨⟨queue, wire⟩, rest⟩ := s
          dsimp only at hqueue
          subst hqueue
          exact congrArg (fun w => Sender.mk ⟨[], w⟩ rest) (List.append_nil wire)
        rw [hshift]
        exact Or.inr ⟨rfl, not_not_intro hqueue, fun _ => id⟩
      · have hlength := s.tx.length_shift
        have hpos := List.length_pos_iff.mpr hqueue
        left
        change 2 * s.rest.length + s.tx.shift.queue.length <
          2 * s.rest.length + s.tx.queue.length
        omega
    | poll =>
      rw [step]
      by_cases hqueue : s.tx.queue = []
      · obtain ⟨a, rest, hrest⟩ := List.exists_cons_of_ne_nil hdone
        left
        rw [poll_of_empty hsize hqueue hrest, work, work, hrest, hqueue]
        simp only [List.length_cons, List.length_nil]
        omega
      · rw [poll_of_busy hqueue]
        exact Or.inr ⟨rfl, hqueue, fun _ => id⟩

theorem run_done (hsize : 0 < size) {n : ℕ} {s : Sender α} (hn : s.work < n)
    {events : List LineEvent} (h : Rounds (fun es => .poll ∈ es ∧ .shift ∈ es) n events) :
    (s.run size events).rest = [] := by
  have hsteps := Steps.foldl (fun s e => step size s e) s events
  refine (progress hsize).done_of_rounds ?_ h hsteps trivial (fun _ _ => trivial) hn
  rintro s events _ ⟨hpoll, hshift⟩ _
  by_cases hqueue : s.tx.queue = []
  · exact ⟨.poll, hpoll, hqueue⟩
  · exact ⟨.shift, hshift, hqueue⟩

end Sender

end Wire
