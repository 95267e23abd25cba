import Nadir.Pit.Basic
import Mathlib.Data.List.Chain

/-!
# Sleeping for some ticks

`pit_sleep` compares the ticks that have passed and halts until the next interrupt, of the timer or
of another device. An interrupt between the comparison and the halt does not end the halt. The call
never ends early, and where the processor gets on with the call between any two interrupts it ends
at most one tick late; a wrap of the counter changes nothing.
-/

namespace Nadir

/-- Where the call stands: before the comparison, before `hlt`, in it, or at its end. -/
inductive SleepPoint where
  | check
  | hlt
  | asleep
  | returned
  deriving DecidableEq, Repr

/-- The processor goes on with the call, or takes an interrupt. -/
inductive SleepEvent where
  | main
  | irq (timer : Bool)
  deriving DecidableEq, Repr

structure Sleeper where
  timer : Timer
  start : UInt64
  ticks : UInt64
  point : SleepPoint

namespace Sleeper

def main (s : Sleeper) : Sleeper :=
  match s.point with
  | .check => { s with point := if pitTicks s.timer - s.start < s.ticks then .hlt else .returned }
  | .hlt => { s with point := .asleep }
  | .asleep => s
  | .returned => s

/-- The handler runs, and then a halted processor is awake. -/
def irq (timer : Bool) (s : Sleeper) : Sleeper :=
  { s with
    timer := if timer then pitOnTick s.timer else s.timer
    point := if s.point = .asleep then .check else s.point }

def step (s : Sleeper) : SleepEvent → Sleeper
  | .main => s.main
  | .irq timer => s.irq timer

def run (s : Sleeper) (events : List SleepEvent) : Sleeper := events.foldl step s

end Sleeper

/-- `pit_sleep(ticks)` once it has read the counter. -/
def pitSleep (ticks : UInt64) (t : Timer) : Sleeper := ⟨t, pitTicks t, ticks, .check⟩

def tickCount (events : List SleepEvent) : ℕ := events.count (.irq true)

/-- Between any two interrupts the processor gets on with the call. -/
def Responsive (events : List SleepEvent) : Prop :=
  events.IsChain fun e e' => e = .main ∨ e' = .main

variable {ticks : UInt64} {t : Timer} {events : List SleepEvent}

theorem Sleeper.main_point (s : Sleeper) : s.main.point =
    match s.point with
    | .check => if pitTicks s.timer - s.start < s.ticks then .hlt else .returned
    | .hlt => .asleep
    | .asleep => .asleep
    | .returned => .returned := by
  cases hpoint : s.point <;> simp [main, hpoint]

theorem Sleeper.returned_step {s : Sleeper} {e : SleepEvent} (h : (s.step e).point = .returned) :
    s.point = .returned ∨
      s.point = .check ∧ ¬pitTicks s.timer - s.start < s.ticks := by
  cases hpoint : s.point with
  | returned => exact Or.inl rfl
  | check =>
    cases e with
    | main =>
      rw [step, main_point, hpoint] at h
      dsimp only at h
      split_ifs at h with hless
      exact Or.inr ⟨rfl, hless⟩
    | irq timer => simp [step, irq, hpoint] at h
  | hlt => cases e <;> simp [step, main, irq, hpoint] at h
  | asleep => cases e <;> simp [step, main, irq, hpoint] at h

theorem Sleeper.run_append_singleton (s : Sleeper) (events : List SleepEvent) (e : SleepEvent) :
    s.run (events ++ [e]) = (s.run events).step e := by
  rw [run, List.foldl_append]
  rfl

theorem tickCount_append_singleton (events : List SleepEvent) (e : SleepEvent) :
    tickCount (events ++ [e]) = tickCount events + if e = .irq true then 1 else 0 := by
  rw [tickCount, List.count_append, List.count_singleton, ← tickCount]
  simp only [beq_iff_eq]

theorem tickCount_le_append (events : List SleepEvent) (e : SleepEvent) :
    tickCount events ≤ tickCount (events ++ [e]) ∧
      tickCount (events ++ [e]) ≤ tickCount events + 1 := by
  rw [tickCount_append_singleton]
  split_ifs <;> omega

/-- The last event is not an interrupt. -/
def Settled (events : List SleepEvent) : Prop :=
  ∀ timer, events.getLast? ≠ some (.irq timer)

theorem responsive_append_singleton {e : SleepEvent} (h : Responsive (events ++ [e])) :
    Responsive events ∧ ∀ timer, e = .irq timer → Settled events := by
  rw [Responsive, List.isChain_append] at h
  refine ⟨h.1, fun timer he before hlast => ?_⟩
  subst he
  rcases h.2.2 _ hlast _ rfl with hmain | hmain <;> cases hmain

theorem pitSleep_elapsed (ticks : UInt64) (t : Timer) (events : List SleepEvent) :
    ((pitSleep ticks t).run events).ticks = ticks ∧
      pitTicks ((pitSleep ticks t).run events).timer - ((pitSleep ticks t).run events).start =
        UInt64.ofNat (tickCount events) := by
  induction events using List.reverseRecOn with
  | nil => exact ⟨rfl, UInt64.sub_self (pitTicks t)⟩
  | append_singleton events e ih =>
    obtain ⟨hticks, helapsed⟩ := ih
    rw [Sleeper.run_append_singleton, tickCount_append_singleton]
    generalize (pitSleep ticks t).run events = s at *
    cases e with
    | main =>
      have hsame : s.main.ticks = s.ticks ∧ s.main.timer = s.timer ∧ s.main.start = s.start := by
        unfold Sleeper.main
        split <;> exact ⟨rfl, rfl, rfl⟩
      rw [Sleeper.step, hsame.1, hsame.2.1, hsame.2.2, if_neg (by decide)]
      exact ⟨hticks, helapsed⟩
    | irq timer =>
      refine ⟨hticks, ?_⟩
      cases timer with
      | false =>
        rw [if_neg (by decide)]
        exact helapsed
      | true =>
        rw [if_pos rfl, UInt64.ofNat_add, ← helapsed]
        change pitTicks s.timer + 1 - s.start = pitTicks s.timer - s.start + 1
        rw [UInt64.sub_eq_add_neg, UInt64.sub_eq_add_neg, UInt64.add_assoc, UInt64.add_assoc,
          UInt64.add_comm 1]

theorem pitSleep_compare (ticks : UInt64) (t : Timer) (events : List SleepEvent) :
    pitTicks ((pitSleep ticks t).run events).timer - ((pitSleep ticks t).run events).start <
        ((pitSleep ticks t).run events).ticks ↔
      tickCount events % 2 ^ 64 < ticks.toNat := by
  obtain ⟨hticks, helapsed⟩ := pitSleep_elapsed ticks t events
  rw [hticks, helapsed, UInt64.lt_iff_toNat_lt, UInt64.toNat_ofNat']

/-- The call has not ended before the ticks have passed. -/
theorem le_tickCount_of_returned (h : ((pitSleep ticks t).run events).point = .returned) :
    ticks.toNat ≤ tickCount events := by
  induction events using List.reverseRecOn with
  | nil => cases h
  | append_singleton events e ih =>
    have hle := (tickCount_le_append events e).1
    have hcompare := pitSleep_compare ticks t events
    rw [Sleeper.run_append_singleton] at h
    generalize (pitSleep ticks t).run events = s at *
    rcases Sleeper.returned_step h with hpoint | ⟨_, hless⟩
    · exact (ih hpoint).trans hle
    · rw [hcompare, Nat.not_lt] at hless
      exact (hless.trans (Nat.mod_le _ _)).trans hle

/-- How many ticks can have passed after `events` while the call stands at `point`. An interrupt
found it before the comparison or, once, between the comparison and the halt. -/
def Punctual (n : ℕ) (events : List SleepEvent) : SleepPoint → Prop
  | .check => tickCount events ≤ n + 1 ∧ (Settled events → tickCount events = 0)
  | .hlt => tickCount events ≤ n ∧ (Settled events → tickCount events < n)
  | .asleep => tickCount events ≤ n
  | .returned => True

theorem Punctual.main {s : Sleeper} {n : ℕ} (hwrap : n + 1 < 2 ^ 64)
    (hcompare : pitTicks s.timer - s.start < s.ticks ↔ tickCount events % 2 ^ 64 < n)
    (h : Punctual n events s.point) : Punctual n (events ++ [.main]) s.main.point := by
  have hcount : tickCount (events ++ [.main]) = tickCount events := by
    rw [tickCount_append_singleton, if_neg (by decide)]
    rfl
  rw [Sleeper.main_point]
  cases hpoint : s.point with
  | check =>
    rw [hpoint] at h
    have hle := h.1
    dsimp only
    split_ifs with hless
    · rw [hcompare, Nat.mod_eq_of_lt (by omega)] at hless
      rw [Punctual, hcount]
      exact ⟨hless.le, fun _ => hless⟩
    · trivial
  | hlt =>
    rw [hpoint] at h
    rw [Punctual, hcount]
    exact h.1
  | asleep =>
    rw [hpoint] at h
    rw [Punctual, hcount]
    exact h
  | returned => trivial

theorem Punctual.irq {s : Sleeper} {n : ℕ} (timer : Bool) (hsettled : Settled events)
    (h : Punctual n events s.point) : Punctual n (events ++ [.irq timer]) (s.irq timer).point := by
  have hcount := (tickCount_le_append events (.irq timer)).2
  have hnot : ¬Settled (events ++ [.irq timer]) := fun h => h timer List.getLast?_concat
  change Punctual n _ (if s.point = .asleep then SleepPoint.check else s.point)
  cases hpoint : s.point with
  | check =>
    rw [hpoint] at h
    have hzero := h.2 hsettled
    rw [if_neg (by decide), Punctual]
    exact ⟨by omega, fun h => absurd h hnot⟩
  | hlt =>
    rw [hpoint] at h
    have hless := h.2 hsettled
    rw [if_neg (by decide), Punctual]
    exact ⟨by omega, fun h => absurd h hnot⟩
  | asleep =>
    rw [hpoint] at h
    change tickCount events ≤ n at h
    rw [if_pos rfl, Punctual]
    exact ⟨by omega, fun h => absurd h hnot⟩
  | returned => trivial

theorem punctual_run (hwrap : ticks.toNat + 1 < 2 ^ 64) (h : Responsive events) :
    Punctual ticks.toNat events ((pitSleep ticks t).run events).point := by
  induction events using List.reverseRecOn with
  | nil => exact ⟨Nat.zero_le _, fun _ => rfl⟩
  | append_singleton events e ih =>
    obtain ⟨hbefore, hsettled⟩ := responsive_append_singleton h
    rw [Sleeper.run_append_singleton]
    cases e with
    | main => exact (ih hbefore).main hwrap (pitSleep_compare ticks t events)
    | irq timer => exact (ih hbefore).irq timer (hsettled timer rfl)

/-- `pit_sleep` never ends before its ticks have passed, whatever interrupts come when. If the
processor gets on with the call between any two interrupts, and the ticks do not wrap the counter,
it has ended by the interrupt after the tick that was one too many. -/
theorem pit_sleep_bounds (ticks : UInt64) (t : Timer) (events : List SleepEvent) :
    (((pitSleep ticks t).run events).point = .returned → ticks.toNat ≤ tickCount events) ∧
    (Responsive events → ticks.toNat + 1 < 2 ^ 64 →
      ((pitSleep ticks t).run events).point ≠ .returned →
      tickCount events ≤ ticks.toNat + 1) := by
  refine ⟨le_tickCount_of_returned, fun hresponsive hwrap hpoint => ?_⟩
  have hpunctual := @punctual_run ticks t events hwrap hresponsive
  cases hwhere : ((pitSleep ticks t).run events).point with
  | check =>
    rw [hwhere] at hpunctual
    exact hpunctual.1
  | hlt =>
    rw [hwhere] at hpunctual
    exact hpunctual.1.trans (Nat.le_succ _)
  | asleep =>
    rw [hwhere] at hpunctual
    exact Nat.le_succ_of_le hpunctual
  | returned => exact absurd hwhere hpoint

end Nadir
