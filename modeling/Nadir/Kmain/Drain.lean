import Nadir.Kmain.Mirror
import Nadir.Kmain.Screen
import Nadir.Lib.Progress

/-!
# When no interrupt comes

Between two interrupts `kmain` runs until it sleeps: as long as it gets to make steps and the serial
line to take bytes, every line is printed, every string sent and every key echoed after boundedly
many of them. Only a key that arrives between the last look at the ring and `hlt` is left there.
-/

namespace Nadir

open RingBuffer Transition Wire

/-- The event is no interrupt. -/
def KernelEvent.Own : KernelEvent → Prop
  | .irq _ _ _ => False
  | _ => True

/-- An upper bound on the steps that a statement, its line and its string take. -/
def Statement.work (now : UInt64) : Statement → ℕ
  | .klog line => (LogLine.text ⟨now, line.subsystem, line.parts⟩).length + 2
  | .serialPuts text => 2 * (cString text).length + 2
  | _ => 1

def Next.work (keys : ℕ) : Next → ℕ
  | .hlt => 1
  | .poll => 13 * keys + 2

namespace Point

/-- An upper bound on the steps to the next sleep, with `keys` of them queued. A character for the
serial port counts twice, as it is written and as it goes out. -/
def work (now : UInt64) (keys : ℕ) : Point → ℕ
  | .exec rest next => (rest.map (Statement.work now)).sum + next.work keys + 1
  | .print text rest next =>
    text.length + (rest.map (Statement.work now)).sum + next.work keys + 2
  | .send text rest next =>
    2 * text.length + (rest.map (Statement.work now)).sum + next.work keys + 2
  | .hlt => 1
  | .asleep => 0
  | .ticks => ((uptimeReport now).map (Statement.work now)).sum + 13 * keys + 4
  | .poll => 13 * keys + 2
  | .compare => 13 * (keys - 1) + 14
  | .read => 13 * (keys - 1) + 13
  | .store _ => 13 * (keys - 1) + 12
  | .putchar _ => 13 * keys + 11

theorem work_exec_cons (now : UInt64) (keys : ℕ) (st : Statement) (rest : List Statement)
    (next : Next) :
    (exec (st :: rest) next).work now keys = st.work now + (exec rest next).work now keys := by
  simp only [work, List.map_cons, List.sum_cons]
  omega

/-- The point is followed by `hlt` without a look at the ring. -/
def Parked : Point → Prop
  | .exec _ next => next = .hlt
  | .print _ _ next => next = .hlt
  | .send _ _ next => next = .hlt
  | .hlt => True
  | .asleep => True
  | _ => False

theorem Parked.inflight {p : Point} (h : p.Parked) : p.inflight = [] := by
  cases p <;> first | rfl | exact h.elim

end Point

theorem length_serialEcho_le (c : Int8) (ok : Bool) : (serialEcho c ok).length ≤ 3 := by
  have hstring : ∀ s : List Int8, (serialPuts (some s)).length ≤ s.length :=
    fun s => (List.takeWhile_sublist _).length_le
  rw [serialEcho]
  split_ifs
  · exact Nat.zero_le 3
  · exact hstring _
  · exact (hstring _).trans (Nat.le_succ 2)
  · exact (hstring _).trans (Nat.le_succ 2)

namespace Com1

def queueLength (p : Com1) : ℕ := p.elim 0 fun u => u.tx.queue.length

theorem queueLength_serialInit (p : Com1) : (serialInit p).queueLength ≤ p.queueLength := by
  cases p with
  | none => exact le_rfl
  | some u =>
    rw [serialInit_some]
    exact Nat.zero_le _

theorem queueLength_shift (p : Com1) :
    queueLength (p.map Uart.shift) = p.queueLength - 1 := by
  cases p with
  | none => rfl
  | some u => exact u.tx.length_shift

end Com1

theorem KernelStep.own_cases {s t : Kernel} {e : KernelEvent} (he : e.Own)
    (h : KernelStep s e t) : (∃ l, e = .main l) ∧ MainCase s t ∨ e = .shift ∧ t = s.shift := by
  cases h with
  | main l hmain => exact Or.inl ⟨⟨l, rfl⟩, Kernel.main_cases hmain⟩
  | irq source code cpu hdeliver => exact he.elim
  | shift => exact Or.inr ⟨rfl, rfl⟩

theorem MainCase.of_asleep {s t : Kernel} (h : MainCase s t) (hp : s.point = .asleep) : t = s := by
  cases h with
  | busy ch text rest next _ hput => rfl
  | asleep _ => rfl
  | _ => simp_all

namespace Kernel

variable {b : BootStats} {m : Machine} {s t : Kernel}

/-- What is needed of a state that `kmain` reaches. -/
structure Sane (b : BootStats) (m : Machine) (s : Kernel) : Prop where
  phase : s.Phase b m
  echoes : s.Echoes
  serial : s.Serial

theorem Sane.step (h : s.Sane b m) (hcase : StepCase s t) : t.Sane b m :=
  ⟨h.phase.step hcase, h.echoes.step h.phase hcase, step_serial h.phase h.serial hcase⟩

theorem Sane.hasKey_iff (h : s.Sane b m) :
    keyboardHasKey s.devices.kbd = true ↔ queued s.devices.kbd ≠ [] := by
  obtain ⟨r, hr⟩ := h.echoes.sound
  have hqueued : queued s.devices.kbd = r.toList := hr.kbd.queued_eq
  have hkey : keyboardHasKey s.devices.kbd = true ↔ r.head ≠ r.tail := hr.hasKey_iff
  rw [hkey, hqueued, ← not_iff_not, not_not, not_not]
  refine ⟨fun heq => ?_, fun hnil => by_contra fun hne => ?_⟩
  · rw [← List.length_eq_zero_iff, r.length_toList, Ring.count, heq, if_pos le_rfl, Nat.sub_self]
  · rw [Ring.toList_eq_cons hne] at hnil
    cases hnil

theorem Sane.length_store (h : s.Sane b m) {c : UInt8} (hp : s.point = .store c) :
    (queued s.devices.kbd).length = (queued (dequeueStore s.devices.kbd)).length + 1 := by
  obtain ⟨r, hr⟩ := h.echoes.sound
  have hholds := hr.consumer
  rw [session, hp] at hholds
  have hstore := hr.kbd.dequeueStore.queued_eq
  have hqueued := hr.kbd.queued_eq
  dsimp only [session] at hstore hqueued
  rw [hqueued, hstore, Ring.toList_eq_cons hholds.1]
  rfl

theorem Sane.queueLength_send (h : s.Sane b m) {ch : Int8} {text : List Int8}
    {rest : List Statement} {next : Next} (hp : s.point = .send (ch :: text) rest next) :
    serialPutchar ch s.com1 = none ∧ s.com1.queueLength ≠ 0 ∨
      ∃ com1, serialPutchar ch s.com1 = some com1 ∧ com1.queueLength ≤ s.com1.queueLength + 1 := by
  rcases h.serial with hbefore | hafter
  · have hunsent := hbefore.unsent
    rw [hp] at hunsent
    cases hunsent
  · cases hcom1 : s.com1 with
    | none => exact Or.inr ⟨none, serialPutchar_none ch, Nat.zero_le _⟩
    | some u =>
      rw [serialPutchar_some (hafter.carries u hcom1).programmed]
      by_cases hqueue : u.tx.queue = []
      · rw [if_pos hqueue]
        exact Or.inr ⟨_, rfl, Nat.le_add_left 1 _⟩
      · rw [if_neg hqueue]
        exact Or.inl ⟨rfl, mt List.length_eq_zero_iff.mp hqueue⟩

def work (s : Kernel) : ℕ :=
  s.point.work (pitTicks s.devices.timer) (queued s.devices.kbd).length + s.com1.queueLength

/-- Asleep with an empty queue at the port. -/
def Drained (s : Kernel) : Prop := s.point = .asleep ∧ s.com1.queueLength = 0

/-- The line helps as long as a byte is on its way out, `kmain` when none is. -/
def Helps (s : Kernel) : KernelEvent → Prop
  | .shift => s.com1.queueLength ≠ 0
  | .main _ => s.com1.queueLength = 0
  | .irq _ _ _ => False

theorem work_lt (hticks : pitTicks t.devices.timer = pitTicks s.devices.timer)
    (hkbd : t.devices.kbd = s.devices.kbd) (hqueue : t.com1.queueLength ≤ s.com1.queueLength)
    (hpoint : t.point.work (pitTicks s.devices.timer) (queued s.devices.kbd).length <
      s.point.work (pitTicks s.devices.timer) (queued s.devices.kbd).length) :
    t.work < s.work := by
  rw [work, work, hticks, hkbd]
  omega

/-- A step of `kmain` does some of the work, unless it waits for the port or sleeps. -/
theorem Sane.main_work (h : s.Sane b m) (hcase : MainCase s t) :
    t.work < s.work ∨ t = s ∧ (s.com1.queueLength ≠ 0 ∨ s.point = .asleep) := by
  cases hcase with
  | done next hp =>
    left
    refine work_lt rfl rfl le_rfl ?_
    rw [hp]
    cases next with
    | hlt => exact Nat.le_add_left 2 _
    | poll =>
      simp only [Point.work, Next.work, Point.afterAll]
      omega
  | drive st rest next hp hst =>
    left
    refine work_lt (st.drive_timer _) (h.phase.drive_kbd hp hst) le_rfl ?_
    rw [hp, Point.work_exec_cons]
    have hpos : 0 < st.work (pitTicks s.devices.timer) := by
      cases st <;> first | exact hst.elim | exact Nat.zero_lt_one
    exact Nat.lt_add_of_pos_left hpos
  | serialInit rest next hp =>
    left
    refine work_lt rfl rfl (Com1.queueLength_serialInit _) ?_
    rw [hp, Point.work_exec_cons]
    exact Nat.lt_add_of_pos_left Nat.zero_lt_one
  | sti rest next hp =>
    left
    refine work_lt rfl rfl le_rfl ?_
    rw [hp, Point.work_exec_cons]
    exact Nat.lt_add_of_pos_left Nat.zero_lt_one
  | klog line rest next hp =>
    left
    refine work_lt rfl rfl le_rfl ?_
    rw [hp, Point.work_exec_cons]
    simp only [Point.work, Statement.work, logLine]
    omega
  | report text rest next hp hpresent =>
    left
    refine work_lt rfl rfl le_rfl ?_
    rw [hp, Point.work_exec_cons]
    simp only [Point.work, Statement.work]
    omega
  | noReport text rest next hp hpresent =>
    left
    refine work_lt rfl rfl le_rfl ?_
    rw [hp, Point.work_exec_cons]
    exact Nat.lt_add_of_pos_left (Nat.succ_pos _)
  | printed rest next hp =>
    left
    refine work_lt rfl rfl le_rfl ?_
    rw [hp]
    simp only [Point.work]
    omega
  | print ch text rest next console hp hput =>
    left
    refine work_lt rfl rfl le_rfl ?_
    rw [hp]
    simp only [Point.work, List.length_cons]
    omega
  | sent rest next hp =>
    left
    refine work_lt rfl rfl le_rfl ?_
    rw [hp]
    simp only [Point.work]
    omega
  | busy ch text rest next hp hput =>
    rcases h.queueLength_send hp with ⟨_, hqueue⟩ | ⟨com1, hsome, _⟩
    · exact Or.inr ⟨rfl, Or.inl hqueue⟩
    · rw [hput] at hsome
      cases hsome
  | send ch text rest next com1 hp hput =>
    rcases h.queueLength_send hp with ⟨hnone, _⟩ | ⟨com1', hsome, hqueue⟩
    · rw [hput] at hnone
      cases hnone
    · rw [hput, Option.some_inj] at hsome
      subst hsome
      left
      simp only [work, hp, Point.work, List.length_cons]
      omega
  | hlt hp =>
    left
    refine work_lt rfl rfl le_rfl ?_
    rw [hp]
    exact Nat.zero_lt_one
  | asleep hp => exact Or.inr ⟨rfl, Or.inr hp⟩
  | due hp hdue =>
    left
    refine work_lt rfl rfl le_rfl ?_
    rw [hp]
    simp only [Point.work, Next.work]
    omega
  | notDue hp hdue =>
    left
    refine work_lt rfl rfl le_rfl ?_
    rw [hp]
    simp only [Point.work]
    omega
  | poll hp =>
    left
    refine work_lt rfl rfl le_rfl ?_
    rw [hp]
    dsimp only
    split_ifs with hkey
    · have hpos := List.length_pos_iff.mpr (h.hasKey_iff.mp hkey)
      simp only [Point.work]
      omega
    · exact Nat.le_add_left 2 _
  | empty hp hempty =>
    exact absurd (hempty.symm.trans (not_empty_of_sound h.echoes.sound hp)) (by decide)
  | compare hp hempty =>
    left
    refine work_lt rfl rfl le_rfl ?_
    rw [hp]
    exact Nat.lt_succ_self _
  | read hp =>
    left
    refine work_lt rfl rfl le_rfl ?_
    rw [hp]
    exact Nat.lt_succ_self _
  | store c hp =>
    have hlength := h.length_store hp
    left
    simp only [work, hp, Point.work]
    omega
  | putchar c console hp hput =>
    have hlength := length_serialEcho_le c.toInt8 s.serialPresent
    left
    refine work_lt rfl rfl le_rfl ?_
    rw [hp]
    simp only [Point.work, Next.work, List.map_nil, List.sum_nil]
    omega

theorem work_shift (s : Kernel) :
    s.shift.work < s.work ∨ s.com1.queueLength = 0 ∧ s.shift.work = s.work := by
  have hqueue : s.shift.com1.queueLength = s.com1.queueLength - 1 := s.com1.queueLength_shift
  rw [work, work, hqueue]
  change s.point.work (pitTicks s.devices.timer) (queued s.devices.kbd).length + _ < _ ∨
    _ ∧ s.point.work (pitTicks s.devices.timer) (queued s.devices.kbd).length + _ = _
  omega

theorem progress (b : BootStats) (m : Machine) :
    Progress KernelStep (Sane b m) KernelEvent.Own Drained Helps work := by
  refine ⟨fun {s e t} hs he hstep => hs.step (hs.phase.step_cases hstep),
    fun {s e t} hs he hstep hdone => ?_, fun {s e t} hs he hstep hdone => ?_⟩
  · rcases hstep.own_cases he with ⟨_, hcase⟩ | ⟨_, rfl⟩
    · rw [hcase.of_asleep hdone.1]
      exact hdone
    · refine ⟨hdone.1, ?_⟩
      have hqueue : s.shift.com1.queueLength = s.com1.queueLength - 1 := s.com1.queueLength_shift
      rw [hqueue, hdone.2]
  · rcases hstep.own_cases he with ⟨⟨l, rfl⟩, hcase⟩ | ⟨rfl, rfl⟩
    · refine (hs.main_work hcase).imp_right ?_
      rintro ⟨rfl, hwait⟩
      refine ⟨rfl, ?_, fun _ => id⟩
      exact hwait.elim id fun hp hqueue => hdone ⟨hp, hqueue⟩
    · refine s.work_shift.imp_right fun ⟨hqueue, hsame⟩ => ⟨hsame, not_not_intro hqueue, ?_⟩
      have hshift : s.shift.com1.queueLength = s.com1.queueLength := by
        rw [hqueue]
        exact s.com1.queueLength_shift.trans (by rw [hqueue])
      intro e he
      cases e with
      | shift => exact absurd hqueue he
      | main l => exact hshift.trans hqueue
      | irq source code cpu => exact he

/-- What stays the same until the next interrupt, or was settled since the last one. -/
structure Undisturbed (s t : Kernel) : Prop where
  arrived : t.trace.arrived = s.trace.arrived
  ticks : pitTicks t.devices.timer = pitTicks s.devices.timer
  looked : ¬s.point.Parked → t.point.Parked → queued t.devices.kbd = []
  checked : s.point = .ticks → t.point ≠ .ticks → pitTicks t.devices.timer - t.lastUptime < 100
  parked : s.point.Parked → t.point.Parked ∧ t.devices.kbd = s.devices.kbd
  halted : s.point = .hlt → (t.point = .hlt ∨ t.point = .asleep) ∧ t.devices = s.devices ∧
    t.trace = s.trace

theorem Undisturbed.refl (s : Kernel) : s.Undisturbed s :=
  ⟨rfl, rfl, fun hnot hparked => absurd hparked hnot, fun hp hne => absurd hp hne,
    fun hp => ⟨hp, rfl⟩, fun hp => ⟨Or.inl hp, rfl, rfl⟩⟩

theorem Undisturbed.move {u : Kernel} (h : s.Undisturbed t)
    (harrived : u.trace.arrived = t.trace.arrived)
    (hticks : pitTicks u.devices.timer = pitTicks t.devices.timer)
    (hlooked : u.point.Parked →
      queued u.devices.kbd = [] ∨ t.point.Parked ∧ u.devices.kbd = t.devices.kbd)
    (hchecked : t.point ≠ .ticks ∧ u.lastUptime = t.lastUptime ∨
      pitTicks u.devices.timer - u.lastUptime < 100)
    (hstays : t.point.Parked → u.point.Parked ∧ u.devices.kbd = t.devices.kbd)
    (hhlt : t.point ≠ .hlt) (hasleep : t.point ≠ .asleep) : s.Undisturbed u := by
  refine ⟨harrived.trans h.arrived, hticks.trans h.ticks, fun hnot hparked => ?_,
    fun hp _ => ?_, fun hp => ?_, fun hp => ?_⟩
  · rcases hlooked hparked with hempty | ⟨hbefore, hkbd⟩
    · exact hempty
    · rw [hkbd]
      exact h.looked hnot hbefore
  · rcases hchecked with ⟨hne, hlast⟩ | hrecent
    · rw [hticks, hlast]
      exact h.checked hp hne
    · exact hrecent
  · obtain ⟨hbefore, hkbd⟩ := h.parked hp
    obtain ⟨hafter, hsame⟩ := hstays hbefore
    exact ⟨hafter, hsame.trans hkbd⟩
  · exact ((h.halted hp).1.elim hhlt hasleep).elim

theorem Undisturbed.plain {u : Kernel} {p : Point} (h : s.Undisturbed t) (hp : t.point = p)
    (hne : p ≠ .ticks ∧ p ≠ .hlt ∧ p ≠ .asleep) (hparked : u.point.Parked ↔ p.Parked)
    (harrived : u.trace.arrived = t.trace.arrived)
    (hticks : pitTicks u.devices.timer = pitTicks t.devices.timer)
    (hkbd : u.devices.kbd = t.devices.kbd) (hlast : u.lastUptime = t.lastUptime) :
    s.Undisturbed u := by
  subst hp
  exact h.move harrived hticks (fun hu => Or.inr ⟨hparked.mp hu, hkbd⟩) (Or.inl ⟨hne.1, hlast⟩)
    (fun ht => ⟨hparked.mpr ht, hkbd⟩) hne.2.1 hne.2.2

theorem Undisturbed.main {u : Kernel} (h : s.Undisturbed t) (ht : t.Sane b m)
    (hcase : MainCase t u) : s.Undisturbed u := by
  cases hcase with
  | done next hp =>
    refine h.plain hp ⟨nofun, nofun, nofun⟩ ?_ rfl rfl rfl rfl
    cases next with
    | hlt => exact iff_of_true trivial rfl
    | poll => exact iff_of_false id nofun
  | drive st rest next hp hst =>
    have hkbd := ht.phase.drive_kbd hp hst
    exact h.plain hp ⟨nofun, nofun, nofun⟩ .rfl rfl (st.drive_timer _) hkbd rfl
  | serialInit rest next hp => exact h.plain hp ⟨nofun, nofun, nofun⟩ .rfl rfl rfl rfl rfl
  | sti rest next hp => exact h.plain hp ⟨nofun, nofun, nofun⟩ .rfl rfl rfl rfl rfl
  | klog line rest next hp => exact h.plain hp ⟨nofun, nofun, nofun⟩ .rfl rfl rfl rfl rfl
  | report text rest next hp hpresent =>
    exact h.plain hp ⟨nofun, nofun, nofun⟩ .rfl rfl rfl rfl rfl
  | noReport text rest next hp hpresent =>
    exact h.plain hp ⟨nofun, nofun, nofun⟩ .rfl rfl rfl rfl rfl
  | printed rest next hp => exact h.plain hp ⟨nofun, nofun, nofun⟩ .rfl rfl rfl rfl rfl
  | print ch text rest next console hp hput =>
    exact h.plain hp ⟨nofun, nofun, nofun⟩ .rfl rfl rfl rfl rfl
  | sent rest next hp => exact h.plain hp ⟨nofun, nofun, nofun⟩ .rfl rfl rfl rfl rfl
  | busy ch text rest next hp hput => exact h
  | send ch text rest next com1 hp hput =>
    exact h.plain hp ⟨nofun, nofun, nofun⟩ .rfl rfl rfl rfl rfl
  | hlt hp =>
    refine ⟨h.arrived, h.ticks, fun hnot _ => h.looked hnot (hp ▸ trivial), fun hticks _ => ?_,
      fun hparked => ⟨trivial, (h.parked hparked).2⟩,
      fun hhlt => ⟨Or.inr rfl, (h.halted hhlt).2⟩⟩
    exact h.checked hticks (hp ▸ nofun)
  | asleep hp => exact h
  | due hp hdue =>
    have hsame : pitTicks t.devices.timer - pitTicks t.devices.timer < 100 := by
      rw [UInt64.sub_self]
      decide
    exact h.move rfl rfl nofun (Or.inr hsame) (hp ▸ False.elim) (hp ▸ nofun) (hp ▸ nofun)
  | notDue hp hdue =>
    exact h.move rfl rfl False.elim (Or.inr (UInt64.not_le.mp hdue)) (hp ▸ False.elim)
      (hp ▸ nofun) (hp ▸ nofun)
  | poll hp =>
    refine h.move rfl rfl (fun hparked => Or.inl ?_) (Or.inl ⟨hp ▸ nofun, rfl⟩)
      (hp ▸ False.elim) (hp ▸ nofun) (hp ▸ nofun)
    by_contra hne
    dsimp only at hparked
    rw [if_pos (ht.hasKey_iff.mpr hne)] at hparked
    exact hparked
  | empty hp hempty => exact h.plain hp ⟨nofun, nofun, nofun⟩ .rfl rfl rfl rfl rfl
  | compare hp hempty => exact h.plain hp ⟨nofun, nofun, nofun⟩ .rfl rfl rfl rfl rfl
  | read hp => exact h.plain hp ⟨nofun, nofun, nofun⟩ .rfl rfl rfl rfl rfl
  | store c hp =>
    exact h.move rfl rfl False.elim (Or.inl ⟨hp ▸ nofun, rfl⟩) (hp ▸ False.elim) (hp ▸ nofun)
      (hp ▸ nofun)
  | putchar c console hp hput =>
    exact h.plain hp ⟨nofun, nofun, nofun⟩ (iff_of_false nofun id) rfl rfl rfl rfl

theorem Undisturbed.step {u : Kernel} (h : s.Undisturbed t) (ht : t.Sane b m) {e : KernelEvent}
    (he : e.Own) (hstep : KernelStep t e u) : s.Undisturbed u := by
  rcases hstep.own_cases he with ⟨_, hcase⟩ | ⟨_, rfl⟩
  · exact h.main ht hcase
  · exact ⟨h.arrived, h.ticks, h.looked, h.checked, h.parked, h.halted⟩

theorem exists_run {c₀ : Console} (hc₀ : Resting c₀) (hphase : s.Phase b m) (h : Printed c₀ s)
    {events : List KernelEvent} (hown : ∀ e ∈ events, e.Own) :
    ∃ t, Steps KernelStep s events t := by
  induction events generalizing s with
  | nil => exact ⟨s, .nil s⟩
  | cons e events ih =>
    rw [List.forall_mem_cons] at hown
    have hnext : ∃ u, KernelStep s e u := by
      cases e with
      | main l => exact (main_total l (h.resting hc₀)).imp fun u hu => .main l hu
      | shift => exact ⟨_, .shift s⟩
      | irq source code cpu => exact hown.1.elim
    obtain ⟨u, hu⟩ := hnext
    have hcase := hphase.step_cases hu
    obtain ⟨t, ht⟩ := ih (hphase.step hcase) (step_printed hphase h hcase) hown.2
    exact ⟨t, .cons hu ht⟩

end Kernel

/-- From every state that a run reaches, any schedule of `kmain` and the serial line without
interrupts can be run, and after enough rounds of it `kmain` sleeps and nothing is on its way out
at the port. The ring is then empty and every key that arrived is echoed, unless there was no look
at the ring ahead of `kmain` before its next `hlt`: then the ring is left as it was and no key is
echoed. After an interrupt that ended a sleep the last uptime is less than a second old. -/
theorem kmain_drains (b : BootStats) (m : Machine) :
    ∃ s₀, kmainEntry b m = some s₀ ∧ ∀ events s, Steps KernelStep s₀ events s →
      (∀ quiet : List KernelEvent, (∀ e ∈ quiet, e.Own) → ∃ t, Steps KernelStep s quiet t) ∧
      ∃ n, ∀ quiet t, Rounds (fun es => .shift ∈ es ∧ ∃ l, .main l ∈ es) n quiet →
        (∀ e ∈ quiet, e.Own) → Steps KernelStep s quiet t →
          t.point = .asleep ∧ (∀ u, t.com1 = some u → u.tx.queue = []) ∧
          (¬s.point.Parked → queued t.devices.kbd = [] ∧ t.echoed = s.trace.arrived) ∧
          (s.point.Parked → t.devices.kbd = s.devices.kbd ∧ t.echoed = s.echoed) ∧
          (s.point = .hlt → t.devices = s.devices ∧ t.trace = s.trace) ∧
          (s.point = .ticks → pitTicks t.devices.timer - t.lastUptime < 100) := by
  obtain ⟨s₀, hentry, hs₀⟩ := kmainEntry_some b m
  refine ⟨s₀, hentry, fun events s hsteps => ?_⟩
  obtain ⟨hphase, ⟨hechoes, hserial⟩, hprint⟩ := kmain_invariant
    (I := fun s => (s.Echoes ∧ s.Serial) ∧ s.Printed s₀.console) hs₀.starting
    ⟨⟨hs₀.echoes, hs₀.serial⟩, hs₀.printed⟩ (fun s t hphase h hcase =>
      ⟨⟨h.1.1.step hphase hcase, Kernel.step_serial hphase h.1.2 hcase⟩,
        Kernel.step_printed hphase h.2 hcase⟩) hsteps
  have hsane : s.Sane b m := ⟨hphase, hechoes, hserial⟩
  refine ⟨fun quiet hown => Kernel.exists_run hs₀.resting hphase hprint hown, s.work + 1,
    fun quiet t hrounds hown hquiet => ?_⟩
  have hdrained : t.Drained := by
    refine (Kernel.progress b m).done_of_rounds ?_ hrounds hquiet hsane hown (Nat.lt_succ_self _)
    rintro s es _ ⟨hshift, l, hmain⟩ _
    by_cases hqueue : s.com1.queueLength = 0
    · exact ⟨_, hmain, hqueue⟩
    · exact ⟨_, hshift, hqueue⟩
  obtain ⟨htsane, hsettled⟩ : t.Sane b m ∧ s.Undisturbed t := by
    refine hquiet.invariant_of_labels (I := fun t => t.Sane b m ∧ s.Undisturbed t)
      (fun u e v hu he hstep => ?_) ⟨hsane, .refl s⟩ hown
    exact ⟨hu.1.step (hu.1.phase.step_cases hstep), hu.2.step hu.1 he hstep⟩
  obtain ⟨hasleep, hqueue⟩ := hdrained
  refine ⟨hasleep, fun u hu => ?_, fun hnot => ?_, fun hp => ?_, fun hp => (hsettled.halted hp).2,
    fun hp => hsettled.checked hp (hasleep ▸ nofun)⟩
  · rw [hu] at hqueue
    exact List.length_eq_zero_iff.mp hqueue
  · have hempty := hsettled.looked hnot (hasleep ▸ trivial)
    have hall := htsane.echoes.fifo
    rw [hempty, hasleep, hsettled.arrived, List.append_nil] at hall
    exact ⟨hempty, (List.append_nil _).symm.trans hall⟩
  · obtain ⟨hparked, hkbd⟩ := hsettled.parked hp
    have hbefore := hechoes.fifo
    have hafter := htsane.echoes.fifo
    rw [hp.inflight, List.append_nil] at hbefore
    rw [hparked.inflight, List.append_nil, hkbd, hsettled.arrived, ← hbefore] at hafter
    exact ⟨hkbd, List.append_cancel_right hafter⟩

end Nadir
