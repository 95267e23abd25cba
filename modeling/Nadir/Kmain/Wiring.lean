import Nadir.Kmain.Steps
import Nadir.Lib.Transition

/-!
# Interrupts find the drivers in place

Up to `sti` the devices are in the state that the statements so far have put them in, and no
interrupt has come. From then on the controllers and the handler table stay as they are: only the
lines of the timer and the keyboard get through, to the handlers of their drivers.
-/

namespace Nadir

open Amd64 Transition

def Machine.devices (m : Machine) : Devices :=
  ⟨⟨fun _ => none, m.pics, []⟩, ⟨0, 0, m.pit⟩, ⟨Vector.replicate 128 0, 0, 0, 0, 0, 0⟩⟩

namespace Point

def rest : Point → List Statement
  | .exec rest _ => rest
  | .print _ rest _ => rest
  | .send _ rest _ => rest
  | _ => []

theorem rest_wake (p : Point) : p.wake.rest = p.rest := by
  cases p <;> rfl

theorem rest_afterAll (next : Next) : (afterAll next).rest = [] := by
  cases next <;> rfl

end Point

def Statement.Quiet : Statement → Prop
  | .klog _ => True
  | .serialPuts _ => True
  | _ => False

def Output.key? : Output → Option UInt8
  | .key c => some c
  | _ => none

/-- Before `sti`. -/
structure Kernel.Starting (b : BootStats) (m : Machine) (s : Kernel) : Prop where
  off : s.interrupts = false
  sti : .sti ∈ s.point.rest
  done : ∃ done, kmainStart b = done ++ s.point.rest ∧
    s.devices = done.foldl Statement.drive m.devices
  history : s.trace.history = []
  arrived : s.trace.arrived = []
  taken : s.trace.taken = []
  ticks : s.trace.ticks = 0

/-- From `sti` on. -/
structure Kernel.Running (s : Kernel) : Prop where
  on : s.interrupts = true
  quiet : ∀ st ∈ s.point.rest, st.Quiet
  wired : s.devices.Wired
  timer : s.devices.timer = ⟨UInt64.ofNat s.trace.ticks, 1, pitProgrammed⟩

def Kernel.Phase (b : BootStats) (m : Machine) (s : Kernel) : Prop :=
  s.Starting b m ∨ s.Running

theorem kmainDisabled_drive (b : BootStats) (m : Machine) :
    ((kmainDisabled b).foldl Statement.drive m.devices).Wired ∧
      ((kmainDisabled b).foldl Statement.drive m.devices).timer = ⟨0, 1, pitProgrammed⟩ ∧
      ((kmainDisabled b).foldl Statement.drive m.devices).kbd =
        keyboardInit (Vector.replicate 128 0) := by
  have htimer : pitInit Handler.pitOnTick ⟨0, 0, m.pit⟩ ⟨fun _ => none, picRemap m.pics, []⟩ =
      (⟨0, 1, pitProgrammed⟩, irqRegisterHandler pitIrq (some .pitOnTick)
        ⟨fun _ => none, picRemap m.pics, []⟩) := pitInit_zero _ rfl _
  have hpics : picUnmask 1 (picUnmask 0 (picUnmask 1 (picRemap m.pics))) = kmainPics := by
    rw [picRemap_eq]
    decide
  have hdrive : (kmainDisabled b).foldl Statement.drive m.devices =
      ⟨⟨Function.update (Function.update (fun _ => none) 0 (some .pitOnTick)) 1
          (some .keyboardOnIrq), kmainPics, []⟩, ⟨0, 1, pitProgrammed⟩,
        keyboardInit (Vector.replicate 128 0)⟩ := by
    simp only [kmainDisabled, List.foldl_cons, List.foldl_nil, Statement.drive, Machine.devices,
      htimer]
    rw [← hpics]
    rfl
  have hhandlers : ∀ i < 16, Function.update (Function.update (fun _ => none) 0
      (some Handler.pitOnTick)) 1 (some .keyboardOnIrq) i = kmainHandlers i := by decide
  rw [hdrive]
  exact ⟨⟨rfl, hhandlers⟩, rfl, rfl⟩

theorem sti_notMem_kmainDisabled (b : BootStats) : .sti ∉ kmainDisabled b := by
  simp [kmainDisabled]

theorem quiet_kmainEnabled : ∀ st ∈ kmainEnabled, st.Quiet := by
  simp [kmainEnabled, Statement.Quiet]

theorem quiet_uptimeReport (now : UInt64) : ∀ st ∈ uptimeReport now, st.Quiet := by
  simp [uptimeReport, Statement.Quiet]

theorem kmainStart_split {b : BootStats} {done rest : List Statement}
    (h : kmainStart b = done ++ .sti :: rest) : done = kmainDisabled b ∧ rest = kmainEnabled := by
  have henabled : Statement.sti ∉ kmainEnabled := fun hmem => quiet_kmainEnabled _ hmem
  obtain ⟨hdone, _, hrest⟩ :=
    (List.append_cons_inj_of_notMem (sti_notMem_kmainDisabled b) henabled).mp h
  exact ⟨hdone.symm, hrest.symm⟩

namespace Kernel

variable {b : BootStats} {m : Machine} {s t : Kernel}

theorem Starting.advance (h : s.Starting b m) {st : Statement} {rest : List Statement}
    {next : Next} (hp : s.point = .exec (st :: rest) next) (hsti : st ≠ .sti)
    (hoff : t.interrupts = false) (hrest : t.point.rest = rest)
    (hdevices : t.devices = st.drive s.devices) (hhistory : t.trace.history = s.trace.history)
    (harrived : t.trace.arrived = s.trace.arrived) (htaken : t.trace.taken = s.trace.taken)
    (hticks : t.trace.ticks = s.trace.ticks) : t.Starting b m := by
  obtain ⟨done, hsplit, hdone⟩ := h.done
  have hmem := h.sti
  rw [hp] at hsplit hmem
  refine ⟨hoff, ?_, ⟨done ++ [st], ?_, ?_⟩, hhistory.trans h.history, harrived.trans h.arrived,
    htaken.trans h.taken, hticks.trans h.ticks⟩
  · rw [hrest]
    exact (List.mem_cons.mp hmem).resolve_left (Ne.symm hsti)
  · rw [hrest, List.append_assoc]
    exact hsplit
  · rw [hdevices, hdone, List.foldl_append]
    rfl

theorem Starting.stay (h : s.Starting b m) (hoff : t.interrupts = false)
    (hrest : t.point.rest = s.point.rest) (hdevices : t.devices = s.devices)
    (hhistory : t.trace.history = s.trace.history)
    (harrived : t.trace.arrived = s.trace.arrived) (htaken : t.trace.taken = s.trace.taken)
    (hticks : t.trace.ticks = s.trace.ticks) : t.Starting b m :=
  ⟨hoff, hrest ▸ h.sti, hrest.symm ▸ hdevices ▸ h.done, hhistory.trans h.history,
    harrived.trans h.arrived, htaken.trans h.taken, hticks.trans h.ticks⟩

theorem Starting.enable (h : s.Starting b m) {rest : List Statement} {next : Next}
    (hp : s.point = .exec (.sti :: rest) next) :
    Running { s with interrupts := true, point := .exec rest next } := by
  obtain ⟨done, hsplit, hdone⟩ := h.done
  rw [hp] at hsplit
  obtain ⟨hbefore, hbehind⟩ := kmainStart_split hsplit
  obtain ⟨hwired, htimer, _⟩ := kmainDisabled_drive b m
  rw [← hbefore, ← hdone] at hwired htimer
  refine ⟨rfl, ?_, hwired, ?_⟩
  · rw [hbehind]
    exact quiet_kmainEnabled
  · dsimp only
    rw [htimer, h.ticks]
    rfl

theorem Starting.main (h : s.Starting b m) (hcase : MainCase s t) : t.Phase b m := by
  have hsti := h.sti
  have hnone : s.point.rest ≠ [] := fun hrest => by
    rw [hrest] at hsti
    cases hsti
  cases hcase with
  | done next hp => exact absurd (congrArg Point.rest hp) hnone
  | drive st rest next hp hst =>
    have hne : st ≠ .sti := fun heq => by
      rw [heq] at hst
      exact hst
    exact Or.inl (h.advance hp hne h.off rfl rfl rfl rfl rfl rfl)
  | serialInit rest next hp =>
    exact Or.inl (h.advance hp nofun h.off rfl rfl rfl rfl rfl rfl)
  | sti rest next hp => exact Or.inr (h.enable hp)
  | klog line rest next hp =>
    exact Or.inl (h.advance hp nofun h.off rfl rfl rfl rfl rfl rfl)
  | report text rest next hp hpresent =>
    exact Or.inl (h.advance hp nofun h.off rfl rfl rfl rfl rfl rfl)
  | noReport text rest next hp hpresent =>
    exact Or.inl (h.advance hp nofun h.off rfl rfl rfl rfl rfl rfl)
  | printed rest next hp =>
    exact Or.inl (h.stay h.off (congrArg Point.rest hp).symm rfl rfl rfl rfl rfl)
  | print ch text rest next console hp hput =>
    exact Or.inl (h.stay h.off (congrArg Point.rest hp).symm rfl rfl rfl rfl rfl)
  | sent rest next hp =>
    exact Or.inl (h.stay h.off (congrArg Point.rest hp).symm rfl rfl rfl rfl rfl)
  | busy ch text rest next hp hput => exact Or.inl h
  | send ch text rest next com1 hp hput =>
    exact Or.inl (h.stay h.off (congrArg Point.rest hp).symm rfl rfl rfl rfl rfl)
  | hlt hp => exact absurd (congrArg Point.rest hp) hnone
  | asleep hp => exact absurd (congrArg Point.rest hp) hnone
  | due hp hdue => exact absurd (congrArg Point.rest hp) hnone
  | notDue hp hdue => exact absurd (congrArg Point.rest hp) hnone
  | poll hp => exact absurd (congrArg Point.rest hp) hnone
  | empty hp hempty => exact absurd (congrArg Point.rest hp) hnone
  | compare hp hempty => exact absurd (congrArg Point.rest hp) hnone
  | read hp => exact absurd (congrArg Point.rest hp) hnone
  | store c hp => exact absurd (congrArg Point.rest hp) hnone
  | putchar c console hp hput => exact absurd (congrArg Point.rest hp) hnone

theorem Running.stay (h : s.Running) (hon : t.interrupts = true)
    (hquiet : ∀ st ∈ t.point.rest, st.Quiet) (hirq : t.devices.irq = s.devices.irq)
    (htimer : t.devices.timer = s.devices.timer) (hticks : t.trace.ticks = s.trace.ticks) :
    t.Running := by
  refine ⟨hon, hquiet, ⟨hirq ▸ h.wired.pics, hirq ▸ h.wired.handlers⟩, ?_⟩
  rw [htimer, hticks]
  exact h.timer

theorem Running.main (h : s.Running) (hcase : MainCase s t) : t.Running := by
  have hquiet := h.quiet
  -- no statement of the rest but one that puts something out
  have hnone : ∀ st ∈ ([] : List Statement), st.Quiet := fun _ hst => absurd hst List.not_mem_nil
  cases hcase with
  | done next hp => exact h.stay h.on (Point.rest_afterAll next ▸ hnone) rfl rfl rfl
  | drive st rest next hp hst =>
    rw [hp] at hquiet
    have hst' := hquiet st List.mem_cons_self
    cases st <;> first | exact hst.elim | exact hst'.elim
  | serialInit rest next hp =>
    rw [hp] at hquiet
    exact (hquiet _ List.mem_cons_self).elim
  | sti rest next hp =>
    rw [hp] at hquiet
    exact (hquiet _ List.mem_cons_self).elim
  | klog line rest next hp =>
    rw [hp] at hquiet
    exact h.stay h.on (fun st hst => hquiet st (List.mem_cons_of_mem _ hst)) rfl rfl rfl
  | report text rest next hp hpresent =>
    rw [hp] at hquiet
    exact h.stay h.on (fun st hst => hquiet st (List.mem_cons_of_mem _ hst)) rfl rfl rfl
  | noReport text rest next hp hpresent =>
    rw [hp] at hquiet
    exact h.stay h.on (fun st hst => hquiet st (List.mem_cons_of_mem _ hst)) rfl rfl rfl
  | printed rest next hp =>
    rw [hp] at hquiet
    exact h.stay h.on hquiet rfl rfl rfl
  | print ch text rest next console hp hput =>
    rw [hp] at hquiet
    exact h.stay h.on hquiet rfl rfl rfl
  | sent rest next hp =>
    rw [hp] at hquiet
    exact h.stay h.on hquiet rfl rfl rfl
  | busy ch text rest next hp hput => exact h
  | send ch text rest next com1 hp hput =>
    rw [hp] at hquiet
    exact h.stay h.on hquiet rfl rfl rfl
  | hlt hp => exact h.stay h.on hnone rfl rfl rfl
  | asleep hp => exact h
  | due hp hdue => exact h.stay h.on (quiet_uptimeReport _) rfl rfl rfl
  | notDue hp hdue => exact h.stay h.on hnone rfl rfl rfl
  | poll hp =>
    refine h.stay h.on ?_ rfl rfl rfl
    dsimp only
    split_ifs
    · exact hnone
    · exact hnone
  | empty hp hempty => exact h.stay h.on hnone rfl rfl rfl
  | compare hp hempty => exact h.stay h.on hnone rfl rfl rfl
  | read hp => exact h.stay h.on hnone rfl rfl rfl
  | store c hp => exact h.stay h.on hnone rfl rfl rfl
  | putchar c console hp hput => exact h.stay h.on hnone rfl rfl rfl

theorem Running.irq (h : s.Running) (hcase : IrqCase s t) : t.Running := by
  have hquiet := h.quiet
  rw [← Point.rest_wake] at hquiet
  cases hcase with
  | tick irq hpics hhandlers =>
    refine ⟨h.on, hquiet, ⟨hpics.trans h.wired.pics, hhandlers ▸ h.wired.handlers⟩, ?_⟩
    dsimp only [pitOnTick]
    rw [h.timer, UInt64.ofNat_add]
    rfl
  | key code irq hpics hhandlers =>
    exact ⟨h.on, hquiet, ⟨hpics.trans h.wired.pics, hhandlers ▸ h.wired.handlers⟩, h.timer⟩
  | spurious irq hpics hhandlers =>
    exact ⟨h.on, hquiet, ⟨hpics.trans h.wired.pics, hhandlers ▸ h.wired.handlers⟩, h.timer⟩

end Kernel

/-- What a step of the kernel can do in a state that it reaches. -/
inductive StepCase (s : Kernel) : Kernel → Prop
  | main {t : Kernel} (h : MainCase s t) : StepCase s t
  | irq {t : Kernel} (hrunning : s.Running) (h : IrqCase s t) : StepCase s t
  | shift : StepCase s s.shift

namespace Kernel

variable {b : BootStats} {m : Machine} {s t : Kernel}

theorem Phase.step_cases (h : s.Phase b m) {e : KernelEvent} (hstep : KernelStep s e t) :
    StepCase s t := by
  cases hstep with
  | main l hmain => exact .main (main_cases hmain)
  | shift => exact .shift
  | irq source code cpu hdeliver =>
    rcases h with hstart | hrun
    · exact absurd (hstart.off.symm.trans hdeliver.1) Bool.false_ne_true
    · exact .irq hrun (interrupt_cases hrun.wired code cpu hdeliver)

theorem Phase.step (h : s.Phase b m) (hcase : StepCase s t) : t.Phase b m := by
  cases hcase with
  | main hmain =>
    rcases h with hstart | hrun
    · exact hstart.main hmain
    · exact Or.inr (hrun.main hmain)
  | irq hrun hirq => exact Or.inr (hrun.irq hirq)
  | shift =>
    rcases h with hstart | hrun
    · exact Or.inl (hstart.stay hstart.off rfl rfl rfl rfl rfl rfl)
    · exact Or.inr (hrun.stay hrun.on hrun.quiet rfl rfl rfl)

end Kernel

/-- `kmain` behind `console_clear`. -/
structure Kernel.AtEntry (b : BootStats) (m : Machine) (s : Kernel) : Prop where
  starting : s.Starting b m
  cleared : consoleClear m.console = some s.console
  resting : Resting s.console
  point : s.point = .exec (kmainStart b) .hlt
  outputs : s.trace.outputs = []
  lastUptime : s.lastUptime = 0
  com1 : s.com1 = m.com1
  serialPresent : s.serialPresent = false

theorem kmainEntry_some (b : BootStats) (m : Machine) :
    ∃ s, kmainEntry b m = some s ∧ s.AtEntry b m := by
  obtain ⟨console, hclear, hresting⟩ := consoleClear_resting m.console
  rw [kmainEntry, hclear]
  refine ⟨_, rfl, ⟨rfl, ?_, ⟨[], rfl, rfl⟩, rfl, rfl, rfl, rfl⟩, hclear, hresting, rfl, rfl, rfl,
    rfl, rfl⟩
  exact List.mem_append_right _ List.mem_cons_self

theorem Statement.drive_timer (st : Statement) (d : Devices) :
    (st.drive d).timer.sTicks = d.timer.sTicks := by
  cases st with
  | pitInit =>
    change (Nadir.pitInit Handler.pitOnTick d.timer d.irq).1.sTicks = _
    rw [Nadir.pitInit]
    split_ifs <;> rfl
  | _ => rfl

theorem Statement.drive_kbd (st : Statement) {d : Devices} {buf : Vector UInt8 128}
    (h : d.kbd = Nadir.keyboardInit buf) : (st.drive d).kbd = Nadir.keyboardInit buf := by
  cases st with
  | keyboardInit =>
    change Nadir.keyboardInit d.kbd.kBuf = _
    rw [h]
    rfl
  | _ => exact h

theorem Kernel.Starting.untouched {b : BootStats} {m : Machine} {s : Kernel}
    (h : s.Starting b m) : pitTicks s.devices.timer = 0 ∧
      s.devices.kbd = Nadir.keyboardInit (Vector.replicate 128 0) := by
  obtain ⟨done, _, hdone⟩ := h.done
  rw [hdone]
  have hall : ∀ done : List Statement, ∀ d : Devices, d.timer.sTicks = 0 →
      d.kbd = Nadir.keyboardInit (Vector.replicate 128 0) →
      pitTicks (done.foldl Statement.drive d).timer = 0 ∧
        (done.foldl Statement.drive d).kbd = Nadir.keyboardInit (Vector.replicate 128 0) := by
    intro done
    induction done with
    | nil => exact fun d hticks hkbd => ⟨hticks, hkbd⟩
    | cons st done ih =>
      intro d hticks hkbd
      exact ih _ ((st.drive_timer d).trans hticks) (st.drive_kbd hkbd)
  exact hall done m.devices rfl rfl

theorem Kernel.Phase.ticks {b : BootStats} {m : Machine} {s : Kernel} (h : s.Phase b m) :
    pitTicks s.devices.timer = UInt64.ofNat s.trace.ticks := by
  rcases h with hstart | hrun
  · rw [hstart.untouched.1, hstart.ticks]
    rfl
  · rw [hrun.timer]
    rfl

/-- A property of the entry that every step keeps holds whenever `kmain` runs. -/
theorem kmain_invariant {b : BootStats} {m : Machine} {I : Kernel → Prop} {s₀ : Kernel}
    (hstart : s₀.Starting b m) (hentry : I s₀)
    (hI : ∀ s t, s.Phase b m → I s → StepCase s t → I t) {events : List KernelEvent} {s : Kernel}
    (h : Steps KernelStep s₀ events s) : s.Phase b m ∧ I s := by
  apply h.invariant (I := fun s => s.Phase b m ∧ I s) _ ⟨Or.inl hstart, hentry⟩
  intro s e t hs hstep
  have hcase := hs.1.step_cases hstep
  exact ⟨hs.1.step hcase, hI s t hs.1 hs.2 hcase⟩

/-- Whatever state the devices are in when `kmain` is called: from `sti` on, in every state of every
run, the controllers are idle and let only the lines of the timer and the keyboard through, the
table has the handlers of these two and no others, the timer runs in mode 3 with the divisor for
100 interrupts a second, and its counter is the number of its interrupts. Before `sti` none has
come. -/
theorem kmain_wires_devices (b : BootStats) (m : Machine) :
    ∃ s₀, kmainEntry b m = some s₀ ∧ ∀ events s, Steps KernelStep s₀ events s →
      pitTicks s.devices.timer = UInt64.ofNat s.trace.ticks ∧
      (s.interrupts = false → s.trace.ticks = 0 ∧ s.trace.history = []) ∧
      (s.interrupts = true → s.devices.irq.pics.Idle ∧
        (∀ i < 16, s.devices.irq.pics.Reaches i ↔ i = 0 ∨ i = 1) ∧
        (∀ i < 16, s.devices.irq.irqHandlers i =
          if i = 0 then some .pitOnTick else if i = 1 then some .keyboardOnIrq else none) ∧
        s.devices.timer.pit.mode = 3 ∧ s.devices.timer.pit.reload = 1193182 / 100) := by
  obtain ⟨s₀, hentry, hs₀⟩ := kmainEntry_some b m
  refine ⟨s₀, hentry, fun events s hsteps => ?_⟩
  obtain ⟨hphase, _⟩ := kmain_invariant (I := fun _ => True) hs₀.starting trivial
    (fun _ _ _ _ _ => trivial) hsteps
  refine ⟨hphase.ticks, fun hoff => ?_, fun hon => ?_⟩
  · rcases hphase with hstart | hrun
    · exact ⟨hstart.ticks, hstart.history⟩
    · exact absurd (hoff.symm.trans hrun.on) Bool.false_ne_true
  · rcases hphase with hstart | hrun
    · exact absurd (hstart.off.symm.trans hon) Bool.false_ne_true
    · rw [hrun.wired.pics, hrun.timer]
      exact ⟨kmainPics_remapped.idle, fun i hi => kmainPics_reaches hi, hrun.wired.handlers,
        pitProgrammed_mode, pitProgrammed_reload⟩

end Nadir
