import Nadir.Kmain.Basic

/-!
# What a step of the kernel can do

Each step of `kmain` is one of a list of cases, and so is each interrupt once the controllers and
the handlers are those that `kmain` sets up: a tick, a scancode, or nothing but an acknowledgement.
-/

namespace Nadir

open Amd64

/-- The statement programs the controllers, the timer or the keyboard. -/
def Statement.Drives : Statement → Prop
  | .picRemap => True
  | .pitInit => True
  | .keyboardInit => True
  | .picUnmask _ => True
  | _ => False

def Kernel.logLine (s : Kernel) (line : Line) : LogLine :=
  ⟨pitTicks s.devices.timer, line.subsystem, line.parts⟩

inductive MainCase (s : Kernel) : Kernel → Prop
  | done (next : Next) (hp : s.point = .exec [] next) :
      MainCase s { s with point := .afterAll next }
  | drive (st : Statement) (rest : List Statement) (next : Next)
      (hp : s.point = .exec (st :: rest) next) (hst : st.Drives) :
      MainCase s { s with devices := st.drive s.devices, point := .exec rest next }
  | serialInit (rest : List Statement) (next : Next)
      (hp : s.point = .exec (.serialInit :: rest) next) :
      MainCase s { s with
        com1 := Nadir.serialInit s.com1
        serialPresent := serialOk (Nadir.serialInit s.com1)
        point := .exec rest next
        trace := { s.trace with lineBase := (Nadir.serialInit s.com1).elim [] fun u => u.tx.wire } }
  | sti (rest : List Statement) (next : Next) (hp : s.point = .exec (.sti :: rest) next) :
      MainCase s { s with interrupts := true, point := .exec rest next }
  | klog (line : Line) (rest : List Statement) (next : Next)
      (hp : s.point = .exec (.klog line :: rest) next) :
      MainCase s { s with
        point := .print (s.logLine line).text rest next
        trace := { s.trace with outputs := s.trace.outputs ++ [.line line s.trace.ticks] } }
  | report (text : List Int8) (rest : List Statement) (next : Next)
      (hp : s.point = .exec (.serialPuts text :: rest) next) (hpresent : s.serialPresent = true) :
      MainCase s { s with
        point := .send (cString text) rest next
        trace := { s.trace with outputs := s.trace.outputs ++ [.report text] } }
  | noReport (text : List Int8) (rest : List Statement) (next : Next)
      (hp : s.point = .exec (.serialPuts text :: rest) next) (hpresent : s.serialPresent = false) :
      MainCase s { s with point := .exec rest next }
  | printed (rest : List Statement) (next : Next) (hp : s.point = .print [] rest next) :
      MainCase s { s with point := .exec rest next }
  | print (ch : Int8) (text : List Int8) (rest : List Statement) (next : Next) (console : Console)
      (hp : s.point = .print (ch :: text) rest next)
      (hput : consolePutchar ch s.console = some console) :
      MainCase s { s with console := console, point := .print text rest next }
  | sent (rest : List Statement) (next : Next) (hp : s.point = .send [] rest next) :
      MainCase s { s with point := .exec rest next }
  | busy (ch : Int8) (text : List Int8) (rest : List Statement) (next : Next)
      (hp : s.point = .send (ch :: text) rest next) (hput : serialPutchar ch s.com1 = none) :
      MainCase s s
  | send (ch : Int8) (text : List Int8) (rest : List Statement) (next : Next) (com1 : Com1)
      (hp : s.point = .send (ch :: text) rest next)
      (hput : serialPutchar ch s.com1 = some com1) :
      MainCase s { s with com1 := com1, point := .send text rest next }
  | hlt (hp : s.point = .hlt) : MainCase s { s with point := .asleep }
  | asleep (hp : s.point = .asleep) : MainCase s s
  | due (hp : s.point = .ticks) (hdue : pitTicks s.devices.timer - s.lastUptime ≥ 100) :
      MainCase s { s with
        lastUptime := pitTicks s.devices.timer
        point := .exec (uptimeReport (pitTicks s.devices.timer)) .poll }
  | notDue (hp : s.point = .ticks) (hdue : ¬pitTicks s.devices.timer - s.lastUptime ≥ 100) :
      MainCase s { s with point := .poll }
  | poll (hp : s.point = .poll) :
      MainCase s { s with
        point := if keyboardHasKey s.devices.kbd then .compare else .hlt }
  | empty (hp : s.point = .compare) (hempty : dequeueEmpty s.devices.kbd = true) :
      MainCase s { s with point := .putchar 0 }
  | compare (hp : s.point = .compare) (hempty : dequeueEmpty s.devices.kbd = false) :
      MainCase s { s with point := .read }
  | read (hp : s.point = .read) :
      MainCase s { s with point := .store (dequeueRead s.devices.kbd) }
  | store (c : UInt8) (hp : s.point = .store c) :
      MainCase s { s with
        devices := { s.devices with kbd := dequeueStore s.devices.kbd }
        point := .putchar c
        trace := { s.trace with taken := s.trace.taken ++ [c] } }
  | putchar (c : UInt8) (console : Console) (hp : s.point = .putchar c)
      (hput : consolePutchar c.toInt8 s.console = some console) :
      MainCase s { s with
        console := console
        point := .send (serialEcho c.toInt8 s.serialPresent) [] .poll
        trace := { s.trace with outputs := s.trace.outputs ++ [.key c] } }

theorem Kernel.klogLine_eq (l : Locals) (s : Kernel) (line : Line) :
    klogLine l (pitTicks s.devices.timer) line.subsystem line.parts =
      some (s.logLine line).text := (s.logLine line).print_eq l

theorem Kernel.exec_cases {l : Locals} {s t : Kernel} {st : Statement} {rest : List Statement}
    {next : Next} (hp : s.point = .exec (st :: rest) next)
    (h : s.exec l st rest next = some t) : MainCase s t := by
  cases st with
  | klog line =>
    rw [Kernel.exec, s.klogLine_eq, Option.map_some, Option.some_inj] at h
    subst h
    exact .klog line rest next hp
  | serialPuts text =>
    rw [Kernel.exec, Option.some_inj] at h
    subst h
    split_ifs with hpresent
    · exact .report text rest next hp hpresent
    · exact .noReport text rest next hp (Bool.eq_false_of_not_eq_true hpresent)
  | serialInit =>
    cases h
    exact .serialInit rest next hp
  | sti =>
    cases h
    exact .sti rest next hp
  | picRemap =>
    cases h
    exact .drive .picRemap rest next hp trivial
  | pitInit =>
    cases h
    exact .drive .pitInit rest next hp trivial
  | keyboardInit =>
    cases h
    exact .drive .keyboardInit rest next hp trivial
  | picUnmask irq =>
    cases h
    exact .drive (.picUnmask irq) rest next hp trivial

theorem Kernel.main_cases {l : Locals} {s t : Kernel} (h : s.main l = some t) : MainCase s t := by
  rw [Kernel.main] at h
  cases hp : s.point with
  | exec rest next =>
    rw [hp] at h
    cases rest with
    | nil =>
      cases h
      exact .done next hp
    | cons st rest => exact s.exec_cases hp h
  | print text rest next =>
    rw [hp] at h
    cases text with
    | nil =>
      cases h
      exact .printed rest next hp
    | cons ch text =>
      obtain ⟨console, hput, rfl⟩ := Option.map_eq_some_iff.mp h
      exact .print ch text rest next console hp hput
  | send text rest next =>
    rw [hp] at h
    cases text with
    | nil =>
      cases h
      exact .sent rest next hp
    | cons ch text =>
      dsimp only at h
      rw [Option.some_inj] at h
      subst h
      cases hput : serialPutchar ch s.com1 with
      | none => exact .busy ch text rest next hp hput
      | some com1 => exact .send ch text rest next com1 hp hput
  | hlt =>
    rw [hp] at h
    cases h
    exact .hlt hp
  | asleep =>
    rw [hp] at h
    cases h
    exact .asleep hp
  | ticks =>
    rw [hp] at h
    dsimp only at h
    rw [Option.some_inj] at h
    subst h
    split_ifs with hdue
    · exact .due hp hdue
    · exact .notDue hp hdue
  | poll =>
    rw [hp] at h
    cases h
    exact .poll hp
  | compare =>
    rw [hp] at h
    cases h
    cases hempty : dequeueEmpty s.devices.kbd with
    | true => exact .empty hp hempty
    | false => exact .compare hp hempty
  | read =>
    rw [hp] at h
    cases h
    exact .read hp
  | store c =>
    rw [hp] at h
    cases h
    exact .store c hp
  | putchar c =>
    rw [hp] at h
    obtain ⟨console, hput, rfl⟩ := Option.map_eq_some_iff.mp h
    exact .putchar c console hp hput

/-- The controllers once `kmain` has unmasked the lines of the timer and the keyboard. -/
def kmainPics : Pics :=
  ⟨⟨.ready, 0x11, 0x20, 0x04, 0x01, 0xFC, 0⟩, ⟨.ready, 0x11, 0x28, 0x02, 0x01, 0xFF, 0⟩⟩

/-- The handlers once the timer and the keyboard have registered theirs. -/
def kmainHandlers (i : ℕ) : Option Handler :=
  if i = 0 then some .pitOnTick else if i = 1 then some .keyboardOnIrq else none

/-- The controllers and the handlers are those that `kmain` sets up. -/
structure Devices.Wired (d : Devices) : Prop where
  pics : d.irq.pics = kmainPics
  handlers : ∀ i < 16, d.irq.irqHandlers i = kmainHandlers i

theorem kmainPics_remapped : kmainPics.Remapped := ⟨⟨rfl, rfl⟩, rfl, rfl⟩

theorem kmainPics_reaches {i : ℕ} (hi : i < 16) : kmainPics.Reaches i ↔ i = 0 ∨ i = 1 := by
  have hmasked : ∀ i < 16, kmainPics.masked i = !decide (i = 0 ∨ i = 1) := by decide
  rw [Pics.Reaches, hmasked i hi, hmasked 2 (by omega)]
  simp
  omega

/-- What an interrupt can do besides the entries of the log. -/
inductive IrqCase (s : Kernel) : Kernel → Prop
  | tick (irq : IrqState Handler) (hpics : irq.pics = s.devices.irq.pics)
      (hhandlers : irq.irqHandlers = s.devices.irq.irqHandlers) :
      IrqCase s { s with
        devices := { s.devices with irq := irq, timer := pitOnTick s.devices.timer }
        point := s.point.wake
        trace := { s.trace with ticks := s.trace.ticks + 1 } }
  | key (code : UInt8) (irq : IrqState Handler) (hpics : irq.pics = s.devices.irq.pics)
      (hhandlers : irq.irqHandlers = s.devices.irq.irqHandlers) :
      IrqCase s { s with
        devices := { s.devices with irq := irq, kbd := keyboardOnIrq code s.devices.kbd }
        point := s.point.wake
        trace := { s.trace with
          history := s.trace.history ++ [code]
          arrived := s.trace.arrived ++
            if queuedCount s.devices.kbd < 127 then (translate s.trace.history code).toList
            else [] } }
  | spurious (irq : IrqState Handler) (hpics : irq.pics = s.devices.irq.pics)
      (hhandlers : irq.irqHandlers = s.devices.irq.irqHandlers) :
      IrqCase s { s with
        devices := { s.devices with irq := irq }
        point := s.point.wake }

theorem IrqSource.deliverable_cases {s : Kernel} (hwired : s.devices.Wired) {source : IrqSource}
    (h : s.Deliverable source) :
    source.number = 0 ∨ source.number = 1 ∨ source.number = 7 ∨ source.number = 15 := by
  cases source with
  | line i =>
    have hreach := h.2 i rfl
    rw [hwired.pics, kmainPics_reaches i.isLt] at hreach
    change i.val = 0 ∨ i.val = 1 ∨ i.val = 7 ∨ i.val = 15
    omega
  | spurious7 => exact Or.inr (Or.inr (Or.inl rfl))
  | spurious15 => exact Or.inr (Or.inr (Or.inr rfl))

theorem Kernel.interrupt_cases {s : Kernel} (hwired : s.devices.Wired) {source : IrqSource}
    (code : UInt8) (cpu : Cpu) (h : s.Deliverable source) :
    IrqCase s (s.interrupt source code cpu) := by
  have hremapped : s.devices.irq.pics.Remapped := hwired.pics ▸ kmainPics_remapped
  have hexec := @IrqEvent.exec_interrupt Handler { s.devices.irq with log := [] } hremapped
    source cpu
  dsimp only at hexec
  have hhandler := hwired.handlers source.number source.number_lt
  rw [hhandler] at hexec
  rw [Kernel.interrupt, hexec]
  rcases IrqSource.deliverable_cases hwired h with hnum | hnum | hnum | hnum
  · rw [hnum]
    exact .tick _ rfl rfl
  · rw [hnum]
    exact .key code _ rfl rfl
  · rw [hnum]
    exact .spurious _ rfl rfl
  · rw [hnum]
    exact .spurious _ rfl rfl

end Nadir
