import Nadir.Console.Invariant
import Nadir.Keyboard.Fifo
import Nadir.Klog.Lines
import Nadir.Pic.Masks
import Nadir.Pit.Basic
import Nadir.Serial.Basic

/-!
# The kernel's main program

`kmain` programs the devices, logs what it does, enables interrupts and ends in a loop that halts,
prints the uptime and echoes the keys. An interrupt runs whole, but between any two steps of the
program once interrupts are enabled, and the serial line takes its next byte at any time. A step
that leaves an array or the screen has no result.
-/

namespace Nadir

open Amd64

inductive Handler where
  | pitOnTick
  | keyboardOnIrq
  deriving DecidableEq, Repr

/-- A line that `kmain` logs: one of its start, or the uptime. -/
inductive Line where
  | start (subsystem : List Int8) (parts : List LogPart)
  | uptime (now : UInt64)

namespace Line

def subsystem : Line → List Int8
  | .start subsystem _ => subsystem
  | .uptime _ => ascii "nadir".toList

def parts : Line → List LogPart
  | .start _ parts => parts
  | .uptime now =>
    let secs := now / 100
    let tenths := now / 10 % 10
    [.str (ascii "uptime ".toList), .dec secs, .str (ascii ".".toList), .dec tenths,
      .str (ascii "s (ticks ".toList), .hex64 now, .str (ascii ")".toList)]

def message (subsystem msg : String) : Line :=
  .start (ascii subsystem.toList) [.str (ascii msg.toList)]

end Line

/-- The statements of `kmain`, but for the gates of the descriptor table, the allocators and the
heap's self-test. `serialInit` also asks `serial_ok`, and `serialPuts` is what stands behind
`if (serial_present != 0)`. -/
inductive Statement where
  | picRemap
  | serialInit
  | pitInit
  | keyboardInit
  | picUnmask (irq : UInt8)
  | sti
  | klog (line : Line)
  | serialPuts (s : List Int8)

/-- The numbers that the lines on the two allocators report. -/
structure BootStats where
  memmapCount : UInt32
  usable : UInt64
  total : UInt64
  free : UInt64
  selfTest : Bool
  heapFree : UInt64
  heapUsed : UInt64

namespace BootStats

def pmmLine (b : BootStats) : Line :=
  .start (ascii "pmm".toList)
    [.str (ascii "E820 entries ".toList), .dec b.memmapCount.toUInt64,
      .str (ascii ", usable frames ".toList), .dec b.usable,
      .str (ascii " / total frames ".toList), .dec b.total,
      .str (ascii ", free frames ".toList), .dec b.free,
      .str (ascii ", reserved ".toList), .dec (b.usable - b.free)]

def kmallocLine (b : BootStats) : Line :=
  .start (ascii "kmalloc".toList)
    [.str (ascii "self-test ".toList),
      .str (ascii (if b.selfTest then "ok" else "FAILED").toList),
      .str (ascii ", free frames ".toList), .dec b.heapFree,
      .str (ascii ", used frames ".toList), .dec b.heapUsed]

end BootStats

def proofValue : UInt64 := 0x0123456789ABCDEF

/-- `kmain` before `sti`, with interrupts disabled. -/
def kmainDisabled (b : BootStats) : List Statement := [
  .klog (.message "nadir" "Hello World from Nadir kernel (64-bit long mode, Ring 0)"),
  .klog (.message "idt" "exceptions 0-31 installed"),
  .picRemap,
  .klog (.message "pic" "remapped IRQ 0-15 to vectors 32-47"),
  .klog (.message "idt" "IRQ gates 32-47 installed"),
  .serialInit,
  .klog (.message "serial" "COM1 38400 8N1 ready"),
  .serialPuts (ascii "Hello World from Nadir kernel\n".toList),
  .pitInit,
  .klog (.message "pit" "100Hz on IRQ0"),
  .serialPuts (ascii "pit: 100Hz on IRQ0\n".toList),
  .keyboardInit,
  .klog (.message "keyboard" "PS/2 ready on IRQ1"),
  .serialPuts (ascii "keyboard: PS/2 ready on IRQ1\n".toList),
  .klog b.pmmLine,
  .klog b.kmallocLine,
  .picUnmask 0,
  .picUnmask 1]

/-- `kmain` from behind `sti` to its loop. -/
def kmainEnabled : List Statement := [
  .klog (.message "nadir" "interrupts enabled (IRQs 0-1)"),
  .serialPuts (ascii "nadir: interrupts enabled (IRQs 0-1)\n".toList),
  .klog (.start (ascii "nadir".toList)
    [.str (ascii "64-bit proof value: ".toList), .hex64 proofValue]),
  .klog (.message "nadir" "halting in hlt loop (timer + keyboard live)")]

def kmainStart (b : BootStats) : List Statement := kmainDisabled b ++ .sti :: kmainEnabled

/-- The body of the branch of the loop that prints the uptime. -/
def uptimeReport (now : UInt64) : List Statement :=
  [.klog (.uptime now), .serialPuts (ascii "uptime (see VGA for value)\n".toList)]

structure Devices where
  irq : IrqState Handler
  timer : Timer
  kbd : Keyboard

def Statement.drive (d : Devices) : Statement → Devices
  | .picRemap => { d with irq := { d.irq with pics := Nadir.picRemap d.irq.pics } }
  | .pitInit =>
    let r := Nadir.pitInit Handler.pitOnTick d.timer d.irq
    { d with timer := r.1, irq := r.2 }
  | .keyboardInit =>
    let irq := irqRegisterHandler 1 (some Handler.keyboardOnIrq) d.irq
    { d with
      kbd := Nadir.keyboardInit d.kbd.kBuf
      irq := { irq with pics := Nadir.picUnmask 1 irq.pics } }
  | .picUnmask irq => { d with irq := { d.irq with pics := Nadir.picUnmask irq d.irq.pics } }
  | _ => d

/-- Where the statements end: before `hlt`, at the head of the loop, or at the echo of the keys. -/
inductive Next where
  | hlt
  | poll
  deriving DecidableEq, Repr

/-- Where `kmain` stands: before some statements, in the middle of a line or of a string for the
serial port, or in the loop, whose dequeue takes three steps. -/
inductive Point where
  | exec (rest : List Statement) (next : Next)
  | print (text : List Int8) (rest : List Statement) (next : Next)
  | send (text : List Int8) (rest : List Statement) (next : Next)
  | hlt
  | asleep
  | ticks
  | poll
  | compare
  | read
  | store (c : UInt8)
  | putchar (c : UInt8)

namespace Point

def afterAll : Next → Point
  | .hlt => .hlt
  | .poll => .poll

def wake : Point → Point
  | .asleep => .ticks
  | p => p

end Point

/-- What `kmain` put out: a line begun at some tick, a string for the serial port, or a key. -/
inductive Output where
  | line (line : Line) (ticks : ℕ)
  | report (s : List Int8)
  | key (c : UInt8)

/-- The past of a run: the scancodes delivered, the bytes that arrived while fewer than 127 were
queued, the bytes taken from the queue, the timer interrupts, the output, and what had gone out on
the serial line when the port was programmed. -/
structure Trace where
  history : List UInt8
  arrived : List UInt8
  taken : List UInt8
  ticks : ℕ
  outputs : List Output
  lineBase : List UInt8

structure Kernel where
  devices : Devices
  com1 : Com1
  console : Console
  serialPresent : Bool
  interrupts : Bool
  lastUptime : UInt64
  point : Point
  trace : Trace

def serialEcho (c : Int8) (ok : Bool) : List Int8 :=
  if ok = false then []
  else if c = 8 then serialPuts (some [8, chr ' ', 8])
  else if c = 10 then serialPuts (some [13, 10])
  else serialPuts (some [c, 0])

namespace Kernel

/-- One statement; the printing of its line or string comes after it. -/
def exec (l : Locals) (st : Statement) (rest : List Statement) (next : Next) (s : Kernel) :
    Option Kernel :=
  match st with
  | .klog line =>
    (klogLine l (pitTicks s.devices.timer) line.subsystem line.parts).map fun text =>
      { s with
        point := .print text rest next
        trace := { s.trace with outputs := s.trace.outputs ++ [.line line s.trace.ticks] } }
  | .serialPuts text =>
    some (if s.serialPresent then
      { s with
        point := .send (Nadir.serialPuts (some text)) rest next
        trace := { s.trace with outputs := s.trace.outputs ++ [.report text] } }
      else { s with point := .exec rest next })
  | .serialInit =>
    let com1 := Nadir.serialInit s.com1
    some { s with
      com1 := com1
      serialPresent := serialOk com1
      point := .exec rest next
      trace := { s.trace with lineBase := com1.elim [] fun u => u.tx.wire } }
  | .sti => some { s with interrupts := true, point := .exec rest next }
  | st => some { s with devices := st.drive s.devices, point := .exec rest next }

def main (l : Locals) (s : Kernel) : Option Kernel :=
  match s.point with
  | .exec [] next => some { s with point := .afterAll next }
  | .exec (st :: rest) next => s.exec l st rest next
  | .print [] rest next => some { s with point := .exec rest next }
  | .print (ch :: text) rest next =>
    (consolePutchar ch s.console).map fun console =>
      { s with console := console, point := .print text rest next }
  | .send [] rest next => some { s with point := .exec rest next }
  | .send (ch :: text) rest next =>
    -- `serial_putchar` waits as long as the port holds a byte
    some ((serialPutchar ch s.com1).elim s fun com1 =>
      { s with com1 := com1, point := .send text rest next })
  | .hlt => some { s with point := .asleep }
  | .asleep => some s
  | .ticks =>
    let now := pitTicks s.devices.timer
    some (if now - s.lastUptime ≥ 100 then
      { s with lastUptime := now, point := .exec (uptimeReport now) .poll }
      else { s with point := .poll })
  | .poll => some { s with point := if keyboardHasKey s.devices.kbd then .compare else .hlt }
  | .compare =>
    some { s with point := if dequeueEmpty s.devices.kbd then .putchar 0 else .read }
  | .read => some { s with point := .store (dequeueRead s.devices.kbd) }
  | .store c =>
    some { s with
      devices := { s.devices with kbd := dequeueStore s.devices.kbd }
      point := .putchar c
      trace := { s.trace with taken := s.trace.taken ++ [c] } }
  | .putchar c =>
    (consolePutchar c.toInt8 s.console).map fun console =>
      { s with
        console := console
        point := .send (serialEcho c.toInt8 s.serialPresent) [] .poll
        trace := { s.trace with outputs := s.trace.outputs ++ [.key c] } }

/-- What the dispatcher calls. `keyboard_on_irq` reads `code` from its data port. -/
def act (code : UInt8) (s : Kernel) : IrqAction Handler → Kernel
  | .handler .pitOnTick =>
    { s with
      devices := { s.devices with timer := pitOnTick s.devices.timer }
      trace := { s.trace with ticks := s.trace.ticks + 1 } }
  | .handler .keyboardOnIrq =>
    { s with
      devices := { s.devices with kbd := keyboardOnIrq code s.devices.kbd }
      trace := { s.trace with
        history := s.trace.history ++ [code]
        arrived := s.trace.arrived ++
          if queuedCount s.devices.kbd < 127 then (translate s.trace.history code).toList
          else [] } }
  | .picEoi _ => s

/-- An interrupt of the processor state `cpu`, from its delivery to its return. -/
def interrupt (source : IrqSource) (code : UInt8) (cpu : Cpu) (s : Kernel) : Kernel :=
  let irq := (IrqEvent.interrupt source cpu).exec { s.devices.irq with log := [] }
  let s := irq.log.foldl (act code) { s with devices := { s.devices with irq := irq } }
  { s with point := s.point.wake }

def shift (s : Kernel) : Kernel := { s with com1 := s.com1.map Uart.shift }

end Kernel

/-- Interrupts are enabled, and a line that signals one is not masked. -/
def Kernel.Deliverable (s : Kernel) (source : IrqSource) : Prop :=
  s.interrupts = true ∧ ∀ i, source = .line i → s.devices.irq.pics.Reaches i

inductive KernelEvent where
  | main (l : Locals)
  | irq (source : IrqSource) (code : UInt8) (cpu : Cpu)
  | shift

inductive KernelStep : Kernel → KernelEvent → Kernel → Prop
  | main {s t : Kernel} (l : Locals) (h : s.main l = some t) : KernelStep s (.main l) t
  | irq {s : Kernel} (source : IrqSource) (code : UInt8) (cpu : Cpu)
      (h : s.Deliverable source) : KernelStep s (.irq source code cpu) (s.interrupt source code cpu)
  | shift (s : Kernel) : KernelStep s .shift s.shift

/-- What `kmain` finds when it is called: devices in any state, and the kernel's own data zero. -/
structure Machine where
  pics : Pics
  pit : Pit
  com1 : Com1
  console : Console

def kmainEntry (b : BootStats) (m : Machine) : Option Kernel :=
  (consoleClear m.console).map fun console =>
    { devices :=
        ⟨⟨fun _ => none, m.pics, []⟩, ⟨0, 0, m.pit⟩, ⟨Vector.replicate 128 0, 0, 0, 0, 0, 0⟩⟩
      com1 := m.com1
      console := console
      serialPresent := false
      interrupts := false
      lastUptime := 0
      point := .exec (kmainStart b) .hlt
      trace := ⟨[], [], [], 0, [], []⟩ }

end Nadir
