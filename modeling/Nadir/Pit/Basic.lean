import Nadir.Interrupt.Dispatch

/-!
# The timer

Channel 0 of an 8254 behind a command port and a data port. The driver programs it once, in mode 3
with the divisor for 100 interrupts a second, and counts the interrupts.
-/

namespace Nadir

def pitCmd : UInt16 := 0x43
def pitCh0 : UInt16 := 0x40
def pitCmdCh0Mode3 : UInt8 := 0x36
def pitBaseHz : UInt32 := 1193182
def pitDivisor : UInt32 := pitBaseHz / 100
def pitIrq : UInt8 := 0

/-- Channel 0: the command it was given last, the two bytes of its count, and whether the high one
is due. -/
structure Pit where
  command : UInt8
  low : UInt8
  high : UInt8
  highNext : Bool
  deriving DecidableEq, Repr

namespace Pit

/-- A byte of the count goes where bits 4 and 5 of the command say. -/
def count (v : UInt8) (p : Pit) : Pit :=
  if p.command &&& 0x30 = 0x10 then { p with low := v, high := 0 }
  else if p.command &&& 0x30 = 0x20 then { p with low := 0, high := v }
  else if p.highNext then { p with high := v, highNext := false }
  else { p with low := v, highNext := true }

def outb (port : UInt16) (v : UInt8) (p : Pit) : Pit :=
  if port = pitCmd then
    -- commands for another channel, and the one that latches the count
    if v &&& 0xC0 ≠ 0 ∨ v &&& 0x30 = 0 then p else { p with command := v, highNext := false }
  else if port = pitCh0 then p.count v
  else p

def mode (p : Pit) : UInt8 := p.command >>> 1 &&& 7

/-- The count that the channel starts from; zero stands for `2 ^ 16`. -/
def reload (p : Pit) : ℕ :=
  if p.low = 0 ∧ p.high = 0 then 2 ^ 16 else 256 * p.high.toNat + p.low.toNat

end Pit

structure Timer where
  sTicks : UInt64
  sInitialized : UInt8
  pit : Pit
  deriving DecidableEq, Repr

variable {H : Type*}

def pitInit (pitOnTick : H) (t : Timer) (s : IrqState H) : Timer × IrqState H :=
  if t.sInitialized ≠ 0 then (t, s)
  else
    let divisor := pitDivisor.toUInt16
    let lo := (divisor &&& 0xFF).toUInt8
    let hi := ((divisor >>> 8) &&& 0xFF).toUInt8
    let pit := t.pit.outb pitCmd pitCmdCh0Mode3
    let pit := pit.outb pitCh0 lo
    let pit := pit.outb pitCh0 hi
    ({ t with pit := pit, sInitialized := 1 }, irqRegisterHandler pitIrq (some pitOnTick) s)

def pitOnTick (t : Timer) : Timer := { t with sTicks := t.sTicks + 1 }

def pitTicks (t : Timer) : UInt64 := t.sTicks

def pitProgrammed : Pit := ⟨pitCmdCh0Mode3, 0x9B, 0x2E, false⟩

theorem Pit.outb_pitCmd (p : Pit) :
    p.outb pitCmd pitCmdCh0Mode3 = { p with command := pitCmdCh0Mode3, highNext := false } := by
  rw [outb, if_pos rfl, if_neg (by decide)]

theorem Pit.outb_pitCh0 (v : UInt8) (p : Pit) : p.outb pitCh0 v = p.count v := by
  rw [outb, if_neg (by decide), if_pos rfl]

theorem Pit.program_eq (p : Pit) (lo hi : UInt8) :
    ((p.outb pitCmd pitCmdCh0Mode3).outb pitCh0 lo).outb pitCh0 hi =
      ⟨pitCmdCh0Mode3, lo, hi, false⟩ := by
  have hlow : ¬pitCmdCh0Mode3 &&& 0x30 = 0x10 := by decide
  have hhigh : ¬pitCmdCh0Mode3 &&& 0x30 = 0x20 := by decide
  rw [outb_pitCmd, outb_pitCh0, outb_pitCh0, count, count]
  dsimp only
  rw [if_neg hlow, if_neg hhigh, if_neg Bool.false_ne_true]
  dsimp only
  rw [if_neg hlow, if_neg hhigh, if_pos rfl]

theorem pitInit_zero (h : H) {t : Timer} (ht : t.sInitialized = 0) (s : IrqState H) :
    pitInit h t s =
      (⟨t.sTicks, 1, pitProgrammed⟩, irqRegisterHandler pitIrq (some h) s) := by
  have hlow : (pitDivisor.toUInt16 &&& 0xFF).toUInt8 = 0x9B := by decide
  have hhigh : ((pitDivisor.toUInt16 >>> 8) &&& 0xFF).toUInt8 = 0x2E := by decide
  rw [pitInit, if_neg (not_not_intro ht)]
  dsimp only
  rw [Pit.program_eq, hlow, hhigh]
  rfl

theorem pitProgrammed_mode : pitProgrammed.mode = 3 := rfl

theorem pitProgrammed_reload : pitProgrammed.reload = pitDivisor.toNat := by decide

end Nadir
