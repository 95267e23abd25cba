import Nadir.Klog.Basic
import Nadir.Lib.Transmitter

/-!
# The serial port

A 16550 behind the eight ports of COM1, or nothing at all: then writes go nowhere and a read gives
all ones. The driver programs the port once and then sends by polling; no interrupt of the port is
used. Of its registers the driver reads only the line status.
-/

namespace Nadir

open Wire

def comData : UInt16 := 0x3F8
def comIer : UInt16 := 0x3F9
def comFifo : UInt16 := 0x3FA
def comLctl : UInt16 := 0x3FB
def comMctl : UInt16 := 0x3FC
def lsrTxEmpty : UInt8 := 0x20

/-- The registers; `status` has the bits of the line status that do not tell of the transmitter. -/
structure Uart where
  ier : UInt8
  divisorLow : UInt8
  divisorHigh : UInt8
  fcr : UInt8
  lcr : UInt8
  mcr : UInt8
  status : UInt8
  tx : Transmitter UInt8

namespace Uart

/-- Bit 7 of the line control puts the divisor behind the first two ports. -/
def Dlab (u : Uart) : Prop := u.lcr &&& 0x80 ≠ 0

instance (u : Uart) : Decidable u.Dlab := inferInstanceAs (Decidable (_ ≠ _))

def FifoOn (u : Uart) : Prop := u.fcr &&& 0x01 ≠ 0

instance (u : Uart) : Decidable u.FifoOn := inferInstanceAs (Decidable (_ ≠ _))

def size (u : Uart) : ℕ := if u.FifoOn then 16 else 1

/-- The FIFO control: without bit 0 the other bits are not taken, and a change of bit 0 empties the
queue, as bit 2 does. -/
def fifoControl (v : UInt8) (u : Uart) : Uart :=
  let u' := { u with fcr := if v &&& 0x01 ≠ 0 then v else 0 }
  if (u'.FifoOn ↔ u.FifoOn) ∧ u'.fcr &&& 0x04 = 0 then u' else { u' with tx := u.tx.clear }

def outb (port : UInt16) (v : UInt8) (u : Uart) : Uart :=
  if port = comData then
    if u.Dlab then { u with divisorLow := v } else { u with tx := u.tx.push u.size v }
  else if port = comIer then
    if u.Dlab then { u with divisorHigh := v } else { u with ier := v }
  else if port = comFifo then u.fifoControl v
  else if port = comLctl then { u with lcr := v }
  else if port = comMctl then { u with mcr := v }
  else u

theorem outb_data (v : UInt8) (u : Uart) : u.outb comData v =
    if u.Dlab then { u with divisorLow := v } else { u with tx := u.tx.push u.size v } := if_pos rfl

theorem outb_ier (v : UInt8) (u : Uart) : u.outb comIer v =
    if u.Dlab then { u with divisorHigh := v } else { u with ier := v } := by
  rw [outb, if_neg (by decide), if_pos rfl]

@[simp] theorem outb_fifo (v : UInt8) (u : Uart) : u.outb comFifo v = u.fifoControl v := by
  rw [outb, if_neg (by decide), if_neg (by decide), if_pos rfl]

@[simp] theorem outb_lctl (v : UInt8) (u : Uart) : u.outb comLctl v = { u with lcr := v } := by
  rw [outb, if_neg (by decide), if_neg (by decide), if_neg (by decide), if_pos rfl]

@[simp] theorem outb_mctl (v : UInt8) (u : Uart) : u.outb comMctl v = { u with mcr := v } := by
  rw [outb, if_neg (by decide), if_neg (by decide), if_neg (by decide), if_neg (by decide),
    if_pos rfl]

def lsr (u : Uart) : UInt8 :=
  if u.tx.queue.isEmpty then u.status ||| lsrTxEmpty else u.status &&& ~~~lsrTxEmpty

def shift (u : Uart) : Uart := { u with tx := u.tx.shift }

end Uart

/-- What stands behind the ports of COM1. -/
abbrev Com1 := Option Uart

namespace Com1

def outb (port : UInt16) (v : UInt8) (p : Com1) : Com1 := p.map (Uart.outb port v)

def inbLsr (p : Com1) : UInt8 := p.elim 0xFF Uart.lsr

end Com1

open Com1

def serialInit (p : Com1) : Com1 :=
  let p := outb comIer 0x00 p
  let p := outb comLctl 0x80 p
  let p := outb comData 0x03 p
  let p := outb comIer 0x00 p
  let p := outb comLctl 0x03 p
  let p := outb comFifo 0xC7 p
  outb comMctl 0x0B p

/-- One pass of `serial_putchar`: no result as long as the port holds a byte. -/
def serialPutchar (c : Int8) (p : Com1) : Option Com1 :=
  if p.inbLsr &&& lsrTxEmpty = 0 then none else some (p.outb comData c.toUInt8)

/-- The characters `serial_puts` sends, none for `NULL`. -/
def serialPuts (s : Option (List Int8)) : List Int8 := s.elim [] cString

def serialOk (p : Com1) : Bool := p.inbLsr != 0xFF

end Nadir
