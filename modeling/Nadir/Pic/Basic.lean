import Mathlib.Data.Nat.Notation

/-!
# The pair of interrupt controllers

Two cascaded 8259 controllers behind four ports. A command byte with bit 4 set starts the
initialization sequence, whose next bytes go to the data port; once it is over, the data port is
the mask register. The driver programs the pair once, acknowledges interrupts and changes the
mask by reading it back.
-/

namespace Nadir

def pic1Cmd : UInt16 := 0x20
def pic1Data : UInt16 := 0x21
def pic2Cmd : UInt16 := 0xA0
def pic2Data : UInt16 := 0xA1
def picEoiCmd : UInt8 := 0x20
def picIrq0Vector : UInt8 := 0x20
def picIrq8Vector : UInt8 := 0x28
def picIrqCount : UInt8 := 16
def picIcw1Init : UInt8 := 0x11
def picIcw3MasterSlaveLine : UInt8 := 0x04
def picIcw3SlaveId : UInt8 := 0x02
def picIcw48086 : UInt8 := 0x01

/-- Which byte a controller expects at its data port. -/
inductive PicStage where
  | icw2
  | icw3
  | icw4
  | ready
  deriving DecidableEq, Repr

/-- One 8259: its initialization words, mask register and in-service register. -/
structure Pic where
  stage : PicStage
  icw1 : UInt8
  icw2 : UInt8
  icw3 : UInt8
  icw4 : UInt8
  imr : UInt8
  isr : UInt8
  deriving DecidableEq, Repr

/-- After the vector base and the cascade byte: a fourth byte only when the first asks for it. -/
def Pic.afterIcw3 (p : Pic) : PicStage := if p.icw1 &&& 0x01 ≠ 0 then .icw4 else .ready

/-- A byte at the command port: ICW1, or an operation command. -/
def Pic.command (v : UInt8) (p : Pic) : Pic :=
  if v &&& 0x10 ≠ 0 then { p with stage := .icw2, icw1 := v, icw4 := 0, imr := 0, isr := 0 }
  else if v = picEoiCmd then
    -- a non-specific EOI clears the lowest bit that is set
    { p with isr := p.isr &&& (p.isr - 1) }
  else p

def Pic.data (v : UInt8) (p : Pic) : Pic :=
  match p.stage with
  | .icw2 => { p with icw2 := v, stage := if p.icw1 &&& 0x02 ≠ 0 then p.afterIcw3 else .icw3 }
  | .icw3 => { p with icw3 := v, stage := p.afterIcw3 }
  | .icw4 => { p with icw4 := v, stage := .ready }
  | .ready => { p with imr := v }

/-- The master and the slave behind its line 2. -/
structure Pics where
  master : Pic
  slave : Pic
  deriving DecidableEq, Repr

namespace Pics

def outb (port : UInt16) (v : UInt8) (s : Pics) : Pics :=
  if port = pic1Cmd then { s with master := s.master.command v }
  else if port = pic1Data then { s with master := s.master.data v }
  else if port = pic2Cmd then { s with slave := s.slave.command v }
  else if port = pic2Data then { s with slave := s.slave.data v }
  else s

/-- The data ports read back the mask; a port nobody answers reads as all ones. -/
def inb (port : UInt16) (s : Pics) : UInt8 :=
  if port = pic1Data then s.master.imr
  else if port = pic2Data then s.slave.imr
  else 0xFF

def ioWait (s : Pics) : Pics := outb 0x80 0 s

end Pics

open Pics

def picRemap (s : Pics) : Pics :=
  let s := ioWait (outb pic1Cmd picIcw1Init s)
  let s := ioWait (outb pic2Cmd picIcw1Init s)
  let s := ioWait (outb pic1Data picIrq0Vector s)
  let s := ioWait (outb pic2Data picIrq8Vector s)
  let s := ioWait (outb pic1Data picIcw3MasterSlaveLine s)
  let s := ioWait (outb pic2Data picIcw3SlaveId s)
  let s := ioWait (outb pic1Data picIcw48086 s)
  let s := ioWait (outb pic2Data picIcw48086 s)
  let s := ioWait (outb pic1Data 0xFF s)
  ioWait (outb pic2Data 0xFF s)

def picEoi (irq : UInt8) (s : Pics) : Pics :=
  if irq ≥ picIrqCount then s
  else outb pic1Cmd picEoiCmd (if irq ≥ 8 then outb pic2Cmd picEoiCmd s else s)

/-- The common body of `pic_mask` and `pic_unmask`: reads the mask of the controller that has the
line and writes it back with the line's bit changed. -/
def picChangeMask (change : UInt8 → UInt8 → UInt8) (irq : UInt8) (s : Pics) : Pics :=
  if irq ≥ picIrqCount then s
  else
    let port := if irq < 8 then pic1Data else pic2Data
    let mask := change (inb port s) (1 <<< (irq &&& 7))
    outb port mask s

def picMask : UInt8 → Pics → Pics := picChangeMask (fun mask bit => mask ||| bit)

def picUnmask : UInt8 → Pics → Pics := picChangeMask (fun mask bit => mask &&& ~~~bit)

@[simp] theorem outb_pic1Cmd (v : UInt8) (s : Pics) :
    outb pic1Cmd v s = { s with master := s.master.command v } := if_pos rfl

@[simp] theorem outb_pic1Data (v : UInt8) (s : Pics) :
    outb pic1Data v s = { s with master := s.master.data v } := by
  rw [outb, if_neg (by decide), if_pos rfl]

@[simp] theorem outb_pic2Cmd (v : UInt8) (s : Pics) :
    outb pic2Cmd v s = { s with slave := s.slave.command v } := by
  rw [outb, if_neg (by decide), if_neg (by decide), if_pos rfl]

@[simp] theorem outb_pic2Data (v : UInt8) (s : Pics) :
    outb pic2Data v s = { s with slave := s.slave.data v } := by
  rw [outb, if_neg (by decide), if_neg (by decide), if_neg (by decide), if_pos rfl]

@[simp] theorem ioWait_eq (s : Pics) : ioWait s = s := by
  rw [ioWait, outb, if_neg (by decide), if_neg (by decide), if_neg (by decide),
    if_neg (by decide)]

@[simp] theorem inb_pic1Data (s : Pics) : inb pic1Data s = s.master.imr := if_pos rfl

@[simp] theorem inb_pic2Data (s : Pics) : inb pic2Data s = s.slave.imr := by
  rw [inb, if_neg (by decide), if_pos rfl]

theorem Pic.command_init (p : Pic) :
    p.command picIcw1Init = ⟨.icw2, 0x11, p.icw2, p.icw3, 0, 0, 0⟩ := if_pos (by decide)

theorem Pic.program_eq (p : Pic) (base cascade mode mask : UInt8) :
    ((((p.command picIcw1Init).data base).data cascade).data mode).data mask =
      ⟨.ready, 0x11, base, cascade, mode, mask, 0⟩ := by
  have hcascaded : ¬ ((0x11 : UInt8) &&& 0x02 ≠ 0) := by decide
  have hmode : (0x11 : UInt8) &&& 0x01 ≠ 0 := by decide
  simp only [Pic.command_init, Pic.data, Pic.afterIcw3, if_neg hcascaded, if_pos hmode]

/-- Whatever state the pair was in, it ends up wired, based at vectors 32 and 40, and masked. -/
theorem picRemap_eq (s : Pics) :
    picRemap s = ⟨⟨.ready, 0x11, 0x20, 0x04, 0x01, 0xFF, 0⟩,
      ⟨.ready, 0x11, 0x28, 0x02, 0x01, 0xFF, 0⟩⟩ := by
  simp only [picRemap, ioWait_eq, outb_pic1Cmd, outb_pic1Data, outb_pic2Cmd, outb_pic2Data,
    Pic.program_eq, picIrq0Vector, picIrq8Vector, picIcw3MasterSlaveLine, picIcw3SlaveId,
    picIcw48086]

end Nadir
