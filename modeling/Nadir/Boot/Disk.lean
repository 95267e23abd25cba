import Nadir.Lib.X86

/-!
# Loading the kernel image

The part of the boot sector that reads the kernel from disk: `lba_to_chs` and `load_kernel`, block
by block between its labels. An `int 0x13` call may leave anything in the registers, DS, ES and
the flags; a successful read copies one sector to ES:BX and nothing else changes in memory. The
stack, which lies below the boot sector, is left out: a pushed word is a name until it is popped.
-/

namespace Nadir

open ByteMem X86

/-- Where the boot sector's variables lie: one after the other, behind the code and before the
signature. -/
structure BootVars where
  base : ℕ
  le_base : 0x7C00 ≤ base
  base_le : base + 18 ≤ 0x7DFE

namespace BootVars

variable (v : BootVars)

def bootDrive : ℕ := v.base
def spt : ℕ := v.base + 1
def heads : ℕ := v.base + 3
def lba : ℕ := v.base + 5
def bufSeg : ℕ := v.base + 7
def bufOff : ℕ := v.base + 9
def sectorsLeft : ℕ := v.base + 11
def tries : ℕ := v.base + 13
def e820Next : ℕ := v.base + 14

end BootVars

def kernelLoadSeg : UInt16 := 0x1000

/-- The bytes of a sector, by drive, cylinder, head and sector number. -/
abbrev Disk := UInt8 → ℕ → ℕ → ℕ → ℕ → UInt8

/-- The sector at an LBA of a disk with 18 sectors a track and 2 heads. -/
def Disk.sectorAt (disk : Disk) (drive : UInt8) (lba : ℕ) : ℕ → UInt8 :=
  disk drive (lba / 36) (lba / 18 % 2) (lba % 18 + 1)

/-- An `int 0x13` call: what it was asked and whether it failed. -/
structure DiskCall where
  ah : UInt8
  al : UInt8
  ch : UInt8
  cl : UInt8
  dh : UInt8
  dl : UInt8
  es : UInt16
  bx : UInt16
  failed : Bool
  deriving DecidableEq, Repr

namespace DiskCall

variable (c : DiskCall)

def cylinder : ℕ := c.ch.toNat + 256 * (c.cl.toNat / 64)
def head : ℕ := c.dh.toNat
def sector : ℕ := c.cl.toNat % 64

def IsRead : Prop := c.ah = 2

instance : DecidablePred IsRead := fun c => inferInstanceAs (Decidable (c.ah = 2))

end DiskCall

/-- The labels of `load_kernel`; `error` prints the message and halts. -/
inductive LoadLabel where
  | next
  | attempt
  | reset
  | error
  | ok
  | ret
  deriving DecidableEq, Repr

structure LoadState where
  label : LoadLabel
  cpu : Cpu
  calls : List DiskCall

/-- What the calls run against: the answer to the i-th call, and the disks. -/
structure DiskBios where
  answer : ℕ → Regs
  disk : Disk

def DiskCall.of (s : Cpu) (failed : Bool) : DiskCall :=
  ⟨s.eax.high, s.eax.low, s.ecx.high, s.ecx.low, s.edx.high, s.edx.low, s.es, s.ebx.word, failed⟩

def copySector (a : ℕ) (bytes : ℕ → UInt8) (m : Mem) : Mem := fun b =>
  if a ≤ b ∧ b < a + 512 then bytes (b - a) else m b

def int13 (bios : DiskBios) (s : Cpu) (calls : List DiskCall) : Cpu × List DiskCall :=
  let answer := bios.answer calls.length
  let call := DiskCall.of s answer.cf
  let mem :=
    if call.IsRead ∧ answer.cf = false then
      copySector (linear s.es s.ebx.word)
        (bios.disk call.dl call.cylinder call.head call.sector) s.mem
    else s.mem
  (⟨answer, mem⟩, calls ++ [call])

variable (v : BootVars)

/-- `lba_to_chs`: the LBA in AX to CH, CL and DH. -/
def lbaToChs (s : Cpu) : Cpu :=
  let s := { s with edx := s.edx.setWord 0 }
  let s := s.divWord (s.load16 v.spt)
  let s := { s with edx := s.edx.setWord (s.edx.word + 1) }
  let pushed := s.edx.word
  let s := { s with edx := s.edx.setWord 0 }
  let s := s.divWord (s.load16 v.heads)
  let s := { s with edx.high := s.edx.low }
  let s := { s with ebx := s.ebx.setWord s.eax.word }
  let s := { s with eax := s.eax.setWord pushed }
  let s := { s with ecx.low := s.eax.low }
  let s := { s with ecx.high := s.ebx.low }
  let s := { s with ebx := s.ebx.setWord (s.ebx.word >>> 2) }
  let s := { s with ebx.low := s.ebx.low &&& 0xC0 }
  { s with ecx.low := s.ecx.low ||| s.ebx.low }

/-- `load_kernel` up to `.next`. -/
def loadStart (n : UInt16) (s : Cpu) : LoadState :=
  let s := s.xorAx.movDsAx
  let s := { s with eax := s.eax.setWord kernelLoadSeg }
  let s := s.store16 v.bufSeg s.eax.word
  let s := s.store16 v.bufOff 0
  let s := s.store16 v.lba 1
  let s := { s with eax := s.eax.setWord n }
  let s := s.store16 v.sectorsLeft s.eax.word
  ⟨.next, s, []⟩

def loadNext (s : Cpu) : Cpu :=
  let s := { s with eax := s.eax.setWord (s.load16 v.lba) }
  let s := lbaToChs v s
  s.store8 v.tries 3

def loadRequest (s : Cpu) : Cpu :=
  let s := { s with eax := s.eax.setWord (s.load16 v.bufSeg) }
  let s := { s with es := s.eax.word }
  let s := { s with ebx := s.ebx.setWord (s.load16 v.bufOff) }
  let s := { s with edx.low := s.load8 v.bootDrive }
  let s := { s with eax.high := 2 }
  { s with eax.low := 1 }

/-- The read and the test of its carry, which the `xor` in between has cleared. -/
def loadAttempt (bios : DiskBios) (s : Cpu) (calls : List DiskCall) : LoadState :=
  let r := int13 bios (loadRequest v s) calls
  let s := r.1.xorAx.movDsAx
  ⟨if s.cf then .reset else .ok, s, r.2⟩

def loadReset (bios : DiskBios) (s : Cpu) (calls : List DiskCall) : LoadState :=
  let s := { s with eax.high := 0 }
  let s := { s with edx.low := s.load8 v.bootDrive }
  let r := int13 bios s calls
  let s := r.1.xorAx.movDsAx
  let s := s.decByte v.tries
  ⟨if s.zf then .error else .attempt, s, r.2⟩

/-- The buffer moves past the sector, into the next segment where the offset wraps. -/
def advanceBuffer (s : Cpu) : Cpu :=
  let s := s.addWord v.bufOff 512
  if s.cf then s.addWord v.bufSeg 0x1000 else s

def loadOk (s : Cpu) (calls : List DiskCall) : LoadState :=
  let s := advanceBuffer v s
  let s := s.incWord v.lba
  let s := s.decWord v.sectorsLeft
  ⟨if s.zf then .ret else .next, s, calls⟩

def loadStep (bios : DiskBios) (s : LoadState) : LoadState :=
  match s.label with
  | .next => ⟨.attempt, loadNext v s.cpu, s.calls⟩
  | .attempt => loadAttempt v bios s.cpu s.calls
  | .reset => loadReset v bios s.cpu s.calls
  | .error => s
  | .ok => loadOk v s.cpu s.calls
  | .ret => s

/-- The state after `k` blocks. -/
def loadKernel (n : UInt16) (bios : DiskBios) (s : Cpu) (k : ℕ) : LoadState :=
  Nat.iterate (loadStep v bios) k (loadStart v n s)

end Nadir
