import Nadir.Boot.Disk
import Nadir.E820

/-!
# Staging the memory map

`query_e820` asks the firmware for the memory map, one entry a call, and stages the entries it
accepts; the stage-2 entry copies them into the kernel's globals. A call may leave anything in the
registers, DS, ES and the flags, and writes at most ECX bytes at ES:DI.
-/

namespace Nadir

open ByteMem X86

def e820CountAddr : ℕ := 0x5000
def e820Buf : UInt16 := 0x5020
def e820EntrySize : UInt8 := 24

def smap : UInt32 := 0x534D4150

/-- The answer to a call: the registers, and the bytes written by their place in the slot. -/
structure E820Answer where
  regs : Regs
  bytes : ℕ → Option UInt8

inductive QueryLabel where
  | loop
  | done
  | ret
  deriving DecidableEq, Repr

structure QueryState where
  label : QueryLabel
  cpu : Cpu
  calls : ℕ

def writeBytes (a size : ℕ) (bytes : ℕ → Option UInt8) (m : Mem) : Mem := fun b =>
  if a ≤ b ∧ b < a + size then (bytes (b - a)).getD (m b) else m b

def int15 (answer : E820Answer) (s : Cpu) : Cpu :=
  ⟨answer.regs, writeBytes (linear s.es s.edi.word) s.ecx.dword.toNat answer.bytes s.mem⟩

variable (v : BootVars)

def queryStart (s : Cpu) : QueryState :=
  let s := s.xorAx.movDsAx
  let s := s.store8 e820CountAddr s.eax.low
  ⟨.loop, s, 0⟩

/-- `.loop` up to the call. -/
def queryRequest (s : Cpu) : Cpu :=
  let s := s.xorAx.movEsAx
  let s := { s with eax.low := s.load8 e820CountAddr }
  let s := { s with ecx.low := e820EntrySize }
  let s := s.mulCl
  let s := { s with edi := s.edi.setWord e820Buf }
  let s := { s with edi := s.edi.setWord (s.edi.word + s.eax.word) }
  let s := { s with ecx := Reg.ofDword 24 }
  let s := { s with edx := Reg.ofDword smap }
  let s := { s with eax := Reg.ofDword 0xE820 }
  { s with ebx := Reg.ofDword (s.load32 v.e820Next) }

/-- The call and the tests behind it. DS comes back from the stack. -/
def queryLoop (answers : ℕ → E820Answer) (s : Cpu) (calls : ℕ) : QueryState :=
  let s := queryRequest v s
  let pushed := s.ds
  let s := { int15 (answers calls) s with ds := pushed }
  if s.cf then ⟨.done, s, calls + 1⟩
  else if s.eax.dword ≠ smap then ⟨.done, s, calls + 1⟩
  else if (s.load8 e820CountAddr).toNat ≥ e820Max then ⟨.done, s, calls + 1⟩
  else
    let s := s.incByte e820CountAddr
    let s := s.store32 v.e820Next s.ebx.dword
    ⟨if s.ebx.dword = 0 then .done else .loop, s, calls + 1⟩

/-- The entry made up when there is none: 127 MB of usable memory from 1 MB. -/
def stageFallback (s : Cpu) : Cpu :=
  let s := s.xorAx.movEsAx
  let s := { s with edi := s.edi.setWord e820Buf }
  let s := { s with eax := Reg.ofDword 0x00100000 }
  let s := s.stosd
  let s := { s with eax := Reg.ofDword 0 }
  let s := s.stosd
  let s := { s with eax := Reg.ofDword 0x07F00000 }
  let s := s.stosd
  let s := { s with eax := Reg.ofDword 0 }
  let s := s.stosd
  let s := { s with eax := Reg.ofDword (s.eax.dword + 1) }
  s.stosd

def queryFallback (s : Cpu) : Cpu := (stageFallback s).incByte e820CountAddr

def queryDone (s : Cpu) (calls : ℕ) : QueryState :=
  ⟨.ret, if s.load8 e820CountAddr ≠ 0 then s else queryFallback s, calls⟩

def queryStep (answers : ℕ → E820Answer) (s : QueryState) : QueryState :=
  match s.label with
  | .loop => queryLoop v answers s.cpu s.calls
  | .done => queryDone s.cpu s.calls
  | .ret => s

/-- The state after `k` blocks. -/
def queryE820 (answers : ℕ → E820Answer) (s : Cpu) (k : ℕ) : QueryState :=
  Nat.iterate (queryStep v answers) k (queryStart s)

/-- Where the linker puts the globals of the memory map: both lie in the zeroed section, which
lies behind the load address. -/
structure KernelLayout where
  bssStart : ℕ
  bssStop : ℕ
  memmapCount : ℕ
  memmapEntries : ℕ
  load_le : 0x10000 ≤ bssStart
  count_mem : bssStart ≤ memmapCount ∧ memmapCount + 4 ≤ bssStop
  entries_mem : bssStart ≤ memmapEntries ∧ memmapEntries + 24 * e820Max ≤ bssStop
  apart : memmapCount + 4 ≤ memmapEntries ∨ memmapEntries + 24 * e820Max ≤ memmapCount

/-- `.fill_pd`: `n` entries of 2 MB from `eax`, eight bytes each. -/
def fillPd : ℕ → ℕ → UInt32 → Mem → Mem
  | 0, _, _, m => m
  | n + 1, edi, eax, m => fillPd n (edi + 8) (eax + 0x200000) (store32 m edi eax)

/-- The page tables of `boot32_entry`. -/
def buildPageTables (m : Mem) : Mem :=
  let m := repStosd 0 0x1000 0x70000 m
  let m := store32 m 0x70000 (0x71000 ||| 0x03)
  let m := store32 m 0x71000 (0x72000 ||| 0x03)
  fillPd 512 0x72000 0x83 m

variable (layout : KernelLayout)

/-- The count and the entries from the staging area to the globals. -/
def copyMap (m : Mem) : Mem :=
  let count := (m e820CountAddr).toNat
  let count := if count ≤ e820Max then count else e820Max
  let m := store32 m layout.memmapCount (UInt32.ofNat count)
  if count = 0 then m
  else repMovsb (count * 24) e820Buf.toNat layout.memmapEntries m

/-- Stage 2 up to the call of `kmain`, as far as it writes to memory. -/
def stage2 (m : Mem) : Mem :=
  let m := buildPageTables m
  let m := repStosb 0 (layout.bssStop - layout.bssStart) layout.bssStart m
  copyMap layout m

end Nadir
