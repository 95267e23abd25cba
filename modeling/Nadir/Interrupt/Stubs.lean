import Nadir.Lib.Amd64

/-!
# The entry stubs and the frame they build

Each stub brings the stack to the vector and an error code, and the common entry code saves the
15 general registers below them. What then lies on the stack is a `struct interrupt_frame`, and
`RDI` points at it. The entry code of the exceptions stops when its handler returns; the one of
the interrupt lines pops the registers again and resumes the interrupted code.
-/

namespace Nadir

open Amd64 ByteMem

inductive IsrLabel where
  | isrStub (v : ℕ)
  | isrCommon
  | isrCommonHang
  | irqCommon
  | exceptionHandler
  | irqDispatch
  deriving DecidableEq, Repr

abbrev IsrCode := List (Instr IsrLabel)

def isrNoerr (v : ℕ) : IsrCode := [.pushImm 0, .pushImm (UInt64.ofNat v), .jmp .isrCommon]

def isrErr (v : ℕ) : IsrCode := [.pushImm (UInt64.ofNat v), .jmp .isrCommon]

def irqNoerr (v : ℕ) : IsrCode := [.pushImm 0, .pushImm (UInt64.ofNat v), .jmp .irqCommon]

def isrErrVectors : List ℕ := [8, 10, 11, 12, 13, 14, 17, 21]

def isrStub (v : ℕ) : IsrCode :=
  if v < 32 then if v ∈ isrErrVectors then isrErr v else isrNoerr v
  else if v < 48 then irqNoerr v
  else []

/-- The order in which both entry paths push. -/
def isrPushed : List Reg :=
  [.rax, .rbx, .rcx, .rdx, .rsi, .rdi, .rbp, .r8, .r9, .r10, .r11, .r12, .r13, .r14, .r15]

/-- The order in which `irq_common` pops. -/
def irqPopped : List Reg :=
  [.r15, .r14, .r13, .r12, .r11, .r10, .r9, .r8, .rbp, .rdi, .rsi, .rdx, .rcx, .rbx, .rax]

def isrCommon : IsrCode :=
  isrPushed.map .push ++
    [.mov .rdi .rsp, .call .exceptionHandler, .cli, .jmp .isrCommonHang]

/-- `irq_common` from the return of `irq_dispatch` on. -/
def irqCommonRestore : IsrCode := irqPopped.map .pop ++ [.add .rsp 16, .iretq]

def irqCommon : IsrCode :=
  isrPushed.map .push ++ .mov .rdi .rsp :: .call .irqDispatch :: irqCommonRestore

/-- `isr.asm` with the C functions it calls, and the addresses its calls return to. -/
def isrProgram (callee : IsrLabel → Cpu → Cpu) (addr : IsrCode → UInt64) : Program IsrLabel where
  text
    | .isrStub v => isrStub v
    | .isrCommon => isrCommon
    | .isrCommonHang => [.hlt, .jmp .isrCommonHang]
    | .irqCommon => irqCommon
    | .exceptionHandler => []
    | .irqDispatch => []
  callee := callee
  addr := addr

/-- `struct interrupt_frame`. -/
structure InterruptFrame where
  r15 : UInt64
  r14 : UInt64
  r13 : UInt64
  r12 : UInt64
  r11 : UInt64
  r10 : UInt64
  r9 : UInt64
  r8 : UInt64
  rbp : UInt64
  rdi : UInt64
  rsi : UInt64
  rdx : UInt64
  rcx : UInt64
  rbx : UInt64
  rax : UInt64
  vector : UInt64
  error : UInt64
  rip : UInt64
  cs : UInt64
  rflags : UInt64
  rsp : UInt64
  ss : UInt64
  deriving DecidableEq, Repr

namespace InterruptFrame

/-- What a C function reads through a pointer to the frame. -/
def read (m : Mem) (frame : UInt64) : InterruptFrame where
  r15 := load64 m frame.toNat
  r14 := load64 m (frame + 8).toNat
  r13 := load64 m (frame + 16).toNat
  r12 := load64 m (frame + 24).toNat
  r11 := load64 m (frame + 32).toNat
  r10 := load64 m (frame + 40).toNat
  r9 := load64 m (frame + 48).toNat
  r8 := load64 m (frame + 56).toNat
  rbp := load64 m (frame + 64).toNat
  rdi := load64 m (frame + 72).toNat
  rsi := load64 m (frame + 80).toNat
  rdx := load64 m (frame + 88).toNat
  rcx := load64 m (frame + 96).toNat
  rbx := load64 m (frame + 104).toNat
  rax := load64 m (frame + 112).toNat
  vector := load64 m (frame + 120).toNat
  error := load64 m (frame + 128).toNat
  rip := load64 m (frame + 136).toNat
  cs := load64 m (frame + 144).toNat
  rflags := load64 m (frame + 152).toNat
  rsp := load64 m (frame + 160).toNat
  ss := load64 m (frame + 168).toNat

/-- The frame of an interrupted processor. -/
def ofCpu (s : Cpu) (vector error : UInt64) : InterruptFrame where
  r15 := s.regs .r15
  r14 := s.regs .r14
  r13 := s.regs .r13
  r12 := s.regs .r12
  r11 := s.regs .r11
  r10 := s.regs .r10
  r9 := s.regs .r9
  r8 := s.regs .r8
  rbp := s.regs .rbp
  rdi := s.regs .rdi
  rsi := s.regs .rsi
  rdx := s.regs .rdx
  rcx := s.regs .rcx
  rbx := s.regs .rbx
  rax := s.regs .rax
  vector := vector
  error := error
  rip := s.rip
  cs := s.cs.toUInt64
  rflags := s.rflags
  rsp := s.regs .rsp
  ss := s.ss.toUInt64

/-- The words of a frame, from its address upward. -/
def words (f : InterruptFrame) : List UInt64 :=
  [f.r15, f.r14, f.r13, f.r12, f.r11, f.r10, f.r9, f.r8, f.rbp, f.rdi, f.rsi, f.rdx, f.rcx, f.rbx,
    f.rax, f.vector, f.error, f.rip, f.cs, f.rflags, f.rsp, f.ss]

theorem read_eq_iff_words (m : Mem) (sp : UInt64) (f : InterruptFrame) :
    read m sp = f ↔ Words m sp f.words := by
  cases f
  simp only [read, InterruptFrame.mk.injEq, Words, words, UInt64.add_assoc, UInt64.reduceAdd,
    and_true]

theorem read_congr {m m' : Mem} {frame : UInt64} (htop : frame.toNat + 176 ≤ 2 ^ 64)
    (hsame : ∀ b, frame.toNat ≤ b → b < frame.toNat + 176 → m' b = m b) :
    read m' frame = read m frame := by
  have hword : ∀ d : UInt64, d.toNat ≤ 168 →
      load64 m' (frame + d).toNat = load64 m (frame + d).toNat := by
    intro d hd
    have hplace : (frame + d).toNat = frame.toNat + d.toNat := by
      rw [UInt64.toNat_add]
      omega
    exact load64_congr fun b hlo hhi => hsame b (by omega) (by omega)
  have hfirst : load64 m' frame.toNat = load64 m frame.toNat :=
    load64_congr fun b hlo hhi => hsame b hlo (by omega)
  simp (disch := decide) only [read, hfirst, hword]

/-- The words on the stack are the saved registers, the vector, the error code and what the
processor pushed exactly when the frame at the top of the stack reads so. -/
theorem read_eq_iff (m : Mem) (sp : UInt64) (s : Cpu) (vector error : UInt64) :
    read m sp = ofCpu s vector error ↔
      Words m sp (isrPushed.reverse.map s.regs ++ vector :: error :: frameWords none s) :=
  read_eq_iff_words m sp (ofCpu s vector error)

theorem read_push {e : Cpu} {f : InterruptFrame} {rest : List UInt64}
    (he : e.Stacked (f.words ++ rest)) (hlen : rest.length ≤ 1) (ret : UInt64) :
    read (e.push ret).mem (e.regs .rsp) = f := by
  have hback : (e.push ret).regs .rsp + 8 = e.regs .rsp := by
    rw [Cpu.push_rsp, UInt64.sub_add_cancel]
  have hroom : 8 + 8 * (f.words ++ rest).length < 2 ^ 64 := by
    have hframe : f.words.length = 22 := rfl
    rw [List.length_append]
    omega
  rw [read_eq_iff_words, ← hback]
  exact (he.push ret hroom).words.2.of_append

end InterruptFrame

end Nadir
