import Nadir.Interrupt.Resume

/-!
# The frame of an exception

The processor pushes an error code on some vectors, and the stub of such a vector must not push
another word in its place. The stubs follow Intel's list. An AMD processor pushes one on the
vectors 29 and 30 too, where the stub's own zero moves every later field by one word.
-/

namespace Nadir

open Amd64

inductive Vendor where
  | intel
  | amd
  deriving DecidableEq, Repr

/-- The vectors on which the processor pushes an error code. -/
def Vendor.errorVectors : Vendor → List ℕ
  | .intel => [8, 10, 11, 12, 13, 14, 17, 21]
  | .amd => [8, 10, 11, 12, 13, 14, 17, 21, 29, 30]

/-- What the processor pushes when vector `v` is raised with the error code `code`. -/
def Vendor.pushed (vendor : Vendor) (v : ℕ) (code : UInt64) : Option UInt64 :=
  if v ∈ vendor.errorVectors then some code else none

/-- `isr_common` from the return of `exception_handler` on. -/
def isrCommonEnd : IsrCode := [.cli, .jmp .isrCommonHang]

/-- The fields below the vector, from the lowest address up. -/
def InterruptFrame.saved (f : InterruptFrame) : List UInt64 :=
  [f.r15, f.r14, f.r13, f.r12, f.r11, f.r10, f.r9, f.r8, f.rbp, f.rdi, f.rsi, f.rdx, f.rcx, f.rbx,
    f.rax]

/-- The frame tells what happened in the interrupted state `s`. -/
structure Decodes (f : InterruptFrame) (v : ℕ) (error : UInt64) (s : Cpu) : Prop where
  vector : f.vector = UInt64.ofNat v
  error : f.error = error
  rip : f.rip = s.rip
  cs : f.cs = s.cs.toUInt64
  rflags : f.rflags = s.rflags
  saved : f.saved = isrPushed.reverse.map s.regs

/-- The exception enters its stub, and the frame behind the pointer with which `exception_handler`
is called decodes. -/
def FrameDecoded (p : Program IsrLabel) (stub : ℕ → UInt64) (vendor : Vendor) (v : ℕ)
    (code : UInt64) (s : Cpu) : Prop :=
  ∃ t e, Amd64.deliver v (vendor.pushed v code) s = some t ∧ t.rip = stub v ∧
    p.Reaches (p.text (.isrStub v), t) (.call .exceptionHandler :: isrCommonEnd, e) ∧
    Decodes (InterruptFrame.read (e.push (p.addr isrCommonEnd)).mem (e.regs .rdi)) v
      ((vendor.pushed v code).getD 0) s

/-- The state in which `isr_common` calls `exception_handler`, after the stub of `v` was entered at
`t`. -/
def atExceptionHandler (v : ℕ) (t : Cpu) : Cpu :=
  saveRegs (if v ∈ isrErrVectors then t.push (UInt64.ofNat v)
    else (t.push 0).push (UInt64.ofNat v))

/-- The frame with an error code under the stub's own. -/
def shiftedFrame (v : ℕ) (code : UInt64) (s : Cpu) : InterruptFrame :=
  { InterruptFrame.ofCpu s (UInt64.ofNat v) 0 with
    rip := code
    cs := s.rip
    rflags := s.cs.toUInt64
    rsp := s.rflags
    ss := s.regs .rsp }

section Code

variable (callee : IsrLabel → Cpu → Cpu) (addr : IsrCode → UInt64)

theorem reaches_exceptionHandler {v : ℕ} (hv : v < 32) (t : Cpu) :
    (isrProgram callee addr).Reaches (isrStub v, t)
      (.call .exceptionHandler :: isrCommonEnd, atExceptionHandler v t) := by
  let p := isrProgram callee addr
  have hcommon : ∀ s, p.Reaches (isrCommon, s)
      (.call .exceptionHandler :: isrCommonEnd, saveRegs s) :=
    fun s => (p.reaches_pushRegs isrPushed _ s).trans (p.reaches_step _)
  rw [isrStub, if_pos hv, atExceptionHandler]
  by_cases herr : v ∈ isrErrVectors
  · rw [if_pos herr, if_pos herr]
    have hpush : p.Reaches (isrErr v, t) (isrCommon, t.push (UInt64.ofNat v)) :=
      (p.reaches_step _).trans (p.reaches_step _)
    exact hpush.trans (hcommon _)
  · rw [if_neg herr, if_neg herr]
    have hpush : p.Reaches (isrNoerr v, t) (isrCommon, (t.push 0).push (UInt64.ofNat v)) :=
      (p.reaches_step _).trans ((p.reaches_step _).trans (p.reaches_step _))
    exact hpush.trans (hcommon _)

def AfterHandler (is : IsrCode) : Prop :=
  is = isrCommonEnd ∨ is = [.jmp .isrCommonHang] ∨ is = [.hlt, .jmp .isrCommonHang]

theorem afterHandler_step (is : IsrCode) (s : Cpu) (h : AfterHandler is) :
    AfterHandler ((isrProgram callee addr).step (is, s)).1 := by
  rcases h with rfl | rfl | rfl
  · exact Or.inr (Or.inl rfl)
  · exact Or.inr (Or.inr rfl)
  · exact Or.inr (Or.inr rfl)

theorem exceptionHandler_unique {x : IsrCode × Cpu} {e e' : Cpu}
    (he : (isrProgram callee addr).Reaches x (.call .exceptionHandler :: isrCommonEnd, e))
    (he' : (isrProgram callee addr).Reaches x (.call .exceptionHandler :: isrCommonEnd, e')) :
    e = e' := by
  refine Program.Reaches.unique (afterHandler_step callee addr) ?_ (fun _ => Or.inl rfl) he he'
  rintro (h | h | h) <;> cases h

end Code

theorem saveRegs_frame {s t : Cpu} {ws : List UInt64} (rest : List UInt64) {f : InterruptFrame}
    (hregs : ∀ r ≠ .rsp, t.regs r = s.regs r) (ht : t.Stacked ws) (hlen : ws.length ≤ 8)
    (hf : isrPushed.reverse.map s.regs ++ ws = f.words ++ rest) (hrest : rest.length ≤ 1)
    (ret : UInt64) :
    InterruptFrame.read ((saveRegs t).push ret).mem ((saveRegs t).regs .rdi) = f := by
  have hstacked := saveRegs_stacked hregs ht hlen
  rw [hf] at hstacked
  rw [saveRegs_rdi]
  exact InterruptFrame.read_push hstacked hrest ret

section Entry

variable {g : Gate} {s t : Cpu} {v : ℕ} {code : UInt64} (ret : UInt64)

theorem frame_of_error (ht : Entered g (some code) s t) (herr : v ∈ isrErrVectors) :
    InterruptFrame.read ((atExceptionHandler v t).push ret).mem
        ((atExceptionHandler v t).regs .rdi) =
      InterruptFrame.ofCpu s (UInt64.ofNat v) code := by
  have hstacked := ht.stacked.push (UInt64.ofNat v) (by simp [frameWords])
  rw [atExceptionHandler, if_pos herr]
  refine saveRegs_frame [] (fun r hr => ?_) hstacked (Nat.le_succ 7) rfl (Nat.zero_le 1) ret
  rw [Cpu.push_regs_of_ne _ _ hr, ht.regs r hr]

theorem frame_of_noerror (ht : Entered g none s t) (herr : v ∉ isrErrVectors) :
    InterruptFrame.read ((atExceptionHandler v t).push ret).mem
        ((atExceptionHandler v t).regs .rdi) =
      InterruptFrame.ofCpu s (UInt64.ofNat v) 0 := by
  have hstacked := (ht.stacked.push 0 (by simp [frameWords])).push (UInt64.ofNat v)
    (by simp [frameWords])
  rw [atExceptionHandler, if_neg herr]
  refine saveRegs_frame [] (fun r hr => ?_) hstacked (Nat.le_succ 7) rfl (Nat.zero_le 1) ret
  rw [Cpu.push_regs_of_ne _ _ hr, Cpu.push_regs_of_ne _ _ hr, ht.regs r hr]

theorem frame_of_surplus (ht : Entered g (some code) s t) (herr : v ∉ isrErrVectors) :
    InterruptFrame.read ((atExceptionHandler v t).push ret).mem
        ((atExceptionHandler v t).regs .rdi) = shiftedFrame v code s := by
  have hstacked := (ht.stacked.push 0 (by simp [frameWords])).push (UInt64.ofNat v)
    (by simp [frameWords])
  rw [atExceptionHandler, if_neg herr]
  refine saveRegs_frame [s.ss.toUInt64] (fun r hr => ?_) hstacked le_rfl rfl le_rfl ret
  rw [Cpu.push_regs_of_ne _ _ hr, Cpu.push_regs_of_ne _ _ hr, ht.regs r hr]

end Entry

theorem decodes_ofCpu (v : ℕ) (error : UInt64) (s : Cpu) :
    Decodes (InterruptFrame.ofCpu s (UInt64.ofNat v) error) v error s :=
  ⟨rfl, rfl, rfl, rfl, rfl, rfl⟩

theorem decodes_shiftedFrame_iff (v : ℕ) (code : UInt64) (s : Cpu) :
    Decodes (shiftedFrame v code s) v code s ↔
      code = 0 ∧ s.rip = 0 ∧ s.cs = 0 ∧ s.rflags = 0 := by
  constructor
  · intro h
    have hcode : code = 0 := h.error.symm
    have hrip : s.rip = 0 := h.rip.symm.trans hcode
    have hcs : s.cs.toUInt64 = 0 := h.cs.symm.trans hrip
    have hrflags : s.rflags = 0 := h.rflags.symm.trans hcs
    exact ⟨hcode, hrip, UInt16.toUInt64_inj.mp hcs, hrflags⟩
  · rintro ⟨hcode, hrip, hcs, hrflags⟩
    have hcs' : s.cs.toUInt64 = 0 := by
      rw [hcs]
      rfl
    exact ⟨rfl, hcode.symm, hcode.trans hrip.symm, hrip.trans hcs'.symm,
      hcs'.trans hrflags.symm, rfl⟩

/-- The kernel after `idt_init`, with or without the gates of the interrupt lines. -/
def UsesExceptionGates (idt : IdtTable) (stub : ℕ → UInt64) (boot s : Cpu) : Prop :=
  UsesIdt idt (idtInit idt stub boot) s ∨ UsesIdt idt (builtIdt idt stub boot) s

theorem UsesExceptionGates.entered {idt : IdtTable} {stub : ℕ → UInt64} {boot s : Cpu}
    (hs : UsesExceptionGates idt stub boot s) {v : ℕ} (hv : v < 32) (error : Option UInt64) :
    ∃ t, Amd64.deliver v error s = some t ∧
      Entered ⟨stub v, kernelCs, 0, idtFlagPresentInt⟩ error s t := by
  have hinit : gateAt idt (idtInit idt stub boot).mem v =
      ⟨stub v, kernelCs, 0, idtFlagPresentInt⟩ := by
    rw [idtInit, gateAt_setGates idt (by decide), if_pos ⟨Nat.zero_le v, by omega⟩, Nat.sub_zero,
      isrStubTable_eq v hv]
  have hbuilt : gateAt idt (builtIdt idt stub boot).mem v =
      ⟨stub v, kernelCs, 0, idtFlagPresentInt⟩ := by
    rw [builtIdt, idtInstallIrqs, gateAt_setGates idt (by decide),
      if_neg (fun h => absurd hv (Nat.not_lt_of_le h.1)), hinit]
  have hgate : readGate s.mem (s.idtr.base.toNat + 16 * v) =
        ⟨stub v, kernelCs, 0, idtFlagPresentInt⟩ ∧ s.idtr = ⟨4095, idt.base⟩ := by
    rcases hs with h | h
    · exact ⟨(h.readGate rfl (by omega)).trans hinit, h.idtr⟩
    · exact ⟨(h.readGate rfl (by omega)).trans hbuilt, h.idtr⟩
  have hlimit : 16 * v + 15 ≤ s.idtr.limit.toNat := by
    rw [hgate.2]
    show 16 * v + 15 ≤ 4095
    omega
  rw [← hgate.1]
  exact exists_deliver error hlimit (by rw [hgate.1]; exact isInterrupt_gate _)

theorem frameDecoded_iff_decodes {idt : IdtTable} {stub : ℕ → UInt64} {boot s : Cpu}
    (hs : UsesExceptionGates idt stub boot s) (callee : IsrLabel → Cpu → Cpu)
    (addr : IsrCode → UInt64) (vendor : Vendor) {v : ℕ} (hv : v < 32) (code : UInt64) :
    ∃ t, Entered ⟨stub v, kernelCs, 0, idtFlagPresentInt⟩ (vendor.pushed v code) s t ∧
      (FrameDecoded (isrProgram callee addr) stub vendor v code s ↔
        Decodes (InterruptFrame.read ((atExceptionHandler v t).push (addr isrCommonEnd)).mem
          ((atExceptionHandler v t).regs .rdi)) v ((vendor.pushed v code).getD 0) s) := by
  obtain ⟨t, hdeliver, ht⟩ := hs.entered hv (vendor.pushed v code)
  have hrun := reaches_exceptionHandler callee addr hv t
  refine ⟨t, ht, fun h => ?_, fun h => ⟨t, _, hdeliver, ht.rip, hrun, h⟩⟩
  obtain ⟨t', e, hdeliver', _, hrun', hdecodes⟩ := h
  have hsame : t' = t := Option.some_inj.mp (hdeliver'.symm.trans hdeliver)
  subst hsame
  have he := exceptionHandler_unique callee addr hrun' hrun
  rw [he] at hdecodes
  exact hdecodes

theorem frameDecoded_amd_iff {idt : IdtTable} {stub : ℕ → UInt64} {boot s : Cpu}
    (hs : UsesExceptionGates idt stub boot s) (callee : IsrLabel → Cpu → Cpu)
    (addr : IsrCode → UInt64) {v : ℕ} (hv : v = 29 ∨ v = 30) (code : UInt64) :
    FrameDecoded (isrProgram callee addr) stub .amd v code s ↔
      code = 0 ∧ s.rip = 0 ∧ s.cs = 0 ∧ s.rflags = 0 := by
  have hlt : v < 32 := by omega
  have hpushed : Vendor.amd.pushed v code = some code := by
    rcases hv with rfl | rfl <;> rfl
  have herr : v ∉ isrErrVectors := by
    rcases hv with rfl | rfl <;> decide
  obtain ⟨t, ht, hiff⟩ := frameDecoded_iff_decodes hs callee addr .amd hlt code
  rw [hpushed] at ht hiff
  rw [hiff, frame_of_surplus _ ht herr, Option.getD_some]
  exact decodes_shiftedFrame_iff v code s

theorem frameDecoded_of_stub {idt : IdtTable} {stub : ℕ → UInt64} {boot s : Cpu}
    (hs : UsesExceptionGates idt stub boot s) (callee : IsrLabel → Cpu → Cpu)
    (addr : IsrCode → UInt64) (vendor : Vendor) {v : ℕ} (hv : v < 32)
    (hstub : v ∈ vendor.errorVectors ↔ v ∈ isrErrVectors) (code : UInt64) :
    FrameDecoded (isrProgram callee addr) stub vendor v code s := by
  obtain ⟨t, ht, hiff⟩ := frameDecoded_iff_decodes hs callee addr vendor hv code
  rw [hiff]
  unfold Vendor.pushed at ht ⊢
  by_cases herr : v ∈ isrErrVectors
  · rw [if_pos (hstub.mpr herr)] at ht ⊢
    rw [frame_of_error _ ht herr]
    exact decodes_ofCpu v code s
  · rw [if_neg (fun h => herr (hstub.mp h))] at ht ⊢
    rw [frame_of_noerror _ ht herr]
    exact decodes_ofCpu v 0 s

theorem mem_errorVectors_iff {vendor : Vendor} {v : ℕ}
    (h : vendor = .intel ∨ ¬(v = 29 ∨ v = 30)) :
    v ∈ vendor.errorVectors ↔ v ∈ isrErrVectors := by
  cases vendor with
  | intel => exact Iff.rfl
  | amd =>
    rcases h with h | h
    · cases h
    · simp only [Vendor.errorVectors, isrErrVectors, List.mem_cons, List.not_mem_nil, or_false]
      omega

/-- The frame decodes except for an error code of the vectors 29 and 30, unless zeros hide it. -/
theorem frameDecoded_iff {idt : IdtTable} {stub : ℕ → UInt64} {boot s : Cpu}
    (hs : UsesExceptionGates idt stub boot s) (callee : IsrLabel → Cpu → Cpu)
    (addr : IsrCode → UInt64) (vendor : Vendor) {v : ℕ} (hv : v < 32) (code : UInt64) :
    FrameDecoded (isrProgram callee addr) stub vendor v code s ↔
      vendor = .intel ∨ ¬(v = 29 ∨ v = 30) ∨
        code = 0 ∧ s.rip = 0 ∧ s.cs = 0 ∧ s.rflags = 0 := by
  by_cases hvendor : vendor = .intel ∨ ¬(v = 29 ∨ v = 30)
  · have hright := frameDecoded_of_stub hs callee addr vendor hv (mem_errorVectors_iff hvendor) code
    exact iff_of_true hright (hvendor.imp_right Or.inl)
  · rw [not_or, not_not] at hvendor
    obtain ⟨hamd, hwhich⟩ := hvendor
    cases vendor with
    | intel => exact absurd rfl hamd
    | amd =>
      rw [frameDecoded_amd_iff hs callee addr hwhich code]
      constructor
      · exact fun h => Or.inr (Or.inr h)
      · rintro (h | h | h)
        · exact absurd h hamd
        · exact absurd hwhich h
        · exact h

theorem usesExceptionGates_builtIdt (idt : IdtTable) (stub : ℕ → UInt64) (boot : Cpu) :
    UsesExceptionGates idt stub boot (builtIdt idt stub boot) :=
  Or.inr ⟨rfl, fun _ _ _ => rfl⟩

/-- A page fault with the error code 2. -/
theorem frameDecoded_iff_pageFault :
    FrameDecoded (isrProgram (fun _ => returnZero) (fun _ => 0x100500))
      (fun v => 0x101000 + 16 * UInt64.ofNat v) .amd 14 2
      (builtIdt ⟨0x106000, by decide⟩ (fun v => 0x101000 + 16 * UInt64.ofNat v) idleCpu) := by
  have hs := usesExceptionGates_builtIdt ⟨0x106000, by decide⟩
    (fun v => 0x101000 + 16 * UInt64.ofNat v) idleCpu
  exact (frameDecoded_iff hs (fun _ => returnZero) (fun _ => 0x100500) .amd (by decide) 2).mpr
    (Or.inr (Or.inl (by decide)))

/-- A VMM communication exception, with the error code 2, on an AMD processor. -/
theorem not_frameDecoded_vmmCommunication :
    ¬FrameDecoded (isrProgram (fun _ => returnZero) (fun _ => 0x100500))
      (fun v => 0x101000 + 16 * UInt64.ofNat v) .amd 29 2
      (builtIdt ⟨0x106000, by decide⟩ (fun v => 0x101000 + 16 * UInt64.ofNat v) idleCpu) := by
  have hs := usesExceptionGates_builtIdt ⟨0x106000, by decide⟩
    (fun v => 0x101000 + 16 * UInt64.ofNat v) idleCpu
  rw [frameDecoded_amd_iff hs _ _ (Or.inl rfl)]
  exact fun h => absurd h.1 (by decide)

end Nadir
