import Nadir.Interrupt.Idt
import Nadir.Interrupt.Stubs

/-!
# An interrupt line resumes the interrupted code

The processor enters the stub of the vector, `irq_common` builds the frame and calls
`irq_dispatch`, and what it pops afterwards is what it pushed. `irq_dispatch` may change any
register but `RSP` and any memory but the frame: the fifteen registers, `RIP`, `RSP` and `RFLAGS`
come back as they were.
-/

namespace Nadir

open Amd64 ByteMem

/-- What a C function with one pointer argument keeps when it is called at `s`: it returns above the
return address, and the frame behind the pointer is as it was. -/
structure KeepsFrame (f : Cpu → Cpu) (s : Cpu) : Prop where
  rsp : (f s).regs .rsp = s.regs .rsp + 8
  frame : InterruptFrame.read (f s).mem (s.regs .rdi) = InterruptFrame.read s.mem (s.regs .rdi)

/-- Interrupted at `s`, the processor uses the table that `b` has. -/
structure UsesIdt (idt : IdtTable) (b s : Cpu) : Prop where
  idtr : s.idtr = b.idtr
  mem : ∀ a, idt.base.toNat ≤ a → a < idt.base.toNat + 4096 → s.mem a = b.mem a

/-- The common entry code up to its call. -/
def saveRegs (s : Cpu) : Cpu := (s.pushRegs isrPushed).set .rdi ((s.pushRegs isrPushed).regs .rsp)

theorem saveRegs_stacked {s t : Cpu} {ws : List UInt64} (hregs : ∀ r ≠ .rsp, t.regs r = s.regs r)
    (ht : t.Stacked ws) (hlen : ws.length ≤ 8) :
    (saveRegs t).Stacked (isrPushed.reverse.map s.regs ++ ws) := by
  have hrsp : Reg.rsp ∉ isrPushed := by decide
  have hmap : isrPushed.reverse.map t.regs = isrPushed.reverse.map s.regs := by
    apply List.map_congr_left
    intro r hr
    apply hregs
    rintro rfl
    exact hrsp (List.mem_reverse.mp hr)
  have hroom : 8 * ((isrPushed.reverse.map s.regs).length + ws.length) < 2 ^ 64 := by
    have hpushed : (isrPushed.reverse.map s.regs).length = 15 := rfl
    omega
  rw [saveRegs, t.pushRegs_eq hrsp, hmap]
  exact (ht.pushWords _ hroom).set _ (by decide)

theorem saveRegs_rdi (s : Cpu) : (saveRegs s).regs .rdi = (saveRegs s).regs .rsp := by
  rw [saveRegs, Cpu.set_regs_self, Cpu.set_regs_of_ne _ _ (by decide)]

theorem saveRegs_rsp (s : Cpu) : (saveRegs s).regs .rsp = s.regs .rsp - 120 := by
  rw [saveRegs, Cpu.set_regs_of_ne _ _ (by decide), s.pushRegs_eq (by decide), Cpu.pushWords_rsp]
  rfl

theorem mem_irqPopped : ∀ r ≠ .rsp, r ∈ irqPopped := by
  intro r hr
  cases r <;> first | decide | exact absurd rfl hr

/-- The end of `irq_common` gives the interrupted state back from the frame. -/
theorem reaches_restore (p : Program IsrLabel) {c s : Cpu} {vector error : UInt64}
    (hc : c.Stacked (isrPushed.reverse.map s.regs ++ vector :: error :: frameWords none s)) :
    ∃ out, p.Reaches (irqCommonRestore, c) ([], out) ∧ (∀ r, out.regs r = s.regs r) ∧
      out.rip = s.rip ∧ out.rflags = s.rflags ∧ out.cs = s.cs ∧ out.ss = s.ss := by
  have horder : isrPushed.reverse = irqPopped := rfl
  rw [horder] at hc
  obtain ⟨hpopped, hregs⟩ := hc.popRegs (by decide)
  let d := (c.popRegs irqPopped).set .rsp ((c.popRegs irqPopped).regs .rsp + 16)
  have hframe : d.Stacked (frameWords none s) := hpopped.drop_two
  have hrun : p.Reaches (irqCommonRestore, c) ([], d.iretq) :=
    (p.reaches_popRegs irqPopped _ c).trans ((p.reaches_step _).trans (p.reaches_step _))
  refine ⟨d.iretq, hrun, ?_⟩
  rw [hframe.iretq]
  refine ⟨fun r => ?_, rfl, rfl, UInt16.toUInt16_toUInt64 s.cs, UInt16.toUInt16_toUInt64 s.ss⟩
  by_cases hr : r = .rsp
  · rw [hr]
    exact d.set_regs_self _ .rsp
  · have hother : d.regs r = (c.popRegs irqPopped).regs r := Cpu.set_regs_of_ne _ _ hr
    have hval := hregs r hr
    rw [if_pos (mem_irqPopped r hr)] at hval
    exact (d.set_regs_of_ne _ hr).trans (hother.trans hval)

/-- The state in which `irq_common` calls `irq_dispatch`, after the stub of `v` was entered at
`t`. -/
def atIrqDispatch (v : ℕ) (t : Cpu) : Cpu := saveRegs ((t.push 0).push (UInt64.ofNat v))

theorem reaches_irqDispatch (callee : IsrLabel → Cpu → Cpu) (addr : IsrCode → UInt64) {v : ℕ}
    (hlo : 32 ≤ v) (hhi : v < 48) (t : Cpu) :
    (isrProgram callee addr).Reaches (isrStub v, t)
      (.call .irqDispatch :: irqCommonRestore, atIrqDispatch v t) := by
  have hstub : isrStub v = irqNoerr v := by rw [isrStub, if_neg (by omega), if_pos hhi]
  rw [hstub]
  let p := isrProgram callee addr
  have hpush : p.Reaches (irqNoerr v, t) (irqCommon, (t.push 0).push (UInt64.ofNat v)) :=
    (p.reaches_step _).trans ((p.reaches_step _).trans (p.reaches_step _))
  exact hpush.trans ((p.reaches_pushRegs isrPushed _ _).trans (p.reaches_step _))

section Entry

variable {g : Gate} {s t : Cpu} (ht : Entered g none s t) (v : ℕ)
include ht

theorem atIrqDispatch_stacked : (atIrqDispatch v t).Stacked
    (isrPushed.reverse.map s.regs ++ UInt64.ofNat v :: 0 :: frameWords none s) := by
  apply saveRegs_stacked
  · intro r hr
    rw [Cpu.push_regs_of_ne _ _ hr, Cpu.push_regs_of_ne _ _ hr, ht.regs r hr]
  · exact (ht.stacked.push 0 (by simp [frameWords])).push _ (by simp [frameWords])
  · exact Nat.le_succ 7

theorem atIrqDispatch_rsp :
    (atIrqDispatch v t).regs .rsp = s.regs .rsp - s.regs .rsp % 16 - 176 := by
  rw [atIrqDispatch, saveRegs_rsp, Cpu.push_rsp, Cpu.push_rsp, ht.rsp]
  simp only [frameWords, Option.toList, List.nil_append, List.length_cons, List.length_nil]
  grind

theorem atIrqDispatch_aligned : ((atIrqDispatch v t).regs .rsp).toNat % 16 = 0 := by
  have hmod := toNat_sub_mod_sixteen (s.regs .rsp)
  rw [atIrqDispatch_rsp ht, UInt64.toNat_sub]
  simp only [UInt64.reduceToNat]
  omega

theorem read_atIrqDispatch (ret : UInt64) :
    InterruptFrame.read ((atIrqDispatch v t).push ret).mem ((atIrqDispatch v t).regs .rdi) =
      InterruptFrame.ofCpu s (UInt64.ofNat v) 0 := by
  have he := atIrqDispatch_stacked ht v
  have hrdi : (atIrqDispatch v t).regs .rdi = (atIrqDispatch v t).regs .rsp := saveRegs_rdi _
  rw [hrdi]
  exact InterruptFrame.read_push (he : (atIrqDispatch v t).Stacked (_ ++ [])) (Nat.zero_le 1) ret

theorem afterIrqDispatch_stacked {f : Cpu → Cpu} {ret : UInt64}
    (hf : KeepsFrame f ((atIrqDispatch v t).push ret)) :
    (f ((atIrqDispatch v t).push ret)).Stacked
      (isrPushed.reverse.map s.regs ++ UInt64.ofNat v :: 0 :: frameWords none s) := by
  have he := atIrqDispatch_stacked ht v
  have hcall := read_atIrqDispatch ht v ret
  have hrdi : (atIrqDispatch v t).regs .rdi = (atIrqDispatch v t).regs .rsp := saveRegs_rdi _
  generalize atIrqDispatch v t = e at he hcall hrdi hf ⊢
  have hback : (e.push ret).regs .rsp + 8 = e.regs .rsp := by
    rw [Cpu.push_rsp, UInt64.sub_add_cancel]
  have hsame := hf.frame
  have hret := hf.rsp
  rw [Cpu.push_regs_of_ne _ _ (by decide), hcall, hrdi] at hsame
  rw [hback] at hret
  have hplace : ((f (e.push ret)).regs .rsp).toNat % 8 = 0 := by
    rw [hret]
    exact he.aligned
  have hwords := (InterruptFrame.read_eq_iff _ _ _ _ _).mp hsame
  rw [← hret] at hwords
  exact ⟨hplace, hwords⟩

end Entry

theorem isInterrupt_gate (h : UInt64) :
    Gate.IsInterrupt ⟨h, kernelCs, 0, idtFlagPresentInt⟩ := by
  have hpresent : idtFlagPresentInt &&& 0x80 ≠ 0 := by decide
  have hinterrupt : idtFlagPresentInt &&& 0x0F = 0x0E := by decide
  exact ⟨hpresent, hinterrupt, rfl⟩

theorem UsesIdt.readGate {idt : IdtTable} {b s : Cpu} (hs : UsesIdt idt b s)
    (hbase : b.idtr.base = idt.base) {v : ℕ} (hv : v < 256) :
    readGate s.mem (s.idtr.base.toNat + 16 * v) = gateAt idt b.mem v := by
  rw [hs.idtr, hbase]
  exact gateAt_congr hv hs.mem

/-- An interrupt line enters its stub and calls `irq_dispatch` with the interrupted registers in the
frame. If that call keeps the frame, whatever else it does to the registers, the stack below and the
rest of memory, the interrupted code is resumed; the vectors from 48 on are not present. -/
theorem irq_resumes (idt : IdtTable) (stub : ℕ → UInt64) (addr : IsrCode → UInt64)
    (callee : IsrLabel → Cpu → Cpu) {boot s : Cpu}
    (hboot : ZeroedTable idt boot.mem) (hs : UsesIdt idt (builtIdt idt stub boot) s) :
    (∀ v, 32 ≤ v → v < 48 → ∃ t e, Amd64.deliver v none s = some t ∧ t.rip = stub v ∧
      (isrProgram callee addr).Reaches ((isrProgram callee addr).text (.isrStub v), t)
        (.call .irqDispatch :: irqCommonRestore, e) ∧
      InterruptFrame.read (e.push (addr irqCommonRestore)).mem (e.regs .rdi) =
        InterruptFrame.ofCpu s (UInt64.ofNat v) 0 ∧
      (e.regs .rsp).toNat % 16 = 0 ∧ e.regs .rdi = e.regs .rsp ∧
      e.regs .rsp = s.regs .rsp - s.regs .rsp % 16 - 176 ∧
      (KeepsFrame (callee .irqDispatch) (e.push (addr irqCommonRestore)) →
        ∃ out, (isrProgram callee addr).Reaches (.call .irqDispatch :: irqCommonRestore, e)
            ([], out) ∧
          (∀ r, out.regs r = s.regs r) ∧ out.rip = s.rip ∧ out.rflags = s.rflags ∧
          out.cs = s.cs ∧ out.ss = s.ss)) ∧
    ∀ v, 48 ≤ v → v < 256 → ¬(gateAt idt s.mem v).Present := by
  constructor
  · intro v hlo hhi
    let p := isrProgram callee addr
    have hgate : readGate s.mem (s.idtr.base.toNat + 16 * v) =
        ⟨stub v, kernelCs, 0, idtFlagPresentInt⟩ := by
      rw [hs.readGate rfl (by omega), gateAt_builtIdt hboot stub (by omega), if_pos hhi]
    have hlimit : 16 * v + 15 ≤ s.idtr.limit.toNat := by
      rw [hs.idtr]
      show 16 * v + 15 ≤ 4095
      omega
    obtain ⟨t, hdeliver, ht⟩ := exists_deliver none hlimit (by rw [hgate]; exact isInterrupt_gate _)
    refine ⟨t, atIrqDispatch v t, hdeliver, ht.rip.trans (by rw [hgate]),
      reaches_irqDispatch callee addr hlo hhi t, read_atIrqDispatch ht v _,
      atIrqDispatch_aligned ht v, saveRegs_rdi _, atIrqDispatch_rsp ht v, fun hcallee => ?_⟩
    obtain ⟨out, hrun, hsame⟩ := reaches_restore p (afterIrqDispatch_stacked ht v hcallee)
    exact ⟨out, (p.reaches_step _).trans hrun, hsame⟩
  · intro v hlo hhi
    rw [gateAt_congr hhi hs.mem, gateAt_builtIdt hboot stub hhi, if_neg (by omega)]
    decide

/-- The kernel in its idle loop, with the table at 0x106000. -/
def idleCpu : Cpu where
  regs r := if r = .rsp then 0x9FFE8 else 7
  rip := 0x100400
  rflags := 0x202
  cs := 0x18
  ss := 0x20
  idtr := ⟨0, 0⟩
  mem _ := 0

/-- A C function that changes `RAX` and returns. -/
def returnZero (s : Cpu) : Cpu := (s.set .rax 0).set .rsp (s.regs .rsp + 8)

/-- A C function that saves `RBX` on its stack, counts in a global and returns. -/
def countTick (ticks : ℕ) (s : Cpu) : Cpu :=
  let t := s.push (s.regs .rbx)
  let t := { t with mem := store64 t.mem ticks (load64 t.mem ticks + 1) }
  let t := (t.set .rax 0).pop .rbx
  t.set .rsp (t.regs .rsp + 8)

/-- Its own stack is below the frame; the global must not lie in the frame. -/
theorem keepsFrame_countTick {ticks : ℕ} {s : Cpu} (hrdi : s.regs .rdi = s.regs .rsp + 8)
    (hlo : 8 ≤ (s.regs .rsp).toNat) (hhi : (s.regs .rsp).toNat + 184 ≤ 2 ^ 64)
    (hticks : ticks + 8 ≤ (s.regs .rsp).toNat + 8 ∨ (s.regs .rsp).toNat + 184 ≤ ticks) :
    KeepsFrame (countTick ticks) s := by
  have hframe : (s.regs .rsp + 8).toNat = (s.regs .rsp).toNat + 8 := by
    rw [UInt64.toNat_add]
    simp only [UInt64.reduceToNat]
    omega
  have hbelow : (s.regs .rsp - 8).toNat = (s.regs .rsp).toNat - 8 := by
    rw [UInt64.toNat_sub]
    simp only [UInt64.reduceToNat]
    omega
  constructor
  case rsp =>
    rw [countTick, Cpu.set_regs_self, Cpu.pop_rsp _ (by decide), Cpu.set_regs_of_ne _ _ (by decide)]
    dsimp only
    rw [Cpu.push_rsp, UInt64.sub_add_cancel]
  case frame =>
    rw [hrdi]
    apply InterruptFrame.read_congr (by omega)
    intro b hb hb'
    have hmem : (countTick ticks s).mem = store64 (s.push (s.regs .rbx)).mem ticks
        (load64 (s.push (s.regs .rbx)).mem ticks + 1) := rfl
    have hpush : (s.push (s.regs .rbx)).mem b = s.mem b := store64_of_outside _ _ (by omega)
    rw [hmem, store64_of_outside _ _ (by omega), hpush]

/-- A tick of the timer, counted in memory. -/
theorem irq_resumes_timer :
    let s := builtIdt ⟨0x106000, by decide⟩ (fun v => 0x101000 + 16 * UInt64.ofNat v) idleCpu
    ∃ t out, Amd64.deliver 32 none s = some t ∧ t.rip = 0x101200 ∧
      (isrProgram (fun _ => countTick 0x105000) (fun _ => 0x100500)).Reaches (isrStub 32, t)
        ([], out) ∧
      out.regs .rax = 7 ∧ out.regs .rsp = 0x9FFE8 ∧ out.rip = 0x100400 ∧ out.rflags = 0x202 := by
  intro s
  have hzero : ZeroedTable ⟨0x106000, by decide⟩ idleCpu.mem := fun _ _ _ => rfl
  have hs : UsesIdt ⟨0x106000, by decide⟩ s s := ⟨rfl, fun _ _ _ => rfl⟩
  obtain ⟨hirq, _⟩ := irq_resumes ⟨0x106000, by decide⟩ (fun v => 0x101000 + 16 * UInt64.ofNat v)
    (fun _ => 0x100500) (fun _ => countTick 0x105000) hzero hs
  obtain ⟨t, e, hdeliver, hrip, hcall, _, _, hrdi, hrsp, hresumes⟩ :=
    hirq 32 (by decide) (by decide)
  have hplace : ((e.push 0x100500).regs .rsp).toNat = 0x9FF28 := by
    have hidle : s.regs .rsp = 0x9FFE8 := rfl
    rw [Cpu.push_rsp, hrsp, hidle]
    rfl
  have hpointer : (e.push 0x100500).regs .rdi = (e.push 0x100500).regs .rsp + 8 := by
    rw [Cpu.push_regs_of_ne _ _ (by decide), Cpu.push_rsp, UInt64.sub_add_cancel, hrdi]
  obtain ⟨out, hret, hregs, hout, hflags, _⟩ := hresumes (keepsFrame_countTick hpointer (by omega)
    (by omega) (by omega))
  exact ⟨t, out, hdeliver, hrip, hcall.trans hret, hregs .rax, hregs .rsp, hout, hflags⟩

end Nadir
