import Nadir.Lib.Mem
import Mathlib.Logic.Function.Iterate

/-!
# A 64-bit x86 processor: stack, gates and interrupts

The instructions here are those that entry code is made of. Addresses are 64-bit words and wrap;
a stack whose pointer is a multiple of 8 consists of words that do not overlap, whichever way it
wraps. Code is a list of instructions under each label, and the functions it calls are given by
what they do to the processor.

Pushing registers and popping them in the opposite order gives them back, whatever happens to the
registers in between, as long as the words on the stack stay.
-/

namespace Amd64

open ByteMem

inductive Reg where
  | rax | rbx | rcx | rdx | rsi | rdi | rbp | rsp
  | r8 | r9 | r10 | r11 | r12 | r13 | r14 | r15
  deriving DecidableEq, Repr

structure Idtr where
  limit : UInt16
  base : UInt64
  deriving DecidableEq, Repr

structure Cpu where
  regs : Reg → UInt64
  rip : UInt64
  rflags : UInt64
  cs : UInt16
  ss : UInt16
  idtr : Idtr
  mem : Mem

namespace Cpu

def set (r : Reg) (v : UInt64) (s : Cpu) : Cpu := { s with regs := Function.update s.regs r v }

def push (v : UInt64) (s : Cpu) : Cpu :=
  { s.set .rsp (s.regs .rsp - 8) with mem := store64 s.mem (s.regs .rsp - 8).toNat v }

def pop (r : Reg) (s : Cpu) : Cpu :=
  (s.set .rsp (s.regs .rsp + 8)).set r (load64 s.mem (s.regs .rsp).toNat)

/-- Pops `RIP`, `CS`, `RFLAGS`, `RSP` and `SS`. -/
def iretq (s : Cpu) : Cpu :=
  let sp := s.regs .rsp
  { s.set .rsp (load64 s.mem (sp + 24).toNat) with
    rip := load64 s.mem sp.toNat
    cs := (load64 s.mem (sp + 8).toNat).toUInt16
    rflags := load64 s.mem (sp + 16).toNat
    ss := (load64 s.mem (sp + 32).toNat).toUInt16 }

end Cpu

/-- What the processor reads from a gate descriptor of 16 bytes. -/
structure Gate where
  offset : UInt64
  selector : UInt16
  ist : UInt8
  typeAttr : UInt8
  deriving DecidableEq, Repr

/-- The offset is in three parts: bytes 0 and 1, 6 and 7, and 8 to 11. -/
def readGate (m : Mem) (a : ℕ) : Gate where
  offset := UInt64.ofNat ((load16 m a).toNat + 2 ^ 16 * (load16 m (a + 6)).toNat +
    2 ^ 32 * (load32 m (a + 8)).toNat)
  selector := load16 m (a + 2)
  ist := m (a + 4)
  typeAttr := m (a + 5)

/-- Bit 7 of the attributes. -/
def Gate.Present (g : Gate) : Prop := g.typeAttr &&& 0x80 ≠ 0

/-- A present 64-bit interrupt gate on the current stack. -/
def Gate.IsInterrupt (g : Gate) : Prop := g.Present ∧ g.typeAttr &&& 0x0F = 0x0E ∧ g.ist = 0

instance (g : Gate) : Decidable g.Present := inferInstanceAs (Decidable (_ ≠ _))

instance (g : Gate) : Decidable g.IsInterrupt := inferInstanceAs (Decidable (_ ∧ _))

/-- The flags an interrupt gate clears: `TF`, `IF`, `NT`, `RF` and `VM`. -/
def gateFlags : UInt64 := 0x34300

/-- Delivers vector `v` without a change of privilege: through an interrupt gate the processor
aligns the stack, pushes `SS`, `RSP`, `RFLAGS`, `CS`, `RIP` and the error code, if the vector has
one, and enters the handler. The flags of `s` are those that are pushed: for a fault they are the
interrupted ones with `RF` set. -/
def deliver (v : ℕ) (error : Option UInt64) (s : Cpu) : Option Cpu :=
  let g := readGate s.mem (s.idtr.base.toNat + 16 * v)
  if 16 * v + 15 ≤ s.idtr.limit.toNat ∧ g.IsInterrupt then
    let t := s.set .rsp (s.regs .rsp - s.regs .rsp % 16)
    let t := t.push s.ss.toUInt64
    let t := t.push (s.regs .rsp)
    let t := t.push s.rflags
    let t := t.push s.cs.toUInt64
    let t := t.push s.rip
    let t := error.elim t t.push
    some { t with rip := g.offset, cs := g.selector, rflags := s.rflags &&& ~~~gateFlags }
  else none

/-- Instructions, with the labels `L` they jump to and call. -/
inductive Instr (L : Type) where
  | pushImm (v : UInt64)
  | push (r : Reg)
  | pop (r : Reg)
  | mov (dst src : Reg)
  | add (r : Reg) (v : UInt64)
  | call (l : L)
  | jmp (l : L)
  | cli
  | hlt
  | iretq

/-- The code under each label, what each called function does between its entry and its return,
and the address of the code that is left, which a call pushes. -/
structure Program (L : Type) where
  text : L → List (Instr L)
  callee : L → Cpu → Cpu
  addr : List (Instr L) → UInt64

/-- One instruction. The flags of `add` are left out: here `iretq` replaces them. `hlt` waits for
an interrupt. -/
def Program.step {L : Type} (p : Program L) : List (Instr L) × Cpu → List (Instr L) × Cpu
  | ([], s) => ([], s)
  | (.pushImm v :: is, s) => (is, s.push v)
  | (.push r :: is, s) => (is, s.push (s.regs r))
  | (.pop r :: is, s) => (is, s.pop r)
  | (.mov dst src :: is, s) => (is, s.set dst (s.regs src))
  | (.add r v :: is, s) => (is, s.set r (s.regs r + v))
  | (.call l :: is, s) => (is, p.callee l (s.push (p.addr is)))
  | (.jmp l :: _, s) => (p.text l, s)
  | (.cli :: is, s) => (is, { s with rflags := s.rflags &&& ~~~0x200 })
  | (.hlt :: is, s) => (.hlt :: is, s)
  | (.iretq :: _, s) => ([], s.iretq)

/-- The code gets from one place to another. -/
def Program.Reaches {L : Type} (p : Program L) (x y : List (Instr L) × Cpu) : Prop :=
  ∃ n, p.step^[n] x = y

/-- The words on the stack from `sp` upward. -/
def Words (m : Mem) : UInt64 → List UInt64 → Prop
  | _, [] => True
  | sp, w :: ws => load64 m sp.toNat = w ∧ Words m (sp + 8) ws

namespace Words

variable {m : Mem} {sp : UInt64} {ws : List UInt64}

theorem of_append {vs : List UInt64} (h : Words m sp (vs ++ ws)) : Words m sp vs := by
  induction vs generalizing sp with
  | nil => trivial
  | cons v vs ih => exact ⟨h.1, ih h.2⟩

theorem store_below (hsp : sp.toNat % 8 = 0) (h : Words m sp ws) (v : UInt64) {d : UInt64}
    (hd : d.toNat % 8 = 0) (hpos : 0 < d.toNat) (hroom : d.toNat + 8 * ws.length < 2 ^ 64) :
    Words (store64 m (sp - d).toNat v) sp ws := by
  induction ws generalizing sp d with
  | nil => trivial
  | cons w ws ih =>
    have hlt := sp.toNat_lt
    rw [List.length_cons] at hroom
    have hplace : (sp - d).toNat = (2 ^ 64 - d.toNat + sp.toNat) % 2 ^ 64 := UInt64.toNat_sub sp d
    constructor
    · rw [load64_store64_of_disjoint m v (by omega)]
      exact h.1
    · have hnext : (sp + 8).toNat % 8 = 0 := by
        rw [UInt64.toNat_add]
        simp only [UInt64.reduceToNat]
        omega
      have hgap : (d + 8).toNat = d.toNat + 8 := by
        rw [UInt64.toNat_add]
        simp only [UInt64.reduceToNat]
        omega
      have hsame : sp + 8 - (d + 8) = sp - d := by
        rw [← UInt64.toNat_inj, UInt64.toNat_sub, hplace, hgap, UInt64.toNat_add]
        simp only [UInt64.reduceToNat]
        omega
      have hrest := ih hnext h.2 (show (d + 8).toNat % 8 = 0 by omega) (by omega) (by omega)
      rwa [hsame] at hrest

theorem push (hsp : sp.toNat % 8 = 0) (h : Words m sp ws) (v : UInt64)
    (hroom : 8 + 8 * ws.length < 2 ^ 64) :
    Words (store64 m (sp - 8).toNat v) (sp - 8) (v :: ws) := by
  have hback : sp - 8 + 8 = sp := UInt64.sub_add_cancel sp 8
  refine ⟨load64_store64_self m _ v, ?_⟩
  rw [hback]
  exact h.store_below hsp v (d := 8) rfl (Nat.succ_pos 7) hroom

end Words

namespace Cpu

variable {s : Cpu} {r : Reg}

@[simp] theorem set_regs_self (v : UInt64) (s : Cpu) (r : Reg) : (s.set r v).regs r = v := by
  simp [set]

theorem set_regs_of_ne (v : UInt64) (s : Cpu) {q : Reg} (h : q ≠ r) :
    (s.set r v).regs q = s.regs q := by
  simp [set, h]

@[simp] theorem push_rsp (v : UInt64) (s : Cpu) : (s.push v).regs .rsp = s.regs .rsp - 8 :=
  set_regs_self _ s .rsp

theorem push_regs_of_ne (v : UInt64) (s : Cpu) (h : r ≠ .rsp) : (s.push v).regs r = s.regs r :=
  s.set_regs_of_ne _ h

theorem pop_rsp (s : Cpu) (h : r ≠ .rsp) : (s.pop r).regs .rsp = s.regs .rsp + 8 := by
  rw [pop, set_regs_of_ne _ _ h.symm, set_regs_self]

theorem pop_regs_of_ne (s : Cpu) {q : Reg} (hq : q ≠ .rsp) (h : q ≠ r) :
    (s.pop r).regs q = s.regs q := by
  rw [pop, set_regs_of_ne _ _ h, set_regs_of_ne _ _ hq]

theorem pop_regs_self (s : Cpu) (r : Reg) :
    (s.pop r).regs r = load64 s.mem (s.regs .rsp).toNat := set_regs_self _ _ _

/-- The stack pointer is a multiple of 8 and the words `ws` are on top of the stack. -/
structure Stacked (s : Cpu) (ws : List UInt64) : Prop where
  aligned : (s.regs .rsp).toNat % 8 = 0
  words : Words s.mem (s.regs .rsp) ws

theorem Stacked.push {ws : List UInt64} (h : s.Stacked ws) (v : UInt64)
    (hroom : 8 + 8 * ws.length < 2 ^ 64) : (s.push v).Stacked (v :: ws) := by
  have haligned := h.aligned
  constructor
  · rw [push_rsp, UInt64.toNat_sub]
    simp only [UInt64.reduceToNat]
    omega
  · rw [push_rsp]
    exact h.words.push haligned v hroom

theorem Stacked.pop {w : UInt64} {ws : List UInt64} (h : s.Stacked (w :: ws)) (hr : r ≠ .rsp) :
    (s.pop r).Stacked ws ∧ (s.pop r).regs r = w := by
  have haligned := h.aligned
  obtain ⟨hfirst, hrest⟩ := h.words
  have hplace : ((s.pop r).regs .rsp).toNat % 8 = 0 := by
    rw [s.pop_rsp hr, UInt64.toNat_add]
    simp only [UInt64.reduceToNat]
    omega
  have hwords : Words (s.pop r).mem ((s.pop r).regs .rsp) ws := by
    rw [s.pop_rsp hr]
    exact hrest
  exact ⟨⟨hplace, hwords⟩, (s.pop_regs_self r).trans hfirst⟩

theorem Stacked.drop_two {v w : UInt64} {ws : List UInt64} (h : s.Stacked (v :: w :: ws)) :
    (s.set .rsp (s.regs .rsp + 16)).Stacked ws := by
  have haligned := h.aligned
  obtain ⟨_, _, hrest⟩ := h.words
  rw [UInt64.add_assoc] at hrest
  constructor
  · rw [set_regs_self, UInt64.toNat_add]
    simp only [UInt64.reduceToNat]
    omega
  · rw [set_regs_self]
    exact hrest

theorem Stacked.iretq {rip cs rflags rsp ss : UInt64} {ws : List UInt64}
    (h : s.Stacked (rip :: cs :: rflags :: rsp :: ss :: ws)) :
    s.iretq = { s.set .rsp rsp with
      rip := rip, cs := cs.toUInt16, rflags := rflags, ss := ss.toUInt16 } := by
  obtain ⟨hrip, hcs, hrflags, hrsp, hss, _⟩ := h.words
  simp only [UInt64.add_assoc, UInt64.reduceAdd] at hcs hrflags hrsp hss
  simp only [Cpu.iretq, hrip, hcs, hrflags, hrsp, hss]

theorem Stacked.set {ws : List UInt64} (h : s.Stacked ws) (v : UInt64) (hr : r ≠ .rsp) :
    (s.set r v).Stacked ws := by
  have hsame := s.set_regs_of_ne v hr.symm
  exact ⟨by rw [hsame]; exact h.aligned, by rw [hsame]; exact h.words⟩

/-- Pushes the words, the first one last. -/
def pushWords (ws : List UInt64) (s : Cpu) : Cpu := ws.foldr push s

def pushRegs (rs : List Reg) (s : Cpu) : Cpu := rs.foldl (fun s r => s.push (s.regs r)) s

def popRegs (rs : List Reg) (s : Cpu) : Cpu := rs.foldl (fun s r => s.pop r) s

theorem pushWords_regs_of_ne (ws : List UInt64) (s : Cpu) (h : r ≠ .rsp) :
    (s.pushWords ws).regs r = s.regs r := by
  induction ws with
  | nil => rfl
  | cons w ws ih => exact ((s.pushWords ws).push_regs_of_ne w h).trans ih

theorem pushWords_rsp (ws : List UInt64) (s : Cpu) :
    (s.pushWords ws).regs .rsp = s.regs .rsp - 8 * UInt64.ofNat ws.length := by
  induction ws with
  | nil => exact (UInt64.sub_zero _).symm
  | cons w ws ih =>
    have hstep : (s.pushWords (w :: ws)).regs .rsp = (s.pushWords ws).regs .rsp - 8 :=
      push_rsp w (s.pushWords ws)
    have hlen : UInt64.ofNat (w :: ws).length = UInt64.ofNat ws.length + 1 :=
      UInt64.ofNat_add ws.length 1
    rw [hstep, ih, hlen]
    grind

theorem Stacked.pushWords {ws : List UInt64} (h : s.Stacked ws) (vs : List UInt64)
    (hroom : 8 * (vs.length + ws.length) < 2 ^ 64) : (s.pushWords vs).Stacked (vs ++ ws) := by
  induction vs with
  | nil => exact h
  | cons v vs ih =>
    rw [List.length_cons] at hroom
    exact (ih (by omega)).push v (by rw [List.length_append]; omega)

theorem pushRegs_eq {rs : List Reg} (s : Cpu) (hrsp : .rsp ∉ rs) :
    s.pushRegs rs = s.pushWords (rs.reverse.map s.regs) := by
  induction rs generalizing s with
  | nil => rfl
  | cons r rs ih =>
    rw [List.mem_cons, not_or] at hrsp
    have hsame : rs.reverse.map (s.push (s.regs r)).regs = rs.reverse.map s.regs := by
      apply List.map_congr_left
      intro q hq
      apply s.push_regs_of_ne
      rintro rfl
      exact hrsp.2 (List.mem_reverse.mp hq)
    have hnext : s.pushRegs (r :: rs) = _ := ih (s.push (s.regs r)) hrsp.2
    rw [hnext, hsame, List.reverse_cons, List.map_append, pushWords, pushWords, List.foldr_append]
    rfl

theorem Stacked.popRegs {val : Reg → UInt64} {ws : List UInt64} {rs : List Reg}
    (h : s.Stacked (rs.map val ++ ws)) (hrsp : .rsp ∉ rs) :
    (Cpu.popRegs rs s).Stacked ws ∧
      ∀ q ≠ .rsp, (Cpu.popRegs rs s).regs q = if q ∈ rs then val q else s.regs q := by
  induction rs generalizing s with
  | nil => exact ⟨h, fun q _ => rfl⟩
  | cons r rs ih =>
    rw [List.mem_cons, not_or] at hrsp
    obtain ⟨hpop, hval⟩ := h.pop (Ne.symm hrsp.1)
    obtain ⟨hrest, hregs⟩ := ih hpop hrsp.2
    refine ⟨hrest, fun q hq => ?_⟩
    have hq' : (Cpu.popRegs (r :: rs) s).regs q = _ := hregs q hq
    rw [hq']
    by_cases hmem : q ∈ rs
    · rw [if_pos hmem, if_pos (List.mem_cons_of_mem _ hmem)]
    · rw [if_neg hmem]
      by_cases hqr : q = r
      · rw [if_pos (hqr ▸ List.mem_cons_self), hqr, hval]
      · rw [if_neg (by rw [List.mem_cons, not_or]; exact ⟨hqr, hmem⟩), s.pop_regs_of_ne hq hqr]

end Cpu

/-- The words on the stack when a handler is entered. -/
def frameWords (error : Option UInt64) (s : Cpu) : List UInt64 :=
  error.toList ++ [s.rip, s.cs.toUInt64, s.rflags, s.regs .rsp, s.ss.toUInt64]

/-- The state `t` in which the handler behind the gate `g` is entered from `s`. -/
structure Entered (g : Gate) (error : Option UInt64) (s t : Cpu) : Prop where
  rip : t.rip = g.offset
  cs : t.cs = g.selector
  regs : ∀ r ≠ .rsp, t.regs r = s.regs r
  rsp : t.regs .rsp =
    s.regs .rsp - s.regs .rsp % 16 - 8 * UInt64.ofNat (frameWords error s).length
  stacked : t.Stacked (frameWords error s)

theorem toNat_sub_mod_sixteen (a : UInt64) : (a - a % 16).toNat % 16 = 0 := by
  have hlt := a.toNat_lt
  have hmod : (a % 16).toNat = a.toNat % 16 := UInt64.toNat_mod a 16
  rw [UInt64.toNat_sub, hmod]
  omega

theorem exists_deliver {v : ℕ} {s : Cpu} (error : Option UInt64)
    (hlimit : 16 * v + 15 ≤ s.idtr.limit.toNat)
    (hgate : (readGate s.mem (s.idtr.base.toNat + 16 * v)).IsInterrupt) :
    ∃ t, deliver v error s = some t ∧
      Entered (readGate s.mem (s.idtr.base.toNat + 16 * v)) error s t := by
  let a := s.set .rsp (s.regs .rsp - s.regs .rsp % 16)
  let t : Cpu := { a.pushWords (frameWords error s) with
    rip := (readGate s.mem (s.idtr.base.toNat + 16 * v)).offset
    cs := (readGate s.mem (s.idtr.base.toNat + 16 * v)).selector
    rflags := s.rflags &&& ~~~gateFlags }
  have hdeliver : deliver v error s = some t := by
    rw [deliver, if_pos ⟨hlimit, hgate⟩]
    cases error with
    | none => rfl
    | some e => rfl
  have hrsp : a.regs .rsp = s.regs .rsp - s.regs .rsp % 16 := s.set_regs_self _ .rsp
  have hempty : a.Stacked [] := by
    have hmod := toNat_sub_mod_sixteen (s.regs .rsp)
    exact ⟨by rw [hrsp]; omega, trivial⟩
  have hlen : (frameWords error s).length ≤ 6 := by
    cases error with
    | none => exact Nat.le_succ 5
    | some e => exact le_rfl
  have hstacked := hempty.pushWords (frameWords error s) (by rw [List.length_nil]; omega)
  rw [List.append_nil] at hstacked
  refine ⟨t, hdeliver, rfl, rfl, ?_, ?_, ?_⟩
  · intro r hr
    exact (a.pushWords_regs_of_ne _ hr).trans (s.set_regs_of_ne _ hr)
  · exact (a.pushWords_rsp _).trans (by rw [hrsp])
  · exact ⟨hstacked.aligned, hstacked.words⟩

namespace Program

variable {L : Type} (p : Program L)

theorem Reaches.refl (x : List (Instr L) × Cpu) : p.Reaches x x := ⟨0, rfl⟩

variable {p} in
theorem Reaches.trans {x y z : List (Instr L) × Cpu} (h : p.Reaches x y) (h' : p.Reaches y z) :
    p.Reaches x z := by
  obtain ⟨n, hn⟩ := h
  obtain ⟨k, hk⟩ := h'
  exact ⟨k + n, by rw [Function.iterate_add_apply, hn, hk]⟩

theorem reaches_step (x : List (Instr L) × Cpu) : p.Reaches x (p.step x) := ⟨1, rfl⟩

theorem iterate_mem {Q : List (Instr L) → Prop} (hQ : ∀ is s, Q is → Q (p.step (is, s)).1)
    {x : List (Instr L) × Cpu} (hx : Q x.1) (n : ℕ) : Q (p.step^[n] x).1 := by
  induction n with
  | zero => exact hx
  | succ n ih =>
    rw [Function.iterate_succ_apply']
    exact hQ _ _ ih

variable {p} in
/-- A place that is left for code without it is reached in one state only. -/
theorem Reaches.unique {Q : List (Instr L) → Prop} (hQ : ∀ is s, Q is → Q (p.step (is, s)).1)
    {is : List (Instr L)} (hnot : ¬Q is) (hnext : ∀ s, Q (p.step (is, s)).1)
    {x : List (Instr L) × Cpu} {s t : Cpu} (hs : p.Reaches x (is, s))
    (ht : p.Reaches x (is, t)) : s = t := by
  have hlater : ∀ n d s t, p.step^[n] x = (is, s) → p.step^[d + n] x = (is, t) → s = t := by
    intro n d s t hn hd
    rw [Function.iterate_add_apply, hn] at hd
    cases d with
    | zero => exact congrArg Prod.snd hd
    | succ d =>
      have hin := p.iterate_mem hQ (hnext s) d
      rw [← Function.iterate_succ_apply, hd] at hin
      exact absurd hin hnot
  obtain ⟨n, hn⟩ := hs
  obtain ⟨k, hk⟩ := ht
  rcases Nat.le_total n k with hle | hle
  · obtain ⟨d, rfl⟩ := Nat.exists_eq_add_of_le' hle
    exact hlater n d s t hn hk
  · obtain ⟨d, rfl⟩ := Nat.exists_eq_add_of_le' hle
    exact (hlater k d t s hk hn).symm

theorem reaches_pushRegs (rs : List Reg) (is : List (Instr L)) (s : Cpu) :
    p.Reaches (rs.map .push ++ is, s) (is, s.pushRegs rs) := by
  induction rs generalizing s with
  | nil => exact Reaches.refl p _
  | cons r rs ih => exact (p.reaches_step _).trans (ih (s.push (s.regs r)))

theorem reaches_popRegs (rs : List Reg) (is : List (Instr L)) (s : Cpu) :
    p.Reaches (rs.map .pop ++ is, s) (is, s.popRegs rs) := by
  induction rs generalizing s with
  | nil => exact Reaches.refl p _
  | cons r rs ih => exact (p.reaches_step _).trans (ih (s.pop r))

end Program

end Amd64
