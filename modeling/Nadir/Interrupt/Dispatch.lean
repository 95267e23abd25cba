import Nadir.Interrupt.Stubs
import Nadir.Interrupt.Idt
import Nadir.Pic.Basic
import Mathlib.Data.List.Induction

/-!
# The dispatch of the interrupt lines

The controllers put a line into service and give its vector; `irq_dispatch` calls the handler of
the line and acknowledges. Whatever lines and spurious interrupts come in, both controllers are
idle again after each dispatch, and the handler called is the one registered last.
-/

namespace Nadir

open Amd64 Pics

/-- What `irq_dispatch` does besides reading its frame. -/
inductive IrqAction (H : Type*) where
  | handler (h : H)
  | picEoi (irq : UInt8)

/-- The handlers, known by `H`, the controllers, and what was done so far. -/
structure IrqState (H : Type*) where
  irqHandlers : ℕ → Option H
  pics : Pics
  log : List (IrqAction H)

variable {H : Type*}

def irqRegisterHandler (irq : UInt8) (handler : Option H) (s : IrqState H) : IrqState H :=
  if irq.toNat ≥ idtIrqCount then s
  else { s with irqHandlers := Function.update s.irqHandlers irq.toNat handler }

/-- `irq_handlers[irq]()`, unless the slot is `NULL`. -/
def irqCallHandler (irq : UInt8) (s : IrqState H) : IrqState H :=
  { s with log := s.log ++ (s.irqHandlers irq.toNat).toList.map .handler }

def irqDispatch (frame : InterruptFrame) (s : IrqState H) : IrqState H :=
  let vector := frame.vector
  if vector.toNat < idtIrqBase ∨ vector.toNat ≥ idtIrqBase + idtIrqCount then s
  else
    let irq := (vector - UInt64.ofNat idtIrqBase).toUInt8
    let s := irqCallHandler irq s
    { s with pics := picEoi irq s.pics, log := s.log ++ [.picEoi irq] }

/-- The line is taken into service. -/
def Pic.acknowledge (k : ℕ) (p : Pic) : Pic := { p with isr := p.isr ||| 1 <<< UInt8.ofNat k }

/-- What the controllers signal: a line, or one of the two lines on which the cause is gone when
the processor asks for it. -/
inductive IrqSource where
  | line (i : Fin 16)
  | spurious7
  | spurious15
  deriving DecidableEq, Repr

namespace IrqSource

def number : IrqSource → ℕ
  | .line i => i
  | .spurious7 => 7
  | .spurious15 => 15

theorem number_lt (d : IrqSource) : d.number < 16 := by
  cases d with
  | line i => exact i.isLt
  | spurious7 => exact Nat.lt_add_left 8 (Nat.lt_succ_self 7)
  | spurious15 => exact Nat.lt_succ_self 15

def acknowledge : IrqSource → Pics → Pics
  | .line i, s =>
    if i.val < 8 then { s with master := s.master.acknowledge i }
    else ⟨s.master.acknowledge 2, s.slave.acknowledge (i - 8)⟩
  | .spurious7, s => s
  | .spurious15, s => { s with master := s.master.acknowledge 2 }

/-- The vector the controller with the line gives: its base, with the line in the low bits. -/
def vector (d : IrqSource) (s : Pics) : UInt64 :=
  if d.number < 8 then (s.master.icw2 &&& 0xF8 ||| UInt8.ofNat d.number).toUInt64
  else (s.slave.icw2 &&& 0xF8 ||| UInt8.ofNat (d.number - 8)).toUInt64

end IrqSource

/-- A registration, or an interrupt of the processor state `cpu`. -/
inductive IrqEvent (H : Type*) where
  | register (irq : UInt8) (handler : Option H)
  | interrupt (source : IrqSource) (cpu : Cpu)

namespace IrqEvent

def exec (s : IrqState H) : IrqEvent H → IrqState H
  | .register irq handler => irqRegisterHandler irq handler s
  | .interrupt source cpu =>
    irqDispatch (InterruptFrame.ofCpu cpu (source.vector s.pics) 0)
      { s with pics := source.acknowledge s.pics }

/-- What the event registers for line `i`. -/
def registered (i : ℕ) : IrqEvent H → Option (Option H)
  | .register irq handler => if irq.toNat = i then some handler else none
  | .interrupt _ _ => none

end IrqEvent

/-- The kernel once the controllers are programmed: the table is all `NULL`. -/
def irqStart (s : Pics) : IrqState H := ⟨fun _ => none, picRemap s, []⟩

def irqRun (s : IrqState H) (events : List (IrqEvent H)) : IrqState H :=
  events.foldl IrqEvent.exec s

/-- The handler registered last for line `i`, if it is not `NULL`. -/
def lastRegistered (events : List (IrqEvent H)) (i : ℕ) : Option H :=
  (events.filterMap (IrqEvent.registered i)).getLast?.join

def Pics.Idle (s : Pics) : Prop := s.master.isr = 0 ∧ s.slave.isr = 0

theorem irqRun_append_singleton (s : IrqState H) (events : List (IrqEvent H)) (e : IrqEvent H) :
    irqRun s (events ++ [e]) = e.exec (irqRun s events) := by
  rw [irqRun, List.foldl_append]
  rfl

theorem lastRegistered_append_singleton (events : List (IrqEvent H)) (e : IrqEvent H) (i : ℕ) :
    lastRegistered (events ++ [e]) i = (e.registered i).getD (lastRegistered events i) := by
  unfold lastRegistered
  rw [List.filterMap_append]
  cases h : e.registered i with
  | none => simp [h]
  | some handler => simp [h]

theorem Pic.command_eoi_idle {p : Pic} (h : p.isr = 0) : p.command picEoiCmd = p := by
  have hclear : (0 : UInt8) &&& (0 - 1) = 0 := by decide
  rw [Pic.command, if_neg (by decide), if_pos rfl, h, hclear, ← h]

theorem Pic.command_eoi_acknowledge {p : Pic} (h : p.isr = 0) {k : ℕ} (hk : k < 8) :
    (p.acknowledge k).command picEoiCmd = p := by
  have hclear : ∀ j < 8, (0 ||| (1 : UInt8) <<< UInt8.ofNat j) &&&
      ((0 ||| (1 : UInt8) <<< UInt8.ofNat j) - 1) = 0 := by decide
  rw [Pic.command, if_neg (by decide), if_pos rfl]
  simp only [Pic.acknowledge, h, hclear k hk]
  rw [← h]

theorem picEoi_of_lt {i : ℕ} (hi : i < 8) (s : Pics) :
    picEoi (UInt8.ofNat i) s = { s with master := s.master.command picEoiCmd } := by
  have hmaster : ¬UInt8.ofNat i ≥ 8 := by
    rw [ge_iff_le, UInt8.le_iff_toNat_le, UInt8.toNat_ofNat']
    simp only [UInt8.reduceToNat]
    omega
  have hrange : ¬UInt8.ofNat i ≥ picIrqCount := by
    rw [ge_iff_le, UInt8.le_iff_toNat_le, UInt8.toNat_ofNat', picIrqCount]
    simp only [UInt8.reduceToNat]
    omega
  rw [picEoi, if_neg hrange, if_neg hmaster, outb_pic1Cmd]

theorem picEoi_of_ge {i : ℕ} (hi : 8 ≤ i) (hi' : i < 16) (s : Pics) :
    picEoi (UInt8.ofNat i) s = ⟨s.master.command picEoiCmd, s.slave.command picEoiCmd⟩ := by
  have hslave : UInt8.ofNat i ≥ 8 := by
    rw [ge_iff_le, UInt8.le_iff_toNat_le, UInt8.toNat_ofNat']
    simp only [UInt8.reduceToNat]
    omega
  have hrange : ¬UInt8.ofNat i ≥ picIrqCount := by
    rw [ge_iff_le, UInt8.le_iff_toNat_le, UInt8.toNat_ofNat', picIrqCount]
    simp only [UInt8.reduceToNat]
    omega
  rw [picEoi, if_neg hrange, if_pos hslave, outb_pic2Cmd, outb_pic1Cmd]

theorem picEoi_acknowledge (d : IrqSource) {s : Pics} (hs : s.Idle) :
    picEoi (UInt8.ofNat d.number) (d.acknowledge s) = s := by
  obtain ⟨hmaster, hslave⟩ := hs
  cases d with
  | line i =>
    have hi := i.isLt
    rw [IrqSource.number, IrqSource.acknowledge]
    by_cases hside : i.val < 8
    · rw [if_pos hside, picEoi_of_lt hside, Pic.command_eoi_acknowledge hmaster hside]
    · rw [if_neg hside, picEoi_of_ge (Nat.le_of_not_lt hside) hi,
        Pic.command_eoi_acknowledge hmaster (by omega),
        Pic.command_eoi_acknowledge hslave (by omega)]
  | spurious7 =>
    rw [IrqSource.number, IrqSource.acknowledge, picEoi_of_lt (by omega),
      Pic.command_eoi_idle hmaster]
  | spurious15 =>
    rw [IrqSource.number, IrqSource.acknowledge, picEoi_of_ge (by omega) (by omega),
      Pic.command_eoi_acknowledge hmaster (by omega), Pic.command_eoi_idle hslave]

/-- The controllers are idle and based where `pic_remap` based them. -/
structure Pics.Remapped (s : Pics) : Prop where
  idle : s.Idle
  master : s.master.icw2 = 0x20
  slave : s.slave.icw2 = 0x28

theorem remapped_picRemap (s : Pics) : (picRemap s).Remapped := by
  rw [picRemap_eq]
  exact ⟨⟨rfl, rfl⟩, rfl, rfl⟩

theorem Pics.Remapped.vector_toNat {s : Pics} (hs : s.Remapped) (d : IrqSource) :
    (d.vector s).toNat = idtIrqBase + d.number := by
  have hlow : ∀ j < 8, (0x20 &&& 0xF8 ||| UInt8.ofNat j).toNat = 32 + j := by decide
  have hhigh : ∀ j < 8, (0x28 &&& 0xF8 ||| UInt8.ofNat j).toNat = 40 + j := by decide
  have hlt := d.number_lt
  rw [IrqSource.vector, hs.master, hs.slave]
  split_ifs with hside
  · rw [UInt8.toNat_toUInt64, hlow _ hside]
  · rw [UInt8.toNat_toUInt64, hhigh _ (by omega)]
    unfold idtIrqBase
    omega

theorem irqDispatch_of_vector {frame : InterruptFrame} {i : ℕ} (hi : i < 16)
    (hvector : frame.vector.toNat = idtIrqBase + i) (s : IrqState H) :
    irqDispatch frame s = { s with
      pics := picEoi (UInt8.ofNat i) s.pics
      log := s.log ++ (s.irqHandlers i).toList.map .handler ++ [.picEoi (UInt8.ofNat i)] } := by
  have hirq : (frame.vector - UInt64.ofNat idtIrqBase).toUInt8 = UInt8.ofNat i := by
    unfold idtIrqBase at *
    rw [← UInt8.toNat_inj, UInt64.toNat_toUInt8, UInt64.toNat_sub, hvector,
      UInt64.toNat_ofNat', UInt8.toNat_ofNat']
    omega
  have hindex : (UInt8.ofNat i).toNat = i := by
    rw [UInt8.toNat_ofNat']
    omega
  have hrange : ¬(frame.vector.toNat < idtIrqBase ∨
      frame.vector.toNat ≥ idtIrqBase + idtIrqCount) := by
    unfold idtIrqBase idtIrqCount at *
    omega
  rw [irqDispatch]
  dsimp only
  rw [if_neg hrange, hirq, irqCallHandler, hindex]

theorem IrqEvent.exec_interrupt {s : IrqState H} (hs : s.pics.Remapped) (d : IrqSource)
    (cpu : Cpu) :
    (IrqEvent.interrupt d cpu).exec s = { s with
      log := s.log ++ (s.irqHandlers d.number).toList.map .handler ++
        [.picEoi (UInt8.ofNat d.number)] } := by
  have hvector : (InterruptFrame.ofCpu cpu (d.vector s.pics) 0).vector.toNat =
      idtIrqBase + d.number := hs.vector_toNat d
  rw [IrqEvent.exec, irqDispatch_of_vector d.number_lt hvector]
  dsimp only
  rw [picEoi_acknowledge d hs.idle]

theorem irqRegisterHandler_of_ge {irq : UInt8} (h : 16 ≤ irq.toNat) (handler : Option H)
    (s : IrqState H) : irqRegisterHandler irq handler s = s := if_pos h

/-- What the events keep: the controllers are ready for the next interrupt, and the table holds
the last registrations. -/
structure Routes (s : IrqState H) (events : List (IrqEvent H)) : Prop where
  pics : s.pics.Remapped
  handlers : ∀ i < 16, s.irqHandlers i = lastRegistered events i

theorem Routes.start (s : Pics) : Routes (irqStart s : IrqState H) [] :=
  ⟨remapped_picRemap s, fun _ _ => rfl⟩

theorem Routes.step {s : IrqState H} {events : List (IrqEvent H)} (h : Routes s events)
    (e : IrqEvent H) : Routes (e.exec s) (events ++ [e]) := by
  cases e with
  | interrupt d cpu =>
    rw [IrqEvent.exec_interrupt h.pics]
    refine ⟨h.pics, fun i hi => ?_⟩
    rw [lastRegistered_append_singleton]
    exact h.handlers i hi
  | register irq handler =>
    rw [IrqEvent.exec]
    by_cases hrange : 16 ≤ irq.toNat
    · rw [irqRegisterHandler_of_ge hrange]
      refine ⟨h.pics, fun i hi => ?_⟩
      rw [lastRegistered_append_singleton, IrqEvent.registered, if_neg (by omega)]
      exact h.handlers i hi
    · rw [irqRegisterHandler, if_neg hrange]
      refine ⟨h.pics, fun i hi => ?_⟩
      rw [lastRegistered_append_singleton, IrqEvent.registered]
      by_cases hline : irq.toNat = i
      · rw [if_pos hline, hline]
        exact Function.update_self i handler s.irqHandlers
      · rw [if_neg hline]
        exact (Function.update_of_ne (Ne.symm hline) _ _).trans (h.handlers i hi)

theorem routes_irqRun (s : Pics) (events : List (IrqEvent H)) :
    Routes (irqRun (irqStart s) events) events := by
  induction events using List.reverseRecOn with
  | nil => exact Routes.start s
  | append_singleton events e ih =>
    rw [irqRun_append_singleton]
    exact ih.step e

/-- After `pic_remap` and any events the controllers are idle, and so they are after the next
interrupt, which calls the handler registered last for its line and then acknowledges; lines and
vectors out of range change nothing. -/
theorem irq_routed (pics : Pics) (events : List (IrqEvent H)) :
    (irqRun (irqStart pics) events).pics.Idle ∧
    (∀ d cpu, (irqRun (irqStart pics) (events ++ [.interrupt d cpu])).pics.Idle ∧
      (irqRun (irqStart pics) (events ++ [.interrupt d cpu])).log =
        (irqRun (irqStart pics) events).log ++
          (lastRegistered events d.number).toList.map .handler ++
          [.picEoi (UInt8.ofNat d.number)]) ∧
    (∀ irq handler, 16 ≤ irq.toNat →
      irqRegisterHandler irq handler (irqRun (irqStart pics) events) =
        irqRun (irqStart pics) events) ∧
    ∀ frame : InterruptFrame, frame.vector.toNat < 32 ∨ 48 ≤ frame.vector.toNat →
      irqDispatch frame (irqRun (irqStart pics) events) = irqRun (irqStart pics) events := by
  have h := routes_irqRun pics events
  refine ⟨h.pics.idle, fun d cpu => ?_, fun irq handler hrange => ?_, fun frame hrange => ?_⟩
  · rw [irqRun_append_singleton, IrqEvent.exec_interrupt h.pics,
      h.handlers d.number d.number_lt]
    exact ⟨h.pics.idle, rfl⟩
  · exact irqRegisterHandler_of_ge hrange handler _
  · exact if_pos hrange

end Nadir
