import Nadir.Kmain.Wiring
import Nadir.Serial.Puts

/-!
# The serial line mirrors the output

When a port answers, the bytes on the serial line are those of the strings that `kmain` sends and
of the echoed keys, in order, up to the byte in the queue and the characters still to be sent,
whenever the line takes a byte and whenever an interrupt comes. Nothing else is ever sent.
-/

namespace Nadir

open Amd64 Transition Wire

/-- The characters that go to the serial port; a report is only put out if one answers. -/
def Output.serial (present : Bool) : Output → List Int8
  | .line _ _ => []
  | .report s => cString s
  | .key c => serialEcho c.toInt8 present

namespace Point

/-- What is left of the string that is being sent. -/
def unsent : Point → List Int8
  | .send text _ _ => text
  | _ => []

theorem unsent_wake (p : Point) : p.wake.unsent = p.unsent := by
  cases p <;> rfl

theorem unsent_afterAll (next : Next) : (afterAll next).unsent = [] := by
  cases next <;> rfl

end Point

theorem bytes_append (s t : List Int8) : bytes (s ++ t) = bytes s ++ bytes t := List.map_append

/-- The characters `text` but for the last ones are on the line that `u` drives, or in its queue. -/
structure Uart.Carries (u : Uart) (base : List UInt8) (text unsent : List Int8) : Prop where
  programmed : u.Programmed
  queue : u.tx.queue.length ≤ 1
  sent : u.tx.sent ++ bytes unsent = base ++ bytes text

namespace Uart.Carries

variable {u : Uart} {base : List UInt8} {text unsent : List Int8}

theorem shift (h : u.Carries base text unsent) : u.shift.Carries base text unsent := by
  refine ⟨h.programmed.of_tx _, ?_, ?_⟩
  · have hlength := u.tx.length_shift
    have hqueue := h.queue
    change u.tx.shift.queue.length ≤ 1
    omega
  · change u.tx.shift.sent ++ _ = _
    rw [u.tx.sent_shift]
    exact h.sent

theorem write {ch : Int8} (h : u.Carries base text (ch :: unsent)) {com1 : Com1}
    (hput : serialPutchar ch (some u) = some com1) :
    ∃ u', com1 = some u' ∧ u'.status = u.status ∧ u'.Carries base text unsent := by
  rw [serialPutchar_some h.programmed] at hput
  split_ifs at hput with hqueue
  rw [Option.some_inj] at hput
  refine ⟨_, hput.symm, rfl, h.programmed.of_tx _, le_rfl, ?_⟩
  have hsent := h.sent
  rw [Transmitter.sent, hqueue, List.append_nil] at hsent
  rw [← hsent, Transmitter.sent, List.append_assoc]
  rfl

theorem put (h : u.Carries base text []) (more : List Int8) :
    u.Carries base (text ++ more) more := by
  refine ⟨h.programmed, h.queue, ?_⟩
  have hsent : u.tx.sent = base ++ bytes text := (List.append_nil _).symm.trans h.sent
  rw [bytes_append, ← List.append_assoc, ← hsent]

end Uart.Carries

/-- The port answers if a bit of its line status is clear. -/
def Uart.Answers (u : Uart) : Prop := u.status ||| lsrTxEmpty ≠ 0xFF

theorem serialOk_serialInit (p : Com1) :
    serialOk (serialInit p) = true ↔ ∃ u, serialInit p = some u ∧ u.Answers := by
  cases p with
  | none => exact ⟨fun hok => absurd hok (by decide), fun ⟨u, hu, _⟩ => by cases hu⟩
  | some u =>
    rw [serialInit_some]
    simp only [Option.some_inj, exists_eq_left']
    exact bne_iff_ne

theorem carries_serialInit {p : Com1} {u : Uart} (hu : serialInit p = some u) :
    u.Carries u.tx.wire [] [] := by
  cases p with
  | none => cases hu
  | some v =>
    rw [serialInit_some, Option.some_inj] at hu
    subst hu
    exact ⟨v.programmed_afterInit, Nat.zero_le 1, by rw [Transmitter.sent]; exact List.append_nil _⟩

theorem serialPutchar_none (c : Int8) : serialPutchar c none = some none := rfl

theorem serialInit_mem_kmainStart (b : BootStats) : .serialInit ∈ kmainStart b := by
  simp [kmainStart, kmainDisabled]

theorem serialInit_notMem (b : BootStats) :
    ∃ before behind, kmainStart b = before ++ .serialInit :: behind ∧
      Statement.serialInit ∉ before ∧ Statement.serialInit ∉ behind := by
  refine ⟨(kmainStart b).take 5, (kmainStart b).drop 6, rfl, ?_, ?_⟩
  · simp [kmainStart, kmainDisabled]
  · simp [kmainStart, kmainDisabled, kmainEnabled]

namespace Kernel

variable {b : BootStats} {m : Machine} {s t : Kernel}

theorem Phase.serialInit_once (h : s.Phase b m) {rest : List Statement} {next : Next}
    (hp : s.point = .exec (.serialInit :: rest) next) : Statement.serialInit ∉ rest := by
  rcases h with hstart | hrun
  · obtain ⟨done, hsplit, _⟩ := hstart.done
    obtain ⟨before, behind, hstatements, hbefore, hbehind⟩ := serialInit_notMem b
    rw [hp, hstatements] at hsplit
    have hparts := (List.append_cons_inj_of_notMem hbefore hbehind).mp hsplit
    rw [← hparts.2.2]
    exact hbehind
  · have hquiet := hrun.quiet
    rw [hp] at hquiet
    exact (hquiet _ List.mem_cons_self).elim

def serialText (s : Kernel) : List Int8 :=
  s.trace.outputs.flatMap (Output.serial s.serialPresent)

/-- Before the port is programmed: only lines have been put out. -/
structure Unprogrammed (s : Kernel) : Prop where
  pending : .serialInit ∈ s.point.rest
  absent : s.serialPresent = false
  unsent : s.point.unsent = []
  silent : ∀ present, s.trace.outputs.flatMap (Output.serial present) = []

/-- From then on. -/
structure Mirrors (s : Kernel) : Prop where
  behind : .serialInit ∉ s.point.rest
  present : s.serialPresent = true ↔ ∃ u, s.com1 = some u ∧ u.Answers
  carries : ∀ u, s.com1 = some u →
    u.Carries s.trace.lineBase s.serialText s.point.unsent
  silent : s.serialPresent = false → s.serialText = []

def Serial (s : Kernel) : Prop := s.Unprogrammed ∨ s.Mirrors

theorem serial_congr (h : s.Serial) (hcom1 : t.com1 = s.com1)
    (hpresent : t.serialPresent = s.serialPresent)
    (hrest : .serialInit ∈ t.point.rest ↔ .serialInit ∈ s.point.rest)
    (hunsent : t.point.unsent = s.point.unsent) (houtputs : t.trace.outputs = s.trace.outputs)
    (hbase : t.trace.lineBase = s.trace.lineBase) : t.Serial := by
  have htext : t.serialText = s.serialText := by rw [serialText, serialText, houtputs, hpresent]
  rcases h with hbefore | hafter
  · refine Or.inl ⟨hrest.mpr hbefore.pending, hpresent.trans hbefore.absent,
      hunsent.trans hbefore.unsent, ?_⟩
    rw [houtputs]
    exact hbefore.silent
  · refine Or.inr ⟨mt hrest.mp hafter.behind, ?_, ?_, ?_⟩
    · rw [hpresent, hcom1]
      exact hafter.present
    · rw [hcom1, hbase, htext, hunsent]
      exact hafter.carries
    · rw [hpresent, htext]
      exact hafter.silent

theorem serial_put (h : s.Serial) {o : Output} (hcom1 : t.com1 = s.com1)
    (hpresent : t.serialPresent = s.serialPresent)
    (hrest : .serialInit ∈ t.point.rest ↔ .serialInit ∈ s.point.rest)
    (hnone : s.point.unsent = []) (hunsent : t.point.unsent = o.serial s.serialPresent)
    (houtputs : t.trace.outputs = s.trace.outputs ++ [o])
    (hbase : t.trace.lineBase = s.trace.lineBase)
    (hpending : .serialInit ∈ s.point.rest → ∀ present, o.serial present = [])
    (habsent : s.serialPresent = false → o.serial false = []) : t.Serial := by
  have htext : ∀ present, t.trace.outputs.flatMap (Output.serial present) =
      s.trace.outputs.flatMap (Output.serial present) ++ o.serial present := by
    intro present
    rw [houtputs, List.flatMap_append, List.flatMap_singleton]
  rcases h with hbefore | hafter
  · have ho := hpending hbefore.pending
    refine Or.inl ⟨hrest.mpr hbefore.pending, hpresent.trans hbefore.absent,
      hunsent.trans (ho _), fun present => ?_⟩
    rw [htext, hbefore.silent, ho]
    rfl
  · have htext' : t.serialText = s.serialText ++ o.serial s.serialPresent := by
      rw [serialText, htext, hpresent]
      rfl
    refine Or.inr ⟨mt hrest.mp hafter.behind, ?_, fun u hu => ?_, fun hoff => ?_⟩
    · rw [hpresent, hcom1]
      exact hafter.present
    · have hcarries := hafter.carries u (hcom1.symm.trans hu)
      rw [hnone] at hcarries
      rw [hbase, htext', hunsent]
      exact hcarries.put _
    · rw [hpresent] at hoff
      rw [htext', hafter.silent hoff, hoff, habsent hoff]
      rfl

/-- `serial_init` runs once, and no character of `kmain` is on the line yet. -/
theorem Unprogrammed.program (h : s.Unprogrammed) {rest : List Statement} {next : Next}
    (hrest : Statement.serialInit ∉ rest) :
    Mirrors { s with
      com1 := Nadir.serialInit s.com1
      serialPresent := serialOk (Nadir.serialInit s.com1)
      point := .exec rest next
      trace := { s.trace with
        lineBase := (Nadir.serialInit s.com1).elim [] fun u => u.tx.wire } } := by
  refine ⟨hrest, serialOk_serialInit s.com1, fun u hu => ?_, fun _ => h.silent _⟩
  dsimp only at hu
  rw [serialText]
  dsimp only
  rw [hu, h.silent]
  exact carries_serialInit hu

theorem Mirrors.send (h : s.Mirrors) {ch : Int8} {text : List Int8} {rest : List Statement}
    {next : Next} {com1 : Com1} (hp : s.point = .send (ch :: text) rest next)
    (hput : serialPutchar ch s.com1 = some com1) :
    Mirrors { s with com1 := com1, point := .send text rest next } := by
  have hbehind := h.behind
  have hpresent := h.present
  have hcarries := h.carries
  rw [hp] at hbehind hcarries
  cases hcom1 : s.com1 with
  | none =>
    rw [hcom1, serialPutchar_none, Option.some_inj] at hput
    rw [hcom1] at hpresent
    subst hput
    exact ⟨hbehind, hpresent, nofun, h.silent⟩
  | some u =>
    rw [hcom1] at hput hpresent
    obtain ⟨u', hu', hstatus, hcarries'⟩ := (hcarries u hcom1).write hput
    subst hu'
    refine ⟨hbehind, ?_, fun v hv => ?_, h.silent⟩
    · simp only [Option.some_inj, exists_eq_left', Uart.Answers, hstatus] at hpresent ⊢
      exact hpresent
    · rw [← Option.some_inj.mp hv]
      exact hcarries'

theorem main_serial (hphase : s.Phase b m) (h : s.Serial) (hcase : MainCase s t) : t.Serial := by
  have hcons : ∀ {st : Statement} {rest : List Statement} {next : Next},
      s.point = .exec (st :: rest) next → st ≠ .serialInit →
        (Statement.serialInit ∈ rest ↔ .serialInit ∈ s.point.rest) := by
    intro st rest next hp hst
    rw [hp]
    exact ⟨List.mem_cons_of_mem _, fun hmem => (List.mem_cons.mp hmem).resolve_left hst.symm⟩
  cases hcase with
  | done next hp =>
    exact serial_congr h rfl rfl (by rw [hp, Point.rest_afterAll]; rfl)
      (hp ▸ Point.unsent_afterAll next) rfl rfl
  | drive st rest next hp hst =>
    have hne : st ≠ .serialInit := fun heq => by
      rw [heq] at hst
      exact hst
    exact serial_congr h rfl rfl (hcons hp hne) (hp ▸ rfl) rfl rfl
  | serialInit rest next hp =>
    have hbefore : s.Unprogrammed := h.resolve_right fun hafter =>
      hafter.behind (hp ▸ List.mem_cons_self)
    exact Or.inr (hbefore.program (hphase.serialInit_once hp))
  | sti rest next hp => exact serial_congr h rfl rfl (hcons hp nofun) (hp ▸ rfl) rfl rfl
  | klog line rest next hp =>
    exact serial_put h rfl rfl (hcons hp nofun) (hp ▸ rfl) rfl rfl rfl (fun _ _ => rfl)
      (fun _ => rfl)
  | report text rest next hp hpresent =>
    have hafter : s.Mirrors := h.resolve_left fun hbefore =>
      absurd (hbefore.absent.symm.trans hpresent) Bool.false_ne_true
    exact serial_put h rfl rfl (hcons hp nofun) (hp ▸ rfl) rfl rfl rfl
      (fun hmem => absurd hmem hafter.behind)
      (fun hoff => absurd (hoff.symm.trans hpresent) Bool.false_ne_true)
  | noReport text rest next hp hpresent =>
    exact serial_congr h rfl rfl (hcons hp nofun) (hp ▸ rfl) rfl rfl
  | printed rest next hp => exact serial_congr h rfl rfl (by rw [hp]; rfl) (hp ▸ rfl) rfl rfl
  | print ch text rest next console hp hput =>
    exact serial_congr h rfl rfl (by rw [hp]; rfl) (hp ▸ rfl) rfl rfl
  | sent rest next hp => exact serial_congr h rfl rfl (by rw [hp]; rfl) (hp ▸ rfl) rfl rfl
  | busy ch text rest next hp hput => exact h
  | send ch text rest next com1 hp hput =>
    have hafter : s.Mirrors := h.resolve_left fun hbefore => by
      have hunsent := hbefore.unsent
      rw [hp] at hunsent
      cases hunsent
    exact Or.inr (hafter.send hp hput)
  | hlt hp => exact serial_congr h rfl rfl (by rw [hp]; rfl) (hp ▸ rfl) rfl rfl
  | asleep hp => exact h
  | due hp hdue =>
    refine serial_congr h rfl rfl ?_ (hp ▸ rfl) rfl rfl
    rw [hp]
    simp [Point.rest, uptimeReport]
  | notDue hp hdue => exact serial_congr h rfl rfl (by rw [hp]; rfl) (hp ▸ rfl) rfl rfl
  | poll hp =>
    have hpoll : ∀ has : Bool, (if has then Point.compare else .hlt).rest = [] ∧
      (if has then Point.compare else .hlt).unsent = [] := by decide
    refine serial_congr h rfl rfl ?_ ?_ rfl rfl
    · rw [hp, (hpoll _).1]
      rfl
    · rw [hp, (hpoll _).2]
      rfl
  | empty hp hempty => exact serial_congr h rfl rfl (by rw [hp]; rfl) (hp ▸ rfl) rfl rfl
  | compare hp hempty => exact serial_congr h rfl rfl (by rw [hp]; rfl) (hp ▸ rfl) rfl rfl
  | read hp => exact serial_congr h rfl rfl (by rw [hp]; rfl) (hp ▸ rfl) rfl rfl
  | store c hp => exact serial_congr h rfl rfl (by rw [hp]; rfl) (hp ▸ rfl) rfl rfl
  | putchar c console hp hput =>
    exact serial_put h rfl rfl (by rw [hp]; rfl) (hp ▸ rfl) rfl rfl rfl
      (fun hmem => absurd (hp ▸ hmem) List.not_mem_nil) (fun _ => rfl)

theorem serial_shift (h : s.Serial) : s.shift.Serial := by
  rcases h with hbefore | hafter
  · exact Or.inl ⟨hbefore.pending, hbefore.absent, hbefore.unsent, hbefore.silent⟩
  · refine Or.inr ⟨hafter.behind, hafter.present.trans ?_, fun u hu => ?_, hafter.silent⟩
    · cases hcom1 : s.com1 with
      | none => simp [Kernel.shift, hcom1]
      | some u => simp [Kernel.shift, hcom1, Uart.shift, Uart.Answers]
    · obtain ⟨v, hv, rfl⟩ := Option.map_eq_some_iff.mp hu
      exact (hafter.carries v hv).shift

theorem step_serial (hphase : s.Phase b m) (h : s.Serial) (hcase : StepCase s t) : t.Serial := by
  cases hcase with
  | main hmain => exact main_serial hphase h hmain
  | shift => exact serial_shift h
  | irq hrun hirq =>
    have hrest := s.point.rest_wake
    have hunsent := s.point.unsent_wake
    cases hirq with
    | tick irq hpics hhandlers =>
      exact serial_congr h rfl rfl (iff_of_eq (congrArg _ hrest)) hunsent rfl rfl
    | key code irq hpics hhandlers =>
      exact serial_congr h rfl rfl (iff_of_eq (congrArg _ hrest)) hunsent rfl rfl
    | spurious irq hpics hhandlers =>
      exact serial_congr h rfl rfl (iff_of_eq (congrArg _ hrest)) hunsent rfl rfl

theorem AtEntry.serial (h : s.AtEntry b m) : s.Serial := by
  refine Or.inl ⟨?_, h.serialPresent, ?_, fun present => ?_⟩
  · rw [h.point]
    exact serialInit_mem_kmainStart b
  · rw [h.point]
    rfl
  · rw [h.outputs]
    rfl

end Kernel

/-- In every state of every run behind `serial_init`: `kmain` takes the port for present exactly if
one answers, a port that is there is programmed with at most a byte in its queue, and the bytes on
its line, in its queue and still to be written are those that were on the line before, the strings
reported and the keys echoed, in order. Where none answers nothing is reported or echoed. -/
theorem kmain_mirrors (b : BootStats) (m : Machine) :
    ∃ s₀, kmainEntry b m = some s₀ ∧ ∀ events s, Steps KernelStep s₀ events s →
      .serialInit ∉ s.point.rest →
        (s.serialPresent = true ↔ ∃ u, s.com1 = some u ∧ u.status ||| lsrTxEmpty ≠ 0xFF) ∧
        (s.serialPresent = false →
          s.trace.outputs.flatMap (Output.serial s.serialPresent) = []) ∧
        ∀ u, s.com1 = some u → u.Programmed ∧ u.tx.queue.length ≤ 1 ∧
          u.tx.wire ++ u.tx.queue ++ bytes s.point.unsent = s.trace.lineBase ++
            bytes (s.trace.outputs.flatMap (Output.serial s.serialPresent)) := by
  obtain ⟨s₀, hentry, hs₀⟩ := kmainEntry_some b m
  refine ⟨s₀, hentry, fun events s hsteps hbehind => ?_⟩
  obtain ⟨_, hserial⟩ := kmain_invariant hs₀.starting hs₀.serial
    (fun s t hphase h hcase => Kernel.step_serial hphase h hcase) hsteps
  have hmirrors : s.Mirrors := hserial.resolve_left fun hbefore => hbehind hbefore.pending
  refine ⟨hmirrors.present, hmirrors.silent, fun u hu => ?_⟩
  have hcarries := hmirrors.carries u hu
  exact ⟨hcarries.programmed, hcarries.queue, hcarries.sent⟩

end Nadir
