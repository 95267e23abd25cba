import Nadir.Kmain.Wiring

/-!
# The uptime and the stamps of the lines

The stamps of the lines follow one another. The uptimes that are reported are counts of the timer's
interrupts, each at least a second behind the one before it, however long the lines take to print
and whatever interrupts come in between, and also when the counter wraps.
-/

namespace Nadir

open Transition

namespace Output

/-- The number of interrupts with which a line begins. -/
def stamp? : Output → Option ℕ
  | .line _ ticks => some ticks
  | _ => none

/-- The uptime that a line reports, with the stamp of the line. -/
def uptime? : Output → Option (UInt64 × ℕ)
  | .line (.uptime now) ticks => some (now, ticks)
  | _ => none

end Output

/-- The uptime that the statement is about to report. -/
def Statement.uptime? : Statement → Option UInt64
  | .klog (.uptime now) => some now
  | _ => none

theorem Statement.Drives.uptime?_eq {st : Statement} (h : st.Drives) : st.uptime? = none := by
  cases st <;> first | rfl | exact h.elim

/-- The counter read `p.1` at `r` interrupts, and the line began no earlier. -/
def ReadAt (p : UInt64 × ℕ) (r : ℕ) : Prop := p.1 = UInt64.ofNat r ∧ r ≤ p.2

/-- The readings are a second apart, and `last` is the last one, or zero. -/
structure Spaced (readings : List ℕ) (last : ℕ) : Prop where
  chain : (0 :: readings).IsChain (· + 100 ≤ ·)
  last : last ∈ (0 :: readings).getLast?

theorem Spaced.concat {readings : List ℕ} {last r : ℕ} (h : Spaced readings last)
    (hr : last + 100 ≤ r) : Spaced (readings ++ [r]) r := by
  refine ⟨?_, ?_⟩
  · rw [← List.cons_append, List.isChain_append]
    refine ⟨h.chain, List.isChain_singleton r, fun x hx y hy => ?_⟩
    rw [Option.mem_unique hx h.last]
    cases hy
    exact hr
  · rw [← List.cons_append, List.getLast?_concat]
    rfl

theorem Spaced.length_le {readings : List ℕ} {last : ℕ} (h : Spaced readings last) :
    100 * readings.length ≤ last := by
  obtain ⟨hchain, hlast⟩ := h
  suffices hall : ∀ first, (first :: readings).IsChain (· + 100 ≤ ·) →
      last ∈ (first :: readings).getLast? → first + 100 * readings.length ≤ last by
    have hzero := hall 0 hchain hlast
    omega
  clear hchain hlast
  induction readings with
  | nil =>
    intro first _ hlast
    rw [List.getLast?_singleton, Option.mem_some] at hlast
    rw [hlast]
    exact le_rfl
  | cons r readings ih =>
    intro first hchain hlast
    rw [List.isChain_cons_cons] at hchain
    rw [List.getLast?_cons_cons] at hlast
    have hrest := ih r hchain.2 hlast
    have hstep := hchain.1
    rw [List.length_cons]
    omega

/-- Numbers whose difference in 64 bits is a second or more are a second or more apart. -/
theorem second_le {a b : ℕ} (hab : a ≤ b) (h : UInt64.ofNat b - UInt64.ofNat a ≥ 100) :
    a + 100 ≤ b := by
  have hdiff : UInt64.ofNat b - UInt64.ofNat a = UInt64.ofNat (b - a) := by
    rw [UInt64.ofNat_sub hab]
  rw [hdiff, ge_iff_le, UInt64.le_iff_toNat_le, UInt64.toNat_ofNat'] at h
  have hmod := Nat.mod_le (b - a) (2 ^ 64)
  change 100 ≤ _ at h
  omega

namespace Kernel

variable {b : BootStats} {m : Machine} {s t : Kernel}

/-- The uptimes that the statements ahead report. -/
def uptimesDue (s : Kernel) : List UInt64 := s.point.rest.filterMap Statement.uptime?

def uptimes (s : Kernel) : List (UInt64 × ℕ) := s.trace.outputs.filterMap Output.uptime?

/-- The readings that have been reported, and those that are about to be. -/
structure Readings (s : Kernel) (reported due : List ℕ) (last : ℕ) : Prop where
  readAt : List.Forall₂ ReadAt s.uptimes reported
  ahead : s.uptimesDue = due.map UInt64.ofNat
  spaced : Spaced (reported ++ due) last
  lastUptime : s.lastUptime = UInt64.ofNat last
  le_ticks : last ≤ s.trace.ticks
  due_le_ticks : ∀ r ∈ due, r ≤ s.trace.ticks

def Timely (s : Kernel) : Prop := ∃ reported due last, s.Readings reported due last

theorem timely_congr (h : s.Timely) (hdue : t.uptimesDue = s.uptimesDue)
    (huptimes : t.uptimes = s.uptimes) (hlast : t.lastUptime = s.lastUptime)
    (hticks : s.trace.ticks ≤ t.trace.ticks) : t.Timely := by
  obtain ⟨reported, due, last, h⟩ := h
  exact ⟨reported, due, last, huptimes ▸ h.readAt, hdue.trans h.ahead, h.spaced,
    hlast.trans h.lastUptime, h.le_ticks.trans hticks,
    fun r hr => (h.due_le_ticks r hr).trans hticks⟩

theorem timely_stay (h : s.Timely) (hrest : t.point.rest = s.point.rest)
    (houtputs : t.trace.outputs = s.trace.outputs) (hlast : t.lastUptime = s.lastUptime)
    (hticks : s.trace.ticks ≤ t.trace.ticks) : t.Timely :=
  timely_congr h (by rw [uptimesDue, uptimesDue, hrest]) (by rw [uptimes, uptimes, houtputs])
    hlast hticks

theorem timely_behind (h : s.Timely) {st : Statement} {rest : List Statement} {next : Next}
    (hp : s.point = .exec (st :: rest) next) (hst : st.uptime? = none)
    (hrest : t.point.rest = rest) (huptimes : t.uptimes = s.uptimes)
    (hlast : t.lastUptime = s.lastUptime) (hticks : t.trace.ticks = s.trace.ticks) : t.Timely := by
  refine timely_congr h ?_ huptimes hlast hticks.ge
  rw [uptimesDue, uptimesDue, hrest, hp]
  exact (List.filterMap_cons_none hst).symm

theorem Readings.report {reported due : List ℕ} {last : ℕ} (h : s.Readings reported due last)
    {now : UInt64} {rest : List Statement} {next : Next}
    (hp : s.point = .exec (.klog (.uptime now) :: rest) next) (hrest : t.point.rest = rest)
    (huptimes : t.uptimes = s.uptimes ++ [(now, s.trace.ticks)])
    (hlast : t.lastUptime = s.lastUptime) (hticks : t.trace.ticks = s.trace.ticks) : t.Timely := by
  obtain ⟨hreported, hdue, hspaced, hlastUptime, hle, hdueLe⟩ := h
  have hsplit : s.uptimesDue = now :: rest.filterMap Statement.uptime? := by
    rw [uptimesDue, hp]
    rfl
  rw [hsplit] at hdue
  obtain ⟨r, due, rfl, hnow, hrestDue⟩ := List.map_eq_cons_iff.mp hdue.symm
  have hr := hdueLe r List.mem_cons_self
  refine ⟨reported ++ [r], due, last, ?_, ?_, ?_, hlast.trans hlastUptime, hticks ▸ hle, ?_⟩
  · rw [huptimes]
    exact List.rel_append hreported (.cons ⟨hnow.symm, hr⟩ .nil)
  · rw [uptimesDue, hrest, hrestDue]
  · rw [List.append_assoc]
    exact hspaced
  · rw [hticks]
    exact fun r' hr' => hdueLe r' (List.mem_cons_of_mem _ hr')

theorem Readings.read {reported due : List ℕ} {last : ℕ} (h : s.Readings reported due last)
    (hp : s.point.rest = []) (hdue : UInt64.ofNat s.trace.ticks - s.lastUptime ≥ 100)
    (hnew : t.uptimesDue = [UInt64.ofNat s.trace.ticks]) (huptimes : t.uptimes = s.uptimes)
    (hlast : t.lastUptime = UInt64.ofNat s.trace.ticks) (hticks : t.trace.ticks = s.trace.ticks) :
    t.Timely := by
  have hnone : due = [] := by
    have hempty := h.ahead
    rw [uptimesDue, hp, List.filterMap_nil] at hempty
    exact List.map_eq_nil_iff.mp hempty.symm
  have hspaced := h.spaced
  rw [hnone, List.append_nil] at hspaced
  rw [h.lastUptime] at hdue
  have hsecond := second_le h.le_ticks hdue
  refine ⟨reported, [s.trace.ticks], s.trace.ticks, huptimes ▸ h.readAt, hnew,
    hspaced.concat hsecond, hlast, hticks.ge, ?_⟩
  rw [hticks]
  exact fun r hr => (List.mem_singleton.mp hr).le

theorem main_timely (hphase : s.Phase b m) (h : s.Timely) (hcase : MainCase s t) : t.Timely := by
  cases hcase with
  | done next hp => exact timely_stay h (hp ▸ Point.rest_afterAll next) rfl rfl le_rfl
  | drive st rest next hp hst =>
    exact timely_behind h hp hst.uptime?_eq rfl rfl rfl rfl
  | serialInit rest next hp => exact timely_behind h hp rfl rfl rfl rfl rfl
  | sti rest next hp => exact timely_behind h hp rfl rfl rfl rfl rfl
  | klog line rest next hp =>
    cases line with
    | start subsystem parts =>
      refine timely_behind h hp rfl rfl ?_ rfl rfl
      rw [uptimes, List.filterMap_append]
      exact List.append_nil _
    | uptime now =>
      obtain ⟨reported, due, last, h⟩ := h
      refine h.report hp rfl ?_ rfl rfl
      rw [uptimes, List.filterMap_append]
      rfl
  | report text rest next hp hpresent =>
    refine timely_behind h hp rfl rfl ?_ rfl rfl
    rw [uptimes, List.filterMap_append]
    exact List.append_nil _
  | noReport text rest next hp hpresent => exact timely_behind h hp rfl rfl rfl rfl rfl
  | printed rest next hp => exact timely_stay h (hp ▸ rfl) rfl rfl le_rfl
  | print ch text rest next console hp hput => exact timely_stay h (hp ▸ rfl) rfl rfl le_rfl
  | sent rest next hp => exact timely_stay h (hp ▸ rfl) rfl rfl le_rfl
  | busy ch text rest next hp hput => exact h
  | send ch text rest next com1 hp hput => exact timely_stay h (hp ▸ rfl) rfl rfl le_rfl
  | hlt hp => exact timely_stay h (hp ▸ rfl) rfl rfl le_rfl
  | asleep hp => exact h
  | due hp hdue =>
    obtain ⟨reported, due, last, h⟩ := h
    rw [hphase.ticks] at hdue ⊢
    exact h.read (congrArg Point.rest hp) hdue rfl rfl rfl rfl
  | notDue hp hdue => exact timely_stay h (hp ▸ rfl) rfl rfl le_rfl
  | poll hp =>
    refine timely_stay h ?_ rfl rfl le_rfl
    rw [hp]
    cases keyboardHasKey s.devices.kbd <;> rfl
  | empty hp hempty => exact timely_stay h (hp ▸ rfl) rfl rfl le_rfl
  | compare hp hempty => exact timely_stay h (hp ▸ rfl) rfl rfl le_rfl
  | read hp => exact timely_stay h (hp ▸ rfl) rfl rfl le_rfl
  | store c hp => exact timely_stay h (hp ▸ rfl) rfl rfl le_rfl
  | putchar c console hp hput =>
    refine timely_congr h ?_ ?_ rfl le_rfl
    · rw [uptimesDue, uptimesDue, hp]
      rfl
    · rw [uptimes, List.filterMap_append]
      exact List.append_nil _

theorem step_timely (hphase : s.Phase b m) (h : s.Timely) (hcase : StepCase s t) : t.Timely := by
  cases hcase with
  | main hmain => exact main_timely hphase h hmain
  | shift => exact timely_stay h rfl rfl rfl le_rfl
  | irq hrun hirq =>
    cases hirq with
    | tick irq hpics hhandlers =>
      exact timely_stay h s.point.rest_wake rfl rfl (Nat.le_succ _)
    | key code irq hpics hhandlers => exact timely_stay h s.point.rest_wake rfl rfl le_rfl
    | spurious irq hpics hhandlers => exact timely_stay h s.point.rest_wake rfl rfl le_rfl

/-- The stamps of the lines, and the number of interrupts now. -/
def stamps (s : Kernel) : List ℕ := s.trace.outputs.filterMap Output.stamp? ++ [s.trace.ticks]

theorem stamps_congr (h : s.stamps.Pairwise (· ≤ ·)) (houtputs : t.trace.outputs = s.trace.outputs)
    (hticks : s.trace.ticks ≤ t.trace.ticks) : t.stamps.Pairwise (· ≤ ·) := by
  rw [stamps, List.pairwise_append] at h ⊢
  rw [houtputs]
  refine ⟨h.1, List.pairwise_singleton _ _, fun x hx y hy => ?_⟩
  rw [List.mem_singleton.mp hy]
  exact (h.2.2 x hx _ List.mem_cons_self).trans hticks

theorem stamps_put (h : s.stamps.Pairwise (· ≤ ·)) {o : Output}
    (ho : o.stamp? = none ∨ o.stamp? = some s.trace.ticks)
    (houtputs : t.trace.outputs = s.trace.outputs ++ [o]) (hticks : t.trace.ticks = s.trace.ticks) :
    t.stamps.Pairwise (· ≤ ·) := by
  rw [stamps, houtputs, hticks, List.filterMap_append]
  rcases ho with ho | ho
  · rw [List.filterMap_cons_none ho, List.filterMap_nil, List.append_nil]
    exact h
  · rw [List.filterMap_cons_some ho, List.filterMap_nil, List.pairwise_append]
    refine ⟨h, List.pairwise_singleton _ _, fun x hx y hy => ?_⟩
    rw [List.mem_singleton.mp hy]
    rw [stamps, List.pairwise_append] at h
    rcases List.mem_append.mp hx with hmem | hmem
    · exact h.2.2 x hmem _ List.mem_cons_self
    · exact (List.mem_singleton.mp hmem).le

theorem step_stamps (h : s.stamps.Pairwise (· ≤ ·)) (hcase : StepCase s t) :
    t.stamps.Pairwise (· ≤ ·) := by
  cases hcase with
  | shift => exact h
  | irq hrun hirq =>
    cases hirq with
    | tick irq hpics hhandlers => exact stamps_congr h rfl (Nat.le_succ _)
    | key code irq hpics hhandlers => exact h
    | spurious irq hpics hhandlers => exact h
  | main hmain =>
    cases hmain with
    | klog line rest next hp => exact stamps_put h (Or.inr rfl) rfl rfl
    | report text rest next hp hpresent => exact stamps_put h (Or.inl rfl) rfl rfl
    | putchar c console hp hput => exact stamps_put h (Or.inl rfl) rfl rfl
    | _ => exact h

end Kernel

theorem kmainStart_uptime? (b : BootStats) :
    (kmainStart b).filterMap Statement.uptime? = [] := rfl

/-- In every state of every run the lines begin one after another, at numbers of interrupts that
never go down. The uptimes reported are the counter at some numbers of interrupts, the first of
them 100 or more, each 100 or more above the one before, and none above the stamp of its own line;
so there is at most one for each second that has gone by. -/
theorem kmain_uptime (b : BootStats) (m : Machine) :
    ∃ s₀, kmainEntry b m = some s₀ ∧ ∀ events s, Steps KernelStep s₀ events s →
      (s.trace.outputs.filterMap Output.stamp? ++ [s.trace.ticks]).Pairwise (· ≤ ·) ∧
      ∃ readings : List ℕ,
        List.Forall₂ (fun p r => p.1 = UInt64.ofNat r ∧ r ≤ p.2)
          (s.trace.outputs.filterMap Output.uptime?) readings ∧
        (0 :: readings).IsChain (fun r r' => r + 100 ≤ r') ∧
        100 * (s.trace.outputs.filterMap Output.uptime?).length ≤ s.trace.ticks := by
  obtain ⟨s₀, hentry, hs₀⟩ := kmainEntry_some b m
  refine ⟨s₀, hentry, fun events s hsteps => ?_⟩
  have hstart : s₀.Timely ∧ s₀.stamps.Pairwise (· ≤ ·) := by
    refine ⟨⟨[], [], 0, ?_, ?_, ⟨List.isChain_singleton 0, rfl⟩, hs₀.lastUptime, Nat.zero_le _,
      fun _ hr => absurd hr List.not_mem_nil⟩, ?_⟩
    · rw [Kernel.uptimes, hs₀.outputs]
      exact .nil
    · rw [Kernel.uptimesDue, hs₀.point]
      exact kmainStart_uptime? b
    · rw [Kernel.stamps, hs₀.outputs]
      exact List.pairwise_singleton _ _
  obtain ⟨_, ⟨reported, due, last, htimely⟩, hstamps⟩ := kmain_invariant
    (I := fun s => s.Timely ∧ s.stamps.Pairwise (· ≤ ·)) hs₀.starting hstart
    (fun s t hphase h hcase =>
      ⟨Kernel.step_timely hphase h.1 hcase, Kernel.step_stamps h.2 hcase⟩) hsteps
  have hlength := htimely.spaced.length_le
  have hle := htimely.le_ticks
  have hchain := htimely.spaced.chain
  rw [← List.cons_append, List.isChain_append] at hchain
  refine ⟨hstamps, reported, htimely.readAt, hchain.1, ?_⟩
  have hequal := htimely.readAt.length_eq
  rw [Kernel.uptimes] at hequal
  rw [List.length_append] at hlength
  omega

end Nadir
