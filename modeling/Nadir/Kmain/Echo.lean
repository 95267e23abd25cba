import Nadir.Kmain.Wiring

/-!
# Keys are echoed in order

The keyboard driver and the loop's three-step dequeue are a session of the ring with its consumer:
every step of the kernel is a step of the session or leaves it alone. The keys echoed so far, the
one on its way to the screen and those queued are therefore the keys that arrived with room.
-/

namespace Nadir

open Amd64 Transition

namespace Point

/-- The step of the dequeue that is next. -/
def consumer : Point → Consumer
  | .compare => .idle true
  | .read => .reading true
  | .store c => .storing true c
  | _ => .idle false

/-- The key that is taken but not printed yet. -/
def inflight : Point → List UInt8
  | .putchar c => [c]
  | _ => []

theorem consumer_wake (p : Point) : p.wake.consumer = p.consumer := by
  cases p <;> rfl

theorem inflight_wake (p : Point) : p.wake.inflight = p.inflight := by
  cases p <;> rfl

theorem consumer_afterAll (next : Next) : (afterAll next).consumer = .idle false := by
  cases next <;> rfl

end Point

namespace Kernel

variable {b : BootStats} {m : Machine} {s t : Kernel}

def session (s : Kernel) : Session where
  kbd := s.devices.kbd
  consumer := s.point.consumer
  calls := s.trace.taken.map fun c => ⟨true, some c⟩
  history := s.trace.history
  arrived := s.trace.arrived

def echoed (s : Kernel) : List UInt8 := s.trace.outputs.filterMap Output.key?

theorem session_returned (s : Kernel) : s.session.returned = s.trace.taken := by
  rw [Session.returned, session, List.filterMap_map]
  exact List.filterMap_some

/-- The session stays as it is, or makes a step of its own. -/
def SessionMoves (s t : Kernel) : Prop :=
  t.session = s.session ∨ ∃ e, SessionStep s.session e t.session

theorem session_congr (hkbd : t.devices.kbd = s.devices.kbd)
    (hconsumer : t.point.consumer = s.point.consumer) (htrace : t.trace.taken = s.trace.taken)
    (hhistory : t.trace.history = s.trace.history) (harrived : t.trace.arrived = s.trace.arrived) :
    t.session = s.session := by
  rw [session, session, hkbd, hconsumer, htrace, hhistory, harrived]

theorem irq_session (h : IrqCase s t) : SessionMoves s t := by
  cases h with
  | tick irq hpics hhandlers =>
    exact Or.inl (session_congr rfl (Point.consumer_wake _) rfl rfl rfl)
  | spurious irq hpics hhandlers =>
    exact Or.inl (session_congr rfl (Point.consumer_wake _) rfl rfl rfl)
  | key code irq hpics hhandlers =>
    refine Or.inr ⟨.irq code, ?_⟩
    have hstep := SessionStep.irq (s := s.session) code
    simp only [session, Point.consumer_wake]
    exact hstep

/-- A nonzero answer of `keyboard_has_key` still holds when the dequeue compares. -/
theorem not_empty_of_sound (h : s.session.Sound) (hp : s.point = .compare) :
    dequeueEmpty s.devices.kbd = false := by
  obtain ⟨r, hr⟩ := h
  have hholds := hr.consumer
  rw [session, hp] at hholds
  have hne : r.head ≠ r.tail := hholds rfl
  cases hempty : dequeueEmpty s.devices.kbd with
  | false => rfl
  | true => exact absurd (hr.empty_iff.mp hempty) hne

/-- No statement changes the state of the keyboard: `keyboard_init` finds it as it leaves it. -/
theorem Phase.drive_kbd (h : s.Phase b m) {st : Statement} {rest : List Statement} {next : Next}
    (hp : s.point = .exec (st :: rest) next) (hst : st.Drives) :
    (st.drive s.devices).kbd = s.devices.kbd := by
  rcases h with hstart | hrun
  · have hkbd := hstart.untouched.2
    rw [st.drive_kbd hkbd, hkbd]
  · have hquiet := hrun.quiet
    rw [hp] at hquiet
    have hst' := hquiet st List.mem_cons_self
    cases st <;> first | exact hst.elim | exact hst'.elim

theorem main_session (hphase : s.Phase b m) (hsound : s.session.Sound) (h : MainCase s t) :
    SessionMoves s t := by
  cases h with
  | done next hp =>
    exact Or.inl (session_congr rfl (hp ▸ Point.consumer_afterAll next) rfl rfl rfl)
  | drive st rest next hp hst =>
    exact Or.inl (session_congr (hphase.drive_kbd hp hst) (hp ▸ rfl) rfl rfl rfl)
  | serialInit rest next hp => exact Or.inl (session_congr rfl (hp ▸ rfl) rfl rfl rfl)
  | sti rest next hp => exact Or.inl (session_congr rfl (hp ▸ rfl) rfl rfl rfl)
  | klog line rest next hp => exact Or.inl (session_congr rfl (hp ▸ rfl) rfl rfl rfl)
  | report text rest next hp hpresent => exact Or.inl (session_congr rfl (hp ▸ rfl) rfl rfl rfl)
  | noReport text rest next hp hpresent => exact Or.inl (session_congr rfl (hp ▸ rfl) rfl rfl rfl)
  | printed rest next hp => exact Or.inl (session_congr rfl (hp ▸ rfl) rfl rfl rfl)
  | print ch text rest next console hp hput =>
    exact Or.inl (session_congr rfl (hp ▸ rfl) rfl rfl rfl)
  | sent rest next hp => exact Or.inl (session_congr rfl (hp ▸ rfl) rfl rfl rfl)
  | busy ch text rest next hp hput => exact Or.inl rfl
  | send ch text rest next com1 hp hput => exact Or.inl (session_congr rfl (hp ▸ rfl) rfl rfl rfl)
  | hlt hp => exact Or.inl (session_congr rfl (hp ▸ rfl) rfl rfl rfl)
  | asleep hp => exact Or.inl rfl
  | due hp hdue => exact Or.inl (session_congr rfl (hp ▸ rfl) rfl rfl rfl)
  | notDue hp hdue => exact Or.inl (session_congr rfl (hp ▸ rfl) rfl rfl rfl)
  | poll hp =>
    have hidle : s.session.consumer = .idle false := congrArg Point.consumer hp
    have hstep := SessionStep.hasKey hidle
    refine Or.inr ⟨.hasKey, ?_⟩
    have hpoint : (if keyboardHasKey s.devices.kbd then Point.compare else .hlt).consumer =
        .idle (keyboardHasKey s.devices.kbd) := by
      cases keyboardHasKey s.devices.kbd <;> rfl
    simp only [session, hpoint]
    exact hstep
  | empty hp hempty =>
    exact absurd (hempty.symm.trans (not_empty_of_sound hsound hp)) (by decide)
  | compare hp hempty =>
    have hready : s.session.consumer = .idle true := congrArg Point.consumer hp
    exact Or.inr ⟨.compare, SessionStep.compare hready hempty⟩
  | read hp =>
    have hreading : s.session.consumer = .reading true := congrArg Point.consumer hp
    exact Or.inr ⟨.read, SessionStep.read hreading⟩
  | store c hp =>
    have hstoring : s.session.consumer = .storing true c := congrArg Point.consumer hp
    have hstep := SessionStep.store hstoring
    refine Or.inr ⟨.store, ?_⟩
    simp only [session, List.map_append]
    exact hstep
  | putchar c console hp hput => exact Or.inl (session_congr rfl (hp ▸ rfl) rfl rfl rfl)

theorem step_session (hphase : s.Phase b m) (hsound : s.session.Sound) (h : StepCase s t) :
    t.session.Sound := by
  have hmoves : SessionMoves s t := by
    cases h with
    | main hmain => exact main_session hphase hsound hmain
    | irq hrun hirq => exact irq_session hirq
    | shift => exact Or.inl rfl
  rcases hmoves with hsame | ⟨e, hstep⟩
  · rw [hsame]
    exact hsound
  · obtain ⟨r, hr⟩ := hsound
    exact hr.step hstep

/-- A key is taken when its slot is released, and printed by the next step of `kmain`. -/
theorem main_taken (hsound : s.session.Sound) (h : s.trace.taken = s.echoed ++ s.point.inflight)
    (hcase : MainCase s t) : t.trace.taken = t.echoed ++ t.point.inflight := by
  cases hcase with
  | done next hp =>
    rw [hp] at h
    cases next <;> exact h
  | drive st rest next hp hst =>
    rw [hp] at h
    exact h
  | serialInit rest next hp =>
    rw [hp] at h
    exact h
  | sti rest next hp =>
    rw [hp] at h
    exact h
  | klog line rest next hp =>
    rw [hp] at h
    rw [echoed, List.filterMap_append]
    exact h.trans (List.append_nil _).symm
  | report text rest next hp hpresent =>
    rw [hp] at h
    rw [echoed, List.filterMap_append]
    exact h.trans (List.append_nil _).symm
  | noReport text rest next hp hpresent =>
    rw [hp] at h
    exact h
  | printed rest next hp =>
    rw [hp] at h
    exact h
  | print ch text rest next console hp hput =>
    rw [hp] at h
    exact h
  | sent rest next hp =>
    rw [hp] at h
    exact h
  | busy ch text rest next hp hput => exact h
  | send ch text rest next com1 hp hput =>
    rw [hp] at h
    exact h
  | hlt hp =>
    rw [hp] at h
    exact h
  | asleep hp => exact h
  | due hp hdue =>
    rw [hp] at h
    exact h
  | notDue hp hdue =>
    rw [hp] at h
    exact h
  | poll hp =>
    rw [hp] at h
    cases hkey : keyboardHasKey s.devices.kbd <;> exact h
  | empty hp hempty =>
    exact absurd (hempty.symm.trans (not_empty_of_sound hsound hp)) (by decide)
  | compare hp hempty =>
    rw [hp] at h
    exact h
  | read hp =>
    rw [hp] at h
    exact h
  | store c hp =>
    rw [hp] at h
    change s.trace.taken ++ [c] = s.echoed ++ [c]
    rw [h]
    exact congrArg (· ++ [c]) (List.append_nil s.echoed)
  | putchar c console hp hput =>
    rw [hp] at h
    rw [echoed, List.filterMap_append]
    exact h.trans (List.append_nil _).symm

/-- The keys go through the ring to the screen. -/
structure Echoes (s : Kernel) : Prop where
  sound : s.session.Sound
  taken : s.trace.taken = s.echoed ++ s.point.inflight

theorem AtEntry.echoes (h : s.AtEntry b m) : s.Echoes := by
  have hstarting := h.starting
  constructor
  · have hstart : s.session = Session.start (Vector.replicate 128 0) := by
      rw [session, hstarting.untouched.2, hstarting.history, hstarting.arrived, hstarting.taken,
        h.point]
      rfl
    rw [hstart]
    exact ⟨_, Session.represents_start _⟩
  · rw [hstarting.taken, echoed, h.outputs, h.point]
    rfl

theorem Echoes.step (hphase : s.Phase b m) (h : s.Echoes) (hcase : StepCase s t) : t.Echoes := by
  refine ⟨step_session hphase h.sound hcase, ?_⟩
  have htaken := h.taken
  cases hcase with
  | main hmain => exact main_taken h.sound htaken hmain
  | shift => exact htaken
  | irq hrun hirq =>
    rw [← Point.inflight_wake] at htaken
    cases hirq with
    | tick irq hpics hhandlers => exact htaken
    | key code irq hpics hhandlers => exact htaken
    | spurious irq hpics hhandlers => exact htaken

theorem Echoes.fifo (h : s.Echoes) :
    s.echoed ++ s.point.inflight ++ queued s.devices.kbd = s.trace.arrived := by
  obtain ⟨r, hr⟩ := h.sound
  have hall := hr.fifo_of.fifo
  rw [s.session_returned, h.taken] at hall
  exact hall

end Kernel

/-- In every state of every run the keys that were printed, the one on its way to the screen and
those still queued are exactly the keys that arrived while fewer than 127 were queued, in order;
none is zero, the dequeue never finds the ring empty, and what a scancode stands for depends on the
scancodes before it alone. -/
theorem kmain_echoes (b : BootStats) (m : Machine) :
    ∃ s₀, kmainEntry b m = some s₀ ∧ ∀ events s, Steps KernelStep s₀ events s →
      s.echoed ++ s.point.inflight ++ queued s.devices.kbd = s.trace.arrived ∧
      (∀ c ∈ s.trace.arrived, c ≠ 0) ∧
      (queued s.devices.kbd).length ≤ 127 ∧
      (s.point = .compare → dequeueEmpty s.devices.kbd = false) ∧
      ∀ code, keyboardOnIrq code s.devices.kbd = deliver (translate s.trace.history code)
        (s.devices.kbd.withDecoder (Decoder.after (s.trace.history ++ [code]))) := by
  obtain ⟨s₀, hentry, hs₀⟩ := kmainEntry_some b m
  refine ⟨s₀, hentry, fun events s hsteps => ?_⟩
  obtain ⟨_, hechoes⟩ := kmain_invariant hs₀.starting hs₀.echoes
    (fun s t hphase h hcase => h.step hphase hcase) hsteps
  obtain ⟨r, hr⟩ := hechoes.sound
  have hfifo := hr.fifo_of
  exact ⟨hechoes.fifo, hr.nonzero, hfifo.length_le,
    Kernel.not_empty_of_sound hechoes.sound, hfifo.irq⟩

end Nadir
