import Nadir.Kmain.Echo
import Nadir.Console.Backspace
import Nadir.Console.Terminal

/-!
# The screen shows the output

The lines of the log and the echoed keys come onto the screen one after another, each line whole,
whatever interrupts come while it is printed. No step leaves the screen or an array.
-/

namespace Nadir

open Amd64 Transition TextPage

def Output.screen : Output → List Int8
  | .line l ticks => LogLine.text ⟨UInt64.ofNat ticks, l.subsystem, l.parts⟩
  | .report _ => []
  | .key c => [c.toInt8]

namespace Point

/-- What is left of the line that is being printed. -/
def unprinted : Point → List Int8
  | .print text _ _ => text
  | _ => []

theorem unprinted_wake (p : Point) : p.wake.unprinted = p.unprinted := by
  cases p <;> rfl

theorem unprinted_afterAll (next : Next) : (afterAll next).unprinted = [] := by
  cases next <;> rfl

end Point

namespace Kernel

variable {b : BootStats} {m : Machine} {s t : Kernel} {c₀ : Console}

def screenText (s : Kernel) : List Int8 := s.trace.outputs.flatMap Output.screen

/-- The screen is `c₀` with the output printed on it, up to what is left of a line. -/
def Printed (c₀ : Console) (s : Kernel) : Prop :=
  ∃ shown, shown ++ s.point.unprinted = s.screenText ∧ consolePrint shown c₀ = some s.console

theorem printed_congr (h : Printed c₀ s) (hunprinted : t.point.unprinted = s.point.unprinted)
    (houtputs : t.trace.outputs = s.trace.outputs) (hconsole : t.console = s.console) :
    Printed c₀ t := by
  rw [Printed, screenText, hunprinted, houtputs, hconsole]
  exact h

theorem consolePrint_concat {shown : List Int8} {c c' : Console} {ch : Int8}
    (h : consolePrint shown c₀ = some c) (hput : consolePutchar ch c = some c') :
    consolePrint (shown ++ [ch]) c₀ = some c' := by
  rw [consolePrint_append, h, Option.bind_some, consolePrint, hput]
  rfl

theorem main_printed (hphase : s.Phase b m) (h : Printed c₀ s) (hcase : MainCase s t) :
    Printed c₀ t := by
  cases hcase with
  | done next hp => exact printed_congr h (hp ▸ Point.unprinted_afterAll next) rfl rfl
  | drive st rest next hp hst => exact printed_congr h (hp ▸ rfl) rfl rfl
  | serialInit rest next hp => exact printed_congr h (hp ▸ rfl) rfl rfl
  | sti rest next hp => exact printed_congr h (hp ▸ rfl) rfl rfl
  | klog line rest next hp =>
    obtain ⟨shown, hshown, hprint⟩ := h
    rw [hp] at hshown
    refine ⟨shown, ?_, hprint⟩
    rw [screenText, List.flatMap_append, List.flatMap_singleton, ← screenText, ← hshown,
      Output.screen, ← hphase.ticks]
    exact congrArg (· ++ _) (List.append_nil shown).symm
  | report text rest next hp hpresent =>
    obtain ⟨shown, hshown, hprint⟩ := h
    rw [hp] at hshown
    refine ⟨shown, ?_, hprint⟩
    rw [screenText, List.flatMap_append, ← screenText, ← hshown]
    exact (List.append_nil (shown ++ [])).symm
  | noReport text rest next hp hpresent => exact printed_congr h (hp ▸ rfl) rfl rfl
  | printed rest next hp => exact printed_congr h (hp ▸ rfl) rfl rfl
  | print ch text rest next console hp hput =>
    obtain ⟨shown, hshown, hprint⟩ := h
    rw [hp] at hshown
    refine ⟨shown ++ [ch], ?_, consolePrint_concat hprint hput⟩
    rw [List.append_assoc]
    exact hshown
  | sent rest next hp => exact printed_congr h (hp ▸ rfl) rfl rfl
  | busy ch text rest next hp hput => exact h
  | send ch text rest next com1 hp hput => exact printed_congr h (hp ▸ rfl) rfl rfl
  | hlt hp => exact printed_congr h (hp ▸ rfl) rfl rfl
  | asleep hp => exact h
  | due hp hdue => exact printed_congr h (hp ▸ rfl) rfl rfl
  | notDue hp hdue => exact printed_congr h (hp ▸ rfl) rfl rfl
  | poll hp =>
    refine printed_congr h ?_ rfl rfl
    rw [hp]
    cases keyboardHasKey s.devices.kbd <;> rfl
  | empty hp hempty => exact printed_congr h (hp ▸ rfl) rfl rfl
  | compare hp hempty => exact printed_congr h (hp ▸ rfl) rfl rfl
  | read hp => exact printed_congr h (hp ▸ rfl) rfl rfl
  | store c hp => exact printed_congr h (hp ▸ rfl) rfl rfl
  | putchar c console hp hput =>
    obtain ⟨shown, hshown, hprint⟩ := h
    rw [hp] at hshown
    refine ⟨shown ++ [c.toInt8], ?_, consolePrint_concat hprint hput⟩
    rw [screenText, List.flatMap_append, List.flatMap_singleton, ← screenText, ← hshown,
      List.append_assoc, List.append_assoc]
    rfl

theorem step_printed (hphase : s.Phase b m) (h : Printed c₀ s) (hcase : StepCase s t) :
    Printed c₀ t := by
  cases hcase with
  | main hmain => exact main_printed hphase h hmain
  | shift => exact printed_congr h rfl rfl rfl
  | irq hrun hirq =>
    cases hirq with
    | tick irq hpics hhandlers => exact printed_congr h (Point.unprinted_wake _) rfl rfl
    | key code irq hpics hhandlers => exact printed_congr h (Point.unprinted_wake _) rfl rfl
    | spurious irq hpics hhandlers => exact printed_congr h (Point.unprinted_wake _) rfl rfl

theorem AtEntry.printed (h : s.AtEntry b m) : Printed s.console s := by
  refine ⟨[], ?_, rfl⟩
  rw [screenText, h.outputs, h.point]
  rfl

theorem Printed.resting (hc₀ : Resting c₀) (h : Printed c₀ s) : Resting s.console := by
  obtain ⟨shown, _, hprint⟩ := h
  obtain ⟨c, hc, hresting⟩ := consolePrint_resting shown hc₀
  rw [hprint, Option.some_inj] at hc
  rw [hc]
  exact hresting

theorem main_total (l : Locals) (h : Resting s.console) : ∃ t, s.main l = some t := by
  have hput : ∀ ch, ∃ c, consolePutchar ch s.console = some c :=
    fun ch => (putchar_resting ch h).imp fun _ hc => hc.1
  rw [main]
  cases hp : s.point with
  | exec rest next =>
    cases rest with
    | nil => exact ⟨_, rfl⟩
    | cons st rest =>
      dsimp only
      cases st with
      | klog line =>
        rw [exec, s.klogLine_eq]
        exact ⟨_, rfl⟩
      | _ => exact ⟨_, rfl⟩
  | print text rest next =>
    cases text with
    | nil => exact ⟨_, rfl⟩
    | cons ch text =>
      obtain ⟨c, hc⟩ := hput ch
      dsimp only
      rw [hc]
      exact ⟨_, rfl⟩
  | send text rest next =>
    cases text with
    | nil => exact ⟨_, rfl⟩
    | cons ch text => exact ⟨_, rfl⟩
  | putchar c =>
    obtain ⟨console, hc⟩ := hput c.toInt8
    dsimp only
    rw [hc]
    exact ⟨_, rfl⟩
  | _ => exact ⟨_, rfl⟩

end Kernel

/-- In every state of every run `kmain` can go on without leaving the screen or an array, the
screen is in order, and it is the cleared screen with the output printed on it but for what is left
of a line: each line with the ticks at which it was begun, and each key. As long as no backspace
was among them it shows the last rows of their page. -/
theorem kmain_screen (b : BootStats) (m : Machine) :
    ∃ s₀, kmainEntry b m = some s₀ ∧ ∀ events s, Steps KernelStep s₀ events s →
      (∀ l, ∃ t, s.main l = some t) ∧ s.console.Ok ∧
      ∃ shown, shown ++ s.point.unprinted = s.trace.outputs.flatMap Output.screen ∧
        (consoleClear m.console).bind (consolePrint shown) = some s.console ∧
        (8 ∉ shown → s.console.Shows (Page.layout vgaWidth (shown.map pageItem))) := by
  obtain ⟨s₀, hentry, hs₀⟩ := kmainEntry_some b m
  refine ⟨s₀, hentry, fun events s hsteps => ?_⟩
  obtain ⟨_, hprinted⟩ := kmain_invariant hs₀.starting hs₀.printed
    (fun s t hphase h hcase => Kernel.step_printed hphase h hcase) hsteps
  have hrest := hprinted.resting hs₀.resting
  obtain ⟨shown, hshown, hprint⟩ := hprinted
  refine ⟨fun l => Kernel.main_total l hrest, hrest.ok, shown, hshown, ?_, fun hback => ?_⟩
  · rw [hs₀.cleared]
    exact hprint
  · obtain ⟨c, hclear, hshows⟩ := consoleClear_shows m.console
    rw [hs₀.cleared, Option.some_inj] at hclear
    obtain ⟨c', hprint', hpage⟩ :=
      hshows.print (Page.ok_empty (by unfold vgaWidth; omega)) hback
    rw [← hclear, hprint, Option.some_inj] at hprint'
    rw [hprint']
    exact hpage

end Nadir
