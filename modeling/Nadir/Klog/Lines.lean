import Nadir.Klog.Numbers
import Nadir.Klog.Timestamp
import Nadir.Lib.Fields
import Mathlib.Data.List.TakeWhile

/-!
# The lines of the log

`klog_begin` prints the prefix of a line, `klog_str`, `klog_dec` and `klog_hex64` its parts and
`klog_end` the line break. A log of any lines is read back: each line falls into the ticks at which
it was begun, its subsystem and its message.
-/

namespace Nadir

open Fields

/-- A part of an open line. -/
inductive LogPart where
  | str (s : List Int8)
  | dec (v : UInt64)
  | hex64 (v : UInt64)

/-- `buf` is what the array of `klog_dec` holds before. -/
def LogPart.print (buf : CharBuf 20) : LogPart → Option (List Int8)
  | .str s => some (cString s)
  | .dec v => klogDec v buf
  | .hex64 v => consolePuthex64 v

/-- The calls between `klog_begin` and `klog_end`, each with its own local array. -/
def klogParts (buf : ℕ → CharBuf 20) : List LogPart → Option (List Int8)
  | [] => some []
  | p :: ps => (p.print (buf 0)).bind fun s => (klogParts (fun k => buf (k + 1)) ps).map (s ++ ·)

/-- What the local arrays of the calls for one line hold before. -/
structure Locals where
  num : CharBuf 22
  buf : ℕ → CharBuf 20

/-- `klog_begin`, the parts and `klog_end`. -/
def klogLine (l : Locals) (ticks : UInt64) (subsystem : List Int8) (parts : List LogPart) :
    Option (List Int8) :=
  (klogPrefix ticks subsystem l.num).bind fun start =>
    (klogParts l.buf parts).map fun message => start ++ message ++ [chr '\n']

def klog (l : Locals) (ticks : UInt64) (subsystem msg : List Int8) : Option (List Int8) :=
  klogLine l ticks subsystem [.str msg]

def LogPart.text : LogPart → List Int8
  | .str s => cString s
  | .dec v => ascii (Nat.toDigits 10 v.toNat)
  | .hex64 v => ascii ['0', 'x'] ++ (Numeral.fixedDigits 16 16 v.toNat).map upperHex

/-- A line of the log: the ticks at its begin, the subsystem, and the parts of the message. -/
structure LogLine where
  ticks : UInt64
  subsystem : List Int8
  parts : List LogPart

namespace LogLine

def message (e : LogLine) : List Int8 := e.parts.flatMap LogPart.text

def body (e : LogLine) : List Int8 :=
  ascii ('[' :: timeField e.ticks.toNat ++ [']', ' ']) ++ cString e.subsystem ++
    ascii [':', ' '] ++ e.message

def text (e : LogLine) : List Int8 := e.body ++ [chr '\n']

def print (l : Locals) (e : LogLine) : Option (List Int8) := klogLine l e.ticks e.subsystem e.parts

end LogLine

/-- What a line of the log says. -/
structure LogRecord where
  micros : ℕ
  subsystem : List Int8
  message : List Int8
  deriving DecidableEq, Repr

def LogLine.record (e : LogLine) : LogRecord :=
  ⟨10000 * e.ticks.toNat, cString e.subsystem, e.message⟩

/-- Takes a line apart. -/
def readLine (s : List Int8) : LogRecord :=
  let rest := (behind (chr ']') s).drop 1
  ⟨fieldMicros ((before (chr ']') s).drop 1), before (chr ':') rest, (behind (chr ':') rest).drop 1⟩

def readLog (s : List Int8) : List LogRecord := (records (chr '\n') s).map readLine

/-- The calls for some lines, one after another. -/
def printLog : List (Locals × LogLine) → Option (List Int8)
  | [] => some []
  | (l, e) :: lines => (e.print l).bind fun s => (printLog lines).map (s ++ ·)

/-- The subsystem has no colon, and neither it nor a string of the message breaks the line. -/
structure LogLine.Plain (e : LogLine) : Prop where
  colon : chr ':' ∉ cString e.subsystem
  subsystem : chr '\n' ∉ cString e.subsystem
  strings : ∀ s, .str s ∈ e.parts → chr '\n' ∉ cString s

theorem klogParts_eq (buf : ℕ → CharBuf 20) (parts : List LogPart) :
    klogParts buf parts = some (parts.flatMap LogPart.text) := by
  induction parts generalizing buf with
  | nil => rfl
  | cons p ps ih =>
    have hprint : p.print (buf 0) = some p.text := by
      cases p with
      | str s => rfl
      | dec v => exact (klogDec_eq v _).1
      | hex64 v => exact consolePuthex64_eq v
    rw [klogParts, hprint, Option.bind_some, ih]
    rfl

theorem LogLine.print_eq (l : Locals) (e : LogLine) : e.print l = some e.text := by
  rw [print, klogLine, klogPrefix_eq, Option.bind_some, klogParts_eq]
  rfl

theorem cString_eq_self {s : List Int8} (h : 0 ∉ s) : cString s = s := by
  rw [cString, List.takeWhile_eq_self_iff]
  intro c hc
  exact decide_eq_true fun heq => h (heq ▸ hc)

theorem zero_notMem_cString (s : List Int8) : 0 ∉ cString s := by
  intro h
  have hkept := @List.mem_takeWhile_imp _ (fun ch => decide (ch ≠ 0)) _ _ h
  exact absurd rfl (of_decide_eq_true hkept)

theorem chr_zero_le_dec {v : UInt64} {c : Int8} (hc : c ∈ (LogPart.dec v).text) :
    chr '0' ≤ c := ((isDecimal_toDigits v.toNat).digits c hc).1

theorem chr_zero_le_hex64 {v : UInt64} {c : Int8} (hc : c ∈ (LogPart.hex64 v).text) :
    chr '0' ≤ c := by
  have hstart : ∀ c ∈ ascii ['0', 'x'], chr '0' ≤ c :=
    List.forall_mem_cons.mpr ⟨by decide, List.forall_mem_singleton.mpr (by decide)⟩
  rw [LogPart.text, List.mem_append] at hc
  rcases hc with hc | hc
  · exact hstart c hc
  · rcases isUpperHex_of_mem hc with hdigit | hletter
    · exact hdigit.1
    · exact Int8.le_trans (by decide) hletter.1

theorem mem_message {e : LogLine} {c : Int8} (hlow : ¬chr '0' ≤ c) (hc : c ∈ e.message) :
    ∃ s, .str s ∈ e.parts ∧ c ∈ cString s := by
  obtain ⟨p, hp, hmem⟩ := List.mem_flatMap.mp hc
  cases p with
  | str s => exact ⟨s, hp, hmem⟩
  | dec v => exact absurd (chr_zero_le_dec hmem) hlow
  | hex64 v => exact absurd (chr_zero_le_hex64 hmem) hlow

theorem klog_message (l l' : Locals) (e : LogLine) :
    klog l' e.ticks e.subsystem e.message = e.print l := by
  have hmessage : cString e.message = e.message := by
    apply cString_eq_self
    intro hzero
    obtain ⟨s, _, hmem⟩ := mem_message (by decide) hzero
    exact zero_notMem_cString s hmem
  have hwhole : LogLine.message ⟨e.ticks, e.subsystem, [.str e.message]⟩ = e.message :=
    (List.append_nil _).trans hmessage
  have hprint := LogLine.print_eq l' ⟨e.ticks, e.subsystem, [.str e.message]⟩
  rw [LogLine.text, LogLine.body, hwhole] at hprint
  rw [e.print_eq l, LogLine.text, LogLine.body]
  exact hprint

theorem mem_timeField {t : ℕ} {c : Char} (hc : c ∈ timeField t) :
    c = ' ' ∨ c = '.' ∨ c.isDigit = true := by
  rw [timeField, List.leftpad, List.mem_append, List.mem_append, List.mem_cons] at hc
  rcases hc with hpad | hsecs | hpoint | hmicros
  · exact Or.inl (List.eq_of_mem_replicate hpad)
  · exact Or.inr (Or.inr (isDigit_toDigits hsecs))
  · exact Or.inr (Or.inl hpoint)
  · exact Or.inr (Or.inr (isDigit_microDigits hmicros))

theorem notMem_timeField {c : Char} (t : ℕ) (hblank : chr ' ' ≠ chr c) (hpoint : chr '.' ≠ chr c)
    (hdigit : ¬(48 ≤ (chr c).toInt ∧ (chr c).toInt ≤ 57)) : chr c ∉ ascii (timeField t) := by
  intro hmem
  obtain ⟨d, hd, heq⟩ := List.mem_map.mp hmem
  rcases mem_timeField hd with rfl | rfl | hd
  · exact hblank heq
  · exact hpoint heq
  · obtain ⟨hvalue, hlo, hhi⟩ := chr_toInt hd
    rw [← heq, hvalue] at hdigit
    omega

theorem LogLine.body_eq (e : LogLine) :
    e.body = (chr '[' :: ascii (timeField e.ticks.toNat)) ++ chr ']' ::
      (chr ' ' :: (cString e.subsystem ++ chr ':' :: chr ' ' :: e.message)) := by
  simp [body]

theorem LogLine.Plain.notMem_body {e : LogLine} (h : e.Plain) : chr '\n' ∉ e.body := by
  have hfield := @notMem_timeField '\n' e.ticks.toNat (by decide) (by decide) (by decide)
  have hmessage : chr '\n' ∉ e.message := by
    intro hmem
    obtain ⟨s, hs, hc⟩ := mem_message (by decide) hmem
    exact h.strings s hs hc
  rw [body_eq]
  simp only [List.mem_append, List.mem_cons, not_or]
  exact ⟨⟨by decide, hfield⟩, by decide, by decide, h.subsystem, by decide, by decide, hmessage⟩

theorem LogLine.Plain.readLine_body {e : LogLine} (h : e.Plain) : readLine e.body = e.record := by
  have hfield := @notMem_timeField ']' e.ticks.toNat (by decide) (by decide) (by decide)
  have hstart : chr ']' ∉ chr '[' :: ascii (timeField e.ticks.toNat) := by
    rw [List.mem_cons, not_or]
    exact ⟨by decide, hfield⟩
  have hmicros : fieldMicros (ascii (timeField e.ticks.toNat)) = 10000 * e.ticks.toNat := by
    have hread := fieldMicros_timeField e.ticks.toNat
    omega
  rw [body_eq, readLine, before_append hstart, behind_append hstart]
  dsimp only [List.drop]
  rw [before_append h.colon, behind_append h.colon, hmicros]
  rfl

theorem printLog_eq (lines : List (Locals × LogLine)) :
    printLog lines = some (lines.flatMap fun p => p.2.body ++ [chr '\n']) := by
  induction lines with
  | nil => rfl
  | cons p lines ih =>
    rw [printLog, p.2.print_eq, Option.bind_some, ih]
    rfl

/-- Whatever the local arrays hold, any lines are printed, a line in parts like the line of its
whole message, and where the subsystems have no colon and no string breaks a line the log is read
back: each line to its ticks, in units of ten milliseconds, its subsystem and its message. -/
theorem klog_reads_back (lines : List (Locals × LogLine)) :
    (∀ p ∈ lines, ∀ l, klog l p.2.ticks p.2.subsystem p.2.message = p.2.print p.1) ∧
    ∃ text, printLog lines = some text ∧
      ((∀ p ∈ lines, p.2.Plain) → readLog text = lines.map fun p => p.2.record) := by
  refine ⟨fun p _ l => klog_message p.1 l p.2, _, printLog_eq lines, fun hplain => ?_⟩
  have hrecords := @records_flatMap _ _ (chr '\n') _ (fun p : Locals × LogLine => p.2.body) lines
    (fun p hp => (hplain p hp).notMem_body)
  rw [readLog, hrecords, List.map_map]
  apply List.map_congr_left
  intro p hp
  exact (hplain p hp).readLine_body

end Nadir
