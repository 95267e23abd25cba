import Nadir.Console.Invariant
import Nadir.Console.Terminal
import Nadir.Interrupt.Exceptions
import Nadir.Klog.Lines

/-!
# The report on an exception

`exception_handler` prints the name of the exception and five numbers of its frame before it halts
the processor for good. The report is read back: from the entry into the stub to the characters on
the screen nothing of the vector, the error code, the instruction pointer, the code segment and the
flags is lost, except where the processor pushes a word that the stub does not expect.
-/

namespace Nadir

open Amd64 Fields Numeral TextPage

def exceptionNames : List (List Int8) := [
  "Divide Error (#DE)", "Debug Exception (#DB)", "NMI",
  "Breakpoint (#BP)", "Overflow (#OF)", "Bound Range (#BR)",
  "Invalid Opcode (#UD)", "Device Not Available (#NM)",
  "Double Fault (#DF)", "Coprocessor Segment Overrun",
  "Invalid TSS (#TS)", "Segment Not Present (#NP)",
  "Stack-Segment Fault (#SS)", "General Protection (#GP)",
  "Page Fault (#PF)", "Reserved (15)",
  "x87 Floating-Point (#MF)", "Alignment Check (#AC)",
  "Machine Check (#MC)", "SIMD Floating-Point (#XM)",
  "Virtualization (#VE)", "Control Protection (#CP)",
  "Reserved (22)", "Reserved (23)", "Reserved (24)", "Reserved (25)",
  "Reserved (26)", "Reserved (27)", "Hypervisor Injection (#HV)",
  "VMM Communication (#VC)", "Security Exception (#SX)", "Reserved (31)"].map
    fun s => ascii s.toList

def pickName (vector : UInt64) : Option (List Int8) :=
  if vector < 32 then exceptionNames[vector.toNat]?
  else some (ascii "Unknown Exception".toList)

/-- What `exception_handler` prints before it halts. -/
def exceptionHandler (frame : InterruptFrame) : Option (List Int8) := do
  let name ← pickName frame.vector
  let vector ← consolePuthex64 frame.vector
  let error ← consolePuthex64 frame.error
  let rip ← consolePuthex64 frame.rip
  let cs ← consolePuthex64 frame.cs
  let rflags ← consolePuthex64 frame.rflags
  return cString (ascii "\n*** EXCEPTION: ".toList) ++ cString name ++
    cString (ascii " (vector ".toList) ++ vector ++
    cString (ascii ") ***\nerror: ".toList) ++ error ++
    cString (ascii " rip: ".toList) ++ rip ++ cString (ascii " cs: ".toList) ++ cs ++
    cString (ascii " rflags: ".toList) ++ rflags ++ cString (ascii "\nSystem halted.\n".toList)

/-- What a report says. -/
structure ExceptionReport where
  name : List Int8
  vector : ℕ
  error : ℕ
  rip : ℕ
  cs : ℕ
  rflags : ℕ
  deriving DecidableEq, Repr

/-- The number whose sixteen digits start at `i`. -/
def hexAt (i : ℕ) (s : List Int8) : ℕ := hexValue ((s.drop i).take 16)

/-- Takes a report apart: the name and the vector stand in its second line, the other numbers in
the third one. -/
def readReport (s : List Int8) : ExceptionReport :=
  let first := (records (chr '\n') s).getD 1 []
  let second := (records (chr '\n') s).getD 2 []
  { name := (first.drop 15).take (first.length - 47)
    vector := hexAt (first.length - 21) first
    error := hexAt 9 second
    rip := hexAt 33 second
    cs := hexAt 56 second
    rflags := hexAt 83 second }

def exceptionName (v : UInt64) : List Int8 :=
  if v < 32 then exceptionNames.getD v.toNat [] else ascii "Unknown Exception".toList

def InterruptFrame.report (f : InterruptFrame) : ExceptionReport :=
  ⟨exceptionName f.vector, f.vector.toNat, f.error.toNat, f.rip.toNat, f.cs.toNat, f.rflags.toNat⟩

def hex64 (v : UInt64) : List Int8 := (fixedDigits 16 16 v.toNat).map upperHex

@[simp] theorem length_hex64 (v : UInt64) : (hex64 v).length = 16 := by
  rw [hex64, List.length_map, length_fixedDigits]

theorem hexAt_append {i : ℕ} {before : List Int8} (h : before.length = i) (v : UInt64)
    (behind : List Int8) : hexAt i (before ++ hex64 v ++ behind) = v.toNat := by
  rw [hexAt, List.append_assoc, List.drop_left' h, List.take_left' (length_hex64 v)]
  exact hexValue_fixedDigits v

/-- Some text without a line break, a backspace or the end of a string. -/
def Inline (s : List Int8) : Prop := 0 ∉ s ∧ chr '\n' ∉ s ∧ 8 ∉ s

instance : DecidablePred Inline := fun _ => inferInstanceAs (Decidable (_ ∧ _))

theorem inline_append {s t : List Int8} : Inline (s ++ t) ↔ Inline s ∧ Inline t := by
  simp only [Inline, List.mem_append, not_or]
  tauto

theorem inline_hex64 (v : UInt64) : Inline (hex64 v) := by
  have hlow : ∀ c ∈ hex64 v, chr '0' ≤ c := by
    intro c hc
    rcases isUpperHex_of_mem hc with hdigit | hletter
    · exact hdigit.1
    · exact Int8.le_trans (by decide) hletter.1
  exact ⟨fun h => absurd (hlow _ h) (by decide), fun h => absurd (hlow _ h) (by decide),
    fun h => absurd (hlow _ h) (by decide)⟩

theorem exceptionNames_inline : ∀ name ∈ exceptionNames, Inline name := by
  decide +kernel

theorem pickName_eq (v : UInt64) :
    pickName v = some (exceptionName v) ∧ Inline (exceptionName v) := by
  rw [pickName, exceptionName]
  split_ifs with hlt
  · have hlength : v.toNat < exceptionNames.length := UInt64.lt_iff_toNat_lt.mp hlt
    rw [List.getD, List.getElem?_eq_getElem hlength]
    exact ⟨rfl, exceptionNames_inline _ (List.getElem_mem hlength)⟩
  · exact ⟨rfl, by decide⟩

def puthex64 (v : UInt64) : List Int8 := ascii ['0', 'x'] ++ hex64 v

def reportFirst (f : InterruptFrame) : List Int8 :=
  ascii "*** EXCEPTION: ".toList ++ exceptionName f.vector ++ ascii " (vector ".toList ++
    puthex64 f.vector ++ ascii ") ***".toList

def reportSecond (f : InterruptFrame) : List Int8 :=
  ascii "error: ".toList ++ puthex64 f.error ++ ascii " rip: ".toList ++ puthex64 f.rip ++
    ascii " cs: ".toList ++ puthex64 f.cs ++ ascii " rflags: ".toList ++ puthex64 f.rflags

def reportText (f : InterruptFrame) : List Int8 :=
  chr '\n' :: (reportFirst f ++ chr '\n' :: (reportSecond f ++ chr '\n' ::
    (ascii "System halted.".toList ++ [chr '\n'])))

theorem exceptionHandler_eq (f : InterruptFrame) : exceptionHandler f = some (reportText f) := by
  obtain ⟨hname, hinline⟩ := pickName_eq f.vector
  have hzero : cString (exceptionName f.vector) = exceptionName f.vector :=
    cString_eq_self hinline.1
  have hstart : cString (ascii "\n*** EXCEPTION: ".toList) =
      chr '\n' :: ascii "*** EXCEPTION: ".toList := by decide
  have hvector : cString (ascii " (vector ".toList) = ascii " (vector ".toList := by decide
  have herror : cString (ascii ") ***\nerror: ".toList) =
      ascii ") ***".toList ++ chr '\n' :: ascii "error: ".toList := by decide
  have hrip : cString (ascii " rip: ".toList) = ascii " rip: ".toList := by decide
  have hcs : cString (ascii " cs: ".toList) = ascii " cs: ".toList := by decide
  have hrflags : cString (ascii " rflags: ".toList) = ascii " rflags: ".toList := by decide
  have hend : cString (ascii "\nSystem halted.\n".toList) =
      chr '\n' :: (ascii "System halted.".toList ++ [chr '\n']) := by decide
  have hhex : ∀ v, consolePuthex64 v = some (puthex64 v) := consolePuthex64_eq
  rw [exceptionHandler, hname]
  simp only [hhex, hzero, hstart, hvector, herror, hrip, hcs, hrflags, hend, reportText,
    reportFirst, reportSecond, List.append_assoc, List.cons_append, Option.bind_eq_bind,
    Option.bind_some, Option.pure_def]

theorem inline_puthex64 (v : UInt64) : Inline (puthex64 v) :=
  inline_append.mpr ⟨by decide, inline_hex64 v⟩

theorem inline_reportFirst (f : InterruptFrame) : Inline (reportFirst f) := by
  rw [reportFirst]
  simp only [inline_append]
  exact ⟨⟨⟨⟨by decide, (pickName_eq f.vector).2⟩, by decide⟩, inline_puthex64 _⟩, by decide⟩

theorem inline_reportSecond (f : InterruptFrame) : Inline (reportSecond f) := by
  rw [reportSecond]
  simp only [inline_append]
  exact ⟨⟨⟨⟨⟨⟨⟨by decide, inline_puthex64 _⟩, by decide⟩, inline_puthex64 _⟩, by decide⟩,
    inline_puthex64 _⟩, by decide⟩, inline_puthex64 _⟩

theorem backspace_notMem_reportText (f : InterruptFrame) : 8 ∉ reportText f := by
  have hfirst : 8 ∉ reportFirst f := (inline_reportFirst f).2.2
  have hsecond : 8 ∉ reportSecond f := (inline_reportSecond f).2.2
  have hbreak : (8 : Int8) ≠ chr '\n' := by decide
  have hend : (8 : Int8) ∉ ascii "System halted.".toList := by decide
  rw [reportText]
  simp only [List.mem_cons, List.mem_append, List.not_mem_nil, or_false, not_or]
  exact ⟨hbreak, hfirst, hbreak, hsecond, hbreak, hend, hbreak⟩

theorem records_reportText (f : InterruptFrame) :
    records (chr '\n') (reportText f) =
      [[], reportFirst f, reportSecond f, ascii "System halted.".toList] := by
  have hfirst : chr '\n' ∉ reportFirst f := (inline_reportFirst f).2.1
  have hsecond : chr '\n' ∉ reportSecond f := (inline_reportSecond f).2.1
  have hend : chr '\n' ∉ ascii "System halted.".toList := by decide
  rw [reportText, ← List.nil_append (chr '\n' :: _), records_append List.not_mem_nil,
    records_append hfirst, records_append hsecond, records_append hend]
  rfl

theorem reportFirst_vector (f : InterruptFrame) :
    hexAt ((reportFirst f).length - 21) (reportFirst f) = f.vector.toNat := by
  have hsplit : reportFirst f = (ascii "*** EXCEPTION: ".toList ++ exceptionName f.vector ++
      ascii " (vector ".toList ++ ascii ['0', 'x']) ++ hex64 f.vector ++ ascii ") ***".toList := by
    simp only [reportFirst, puthex64, List.append_assoc]
  have hend : (ascii ") ***".toList).length = 5 := by decide
  rw [hsplit]
  apply hexAt_append
  simp only [List.length_append, length_hex64, hend]
  omega

theorem reportFirst_name (f : InterruptFrame) :
    ((reportFirst f).drop 15).take ((reportFirst f).length - 47) = exceptionName f.vector := by
  have hsplit : reportFirst f = ascii "*** EXCEPTION: ".toList ++ (exceptionName f.vector ++
      (ascii " (vector ".toList ++ (puthex64 f.vector ++ ascii ") ***".toList))) := by
    simp only [reportFirst, List.append_assoc]
  have hstart : (ascii "*** EXCEPTION: ".toList).length = 15 := by decide
  have hbehind : (ascii " (vector ".toList ++ (puthex64 f.vector ++ ascii ") ***".toList)).length =
      32 := by
    rw [List.length_append, List.length_append, puthex64, List.length_append, length_hex64]
    decide
  rw [hsplit, List.drop_left' hstart]
  apply List.take_left'
  rw [List.length_append, List.length_append, hstart, hbehind]
  omega

theorem reportSecond_numbers (f : InterruptFrame) :
    hexAt 9 (reportSecond f) = f.error.toNat ∧ hexAt 33 (reportSecond f) = f.rip.toNat ∧
      hexAt 56 (reportSecond f) = f.cs.toNat ∧ hexAt 83 (reportSecond f) = f.rflags.toNat := by
  have herror : reportSecond f = (ascii "error: ".toList ++ ascii ['0', 'x']) ++ hex64 f.error ++
      (ascii " rip: ".toList ++ puthex64 f.rip ++ ascii " cs: ".toList ++ puthex64 f.cs ++
        ascii " rflags: ".toList ++ puthex64 f.rflags) := by
    simp only [reportSecond, puthex64, List.append_assoc]
  have hrip : reportSecond f = (ascii "error: ".toList ++ puthex64 f.error ++
      ascii " rip: ".toList ++ ascii ['0', 'x']) ++ hex64 f.rip ++ (ascii " cs: ".toList ++
        puthex64 f.cs ++ ascii " rflags: ".toList ++ puthex64 f.rflags) := by
    simp only [reportSecond, puthex64, List.append_assoc]
  have hcs : reportSecond f = (ascii "error: ".toList ++ puthex64 f.error ++
      ascii " rip: ".toList ++ puthex64 f.rip ++ ascii " cs: ".toList ++ ascii ['0', 'x']) ++
        hex64 f.cs ++ (ascii " rflags: ".toList ++ puthex64 f.rflags) := by
    simp only [reportSecond, puthex64, List.append_assoc]
  have hrflags : reportSecond f = (ascii "error: ".toList ++ puthex64 f.error ++
      ascii " rip: ".toList ++ puthex64 f.rip ++ ascii " cs: ".toList ++ puthex64 f.cs ++
        ascii " rflags: ".toList ++ ascii ['0', 'x']) ++ hex64 f.rflags ++ [] := by
    simp only [reportSecond, puthex64, List.append_assoc, List.append_nil]
  have hlength : ∀ v, (puthex64 v).length = 18 := by
    intro v
    rw [puthex64, List.length_append, length_hex64]
    rfl
  refine ⟨?_, ?_, ?_, ?_⟩
  · rw [herror]
    exact hexAt_append (by decide) _ _
  · rw [hrip]
    apply hexAt_append
    simp only [List.length_append, hlength]
    decide
  · rw [hcs]
    apply hexAt_append
    simp only [List.length_append, hlength]
    decide
  · rw [hrflags]
    apply hexAt_append
    simp only [List.length_append, hlength]
    decide

theorem readReport_reportText (f : InterruptFrame) : readReport (reportText f) = f.report := by
  obtain ⟨herror, hrip, hcs, hrflags⟩ := reportSecond_numbers f
  rw [readReport, records_reportText]
  simp only [List.getD_cons_succ, List.getD_cons_zero]
  rw [reportFirst_name, reportFirst_vector, herror, hrip, hcs, hrflags]
  rfl

theorem Console.Ok.shows {c : Console} (h : c.Ok) : ∃ p, p.Ok vgaWidth ∧ c.Shows p := by
  have hrow := h.row
  have hcol := h.col
  have hblank := h.blank
  unfold Console.offset at hblank
  let p : Page UInt8 :=
    ⟨fun r j => if r * vgaWidth + j < c.offset then some (glyph (c.vga (r * vgaWidth + j)))
      else none, c.cursorRow.toNat, c.cursorCol.toNat⟩
  refine ⟨p, ⟨hcol, fun r j hbehind => ?_⟩, ?_⟩
  · apply if_neg
    change c.cursorRow.toNat < r ∨ r = c.cursorRow.toNat ∧ c.cursorCol.toNat ≤ j at hbehind
    unfold Console.offset vgaWidth at *
    omega
  · have htop : p.top vgaHeight = 0 := by
      change c.cursorRow.toNat - (vgaHeight - 1) = 0
      omega
    rw [Console.Shows, htop]
    refine ⟨rfl, rfl, fun i hi j hj => ?_⟩
    rw [Nat.zero_add]
    change _ = (if i * vgaWidth + j < c.offset then some (glyph (c.vga (i * vgaWidth + j)))
      else none).getD 0x20
    split_ifs with hlt
    · rfl
    · have hcell : i * vgaWidth + j < vgaCells := by
        unfold vgaCells vgaHeight vgaWidth at *
        omega
      rw [h.blank _ (Nat.le_of_not_lt hlt) hcell]
      rfl

/-- The frame that the handler gets: a word further down where the processor pushes an error code
that the stub does not expect. -/
def handledFrame (vendor : Vendor) (v : ℕ) (code : UInt64) (s : Cpu) : InterruptFrame :=
  if vendor = .amd ∧ (v = 29 ∨ v = 30) then shiftedFrame v code s
  else InterruptFrame.ofCpu s (UInt64.ofNat v) ((vendor.pushed v code).getD 0)

theorem frame_handled {g : Gate} {s t : Cpu} {vendor : Vendor} {v : ℕ} {code : UInt64}
    (ht : Entered g (vendor.pushed v code) s t) (ret : UInt64) :
    InterruptFrame.read ((atExceptionHandler v t).push ret).mem
      ((atExceptionHandler v t).regs .rdi) = handledFrame vendor v code s := by
  rw [handledFrame]
  split_ifs with hamd
  · have hpushed : vendor.pushed v code = some code := by
      rw [hamd.1]
      rcases hamd.2 with rfl | rfl <;> rfl
    have herr : v ∉ isrErrVectors := by
      rcases hamd.2 with rfl | rfl <;> decide
    rw [hpushed] at ht
    exact frame_of_surplus ret ht herr
  · have hvendor : vendor = .intel ∨ ¬(v = 29 ∨ v = 30) := by
      cases vendor with
      | intel => exact Or.inl rfl
      | amd => exact Or.inr fun h => hamd ⟨rfl, h⟩
    have hstub := mem_errorVectors_iff hvendor
    unfold Vendor.pushed at ht ⊢
    by_cases herr : v ∈ isrErrVectors
    · rw [if_pos (hstub.mpr herr)] at ht ⊢
      exact frame_of_error ret ht herr
    · rw [if_neg (fun h => herr (hstub.mp h))] at ht ⊢
      exact frame_of_noerror ret ht herr

/-- The exception enters its stub, `exception_handler` is called, and what it prints reads back to
`r` and goes onto the page that a screen in order shows. -/
def Reports (p : Program IsrLabel) (stub : ℕ → UInt64) (vendor : Vendor) (v : ℕ) (code : UInt64)
    (s : Cpu) (r : ExceptionReport) : Prop :=
  ∃ t e text, Amd64.deliver v (vendor.pushed v code) s = some t ∧ t.rip = stub v ∧
    p.Reaches (p.text (.isrStub v), t) (.call .exceptionHandler :: isrCommonEnd, e) ∧
    exceptionHandler (InterruptFrame.read (e.push (p.addr isrCommonEnd)).mem (e.regs .rdi)) =
      some text ∧
    readReport text = r ∧
    ∀ c : Console, c.Ok → ∃ page c', c.Shows page ∧ consolePrint text c = some c' ∧
      c'.Shows ((text.map pageItem).foldl (Page.put vgaWidth) page)

/-- An exception on the kernel's gates, from its delivery to the screen: the report tells its name,
the vector, the error code, the instruction pointer, the code segment and the flags. With an error
code on the vectors 29 and 30, which only an AMD processor pushes, each number behind the vector is
that of the field before its own. -/
theorem exception_reported {idt : IdtTable} {stub : ℕ → UInt64} {boot s : Cpu}
    (hs : UsesExceptionGates idt stub boot s) (callee : IsrLabel → Cpu → Cpu)
    (addr : IsrCode → UInt64) (vendor : Vendor) {v : ℕ} (hv : v < 32) (code : UInt64) :
    Reports (isrProgram callee addr) stub vendor v code s
      (if vendor = .amd ∧ (v = 29 ∨ v = 30) then
        ⟨exceptionNames.getD v [], v, 0, code.toNat, s.rip.toNat, s.cs.toNat⟩
      else
        ⟨exceptionNames.getD v [], v, ((vendor.pushed v code).getD 0).toNat, s.rip.toNat,
          s.cs.toNat, s.rflags.toNat⟩) := by
  obtain ⟨t, hdeliver, ht⟩ := hs.entered hv (vendor.pushed v code)
  have hframe := frame_handled ht ((isrProgram callee addr).addr isrCommonEnd)
  refine ⟨t, atExceptionHandler v t, reportText (handledFrame vendor v code s), hdeliver, ht.rip,
    reaches_exceptionHandler callee addr hv t, ?_, ?_, fun c hc => ?_⟩
  · rw [hframe, exceptionHandler_eq]
  · have hvector : (UInt64.ofNat v).toNat = v := by
      rw [UInt64.toNat_ofNat']
      omega
    have hname : exceptionName (UInt64.ofNat v) = exceptionNames.getD v [] := by
      rw [exceptionName, hvector, if_pos]
      rw [UInt64.lt_iff_toNat_lt, hvector]
      exact hv
    rw [readReport_reportText, handledFrame, InterruptFrame.report]
    split_ifs with hamd
    · dsimp only [shiftedFrame, InterruptFrame.ofCpu]
      rw [hname, hvector]
      rfl
    · dsimp only [InterruptFrame.ofCpu]
      rw [hname, hvector, UInt16.toNat_toUInt64]
  · obtain ⟨p, hp, hshows⟩ := hc.shows
    obtain ⟨c', hprint, hpage⟩ := hshows.print hp (backspace_notMem_reportText _)
    exact ⟨p, c', hshows, hprint, hpage⟩

/-- A page fault with the error code 2. -/
theorem exception_reported_pageFault :
    Reports (isrProgram (fun _ => returnZero) (fun _ => 0x100500))
      (fun v => 0x101000 + 16 * UInt64.ofNat v) .intel 14 2
      (builtIdt ⟨0x106000, by decide⟩ (fun v => 0x101000 + 16 * UInt64.ofNat v) idleCpu)
      ⟨ascii "Page Fault (#PF)".toList, 14, 2, idleCpu.rip.toNat, idleCpu.cs.toNat,
        idleCpu.rflags.toNat⟩ :=
  exception_reported (usesExceptionGates_builtIdt _ _ _) _ _ .intel (by decide) 2

end Nadir
