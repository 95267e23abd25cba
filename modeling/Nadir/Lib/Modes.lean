import Nadir.Lib.Paging
import Nadir.Lib.X86

/-!
# The modes of an x86 processor

The control registers and the code segment decide how instructions are decoded and whether addresses
are translated. To load a control register or a segment register in a way the processor refuses is a
fault; with paging on every access goes through the tables of long mode. Segments have the base 0.
The processor writes to memory on its own account: it marks a descriptor that it loads, and on every
access the entries of the tables on the way. What it fetches ahead of the program, which may mark
more entries, and paging outside long mode are not part of this.
-/

namespace Modes

open ByteMem Paging

/-- `misdecoded` stands for code assembled for another size than the processor decodes. -/
inductive Fault where
  | generalProtection
  | pageFault (address : ℕ)
  | misdecoded
  deriving DecidableEq, Repr

/-- A segment register with the descriptor loaded into it. -/
structure Segment where
  selector : UInt16
  descriptor : UInt64
  deriving DecidableEq, Repr

namespace Segment

def bit (s : Segment) (i : ℕ) : Bool := s.descriptor.toNat.testBit i

def present (s : Segment) : Bool := s.bit 47

def isCode (s : Segment) : Bool := s.bit 44 && s.bit 43

def isWritable (s : Segment) : Bool := s.bit 44 && !s.bit 43 && s.bit 41

def long (s : Segment) : Bool := s.bit 53

def big (s : Segment) : Bool := s.bit 54

/-- The descriptor with the mark that loading it sets. -/
def accessed (s : Segment) : Segment :=
  { s with descriptor := s.descriptor ||| (1 : UInt64) <<< 40 }

end Segment

/-- The bits of `efer` are those software writes: whether long mode is active follows from them. -/
structure Control where
  cr0 : UInt32
  cr3 : UInt32
  cr4 : UInt32
  efer : UInt64
  gdtBase : ℕ
  gdtLimit : ℕ
  interrupts : Bool
  cs : Segment
  ss : Segment
  ds : Segment
  es : Segment
  fs : Segment
  gs : Segment

structure State where
  ctl : Control
  mem : Mem

namespace Control

variable (c : Control)

def pe : Bool := c.cr0.toNat.testBit 0
def pg : Bool := c.cr0.toNat.testBit 31
def pae : Bool := c.cr4.toNat.testBit 5
def lme : Bool := c.efer.toNat.testBit 8

def longActive : Bool := c.pg && c.lme

/-- The size of the code the processor decodes. -/
def codeSize : ℕ :=
  if c.pe = false then 16
  else if c.longActive && c.cs.long then 64
  else if c.cs.big then 32
  else 16

/-- Memory behind an access to a byte. -/
def marks (write : Bool) (a : ℕ) (m : Mem) : Mem :=
  if c.pg then pageMark write c.cr3.toUInt64 (UInt64.ofNat a) m else m

def withCode (seg : Segment) (c : Control) : Control := { c with cs := seg }

def withData (seg : Segment) (c : Control) : Control :=
  { c with ds := seg, es := seg, fs := seg, gs := seg, ss := seg }

variable {c} {seg : Segment}

@[simp] theorem pe_withCode : (c.withCode seg).pe = c.pe := rfl

@[simp] theorem pg_withCode : (c.withCode seg).pg = c.pg := rfl

@[simp] theorem longActive_withCode : (c.withCode seg).longActive = c.longActive := rfl

@[simp] theorem pe_withData : (c.withData seg).pe = c.pe := rfl

@[simp] theorem pg_withData : (c.withData seg).pg = c.pg := rfl

theorem codeSize_of_real (hpe : c.pe = false) : c.codeSize = 16 := if_pos hpe

theorem codeSize_of_flat (hpe : c.pe = true) (hlong : (c.longActive && c.cs.long) = false) :
    c.codeSize = if c.cs.big then 32 else 16 := by
  rw [codeSize, hpe, hlong]
  rfl

theorem codeSize_of_long (hpe : c.pe = true) (hactive : c.longActive = true)
    (hlong : c.cs.long = true) : c.codeSize = 64 := by
  rw [codeSize, hpe, hactive, hlong]
  rfl

end Control

namespace State

def cli (s : State) : State := { s with ctl.interrupts := false }

def movCr0 (v : UInt32) (s : State) : Except Fault State :=
  let c := { s.ctl with cr0 := v }
  if c.pg && !c.pe then .error .generalProtection
  else if c.pg && !s.ctl.pg && c.lme && (!c.pae || c.cs.long) then .error .generalProtection
  else .ok { s with ctl := c }

def movCr4 (v : UInt32) (s : State) : Except Fault State :=
  let c := { s.ctl with cr4 := v }
  if c.longActive && !c.pae then .error .generalProtection else .ok { s with ctl := c }

def movCr3 (v : UInt32) (s : State) : State := { s with ctl.cr3 := v }

def wrmsrEfer (v : UInt64) (s : State) : Except Fault State :=
  let c := { s.ctl with efer := v }
  if c.pg && (c.lme != s.ctl.lme) then .error .generalProtection else .ok { s with ctl := c }

def lgdt (base limit : ℕ) (s : State) : State :=
  { s with ctl.gdtBase := base, ctl.gdtLimit := limit }

/-- The physical address of a byte, and whether it can be written. -/
def translate (a : ℕ) (s : State) : Except Fault (ℕ × Bool) :=
  if s.ctl.pg = false then .ok (a, true)
  else match pageWalk s.mem s.ctl.cr3.toUInt64 (UInt64.ofNat a) with
    | .mapped p w => .ok (p, w)
    | .notPresent _ => .error (.pageFault a)

/-- An access to a byte: its physical address, and the state with the marks. -/
def access (write : Bool) (a : ℕ) (s : State) : Except Fault (ℕ × State) := do
  let (p, w) ← s.translate a
  if write && !w then .error (.pageFault a)
  else pure (p, { s with mem := s.ctl.marks write a s.mem })

/-- The code at `a` is assembled for the size `n`. -/
def bits (n a : ℕ) (s : State) : Except Fault State := do
  let (p, s) ← s.access false a
  if s.ctl.codeSize = n ∧ p = a then pure s else .error .misdecoded

def loadByte (a : ℕ) (s : State) : Except Fault (UInt8 × State) := do
  let (p, s) ← s.access false a
  pure (s.mem p, s)

def storeByte (a : ℕ) (v : UInt8) (s : State) : Except Fault State := do
  let (p, s) ← s.access true a
  pure { s with mem := Function.update s.mem p v }

/-- `n` bytes as one number, lowest byte first. -/
def loadLE (a : ℕ) : ℕ → State → Except Fault (ℕ × State)
  | 0, s => pure (0, s)
  | n + 1, s => do
    let (b, s) ← s.loadByte a
    let (rest, s) ← loadLE (a + 1) n s
    pure (b.toNat + 256 * rest, s)

/-- The low `n` bytes of a number, the highest first. -/
def storeLE (a v : ℕ) : ℕ → State → Except Fault State
  | 0, s => pure s
  | n + 1, s => do
    let s ← storeLE (a + 1) (v / 256) n s
    s.storeByte a (UInt8.ofNat v)

def repStosb (v : UInt8) : ℕ → ℕ → State → Except Fault State
  | 0, _, s => pure s
  | n + 1, dst, s => do
    let s ← s.storeByte dst v
    repStosb v n (dst + 1) s

def repMovsb : ℕ → ℕ → ℕ → State → Except Fault State
  | 0, _, _, s => pure s
  | n + 1, src, dst, s => do
    let (b, s) ← s.loadByte src
    let s ← s.storeByte dst b
    repMovsb n (src + 1) (dst + 1) s

/-- Where the descriptor of a selector lies in the table. -/
def descriptorOffset (selector : UInt16) : ℕ := 8 * (selector.toNat / 8)

/-- The segment a selector names in the descriptor table. -/
def segment (selector : UInt16) (s : State) : Except Fault (Segment × State) :=
  let offset := descriptorOffset selector
  if offset = 0 ∨ s.ctl.gdtLimit < offset + 7 then .error .generalProtection
  else do
    let (d, s) ← s.loadLE (s.ctl.gdtBase + offset) 8
    pure (⟨selector, UInt64.ofNat d⟩, s)

/-- The mark of a descriptor is written where it is not set yet. -/
def setAccessed (selector : UInt16) (s : State) : Except Fault State := do
  let a := s.ctl.gdtBase + descriptorOffset selector + 5
  let (b, s) ← s.loadByte a
  if b ||| 1 = b then pure s else s.storeByte a (b ||| 1)

/-- A far jump within one privilege level. -/
def farJmp (selector : UInt16) (s : State) : Except Fault State := do
  let (seg, s) ← s.segment selector
  if !seg.present || !seg.isCode || (s.ctl.longActive && seg.long && seg.big) then
    .error .generalProtection
  else do
    let s ← s.setAccessed selector
    pure { s with ctl := s.ctl.withCode seg.accessed }

/-- The data registers and `ss` are loaded with a segment that can be written. -/
def movSegments (selector : UInt16) (s : State) : Except Fault State := do
  let (seg, s) ← s.segment selector
  if !seg.present || !seg.isWritable then .error .generalProtection
  else do
    let s ← s.setAccessed selector
    pure { s with ctl := s.ctl.withData seg.accessed }

/-- Protection may be turned on at any time, paging only under protection, and with long mode
enabled only with the wide tables and from code that is not 64-bit. -/
theorem movCr0_eq {v : UInt32} {s : State} (hpe : v.toNat.testBit 0 = true)
    (hpg : v.toNat.testBit 31 = true → s.ctl.pg = false → s.ctl.lme = true →
      s.ctl.pae = true ∧ s.ctl.cs.long = false) :
    s.movCr0 v = .ok { s with ctl.cr0 := v } := by
  have hprotected : Control.pe { s.ctl with cr0 := v } = true := hpe
  rw [movCr0]
  dsimp only
  rw [hprotected, Bool.not_true, Bool.and_false, if_neg Bool.false_ne_true, if_neg]
  intro h
  simp only [Bool.and_eq_true, Bool.or_eq_true, Bool.not_eq_true'] at h
  obtain ⟨⟨⟨hpaging, hoff⟩, hlme⟩, hwrong⟩ := h
  obtain ⟨hpae, hlong⟩ := hpg hpaging hoff hlme
  rcases hwrong with hnarrow | hcode
  · have htables : s.ctl.pae = false := hnarrow
    rw [hpae] at htables
    cases htables
  · have hcurrent : s.ctl.cs.long = true := hcode
    rw [hlong] at hcurrent
    cases hcurrent

/-! While paging is off the other control registers take any value. -/

theorem movCr4_of_unpaged {s : State} (hpg : s.ctl.pg = false) (v : UInt32) :
    s.movCr4 v = .ok { s with ctl.cr4 := v } := by
  have hpg' : Control.pg { s.ctl with cr4 := v } = false := hpg
  rw [movCr4]
  dsimp only
  rw [Control.longActive, hpg']
  rfl

theorem wrmsrEfer_of_unpaged {s : State} (hpg : s.ctl.pg = false) (v : UInt64) :
    s.wrmsrEfer v = .ok { s with ctl.efer := v } := by
  have hpg' : Control.pg { s.ctl with efer := v } = false := hpg
  rw [wrmsrEfer]
  dsimp only
  rw [hpg']
  rfl

end State

/-- While `P` holds of memory, the bytes below `top` are mapped to themselves, the marks of an
access to them lie in `tables` and keep it, and so do writes outside of `tables`. -/
structure Identity (c : Control) (P : Mem → Prop) (tables : Set ℕ) (top : ℕ) : Prop where
  translate : ∀ {m}, P m → ∀ a < top, State.translate a ⟨c, m⟩ = .ok (a, true)
  marks : ∀ {m}, P m → ∀ a < top, ∀ write,
    P (c.marks write a m) ∧ Set.EqOn (c.marks write a m) m tablesᶜ
  update : ∀ {m}, P m → ∀ a ∉ tables, ∀ v, P (Function.update m a v)

/-- To a program that leaves the tables alone the memory `m` is `seen`. -/
structure Backs (P : Mem → Prop) (tables : Set ℕ) (seen m : Mem) : Prop where
  holds : P m
  eqOn : Set.EqOn m seen tablesᶜ

theorem Backs.self {P : Mem → Prop} {tables : Set ℕ} {m : Mem} (hm : P m) : Backs P tables m m :=
  ⟨hm, fun _ _ => rfl⟩

theorem Backs.eq_of_empty {P : Mem → Prop} {seen m : Mem} (h : Backs P ∅ seen m) : m = seen :=
  funext fun a => h.eqOn (Set.notMem_empty a)

namespace Identity

variable {c : Control} {P : Mem → Prop} {tables : Set ℕ} {top : ℕ} {seen m : Mem}

theorem physical (hpg : c.pg = false) (top : ℕ) : Identity c (fun _ => True) ∅ top := by
  refine ⟨fun _ _ _ => if_pos hpg, fun {m} _ a _ write => ⟨trivial, ?_⟩, fun _ _ _ _ => trivial⟩
  intro b _
  rw [Control.marks, hpg, if_neg Bool.false_ne_true]

variable (h : Identity c P tables top)
include h

theorem access (hm : Backs P tables seen m) {a : ℕ} (ha : a < top) (write : Bool) :
    State.access write a ⟨c, m⟩ = .ok (a, ⟨c, c.marks write a m⟩) ∧
      Backs P tables seen (c.marks write a m) := by
  obtain ⟨hkept, hsame⟩ := h.marks hm.holds a ha write
  refine ⟨?_, hkept, fun b hb => (hsame hb).trans (hm.eqOn hb)⟩
  rw [State.access, h.translate hm.holds a ha]
  simp only [bind, Except.bind, Bool.not_true, Bool.and_false]
  rfl

theorem bits (hm : Backs P tables seen m) {n a : ℕ} (ha : a < top) (hsize : c.codeSize = n) :
    ∃ m', State.bits n a ⟨c, m⟩ = .ok ⟨c, m'⟩ ∧ Backs P tables seen m' := by
  obtain ⟨haccess, hm'⟩ := h.access hm ha false
  refine ⟨_, ?_, hm'⟩
  rw [State.bits, haccess]
  exact if_pos ⟨hsize, rfl⟩

theorem loadByte (hm : Backs P tables seen m) {a : ℕ} (ha : a < top) (haway : a ∉ tables) :
    ∃ m', State.loadByte a ⟨c, m⟩ = .ok (seen a, ⟨c, m'⟩) ∧ Backs P tables seen m' := by
  obtain ⟨haccess, hm'⟩ := h.access hm ha false
  refine ⟨_, ?_, hm'⟩
  rw [State.loadByte, haccess, ← hm'.eqOn haway]
  rfl

theorem storeByte (hm : Backs P tables seen m) {a : ℕ} (ha : a < top) (haway : a ∉ tables)
    (v : UInt8) : ∃ m', State.storeByte a v ⟨c, m⟩ = .ok ⟨c, m'⟩ ∧
      Backs P tables (Function.update seen a v) m' := by
  obtain ⟨haccess, hm'⟩ := h.access hm ha true
  refine ⟨Function.update (c.marks true a m) a v, ?_, h.update hm'.holds a haway v, ?_⟩
  · rw [State.storeByte, haccess]
    rfl
  · intro b hb
    rcases eq_or_ne b a with rfl | hne
    · rw [Function.update_self, Function.update_self]
    · rw [Function.update_of_ne hne, Function.update_of_ne hne, hm'.eqOn hb]

theorem loadLE (hm : Backs P tables seen m) {a n : ℕ} (ha : a + n ≤ top)
    (haway : ∀ b, a ≤ b → b < a + n → b ∉ tables) :
    ∃ m', State.loadLE a n ⟨c, m⟩ = .ok (ByteMem.loadLE seen a n, ⟨c, m'⟩) ∧
      Backs P tables seen m' := by
  induction n generalizing a m with
  | zero => exact ⟨m, rfl, hm⟩
  | succ n ih =>
    obtain ⟨m₁, hfirst, hm₁⟩ := h.loadByte hm (show a < top by omega) (haway a le_rfl (by omega))
    obtain ⟨m₂, hrest, hm₂⟩ := ih hm₁ (show a + 1 + n ≤ top by omega)
      (fun b hlo hhi => haway b (by omega) (by omega))
    refine ⟨m₂, ?_, hm₂⟩
    rw [State.loadLE, hfirst]
    simp only [bind, Except.bind, hrest]
    rfl

theorem loadLE_error (hm : P m) (htop : ∀ m, P m → ∃ e, State.translate top ⟨c, m⟩ = .error e)
    {a n : ℕ} (ha : a ≤ top) (hn : top < a + n) : ∃ e, State.loadLE a n ⟨c, m⟩ = .error e := by
  induction n generalizing a m with
  | zero => omega
  | succ n ih =>
    rw [State.loadLE, State.loadByte]
    rcases Nat.eq_or_lt_of_le ha with rfl | hlt
    · obtain ⟨e, herror⟩ := htop m hm
      refine ⟨e, ?_⟩
      rw [State.access, herror]
      rfl
    · obtain ⟨haccess, hm'⟩ := h.access (.self hm) hlt false
      obtain ⟨e, hrest⟩ := ih hm'.holds hlt (by omega)
      refine ⟨e, ?_⟩
      rw [haccess]
      simp only [bind, Except.bind, pure, Except.pure, hrest]

theorem storeLE (hm : Backs P tables seen m) {a n : ℕ} (v : ℕ) (ha : a + n ≤ top)
    (haway : ∀ b, a ≤ b → b < a + n → b ∉ tables) :
    ∃ m', State.storeLE a v n ⟨c, m⟩ = .ok ⟨c, m'⟩ ∧
      Backs P tables (ByteMem.storeLE seen a v n) m' := by
  induction n generalizing a v with
  | zero => exact ⟨m, rfl, hm⟩
  | succ n ih =>
    obtain ⟨m₁, hrest, hm₁⟩ := ih (a := a + 1) (v / 256) (by omega)
      (fun b hlo hhi => haway b (by omega) (by omega))
    obtain ⟨m₂, hfirst, hm₂⟩ := h.storeByte hm₁ (show a < top by omega)
      (haway a le_rfl (by omega)) (UInt8.ofNat v)
    refine ⟨m₂, ?_, hm₂⟩
    rw [State.storeLE, hrest]
    exact hfirst

theorem repStosb (hm : Backs P tables seen m) (v : UInt8) {dst n : ℕ} (hdst : dst + n ≤ top)
    (haway : ∀ b, dst ≤ b → b < dst + n → b ∉ tables) :
    ∃ m', State.repStosb v n dst ⟨c, m⟩ = .ok ⟨c, m'⟩ ∧
      Backs P tables (X86.repStosb v n dst seen) m' := by
  induction n generalizing dst seen m with
  | zero => exact ⟨m, rfl, hm⟩
  | succ n ih =>
    obtain ⟨m₁, hfirst, hm₁⟩ := h.storeByte hm (show dst < top by omega)
      (haway dst le_rfl (by omega)) v
    obtain ⟨m₂, hrest, hm₂⟩ := ih hm₁ (show dst + 1 + n ≤ top by omega)
      (fun b hlo hhi => haway b (by omega) (by omega))
    refine ⟨m₂, ?_, hm₂⟩
    rw [State.repStosb, hfirst]
    exact hrest

theorem repMovsb (hm : Backs P tables seen m) {src dst n : ℕ} (hsrc : src + n ≤ top)
    (hdst : dst + n ≤ top) (hread : ∀ b, src ≤ b → b < src + n → b ∉ tables)
    (haway : ∀ b, dst ≤ b → b < dst + n → b ∉ tables) :
    ∃ m', State.repMovsb n src dst ⟨c, m⟩ = .ok ⟨c, m'⟩ ∧
      Backs P tables (X86.repMovsb n src dst seen) m' := by
  induction n generalizing src dst seen m with
  | zero => exact ⟨m, rfl, hm⟩
  | succ n ih =>
    obtain ⟨m₁, hload, hm₁⟩ := h.loadByte hm (show src < top by omega)
      (hread src le_rfl (by omega))
    obtain ⟨m₂, hstore, hm₂⟩ := h.storeByte hm₁ (show dst < top by omega)
      (haway dst le_rfl (by omega)) (seen src)
    obtain ⟨m₃, hrest, hm₃⟩ := ih hm₂ (show src + 1 + n ≤ top by omega)
      (show dst + 1 + n ≤ top by omega)
      (fun b hlo hhi => hread b (by omega) (by omega))
      (fun b hlo hhi => haway b (by omega) (by omega))
    refine ⟨m₃, ?_, hm₃⟩
    rw [State.repMovsb, hload]
    simp only [bind, Except.bind, hstore]
    exact hrest

section Descriptor

variable (hm : Backs P tables seen m) {selector : UInt16} {i : ℕ} (hi : selector.toNat = 8 * i)
  (htop : c.gdtBase + 8 * i + 8 ≤ top)
  (haway : ∀ b, c.gdtBase + 8 * i ≤ b → b < c.gdtBase + 8 * i + 8 → b ∉ tables)
include hm hi htop haway

theorem segment (hpos : 0 < i) (hlimit : 8 * i + 7 ≤ c.gdtLimit) :
    ∃ m', State.segment selector ⟨c, m⟩ =
        .ok (⟨selector, load64 seen (c.gdtBase + 8 * i)⟩, ⟨c, m'⟩) ∧
      Backs P tables seen m' := by
  have hoffset : State.descriptorOffset selector = 8 * i := by
    rw [State.descriptorOffset]
    omega
  obtain ⟨m', hload, hm'⟩ := h.loadLE hm htop haway
  refine ⟨m', ?_, hm'⟩
  rw [State.segment, hoffset, if_neg (by dsimp only; omega)]
  simp only [hload, bind, Except.bind]
  rfl

theorem setAccessed :
    ∃ m', State.setAccessed selector ⟨c, m⟩ = .ok ⟨c, m'⟩ ∧
      Backs P tables (setBits seen (c.gdtBase + 8 * i + 5) 1) m' := by
  have hoffset : State.descriptorOffset selector = 8 * i := by
    rw [State.descriptorOffset]
    omega
  have hout := haway (c.gdtBase + 8 * i + 5) (by omega) (by omega)
  obtain ⟨m₁, hload, hm₁⟩ := h.loadByte hm (show c.gdtBase + 8 * i + 5 < top by omega) hout
  rw [State.setAccessed, hoffset]
  simp only [hload, bind, Except.bind]
  split_ifs with hset
  · refine ⟨m₁, rfl, ?_⟩
    rw [setBits, hset, Function.update_eq_self]
    exact hm₁
  · exact h.storeByte hm₁ (by omega) hout _

variable (hpos : 0 < i) (hlimit : 8 * i + 7 ≤ c.gdtLimit) {seg : Segment}
  (hseg : (⟨selector, load64 seen (c.gdtBase + 8 * i)⟩ : Segment) = seg)
  (hpresent : seg.present = true)
include hpos hlimit hseg hpresent

theorem farJmp (hcode : seg.isCode = true) (hsize : (seg.long && seg.big) = false) :
    ∃ m', State.farJmp selector ⟨c, m⟩ = .ok ⟨c.withCode seg.accessed, m'⟩ ∧
      Backs P tables (setBits seen (c.gdtBase + 8 * i + 5) 1) m' := by
  obtain ⟨m₁, hload, hm₁⟩ := h.segment hm hi htop haway hpos hlimit
  obtain ⟨m₂, hset, hm₂⟩ := h.setAccessed hm₁ hi htop haway
  refine ⟨m₂, ?_, hm₂⟩
  rw [State.farJmp, hload, hseg]
  simp only [bind, Except.bind, hpresent, hcode, Bool.and_assoc, hsize, hset]
  rw [Bool.and_false]
  rfl

theorem movSegments (hwritable : seg.isWritable = true) :
    ∃ m', State.movSegments selector ⟨c, m⟩ = .ok ⟨c.withData seg.accessed, m'⟩ ∧
      Backs P tables (setBits seen (c.gdtBase + 8 * i + 5) 1) m' := by
  obtain ⟨m₁, hload, hm₁⟩ := h.segment hm hi htop haway hpos hlimit
  obtain ⟨m₂, hset, hm₂⟩ := h.setAccessed hm₁ hi htop haway
  refine ⟨m₂, ?_, hm₂⟩
  rw [State.movSegments, hload, hseg]
  simp only [bind, Except.bind, hpresent, hwritable, hset]
  rfl

end Descriptor

end Identity

end Modes
