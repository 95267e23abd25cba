import Nadir.Boot.Query
import Nadir.Lib.Transition
import Mathlib.Data.Set.Card
import Mathlib.Tactic.SplitIfs

/-!
# The staged memory map

While the loop of `query_e820` runs, the count byte is the number of calls made and each slot
below it holds what its call left there. The loop ends with the first answer that is refused or
closes the list, and at the latest with the call after the last slot.
-/

namespace Nadir

open ByteMem X86

def E820Answer.Accepted (a : E820Answer) : Prop := a.regs.cf = false ∧ a.regs.eax.dword = smap

/-- The answer asks for another call. -/
def E820Answer.Continues (a : E820Answer) : Prop := a.Accepted ∧ a.regs.ebx.dword ≠ 0

/-- The i-th answer is accepted and every answer before it asked to go on. -/
def Listed (answers : ℕ → E820Answer) (i : ℕ) : Prop :=
  (answers i).Accepted ∧ ∀ j < i, (answers j).Continues

/-- The number of leading answers accepted, up to one that ends the list. -/
noncomputable def listLength (answers : ℕ → E820Answer) : ℕ∞ :=
  Set.encard {i | Listed answers i}

/-- A byte of a slot as the i-th answer left it. -/
def slotByte (answers : ℕ → E820Answer) (m₀ : Mem) (i k : ℕ) : UInt8 :=
  ((answers i).bytes k).getD (m₀ (e820Buf.toNat + 24 * i + k))

/-- The first `n` slots hold what their answers left, the staging area behind them is as it was. -/
structure Slots (answers : ℕ → E820Answer) (m₀ : Mem) (n : ℕ) (m : Mem) : Prop where
  slot : ∀ i < n, ∀ k < 24, m (e820Buf.toNat + 24 * i + k) = slotByte answers m₀ i k
  rest : ∀ b, e820Buf.toNat + 24 * n ≤ b → b < e820Buf.toNat + 24 * 65 → m b = m₀ b

theorem e820Buf_toNat : e820Buf.toNat = 0x5020 := rfl

variable {answers : ℕ → E820Answer} {m₀ m : Mem} {n : ℕ}

theorem Slots.congr {m' : Mem} (h : Slots answers m₀ n m)
    (hsame : ∀ b, e820Buf.toNat ≤ b → b < e820Buf.toNat + 24 * 65 → m' b = m b) (hn : n ≤ 65) :
    Slots answers m₀ n m' := by
  refine ⟨fun i hi k hk => ?_, fun b hlo hhi => ?_⟩
  · rw [hsame _ (by omega) (by omega), h.slot i hi k hk]
  · rw [hsame b (by omega) hhi, h.rest b hlo hhi]

theorem Slots.write (h : Slots answers m₀ n m) (hn : n ≤ 64) :
    Slots answers m₀ (n + 1)
      (writeBytes (e820Buf.toNat + 24 * n) 24 (answers n).bytes m) := by
  refine ⟨fun i hi k hk => ?_, fun b hlo hhi => ?_⟩
  · rcases Nat.lt_succ_iff_lt_or_eq.mp hi with hlt | rfl
    · rw [writeBytes, if_neg (by omega), h.slot i hlt k hk]
    · have hplace : e820Buf.toNat + 24 * i + k - (e820Buf.toNat + 24 * i) = k := by omega
      rw [writeBytes, if_pos (by omega), hplace, slotByte, h.rest _ (by omega) (by omega)]
  · rw [writeBytes, if_neg (by omega), h.rest b (by omega) hhi]

variable {v : BootVars}

theorem queryRequest_spec {s : Cpu} (hds : s.ds = 0) (hcount : (s.mem e820CountAddr).toNat = n)
    (hn : n ≤ 64) :
    (queryRequest v s).ds = 0 ∧ (queryRequest v s).mem = s.mem ∧
    (queryRequest v s).ecx.dword.toNat = 24 ∧
    linear (queryRequest v s).es (queryRequest v s).edi.word = e820Buf.toNat + 24 * n := by
  have hes : (queryRequest v s).es = 0 := Reg.word_setWord 0 _
  have hdi : (queryRequest v s).edi.word =
      e820Buf + UInt16.ofNat ((s.mem e820CountAddr).toNat * e820EntrySize.toNat) := by
    have hload : s.xorAx.movEsAx.load8 e820CountAddr = s.mem e820CountAddr :=
      Cpu.load8_of_ds hds _
    simp only [queryRequest, hload, Cpu.mulCl, Reg.word_setWord]
  have hsize : e820EntrySize.toNat = 24 := rfl
  refine ⟨hds, rfl, ?_, ?_⟩
  · have hecx : (queryRequest v s).ecx.dword = 24 := Reg.dword_ofDword 24
    rw [hecx]
    rfl
  · rw [linear, hes, hdi, UInt16.toNat_add, UInt16.toNat_ofNat', hcount, hsize, e820Buf_toNat,
      UInt16.toNat_zero]
    omega

/-- At `.loop` after `n` calls that all asked to go on. -/
structure Staging (answers : ℕ → E820Answer) (m₀ : Mem) (n : ℕ) (s : QueryState) : Prop where
  label : s.label = .loop
  calls : s.calls = n
  ds : s.cpu.ds = 0
  count : (s.cpu.mem e820CountAddr).toNat = n
  le : n ≤ 64
  continues : ∀ i < n, (answers i).Continues
  slots : Slots answers m₀ n s.cpu.mem

/-- At the end of the loop with `n` entries staged: they are the listed ones, up to 64. -/
structure Staged (answers : ℕ → E820Answer) (m₀ : Mem) (n : ℕ) (s : Cpu) : Prop where
  ds : s.ds = 0
  count : (s.mem e820CountAddr).toNat = n
  le : n ≤ 64
  listed : ∀ i < 64, i < n ↔ Listed answers i
  slot : ∀ i < n, ∀ k < 24, s.mem (e820Buf.toNat + 24 * i + k) = slotByte answers m₀ i k

theorem Listed.not_of_lt {i j : ℕ} (h : ¬ (answers i).Continues) (hij : i < j) :
    ¬ Listed answers j := fun hj => h (hj.2 i hij)

theorem Listed.not_of_le {i j : ℕ} (h : ¬ (answers i).Accepted) (hij : i ≤ j) :
    ¬ Listed answers j := by
  rcases Nat.eq_or_lt_of_le hij with rfl | hlt
  · exact fun hj => h hj.1
  · exact Listed.not_of_lt (fun hc => h hc.1) hlt

theorem Listed.of_le {i j : ℕ} (h : Listed answers j) (hij : i ≤ j) : Listed answers i := by
  rcases Nat.eq_or_lt_of_le hij with rfl | hlt
  · exact h
  · exact ⟨(h.2 i hlt).1, fun l hl => h.2 l (Nat.lt_trans hl hlt)⟩

theorem listed_of_continues {i : ℕ} (h : ∀ j < n, (answers j).Continues) (hi : i < n) :
    Listed answers i := ⟨(h i hi).1, fun j hj => h j (Nat.lt_trans hj hi)⟩

/-- The processor after a call with `n` entries staged, DS restored. -/
def afterCall (v : BootVars) (answer : E820Answer) (s : Cpu) : Cpu :=
  { int15 answer (queryRequest v s) with ds := (queryRequest v s).ds }

theorem afterCall_mem {answer : E820Answer} {s : Cpu} (hds : s.ds = 0)
    (hcount : (s.mem e820CountAddr).toNat = n) (hn : n ≤ 64) :
    (afterCall v answer s).mem =
      writeBytes (e820Buf.toNat + 24 * n) 24 answer.bytes s.mem := by
  obtain ⟨_, hmem, hecx, hlinear⟩ := @queryRequest_spec _ v _ hds hcount hn
  have hcall : (afterCall v answer s).mem = writeBytes
      (linear (queryRequest v s).es (queryRequest v s).edi.word)
      (queryRequest v s).ecx.dword.toNat answer.bytes (queryRequest v s).mem := rfl
  rw [hcall, hmem, hecx, hlinear]

theorem writeBytes_count (n size : ℕ) (bytes : ℕ → Option UInt8) (m : Mem) :
    writeBytes (e820Buf.toNat + 24 * n) size bytes m e820CountAddr = m e820CountAddr := by
  have haddr : e820CountAddr < e820Buf.toNat := by decide
  exact if_neg (by omega)

theorem Staging.stop {s : QueryState} (h : Staging answers m₀ n s)
    (hlisted : ∀ i < 64, i < n ↔ Listed answers i) :
    Staged answers m₀ n (afterCall v (answers n) s.cpu) := by
  have hmem := @afterCall_mem n v (answers n) _ h.ds h.count h.le
  refine ⟨(@queryRequest_spec n v _ h.ds h.count h.le).1, ?_, h.le, hlisted, fun i hi k hk => ?_⟩
  · rw [hmem, writeBytes_count, h.count]
  · rw [hmem]
    exact (h.slots.write h.le).slot i (Nat.lt_succ_of_lt hi) k hk

theorem Staging.refuse {s : QueryState} (h : Staging answers m₀ n s)
    (hrefused : ¬ (answers n).Accepted) :
    Staged answers m₀ n (afterCall v (answers n) s.cpu) := by
  apply h.stop
  intro i _
  constructor
  · exact listed_of_continues h.continues
  · intro hi
    by_contra hge
    exact Listed.not_of_le hrefused (Nat.le_of_not_lt hge) hi

/-- The processor after an accepted answer is counted and its continuation stored. -/
def afterAccept (v : BootVars) (s : Cpu) : Cpu :=
  let s := s.incByte e820CountAddr
  s.store32 v.e820Next s.ebx.dword

theorem afterAccept_eq {s : Cpu} (hds : s.ds = 0) :
    afterAccept v s = { s with
      mem := store32 (Function.update s.mem e820CountAddr (s.mem e820CountAddr + 1)) v.e820Next
        s.ebx.dword
      zf := s.mem e820CountAddr + 1 == 0 } := by
  simp only [afterAccept, Cpu.incByte_of_ds hds]
  rw [Cpu.store32_of_ds]
  exact hds

theorem Staging.accept {s : QueryState} (h : Staging answers m₀ n s) (hroom : n < 64) :
    (afterAccept v (afterCall v (answers n) s.cpu)).ds = 0 ∧
    ((afterAccept v (afterCall v (answers n) s.cpu)).mem e820CountAddr).toNat = n + 1 ∧
    Slots answers m₀ (n + 1) (afterAccept v (afterCall v (answers n) s.cpu)).mem ∧
    (afterAccept v (afterCall v (answers n) s.cpu)).ebx = (answers n).regs.ebx := by
  have hds : (afterCall v (answers n) s.cpu).ds = 0 :=
    (@queryRequest_spec n v _ h.ds h.count h.le).1
  have hmem := @afterCall_mem n v (answers n) _ h.ds h.count h.le
  have hslots : Slots answers m₀ (n + 1) (afterCall v (answers n) s.cpu).mem := by
    rw [hmem]
    exact h.slots.write h.le
  have hcount : ((afterCall v (answers n) s.cpu).mem e820CountAddr).toNat = n := by
    rw [hmem, writeBytes_count, h.count]
  have hbase := v.le_base
  have hnext : v.e820Next = v.base + 14 := rfl
  have haddr : e820CountAddr = 0x5000 := rfl
  have hbuf := e820Buf_toNat
  rw [afterAccept_eq hds]
  refine ⟨hds, ?_, hslots.congr (fun b hlo hhi => ?_) (by omega), rfl⟩
  · dsimp only
    rw [store32_of_outside _ _ (by omega), Function.update_self, UInt8.toNat_add, hcount,
      UInt8.toNat_one]
    omega
  · dsimp only
    rw [store32_of_outside _ _ (by omega), Function.update_of_ne (by omega)]

theorem Staging.queryStep_eq {s : QueryState} (h : Staging answers m₀ n s) :
    queryStep v answers s =
      if (answers n).regs.cf then ⟨.done, afterCall v (answers n) s.cpu, n + 1⟩
      else if (answers n).regs.eax.dword ≠ smap then
        ⟨.done, afterCall v (answers n) s.cpu, n + 1⟩
      else if n ≥ e820Max then ⟨.done, afterCall v (answers n) s.cpu, n + 1⟩
      else ⟨if (afterAccept v (afterCall v (answers n) s.cpu)).ebx.dword = 0 then .done else .loop,
        afterAccept v (afterCall v (answers n) s.cpu), n + 1⟩ := by
  have hds : (afterCall v (answers n) s.cpu).ds = 0 :=
    (@queryRequest_spec n v _ h.ds h.count h.le).1
  have hcount : ((afterCall v (answers n) s.cpu).load8 e820CountAddr).toNat = n := by
    rw [Cpu.load8_of_ds hds, afterCall_mem h.ds h.count h.le, writeBytes_count, h.count]
  have hstep : queryStep v answers s =
      if (answers n).regs.cf then ⟨.done, afterCall v (answers n) s.cpu, n + 1⟩
      else if (answers n).regs.eax.dword ≠ smap then
        ⟨.done, afterCall v (answers n) s.cpu, n + 1⟩
      else if ((afterCall v (answers n) s.cpu).load8 e820CountAddr).toNat ≥ e820Max then
        ⟨.done, afterCall v (answers n) s.cpu, n + 1⟩
      else ⟨if (afterAccept v (afterCall v (answers n) s.cpu)).ebx.dword = 0 then .done else .loop,
        afterAccept v (afterCall v (answers n) s.cpu), n + 1⟩ := by
    rw [queryStep, h.label, h.calls]
    rfl
  rw [hstep, hcount]

theorem Staging.step {s : QueryState} (h : Staging answers m₀ n s) :
    Staging answers m₀ (n + 1) (queryStep v answers s) ∨
    ∃ m, (queryStep v answers s).label = .done ∧ (queryStep v answers s).calls = n + 1 ∧
      Staged answers m₀ m (queryStep v answers s).cpu := by
  rw [h.queryStep_eq]
  by_cases hcf : (answers n).regs.cf = true
  · have hrefused : ¬ (answers n).Accepted := fun hacc => by
      rw [hacc.1] at hcf
      exact Bool.noConfusion hcf
    rw [if_pos hcf]
    exact Or.inr ⟨n, rfl, rfl, h.refuse hrefused⟩
  rw [if_neg hcf]
  by_cases hmagic : (answers n).regs.eax.dword ≠ smap
  · have hrefused : ¬ (answers n).Accepted := fun hacc => hmagic hacc.2
    rw [if_pos hmagic]
    exact Or.inr ⟨n, rfl, rfl, h.refuse hrefused⟩
  rw [if_neg hmagic]
  have haccepted : (answers n).Accepted := ⟨Bool.eq_false_of_not_eq_true hcf, not_not.mp hmagic⟩
  by_cases hfull : n ≥ e820Max
  · rw [if_pos hfull]
    refine Or.inr ⟨n, rfl, rfl, h.stop (fun i hi => ?_)⟩
    have hlt : i < n := Nat.lt_of_lt_of_le hi hfull
    exact iff_of_true hlt (listed_of_continues h.continues hlt)
  rw [if_neg hfull]
  have hroom : n < 64 := Nat.lt_of_not_le hfull
  obtain ⟨hds', hcount', hslots, hebx⟩ := @Staging.accept _ _ _ v _ h hroom
  rw [hebx]
  by_cases hlast : (answers n).regs.ebx.dword = 0
  · rw [if_pos hlast]
    refine Or.inr ⟨n + 1, rfl, rfl, hds', hcount', hroom, fun i _ => ⟨fun hi => ?_, fun hi => ?_⟩,
      hslots.slot⟩
    · rcases Nat.lt_succ_iff_lt_or_eq.mp hi with hlt | rfl
      · exact listed_of_continues h.continues hlt
      · exact ⟨haccepted, h.continues⟩
    · by_contra hge
      exact Listed.not_of_lt (fun hc => hc.2 hlast) (Nat.lt_of_not_le (fun hle => hge
        (Nat.lt_succ_of_le hle))) hi
  · rw [if_neg hlast]
    refine Or.inl ⟨rfl, rfl, hds', hcount', hroom, fun i hi => ?_, hslots⟩
    rcases Nat.lt_succ_iff_lt_or_eq.mp hi with hlt | rfl
    · exact h.continues i hlt
    · exact ⟨haccepted, hlast⟩

/-- The staging area when `query_e820` returns: the listed entries, or the one made up when the
first answer is refused. -/
structure StagedMap (answers : ℕ → E820Answer) (m₀ m : Mem) : Prop where
  one_le : 1 ≤ (m e820CountAddr).toNat
  le : (m e820CountAddr).toNat ≤ 64
  listed : (answers 0).Accepted → ∀ i < 64, i < (m e820CountAddr).toNat ↔ Listed answers i
  slot : (answers 0).Accepted → ∀ i < (m e820CountAddr).toNat, ∀ k < 24,
    m (e820Buf.toNat + 24 * i + k) = slotByte answers m₀ i k
  fallback : ¬ (answers 0).Accepted → (m e820CountAddr).toNat = 1 ∧
    load32 m 0x5020 = 0x00100000 ∧ load32 m 0x5024 = 0 ∧ load32 m 0x5028 = 0x07F00000 ∧
    load32 m 0x502C = 0 ∧ load32 m 0x5030 = 1

theorem stageFallback_mem (s : Cpu) :
    (stageFallback s).mem = store32 (store32 (store32 (store32 (store32 s.mem 0x5020 0x00100000)
      0x5024 0) 0x5028 0x07F00000) 0x502C 0) 0x5030 1 := by
  have hes : s.xorAx.movEsAx.es = 0 := Reg.word_setWord 0 _
  have h0 : linear 0 e820Buf = 0x5020 := by decide
  have h4 : linear 0 (e820Buf + 4) = 0x5024 := by decide
  have h8 : linear 0 (e820Buf + 4 + 4) = 0x5028 := by decide
  have h12 : linear 0 (e820Buf + 4 + 4 + 4) = 0x502C := by decide
  have h16 : linear 0 (e820Buf + 4 + 4 + 4 + 4) = 0x5030 := by decide
  have hone : (0 : UInt32) + 1 = 1 := by decide
  simp only [stageFallback, Cpu.stosd, Reg.word_setWord, Reg.dword_ofDword, hes, h0, h4, h8, h12,
    h16, hone]
  rfl

theorem stageFallback_count (s : Cpu) :
    (stageFallback s).mem e820CountAddr = s.mem e820CountAddr := by
  have haddr : e820CountAddr = 0x5000 := rfl
  rw [stageFallback_mem]
  simp (disch := omega) only [store32_of_outside]

theorem Staged.fallback {s : Cpu} (h : Staged answers m₀ 0 s) :
    StagedMap answers m₀ (queryFallback s).mem := by
  have hrefused : ¬ (answers 0).Accepted := by
    intro hacc
    have hlisted : Listed answers 0 := ⟨hacc, fun j hj => absurd hj (Nat.not_lt_zero j)⟩
    exact absurd ((h.listed 0 (by omega)).mpr hlisted) (Nat.not_lt_zero 0)
  have hds : (stageFallback s).ds = 0 := h.ds
  have hmem := Cpu.incByte_mem hds e820CountAddr
  have haddr : e820CountAddr = 0x5000 := rfl
  have hcount : ((queryFallback s).mem e820CountAddr).toNat = 1 := by
    rw [queryFallback, hmem, Function.update_self, stageFallback_count, UInt8.toNat_add, h.count,
      UInt8.toNat_one]
  have hload : ∀ a, e820CountAddr < a →
      load32 (queryFallback s).mem a = load32 (stageFallback s).mem a := by
    intro a ha
    apply load32_eq_of_bytes
    intro k _
    rw [queryFallback, hmem, Function.update_of_ne (by omega)]
  refine ⟨by omega, by omega, fun hacc => absurd hacc hrefused, fun hacc => absurd hacc hrefused,
    fun _ => ⟨hcount, ?_, ?_, ?_, ?_, ?_⟩⟩
  all_goals rw [hload _ (by omega), stageFallback_mem]
  all_goals simp (disch := omega) only [load32_store32_of_disjoint, load32_store32_self]

theorem Staged.done {s : Cpu} (h : Staged answers m₀ n s) (calls : ℕ) :
    (queryDone s calls).label = .ret ∧ (queryDone s calls).calls = calls ∧
    StagedMap answers m₀ (queryDone s calls).cpu.mem := by
  refine ⟨rfl, rfl, ?_⟩
  have hcount := h.count
  by_cases hzero : s.load8 e820CountAddr ≠ 0
  · have hsame : (queryDone s calls).cpu = s := if_pos hzero
    rw [Cpu.load8_of_ds h.ds] at hzero
    have hpos : (s.mem e820CountAddr).toNat ≠ 0 := fun hz => hzero (UInt8.toNat_inj.mp hz)
    have hfirst : Listed answers 0 := (h.listed 0 (by omega)).mp (by omega)
    rw [hsame]
    refine ⟨by omega, hcount ▸ h.le, fun _ => hcount ▸ h.listed, fun _ => hcount ▸ h.slot,
      fun hrefused => absurd hfirst.1 hrefused⟩
  · have hsame : (queryDone s calls).cpu = queryFallback s := if_neg hzero
    rw [Cpu.load8_of_ds h.ds, ne_eq, not_not] at hzero
    have hn : n = 0 := by
      rw [← hcount, hzero]
      rfl
    rw [hsame]
    exact (hn ▸ h).fallback

/-- The routine, started in `s`, returns within 65 calls. -/
def Returns (v : BootVars) (answers : ℕ → E820Answer) (m₀ : Mem) (s : QueryState) : Prop :=
  ∃ k, ((queryStep v answers)^[k] s).label = .ret ∧ ((queryStep v answers)^[k] s).calls ≤ 65 ∧
    StagedMap answers m₀ ((queryStep v answers)^[k] s).cpu.mem

theorem Returns.of_step {s : QueryState} (h : Returns v answers m₀ (queryStep v answers s)) :
    Returns v answers m₀ s := by
  obtain ⟨k, hk⟩ := h
  exact ⟨k + 1, hk⟩

theorem Staged.returns {s : QueryState} (h : Staged answers m₀ n s.cpu) (hlabel : s.label = .done)
    (hcalls : s.calls ≤ 65) : Returns v answers m₀ s := by
  obtain ⟨hret, hsame, hmap⟩ := h.done s.calls
  have hstep : queryStep v answers s = queryDone s.cpu s.calls := by
    rw [queryStep, hlabel]
  refine ⟨1, ?_⟩
  rw [Function.iterate_one, hstep]
  exact ⟨hret, hsame ▸ hcalls, hmap⟩

/-- From `.loop` the routine returns: the slots left bound the passes to come. -/
theorem Staging.returns (d : ℕ) {s : QueryState} (h : Staging answers m₀ n s) (hd : 64 - n = d) :
    Returns v answers m₀ s := by
  induction d generalizing n s with
  | zero =>
    apply Returns.of_step
    rcases @Staging.step _ _ _ v _ h with hnext | ⟨m, hlabel, hcalls, hstaged⟩
    · have hle := hnext.le
      omega
    · have hle := h.le
      exact hstaged.returns hlabel (by omega)
  | succ d ih =>
    apply Returns.of_step
    rcases @Staging.step _ _ _ v _ h with hnext | ⟨m, hlabel, hcalls, hstaged⟩
    · exact ih hnext (by omega)
    · have hle := h.le
      exact hstaged.returns hlabel (by omega)

theorem staging_start (s : Cpu) : Staging answers s.mem 0 (queryStart s) := by
  have hds : s.xorAx.movDsAx.ds = 0 := Reg.word_setWord 0 _
  have hmem : (queryStart s).cpu.mem = Function.update s.mem e820CountAddr 0 := by
    rw [queryStart, Cpu.store8_of_ds hds]
    rfl
  have haddr : e820CountAddr < e820Buf.toNat := by decide
  refine ⟨rfl, rfl, hds, ?_, Nat.zero_le _, fun i hi => absurd hi (Nat.not_lt_zero i),
    ⟨fun i hi => absurd hi (Nat.not_lt_zero i), fun b hlo _ => ?_⟩⟩
  · rw [hmem, Function.update_self]
    rfl
  · rw [hmem, Function.update_of_ne (by omega)]

theorem queryStep_of_ret {s : QueryState} (h : s.label = .ret) : queryStep v answers s = s := by
  rw [queryStep, h]

/-- Every state in which the routine has returned holds the staged map. -/
theorem queryE820_of_ret (s : Cpu) {k : ℕ} (hk : (queryE820 v answers s k).label = .ret) :
    (queryE820 v answers s k).calls ≤ 65 ∧
    StagedMap answers s.mem (queryE820 v answers s k).cpu.mem := by
  obtain ⟨j, hret, hcalls, hmap⟩ := @Staging.returns _ _ _ v _ _ (@staging_start answers s) rfl
  have heq : queryE820 v answers s k = (queryStep v answers)^[j] (queryStart s) :=
    Transition.iterate_eq_of_fixed (queryStep_of_ret hk) (queryStep_of_ret hret)
  rw [heq]
  exact ⟨hcalls, hmap⟩

end Nadir
