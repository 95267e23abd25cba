import Nadir.Boot.Staging

/-!
# What the staging of the memory map writes

The staging area is the count byte and 64 slots. The loop asks whether the table is full only
behind the call, so a list that goes on after 64 entries gets a 65th call, and its answer is
written behind the last slot. Nothing else leaves the area. The stack is not part of the model.
-/

namespace Nadir

open ByteMem X86

/-- The staging area of the boot memory map, and the continuation word in the boot sector. -/
def InStagingArea (v : BootVars) (b : ℕ) : Prop :=
  b = 0x5000 ∨ 0x5020 ≤ b ∧ b < 0x5620 ∨ v.e820Next ≤ b ∧ b < v.e820Next + 4

/-- Whatever memory held before, only the staging area is written. -/
def StaysInArea (v : BootVars) (answers : ℕ → E820Answer) : Prop :=
  ∀ s k b, ¬InStagingArea v b → (queryE820 v answers s k).cpu.mem b = s.mem b

/-- The firmware goes on after 64 entries and writes some byte of a 65th. -/
def WritesPast64 (answers : ℕ → E820Answer) : Prop :=
  (∀ i < 64, (answers i).Continues) ∧ ∃ k < 24, ((answers 64).bytes k).isSome

variable {v : BootVars} {answers : ℕ → E820Answer} {m₀ : Mem} {n : ℕ}

theorem not_inStagingArea {b : ℕ} (h : ¬InStagingArea v b) :
    b ≠ e820CountAddr ∧ (b < e820Buf.toNat ∨ e820Buf.toNat + 24 * 64 ≤ b) ∧
      (b < v.e820Next ∨ v.e820Next + 4 ≤ b) := by
  have hbuf := e820Buf_toNat
  have haddr : e820CountAddr = 0x5000 := rfl
  unfold InStagingArea at h
  omega

theorem Staging.mem_outside {s : QueryState} (h : Staging answers m₀ n s) {b : ℕ}
    (hb : ¬InStagingArea v b) :
    (queryStep v answers s).cpu.mem b =
      writeBytes (e820Buf.toNat + 24 * n) 24 (answers n).bytes s.cpu.mem b := by
  obtain ⟨hcount, _, hnext⟩ := not_inStagingArea hb
  have hcall := @afterCall_mem n v (answers n) _ h.ds h.count h.le
  have hds : (afterCall v (answers n) s.cpu).ds = 0 :=
    (@queryRequest_spec n v _ h.ds h.count h.le).1
  have haccept : (afterAccept v (afterCall v (answers n) s.cpu)).mem b =
      (afterCall v (answers n) s.cpu).mem b := by
    rw [afterAccept_eq hds]
    dsimp only
    rw [store32_of_outside _ _ hnext, Function.update_of_ne hcount]
  rw [h.queryStep_eq, ← hcall]
  split_ifs
  · rfl
  · rfl
  · rfl
  · exact haccept
  · exact haccept

theorem writeBytes_outside {b : ℕ} (hb : ¬InStagingArea v b) (hn : n < 64)
    (bytes : ℕ → Option UInt8) (m : Mem) :
    writeBytes (e820Buf.toNat + 24 * n) 24 bytes m b = m b := by
  obtain ⟨_, hslots, _⟩ := not_inStagingArea hb
  exact if_neg (by omega)

theorem writeBytes_none (a : ℕ) {bytes : ℕ → Option UInt8}
    (hnone : ∀ k < 24, ¬(bytes k).isSome) (m : Mem) (b : ℕ) : writeBytes a 24 bytes m b = m b := by
  rw [writeBytes]
  split_ifs with hin
  · have hb := hnone (b - a) (by omega)
    rw [Option.not_isSome_iff_eq_none] at hb
    rw [hb, Option.getD_none]
  · rfl

theorem queryFallback_outside {s : Cpu} (hds : s.ds = 0) {b : ℕ} (hb : ¬InStagingArea v b) :
    (queryFallback s).mem b = s.mem b := by
  obtain ⟨hcount, hslots, _⟩ := not_inStagingArea hb
  have hbuf := e820Buf_toNat
  have hds' : (stageFallback s).ds = 0 := hds
  rw [queryFallback, Cpu.incByte_mem hds', Function.update_of_ne hcount, stageFallback_mem]
  simp (disch := omega) only [store32_of_outside]

/-- In the loop, at its end or back from the call, with memory outside the area as it was. -/
structure Confined (v : BootVars) (answers : ℕ → E820Answer) (m₀ : Mem) (s : QueryState) :
    Prop where
  place : (∃ n, Staging answers m₀ n s) ∨ s.label = .done ∧ s.cpu.ds = 0 ∨ s.label = .ret
  outside : ∀ b, ¬InStagingArea v b → s.cpu.mem b = m₀ b

theorem Confined.step {s : QueryState} (h : Confined v answers m₀ s)
    (hpast : ¬WritesPast64 answers) : Confined v answers m₀ (queryStep v answers s) := by
  obtain ⟨⟨n, hstaging⟩ | ⟨hdone, hds⟩ | hret, houtside⟩ := h
  · constructor
    · rcases @Staging.step _ _ _ v _ hstaging with hnext | ⟨m, hlabel, _, hstaged⟩
      · exact Or.inl ⟨n + 1, hnext⟩
      · exact Or.inr (Or.inl ⟨hlabel, hstaged.ds⟩)
    · intro b hb
      rw [hstaging.mem_outside hb, ← houtside b hb]
      rcases Nat.lt_or_eq_of_le hstaging.le with hlt | rfl
      · exact writeBytes_outside hb hlt _ _
      · -- the 65th call: the answers before it went on, so it writes nothing
        apply writeBytes_none
        intro k hk hsome
        exact hpast ⟨hstaging.continues, k, hk, hsome⟩
  · have hstep : queryStep v answers s = queryDone s.cpu s.calls := by rw [queryStep, hdone]
    rw [hstep]
    refine ⟨Or.inr (Or.inr rfl), fun b hb => ?_⟩
    rw [← houtside b hb, queryDone]
    dsimp only
    split_ifs
    · rfl
    · exact queryFallback_outside hds hb
  · rw [queryStep_of_ret hret]
    exact ⟨Or.inr (Or.inr hret), houtside⟩

theorem confined_start (s : Cpu) : Confined v answers s.mem (queryStart s) := by
  refine ⟨Or.inl ⟨0, staging_start s⟩, fun b hb => ?_⟩
  have hds : s.xorAx.movDsAx.ds = 0 := Reg.word_setWord 0 _
  have hmem : (queryStart s).cpu.mem = Function.update s.mem e820CountAddr 0 := by
    rw [queryStart, Cpu.store8_of_ds hds]
    rfl
  rw [hmem, Function.update_of_ne (not_inStagingArea hb).1]

theorem queryE820_succ (v : BootVars) (answers : ℕ → E820Answer) (s : Cpu) (k : ℕ) :
    queryE820 v answers s (k + 1) = queryStep v answers (queryE820 v answers s k) :=
  Function.iterate_succ_apply' _ _ _

theorem queryE820_confined (hpast : ¬WritesPast64 answers) (s : Cpu) (k : ℕ) :
    Confined v answers s.mem (queryE820 v answers s k) := by
  induction k with
  | zero => exact confined_start s
  | succ k ih =>
    rw [queryE820_succ]
    exact ih.step hpast

theorem Staging.next {s : QueryState} (h : Staging answers m₀ n s) (hn : n < 64)
    (hgo : (answers n).Continues) : Staging answers m₀ (n + 1) (queryStep v answers s) := by
  obtain ⟨hds, hcount, hslots, hebx⟩ := @Staging.accept _ _ _ v _ h hn
  have hroom : ¬n ≥ e820Max := Nat.not_le_of_lt hn
  have hmagic : ¬(answers n).regs.eax.dword ≠ smap := not_not.mpr hgo.1.2
  have hcarry : ¬(answers n).regs.cf = true := by
    rw [hgo.1.1]
    exact Bool.false_ne_true
  rw [h.queryStep_eq, if_neg hcarry, if_neg hmagic, if_neg hroom, hebx, if_neg hgo.2]
  refine ⟨rfl, rfl, hds, hcount, hn, fun i hi => ?_, hslots⟩
  rcases Nat.lt_succ_iff_lt_or_eq.mp hi with hlt | rfl
  · exact h.continues i hlt
  · exact hgo

theorem queryE820_staging (hgo : ∀ i < 64, (answers i).Continues) (s : Cpu) {k : ℕ}
    (hk : k ≤ 64) : Staging answers s.mem k (queryE820 v answers s k) := by
  induction k with
  | zero => exact staging_start s
  | succ k ih =>
    rw [queryE820_succ]
    exact (ih (Nat.le_of_succ_le hk)).next hk (hgo k hk)

theorem mem_65th_call (hgo : ∀ i < 64, (answers i).Continues) (s : Cpu) {k : ℕ} (hk : k < 24)
    {x : UInt8} (hx : (answers 64).bytes k = some x) :
    ¬InStagingArea v (0x5620 + k) ∧ (queryE820 v answers s 65).cpu.mem (0x5620 + k) = x := by
  have hbase := v.le_base
  have hbuf := e820Buf_toNat
  have hout : ¬InStagingArea v (0x5620 + k) := by
    unfold InStagingArea BootVars.e820Next
    omega
  have hplace : 0x5620 + k - (e820Buf.toNat + 24 * 64) = k := by
    rw [hbuf]
    exact Nat.add_sub_cancel_left 0x5620 k
  refine ⟨hout, ?_⟩
  have hfull : Staging answers s.mem 64 (queryE820 v answers s 64) :=
    queryE820_staging hgo s (Nat.le_refl 64)
  rw [queryE820_succ, hfull.mem_outside hout, writeBytes, if_pos (by omega), hplace, hx,
    Option.getD_some]

theorem not_staysInArea (v : BootVars) (hpast : WritesPast64 answers) :
    ¬StaysInArea v answers := by
  intro h
  obtain ⟨hgo, k, hk, hsome⟩ := hpast
  obtain ⟨x, hx⟩ := Option.isSome_iff_exists.mp hsome
  -- memory that holds another byte there
  obtain ⟨s, hs⟩ : ∃ s : Cpu, s.mem = fun _ => x + 1 := ⟨⟨(answers 0).regs, fun _ => x + 1⟩, rfl⟩
  obtain ⟨hout, hwritten⟩ := @mem_65th_call v answers hgo s k hk x hx
  have hkept := h s 65 _ hout
  rw [hwritten, hs] at hkept
  exact absurd (UInt8.add_eq_left.mp hkept.symm).symm UInt8.zero_ne_one

/-- The area is kept for exactly the answers that write nothing after 64 entries. -/
theorem staysInArea_iff (v : BootVars) (answers : ℕ → E820Answer) :
    StaysInArea v answers ↔ ¬WritesPast64 answers := by
  constructor
  · exact fun h hpast => not_staysInArea v hpast h
  · intro hpast s k b hb
    exact (queryE820_confined hpast s k).outside b hb

/-- An answer with a full entry that asks to go on. -/
def endlessAnswer : E820Answer where
  regs := {
    eax := Reg.ofDword smap
    ebx := Reg.ofDword 1
    ecx := Reg.ofDword 24
    edx := Reg.ofDword smap
    edi := Reg.ofDword 0x5020
    ds := 0
    es := 0
    cf := false
    zf := false }
  bytes := fun _ => some 0xFF

/-- Firmware with more than 64 entries. -/
theorem not_staysInArea_endless :
    ¬StaysInArea ⟨0x7D80, by decide, by decide⟩ (fun _ => endlessAnswer) := by
  have hgo : endlessAnswer.Continues := by
    refine ⟨⟨rfl, Reg.dword_ofDword smap⟩, ?_⟩
    have hone : endlessAnswer.regs.ebx.dword = 1 := Reg.dword_ofDword 1
    rw [hone]
    decide
  exact not_staysInArea _ ⟨fun _ _ => hgo, 0, by decide, rfl⟩

end Nadir
