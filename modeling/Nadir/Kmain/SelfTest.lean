import Nadir.Kmalloc.Fragments
import Nadir.Kmalloc.Pool

/-!
# The self-test of the heap

`kmain` allocates three blocks, writes to two of them, reads back what it wrote and frees all three.
The test passes exactly when the heap has four frames. It gives everything back, but in pieces: the
run that the heap starts with is never whole again.
-/

namespace Nadir

open ByteMem Tiling Transition

namespace Heap

def loadByte (h : Heap) (a : UInt64) : Except Stop UInt8 :=
  if a.toNat < 0x40000000 then .ok (h.mem a.toNat) else .error (.pageFault a)

def storeByte (h : Heap) (a : UInt64) (v : UInt8) : Except Stop Heap :=
  if a.toNat < 0x40000000 then .ok { h with mem := Function.update h.mem a.toNat v }
  else .error (.pageFault a)

end Heap

/-- `for (i = 0; i < 100U; i++)` with `m` rounds to go: `a[i]` becomes `i`. -/
def selfTestFill (a : UInt64) : ℕ → UInt64 → Heap → Except Stop Heap
  | 0, _, h => pure h
  | m + 1, i, h => do
    let h ← h.storeByte (a + i) i.toUInt8
    selfTestFill a m (i + 1) h

def selfTestCheck (a : UInt64) : ℕ → UInt64 → Bool → Heap → Except Stop Bool
  | 0, _, ok, _ => pure ok
  | m + 1, i, ok, h => do
    let v ← h.loadByte (a + i)
    selfTestCheck a m (i + 1) (if v ≠ i.toUInt8 then false else ok) h

/-- What the test writes to its blocks and reads back. -/
def selfTestBytes (a b : UInt64) (h : Heap) : Except Stop (Heap × Bool) := do
  let h ← selfTestFill a 100 0 h
  let ok ← selfTestCheck a 100 0 true h
  let h ← h.storeByte b 0xAA
  let h ← h.storeByte (b + 4999) 0x55
  let first ← h.loadByte b
  let last ← h.loadByte (b + 4999)
  pure (h, if first ≠ 0xAA ∨ last ≠ 0x55 then false else ok)

/-- The self-test: the heap behind it, and whether it passed. -/
def selfTest (fuel : ℕ) (h : Heap) : Except Stop (Heap × Bool) := do
  let (h, a) ← kmalloc fuel 100 h
  let (h, b) ← kmalloc fuel 5000 h
  let (h, c) ← kmalloc fuel 1 h
  let (h, ok) ← if a = 0 ∨ b = 0 ∨ c = 0 then pure (h, false) else selfTestBytes a b h
  let h ← kfree a h
  let h ← kfree b h
  let h ← kfree c h
  let h ← kfree 0 h
  pure (h, ok)

section Bytes

variable {a : UInt64}

theorem add_toNat_of_lt {i : UInt64} (h : a.toNat + i.toNat < 0x40000000) :
    (a + i).toNat = a.toNat + i.toNat := by
  rw [UInt64.toNat_add]
  omega

theorem succ_toNat_of_lt {i : UInt64} (h : i.toNat < 0x40000000) :
    (i + 1).toNat = i.toNat + 1 := by
  rw [UInt64.toNat_add, UInt64.toNat_one]
  omega

theorem selfTestFill_spec {m : ℕ} {i : UInt64} (h : Heap)
    (hfits : a.toNat + i.toNat + m ≤ 0x40000000) :
    ∃ mem, selfTestFill a m i h = .ok { h with mem := mem } ∧
      (∀ j, i.toNat ≤ j → j < i.toNat + m → mem (a.toNat + j) = UInt8.ofNat j) ∧
      ∀ q, q < a.toNat + i.toNat ∨ a.toNat + i.toNat + m ≤ q → mem q = h.mem q := by
  induction m generalizing i h with
  | zero => exact ⟨h.mem, rfl, fun j hlo hhi => by omega, fun _ _ => rfl⟩
  | succ m ih =>
    have haddr : (a + i).toNat = a.toNat + i.toNat := add_toNat_of_lt (by omega)
    have hnext : (i + 1).toNat = i.toNat + 1 := succ_toNat_of_lt (by omega)
    have hstore : h.storeByte (a + i) i.toUInt8 =
        .ok { h with mem := Function.update h.mem (a.toNat + i.toNat) i.toUInt8 } := by
      rw [Heap.storeByte, if_pos (by omega), haddr]
    obtain ⟨mem, hrest, hcount, hout⟩ := ih (i := i + 1)
      { h with mem := Function.update h.mem (a.toNat + i.toNat) i.toUInt8 } (by omega)
    refine ⟨mem, ?_, fun j hlo hhi => ?_, fun q hq => ?_⟩
    · rw [selfTestFill, hstore]
      exact hrest
    · by_cases hfirst : j = i.toNat
      · rw [hfirst, hout _ (Or.inl (by omega))]
        exact Function.update_self _ _ _
      · exact hcount j (by omega) (by omega)
    · rw [hout q (by omega)]
      exact Function.update_of_ne (by omega) _ _

theorem selfTestCheck_spec {m : ℕ} {i : UInt64} {h : Heap} (ok : Bool)
    (hfits : a.toNat + i.toNat + m ≤ 0x40000000)
    (hcount : ∀ j, i.toNat ≤ j → j < i.toNat + m → h.mem (a.toNat + j) = UInt8.ofNat j) :
    selfTestCheck a m i ok h = .ok ok := by
  induction m generalizing i with
  | zero => rfl
  | succ m ih =>
    have haddr : (a + i).toNat = a.toNat + i.toNat := add_toNat_of_lt (by omega)
    have hnext : (i + 1).toNat = i.toNat + 1 := succ_toNat_of_lt (by omega)
    have hload : h.loadByte (a + i) = .ok i.toUInt8 := by
      rw [Heap.loadByte, if_pos (by omega), haddr, hcount _ le_rfl (by omega)]
      rfl
    rw [selfTestCheck, hload]
    simp only [bind, Except.bind, ne_eq, not_true_eq_false, if_false]
    exact ih (by omega) fun j hlo hhi => hcount j (by omega) (by omega)

theorem selfTestBytes_spec {b : UInt64} (h : Heap) (ha : a.toNat + 100 ≤ 0x40000000)
    (hb : b.toNat + 5000 ≤ 0x40000000) :
    ∃ mem, selfTestBytes a b h = .ok ({ h with mem := mem }, true) ∧
      ∀ q, (q < a.toNat ∨ a.toNat + 100 ≤ q) → (q < b.toNat ∨ b.toNat + 5000 ≤ q) →
        mem q = h.mem q := by
  obtain ⟨mem, hfill, hcount, hout⟩ := selfTestFill_spec (i := 0) h ha
  have hcheck : selfTestCheck a 100 0 true { h with mem := mem } = .ok true :=
    selfTestCheck_spec true ha hcount
  have hlast : (b + 4999).toNat = b.toNat + 4999 := add_toNat_of_lt (Nat.lt_of_succ_le hb)
  obtain ⟨mem₁, hmem₁⟩ : ∃ m, m = Function.update mem b.toNat 0xAA := ⟨_, rfl⟩
  obtain ⟨mem₂, hmem₂⟩ : ∃ m, m = Function.update mem₁ (b.toNat + 4999) 0x55 := ⟨_, rfl⟩
  have hsame : ∀ q, q ≠ b.toNat → q ≠ b.toNat + 4999 → mem₂ q = mem q := by
    intro q hfirst hlast
    rw [hmem₂, Function.update_of_ne hlast, hmem₁, Function.update_of_ne hfirst]
  have hread₁ : mem₂ b.toNat = 0xAA := by
    rw [hmem₂, Function.update_of_ne (by omega), hmem₁, Function.update_self]
  have hread₂ : mem₂ (b.toNat + 4999) = 0x55 := by rw [hmem₂, Function.update_self]
  refine ⟨mem₂, ?_, fun q hqa hqb => ?_⟩
  · have hstore₁ : Heap.storeByte { h with mem := mem } b 0xAA = .ok { h with mem := mem₁ } := by
      rw [Heap.storeByte, if_pos (by omega), hmem₁]
    have hstore₂ : Heap.storeByte { h with mem := mem₁ } (b + 4999) 0x55 =
        .ok { h with mem := mem₂ } := by
      rw [Heap.storeByte, if_pos (by omega), hlast, hmem₂]
    have hload₁ : Heap.loadByte { h with mem := mem₂ } b = .ok 0xAA := by
      rw [Heap.loadByte, if_pos (by omega)]
      exact congrArg Except.ok hread₁
    have hload₂ : Heap.loadByte { h with mem := mem₂ } (b + 4999) = .ok 0x55 := by
      rw [Heap.loadByte, if_pos (by omega), hlast]
      exact congrArg Except.ok hread₂
    rw [selfTestBytes]
    simp only [hfill, hcheck, hstore₁, hstore₂, hload₁, hload₂, bind, Except.bind]
    rfl
  · rw [hsame q (by omega) (by omega)]
    exact hout q hqa

end Bytes

variable {lo n : ℕ}

/-- The list in memory is `free`, and the blocks held are the runs of `live` in some order. -/
def Heap.Runs (lo n : ℕ) (h : Heap) (free live : List Run) : Prop :=
  ∃ a : Arena lo n, h.Represents a ∧ a.free = free ∧ a.live.Perm live

namespace Heap.Runs

variable {h : Heap} {free live rest : List Run} {r t : Run} {size : UInt64} {fuel : ℕ}

theorem runOk (hp : PoolOk lo n) (hr : h.Runs lo n free live) (hmem : r ∈ live) : RunOk r := by
  obtain ⟨a, _, _, hlive⟩ := hr
  exact hp.runOk_live a (hlive.mem_iff.mpr hmem)

theorem kmalloc_none (hp : PoolOk lo n) (hr : h.Runs lo n free live)
    (hsize : size.toNat + 16 + 4095 < 2 ^ 64) (hfuel : free.length < fuel)
    (hfit : fit (framesNeeded size.toNat) free = none) : kmalloc fuel size h = .ok (h, 0) := by
  obtain ⟨a, hrep, rfl, _⟩ := hr
  obtain ⟨_, heq⟩ | ⟨t, rest, _, hsome, _⟩ := kmalloc_spec hp hrep hsize hfuel
  · exact heq
  · rw [hfit] at hsome
    cases hsome

theorem kmalloc_some (hp : PoolOk lo n) (hr : h.Runs lo n free live)
    (hsize : size.toNat + 16 + 4095 < 2 ^ 64) (hfuel : free.length < fuel)
    (hfit : fit (framesNeeded size.toNat) free = some (t, rest)) :
    ∃ h', kmalloc fuel size h = .ok (h', (Block.ofRun t).ptr) ∧ h'.Runs lo n rest (t :: live) := by
  obtain ⟨a, hrep, rfl, hlive⟩ := hr
  obtain ⟨hnone, _⟩ | ⟨t', rest', h', hsome, heq, hrep', _⟩ := kmalloc_spec hp hrep hsize hfuel
  · rw [hfit] at hnone
    cases hnone
  · obtain ⟨rfl, rfl⟩ := Prod.mk.inj (Option.some_inj.mp (hfit.symm.trans hsome))
    exact ⟨h', heq, _, hrep', rfl, hlive.cons t⟩

theorem kfree (hp : PoolOk lo n) (hr : h.Runs lo n free live) (r : Run) (live' : List Run)
    (hlive' : live.Perm (r :: live')) :
    ∃ h', Nadir.kfree (Block.ofRun r).ptr h = .ok h' ∧ h'.Runs lo n (r :: free) live' := by
  obtain ⟨a, hrep, rfl, hlive⟩ := hr
  have hperm := hlive.trans hlive'
  have hmem : r ∈ a.live := hperm.mem_iff.mpr List.mem_cons_self
  obtain ⟨h', heq, hrep', _⟩ := kfree_spec hp hrep hmem
  refine ⟨h', heq, _, hrep', rfl, ?_⟩
  exact ((List.perm_cons_erase hmem).symm.trans hperm).cons_inv

theorem write (hp : PoolOk lo n) (hr : h.Runs lo n free live) (hrmem : r ∈ live) (htmem : t ∈ live)
    {mem : Mem} (hmem : ∀ q, (q < 4096 * r.start + 16 ∨ 4096 * (r.start + r.len) ≤ q) →
      (q < 4096 * t.start + 16 ∨ 4096 * (t.start + t.len) ≤ q) → mem q = h.mem q) :
    Heap.Runs lo n { h with mem := mem } free live := by
  obtain ⟨a, hrep, rfl, hlive⟩ := hr
  have hrlive := hlive.mem_iff.mpr hrmem
  have htlive := hlive.mem_iff.mpr htmem
  exact ⟨a, hrep.of_payloads hp fun q hout => hmem q (hout r hrlive) (hout t htlive), rfl, hlive⟩

end Heap.Runs

theorem fit_singleton (need : ℕ) (r : Run) :
    fit need [r] = if need ≤ r.len then some (⟨r.start, need⟩,
      if need < r.len then [⟨r.start + need, r.len - need⟩] else []) else none := rfl

theorem selfTest_of_blocks {fuel : ℕ} {h h₁ h₂ h₃ h₄ h₅ h₆ h₇ : Heap} {a b c : UInt64} {ok : Bool}
    (ha : kmalloc fuel 100 h = .ok (h₁, a)) (hb : kmalloc fuel 5000 h₁ = .ok (h₂, b))
    (hc : kmalloc fuel 1 h₂ = .ok (h₃, c)) (hne : ¬(a = 0 ∨ b = 0 ∨ c = 0))
    (hbytes : selfTestBytes a b h₃ = .ok (h₄, ok)) (hfreeA : kfree a h₄ = .ok h₅)
    (hfreeB : kfree b h₅ = .ok h₆) (hfreeC : kfree c h₆ = .ok h₇) :
    selfTest fuel h = .ok (h₇, ok) := by
  have hnull : kfree 0 h₇ = .ok h₇ := rfl
  rw [selfTest]
  simp only [ha, hb, hc, if_neg hne, hbytes, hfreeA, hfreeB, hfreeC, hnull, bind, Except.bind]
  rfl

theorem selfTest_of_null {fuel : ℕ} {h h₁ h₂ h₃ h₅ h₆ h₇ : Heap} {a b c : UInt64}
    (ha : kmalloc fuel 100 h = .ok (h₁, a)) (hb : kmalloc fuel 5000 h₁ = .ok (h₂, b))
    (hc : kmalloc fuel 1 h₂ = .ok (h₃, c)) (hnull : a = 0 ∨ b = 0 ∨ c = 0)
    (hfreeA : kfree a h₃ = .ok h₅) (hfreeB : kfree b h₅ = .ok h₆) (hfreeC : kfree c h₆ = .ok h₇) :
    selfTest fuel h = .ok (h₇, false) := by
  have hzero : kfree 0 h₇ = .ok h₇ := rfl
  rw [selfTest]
  simp only [ha, hb, hc, if_pos hnull, hfreeA, hfreeB, hfreeC, hzero, bind, Except.bind, pure,
    Except.pure]

/-- The free list behind the test, from a single run of `n` frames. -/
def selfTestRuns (lo : ℕ) : ℕ → List Run
  | 0 => []
  | 1 => [⟨lo, 1⟩]
  | 2 => [⟨lo + 1, 1⟩, ⟨lo, 1⟩]
  | 3 => [⟨lo + 1, 2⟩, ⟨lo, 1⟩]
  | n + 4 => ⟨lo + 3, 1⟩ :: ⟨lo + 1, 2⟩ :: ⟨lo, 1⟩ :: if n = 0 then [] else [⟨lo + 4, n⟩]

def wholePool (lo n : ℕ) : List Run := if n = 0 then [] else [⟨lo, n⟩]

theorem selfTestNeeds : framesNeeded (100 : UInt64).toNat = 1 ∧
    framesNeeded (5000 : UInt64).toNat = 2 ∧ framesNeeded (1 : UInt64).toNat = 1 := by
  decide

section Outcomes

variable {h : Heap} {fuel : ℕ} (hfuel : 1 < fuel)
include hfuel

theorem Heap.Runs.kmalloc_single (hp : PoolOk lo n) {start len need : ℕ} {live : List Run}
    (hr : h.Runs lo n [⟨start, len⟩] live) (size : UInt64)
    (hsize : size.toNat + 16 + 4095 < 2 ^ 64) (hneed : framesNeeded size.toNat = need)
    (hle : need ≤ len) :
    ∃ h', kmalloc fuel size h = .ok (h', (Block.ofRun ⟨start, need⟩).ptr) ∧
      h'.Runs lo n (wholePool (start + need) (len - need)) (⟨start, need⟩ :: live) := by
  have hrest : wholePool (start + need) (len - need) =
      if need < len then [⟨start + need, len - need⟩] else [] := by
    rw [wholePool]
    by_cases hlt : need < len
    · rw [if_pos hlt, if_neg (by omega)]
    · rw [if_neg hlt, if_pos (by omega)]
  apply hr.kmalloc_some hp hsize hfuel
  rw [hneed, fit_singleton, if_pos hle, hrest]

theorem Heap.Runs.kmalloc_short (hp : PoolOk lo n) {start len need : ℕ} {live : List Run}
    (hr : h.Runs lo n (wholePool start len) live) (size : UInt64)
    (hsize : size.toNat + 16 + 4095 < 2 ^ 64) (hneed : framesNeeded size.toNat = need)
    (hlt : len < need) : kmalloc fuel size h = .ok (h, 0) := by
  have hlength : (wholePool start len).length ≤ 1 := by
    rw [wholePool]
    split_ifs
    · exact Nat.zero_le 1
    · exact le_rfl
  apply hr.kmalloc_none hp hsize (hlength.trans_lt hfuel)
  rw [fit_eq_none_iff, hneed, wholePool]
  split_ifs
  · exact fun r hmem => absurd hmem List.not_mem_nil
  · exact fun r hmem => List.mem_singleton.mp hmem ▸ hlt

theorem Heap.Runs.selfTest_fits (hp : PoolOk lo (n + 4)) {h : Heap}
    (hr : h.Runs lo (n + 4) [⟨lo, n + 4⟩] []) :
    ∃ h', Nadir.selfTest fuel h = .ok (h', true) ∧
      h'.Runs lo (n + 4) (selfTestRuns lo (n + 4)) [] := by
  obtain ⟨h₁, ha, hr₁⟩ := hr.kmalloc_single hfuel hp 100 (by decide) selfTestNeeds.1 (by omega)
  have hone : h₁.Runs lo (n + 4) [⟨lo + 1, n + 3⟩] [⟨lo, 1⟩] := hr₁
  obtain ⟨h₂, hb, hr₂⟩ :=
    hone.kmalloc_single hfuel hp 5000 (by decide) selfTestNeeds.2.1 (by omega)
  have htwo : h₂.Runs lo (n + 4) [⟨lo + 3, n + 1⟩] [⟨lo + 1, 2⟩, ⟨lo, 1⟩] := hr₂
  obtain ⟨h₃, hc, hr₃⟩ := htwo.kmalloc_single hfuel hp 1 (by decide) selfTestNeeds.2.2 (by omega)
  have hall : h₃.Runs lo (n + 4) (wholePool (lo + 4) n) [⟨lo + 3, 1⟩, ⟨lo + 1, 2⟩, ⟨lo, 1⟩] := hr₃
  have haok := hall.runOk hp (List.mem_cons_of_mem _ (List.mem_cons_of_mem _ List.mem_cons_self))
  have hbok := hall.runOk hp (List.mem_cons_of_mem _ List.mem_cons_self)
  have hcok := hall.runOk hp List.mem_cons_self
  have hne : ¬((Block.ofRun ⟨lo, 1⟩).ptr = 0 ∨ (Block.ofRun ⟨lo + 1, 2⟩).ptr = 0 ∨
      (Block.ofRun ⟨lo + 3, 1⟩).ptr = 0) := by
    rintro (hnull | hnull | hnull)
    · exact Block.ofRun_ptr_ne_zero haok hnull
    · exact Block.ofRun_ptr_ne_zero hbok hnull
    · exact Block.ofRun_ptr_ne_zero hcok hnull
  have hale := haok.le
  have hble := hbok.le
  unfold pmmMaxFrames at hale hble
  dsimp only at hale hble
  obtain ⟨mem, hbytes, hmem⟩ := selfTestBytes_spec (a := (Block.ofRun ⟨lo, 1⟩).ptr)
    (b := (Block.ofRun ⟨lo + 1, 2⟩).ptr) h₃
    (by rw [Block.ofRun_ptr_toNat haok]; dsimp only; omega)
    (by rw [Block.ofRun_ptr_toNat hbok]; dsimp only; omega)
  rw [Block.ofRun_ptr_toNat haok, Block.ofRun_ptr_toNat hbok] at hmem
  dsimp only at hmem
  have hr₄ : Heap.Runs lo (n + 4) { h₃ with mem := mem } (wholePool (lo + 4) n)
      [⟨lo + 3, 1⟩, ⟨lo + 1, 2⟩, ⟨lo, 1⟩] := by
    refine hall.write hp (r := ⟨lo, 1⟩) (t := ⟨lo + 1, 2⟩)
      (List.mem_cons_of_mem _ (List.mem_cons_of_mem _ List.mem_cons_self))
      (List.mem_cons_of_mem _ List.mem_cons_self) fun q hqa hqb => ?_
    dsimp only at hqa hqb
    apply hmem <;> omega
  obtain ⟨h₅, hfreeA, hr₅⟩ := hr₄.kfree hp ⟨lo, 1⟩ [⟨lo + 3, 1⟩, ⟨lo + 1, 2⟩]
    (List.perm_append_singleton _ [_, _])
  obtain ⟨h₆, hfreeB, hr₆⟩ := hr₅.kfree hp ⟨lo + 1, 2⟩ [⟨lo + 3, 1⟩]
    (List.perm_append_singleton _ [_])
  obtain ⟨h₇, hfreeC, hr₇⟩ := hr₆.kfree hp ⟨lo + 3, 1⟩ [] (List.Perm.refl _)
  refine ⟨h₇, selfTest_of_blocks ha hb hc hne hbytes hfreeA hfreeB hfreeC, ?_⟩
  exact hr₇

theorem Heap.Runs.selfTest_short (hp : PoolOk lo n) {h : Heap}
    (hr : h.Runs lo n (wholePool lo n) []) (hn : n < 4) :
    ∃ h', Nadir.selfTest fuel h = .ok (h', false) ∧ h'.Runs lo n (selfTestRuns lo n) [] := by
  have hnull : ∀ h, Nadir.kfree 0 h = .ok h := fun _ => rfl
  interval_cases n
  · have ha := hr.kmalloc_short hfuel hp 100 (by decide) selfTestNeeds.1 (by omega)
    have hb := hr.kmalloc_short hfuel hp 5000 (by decide) selfTestNeeds.2.1 (by omega)
    have hc := hr.kmalloc_short hfuel hp 1 (by decide) selfTestNeeds.2.2 (by omega)
    exact ⟨h, selfTest_of_null ha hb hc (Or.inl rfl) (hnull h) (hnull h) (hnull h), hr⟩
  · have hone : h.Runs lo 1 [⟨lo, 1⟩] [] := hr
    obtain ⟨h₁, ha, hr₁⟩ := hone.kmalloc_single hfuel hp 100 (by decide) selfTestNeeds.1 le_rfl
    have hb := hr₁.kmalloc_short hfuel hp 5000 (by decide) selfTestNeeds.2.1 (by omega)
    have hc := hr₁.kmalloc_short hfuel hp 1 (by decide) selfTestNeeds.2.2 (by omega)
    obtain ⟨h₅, hfreeA, hr₅⟩ := hr₁.kfree hp ⟨lo, 1⟩ [] (List.Perm.refl _)
    exact ⟨h₅, selfTest_of_null ha hb hc (Or.inr (Or.inl rfl)) hfreeA (hnull h₅) (hnull h₅), hr₅⟩
  · have htwo : h.Runs lo 2 [⟨lo, 2⟩] [] := hr
    obtain ⟨h₁, ha, hr₁⟩ := htwo.kmalloc_single hfuel hp 100 (by decide) selfTestNeeds.1 (by omega)
    have hb := hr₁.kmalloc_short hfuel hp 5000 (by decide) selfTestNeeds.2.1 (by omega)
    have hone : h₁.Runs lo 2 [⟨lo + 1, 1⟩] [⟨lo, 1⟩] := hr₁
    obtain ⟨h₃, hc, hr₃⟩ := hone.kmalloc_single hfuel hp 1 (by decide) selfTestNeeds.2.2 le_rfl
    obtain ⟨h₅, hfreeA, hr₅⟩ := hr₃.kfree hp ⟨lo, 1⟩ [⟨lo + 1, 1⟩]
      (List.perm_append_singleton _ [_])
    obtain ⟨h₇, hfreeC, hr₇⟩ := hr₅.kfree hp ⟨lo + 1, 1⟩ [] (List.Perm.refl _)
    exact ⟨h₇, selfTest_of_null ha hb hc (Or.inr (Or.inl rfl)) hfreeA (hnull h₅) hfreeC, hr₇⟩
  · have hthree : h.Runs lo 3 [⟨lo, 3⟩] [] := hr
    obtain ⟨h₁, ha, hr₁⟩ :=
      hthree.kmalloc_single hfuel hp 100 (by decide) selfTestNeeds.1 (by omega)
    have htwo : h₁.Runs lo 3 [⟨lo + 1, 2⟩] [⟨lo, 1⟩] := hr₁
    obtain ⟨h₂, hb, hr₂⟩ := htwo.kmalloc_single hfuel hp 5000 (by decide) selfTestNeeds.2.1 le_rfl
    have hc := hr₂.kmalloc_short hfuel hp 1 (by decide) selfTestNeeds.2.2 (by omega)
    obtain ⟨h₅, hfreeA, hr₅⟩ := hr₂.kfree hp ⟨lo, 1⟩ [⟨lo + 1, 2⟩]
      (List.perm_append_singleton _ [_])
    obtain ⟨h₆, hfreeB, hr₆⟩ := hr₅.kfree hp ⟨lo + 1, 2⟩ [] (List.Perm.refl _)
    exact ⟨h₆, selfTest_of_null ha hb hc (Or.inr (Or.inr rfl)) hfreeA hfreeB (hnull h₆), hr₆⟩

theorem Heap.Runs.selfTest (hp : PoolOk lo n) {h : Heap}
    (hr : h.Runs lo n (wholePool lo n) []) :
    ∃ h', Nadir.selfTest fuel h = .ok (h', decide (4 ≤ n)) ∧
      h'.Runs lo n (selfTestRuns lo n) [] := by
  by_cases hn : 4 ≤ n
  · obtain ⟨k, rfl⟩ := Nat.exists_eq_add_of_le' hn
    rw [decide_eq_true hn]
    exact hr.selfTest_fits hfuel hp
  · rw [decide_eq_false hn]
    exact hr.selfTest_short hfuel hp (Nat.lt_of_not_le hn)

end Outcomes

def selfTestLongest : ℕ → ℕ
  | 0 => 0
  | 1 => 1
  | 2 => 1
  | 3 => 2
  | n + 4 => max 2 n

/-- The test leaves at most four runs, and none is longer than `selfTestLongest`. -/
theorem selfTestRuns_spec (lo n : ℕ) : (selfTestRuns lo n).length ≤ 4 ∧
    (∀ r ∈ selfTestRuns lo n, r.len ≤ selfTestLongest n) ∧
    (0 < n → ∃ r ∈ selfTestRuns lo n, r.len = selfTestLongest n) := by
  match n with
  | 0 => simp [selfTestRuns]
  | 1 => simp [selfTestRuns, selfTestLongest]
  | 2 => simp [selfTestRuns, selfTestLongest]
  | 3 => simp [selfTestRuns, selfTestLongest]
  | m + 4 =>
    rcases Nat.eq_zero_or_pos m with rfl | hpos
    · simp [selfTestRuns, selfTestLongest]
    · have hruns : selfTestRuns lo (m + 4) =
          [⟨lo + 3, 1⟩, ⟨lo + 1, 2⟩, ⟨lo, 1⟩, ⟨lo + 4, m⟩] := by
        rw [selfTestRuns, if_neg hpos.ne']
      rw [hruns, selfTestLongest]
      refine ⟨le_rfl, ?_, fun _ => ?_⟩
      · simp only [List.forall_mem_cons, List.not_mem_nil, false_imp_iff, implies_true, and_true]
        omega
      · rcases le_total m 2 with hle | hle
        · exact ⟨⟨lo + 1, 2⟩, by simp, (max_eq_left hle).symm⟩
        · exact ⟨⟨lo + 4, m⟩, by simp, (max_eq_right hle).symm⟩

namespace Heap.Runs

variable {h : Heap} {free live : List Run}

theorem kmalloc_iff (hp : PoolOk lo n) (hr : h.Runs lo n free live) {size : UInt64}
    (hsize : size.toNat + 16 + 4095 < 2 ^ 64) {fuel : ℕ} (hfuel : free.length < fuel) :
    (∃ h' ptr, Nadir.kmalloc fuel size h = .ok (h', ptr) ∧ ptr ≠ 0) ↔
      ∃ r ∈ free, framesNeeded size.toNat ≤ r.len := by
  cases hfit : fit (framesNeeded size.toNat) free with
  | none =>
    have hshort := fit_eq_none_iff.mp hfit
    have hnull := hr.kmalloc_none hp hsize hfuel hfit
    constructor
    · rintro ⟨h', ptr, heq, hne⟩
      rw [hnull] at heq
      cases heq
      exact absurd rfl hne
    · rintro ⟨r, hmem, hle⟩
      have hlt := hshort r hmem
      omega
  | some out =>
    obtain ⟨t, rest⟩ := out
    obtain ⟨h', heq, hr'⟩ := hr.kmalloc_some hp hsize hfuel hfit
    have hne := Block.ofRun_ptr_ne_zero (hr'.runOk hp List.mem_cons_self)
    refine iff_of_true ⟨h', _, heq, hne⟩ ?_
    by_contra! hshort
    rw [fit_eq_none_iff.mpr hshort] at hfit
    cases hfit

theorem idle (hp : PoolOk lo n) (hr : h.Runs lo n free []) :
    h.Lists free ∧ (kmallocFreeFrames h).toNat = n ∧ kmallocUsedFrames h = 0 := by
  obtain ⟨a, hrep, rfl, hlive⟩ := hr
  have hle := hp.le
  have htotal := a.totalLen_free_add_live
  rw [hlive.eq_nil, totalLen_nil, Nat.add_zero] at htotal
  refine ⟨⟨hrep.chain, fun r hmem => hp.runOk_free a hmem⟩, ?_, ?_⟩
  · rw [kmallocFreeFrames, hrep.freeFrames, htotal, UInt64.toNat_ofNat']
    unfold pmmMaxFrames at hle
    omega
  · rw [kmallocUsedFrames, hrep.usedFrames, hlive.eq_nil]
    rfl

theorem withinFrames (hr : h.Runs lo n free []) {m : ℕ} (hfree : ∀ r ∈ free, r.len ≤ m) :
    HeapState.WithinFrames lo n m ⟨h, []⟩ := by
  obtain ⟨a, hrep, rfl, hlive⟩ := hr
  refine ⟨a, ⟨hrep, ?_⟩, ?_⟩
  · rw [hlive.eq_nil]
    exact List.Perm.refl _
  · rw [Arena.Within, hlive.eq_nil, List.append_nil]
    exact hfree

end Heap.Runs

theorem PoolTaken.card {U U' : Finset ℕ} {f j : ℕ} (h : PoolTaken U f 64 j U')
    (hblock : Finset.Ico f (f + j) ⊆ U) :
    (U'.card + j = U.card ↔ U' = U \ Finset.Ico f (f + j)) ∧ U'.card + j ≤ U.card ∧
      U.card ≤ U'.card + j + 1 := by
  have hcard := Finset.card_sdiff_add_card_eq_card hblock
  rw [Nat.card_Ico, Nat.add_sub_cancel_left] at hcard
  cases h with
  | full => exact ⟨iff_of_true hcard rfl, hcard.le, hcard.ge.trans (Nat.le_succ _)⟩
  | exhausted _ hall =>
    have hnone := Finset.sdiff_eq_empty_iff_subset.mpr hall
    rw [hnone] at hcard
    exact ⟨iff_of_true hcard hnone.symm, hcard.le, hcard.ge.trans (Nat.le_succ _)⟩
  | @gap g _ _ hg hafter =>
    have hmem : g ∈ U \ Finset.Ico f (f + j) := by
      rw [Finset.mem_sdiff, Finset.mem_Ico]
      exact ⟨hg, by omega⟩
    have herase := Finset.card_erase_add_one hmem
    refine ⟨iff_of_false (by omega) fun heq => ?_, by omega, by omega⟩
    rw [← heq] at hmem
    exact Finset.notMem_erase g _ hmem

/-- How the heap starts: with the first block of the free frames, cut after 64, and one frame is
lost if it meets a gap. -/
structure PoolFrom (p p' : Pmm) (h : Heap) (lo n : ℕ) : Prop where
  pool : PoolOk lo n
  first : FirstPool (freeFrames p) (wholePool lo n)
  runs : h.Runs lo n (wholePool lo n) []
  exact_iff : (freeFrames p').card + n = (freeFrames p).card ↔ NoGap (freeFrames p)
  le : (freeFrames p').card + n ≤ (freeFrames p).card
  lost : (freeFrames p).card ≤ (freeFrames p').card + n + 1

theorem kmallocInit_pool {p : Pmm} (hzero : 0 ∉ freeFrames p) (h₀ : Heap) :
    ∃ p' h lo n, kmallocInit p h₀ = .ok (p', h) ∧ PoolFrom p p' h lo n := by
  rcases (freeFrames p).eq_empty_or_nonempty with hempty | hne
  · have hruns : Heap.Runs 1 0 ⟨h₀.mem, 0, 0, 0⟩ [] [] :=
      ⟨Arena.empty 1, ⟨rfl, fun r hmem => absurd hmem List.not_mem_nil, rfl, rfl⟩, rfl,
        List.Perm.refl _⟩
    have hgap : NoGap (freeFrames p) :=
      fun f L _ => Or.inr (hempty ▸ Finset.empty_subset _)
    exact ⟨p, _, 1, 0, kmallocInit_empty hempty h₀, ⟨by decide, by decide⟩, .empty hempty, hruns,
      iff_of_true (Nat.add_zero _) hgap, (Nat.add_zero _).le, by omega⟩
  · have hleast := (freeFrames p).isLeast_min' hne
    generalize (freeFrames p).min' hne = f at hleast
    have hpos : 0 < f :=
      Nat.pos_of_ne_zero fun hf => hzero (hf ▸ Finset.mem_coe.mp hleast.1)
    obtain ⟨L, hL⟩ := exists_firstBlock hleast
    obtain ⟨j, p', hinit, hj, hle, hblock, htaken⟩ := kmallocInit_taken hleast hpos h₀
    obtain ⟨hlen, hleft⟩ := htaken.exact_iff hL hle hblock
    obtain ⟨hcard, hsub, hlost⟩ := htaken.card hblock
    have hlast := lt_of_mem_freeFrames (hblock (Finset.mem_Ico.mpr
      ⟨show f ≤ f + (j - 1) by omega, by omega⟩))
    have hwhole : wholePool f j = [⟨f, j⟩] := if_neg hj.ne'
    have hok : PoolOk f j := ⟨hpos, by omega⟩
    have hlists := h₀.initial_lists ⟨hpos, hj, hok.le⟩
    refine ⟨p', h₀.initial f j, f, j, hinit, hok, hwhole ▸ hlen ▸ .block hL, ?_, ?_, hsub, hlost⟩
    · exact ⟨Arena.start hj, ⟨hlists.chain, fun r hmem => absurd hmem List.not_mem_nil, rfl, rfl⟩,
        hwhole.symm, List.Perm.refl _⟩
    · rw [hcard, hleft]
      constructor
      · intro hend f' L' hL'
        obtain ⟨rfl, rfl⟩ := hL.unique hL'
        exact hend
      · exact fun hgap => hgap f L hL

/-- Whatever the table, the test behind `kmalloc_init` passes exactly when the heap starts with four
frames or more, and afterwards all of them are free again. But requests are then served only up to
the longest of the pieces it leaves, and longer ones fail in every later run of the heap. -/
theorem heap_selfTest (k : KernelImage) (count : UInt32) (t : E820Table) (h₀ : Heap) :
    ∃ p' h lo n, kmallocInit (pmmInit k count t) h₀ = .ok (p', h) ∧
      FirstPool (freeFrames (pmmInit k count t)) (wholePool lo n) ∧
      ∀ fuel > 1, ∃ h', selfTest fuel h = .ok (h', decide (4 ≤ n)) ∧
        h'.Lists (selfTestRuns lo n) ∧ (kmallocFreeFrames h').toNat = n ∧
        kmallocUsedFrames h' = 0 ∧
        ∀ size : UInt64, size.toNat + 16 + 4095 < 2 ^ 64 →
          (∀ fuel > 4, (∃ h'' ptr, kmalloc fuel size h' = .ok (h'', ptr) ∧ ptr ≠ 0) ↔
            framesNeeded size.toNat ≤ selfTestLongest n) ∧
          (selfTestLongest n < framesNeeded size.toNat →
            ∀ ops s, Steps HeapStep ⟨h', []⟩ ops s → ∀ rs, s.heap.Lists rs → ∀ fuel > rs.length,
              kmalloc fuel size s.heap = .ok (s.heap, 0)) := by
  obtain ⟨p', h, lo, n, hinit, hfrom⟩ :=
    kmallocInit_pool (zero_notMem_freeFrames_pmmInit k count t) h₀
  have hp := hfrom.pool
  refine ⟨p', h, lo, n, hinit, hfrom.first, fun fuel hfuel => ?_⟩
  obtain ⟨h', htest, hr'⟩ := hfrom.runs.selfTest hfuel hp
  obtain ⟨hlists, hfree, hused⟩ := hr'.idle hp
  obtain ⟨hlength, hlongest, hexists⟩ := selfTestRuns_spec lo n
  refine ⟨h', htest, hlists, hfree, hused, fun size hsize => ⟨fun fuel hfuel => ?_, ?_⟩⟩
  · rw [hr'.kmalloc_iff hp hsize (hlength.trans_lt hfuel)]
    constructor
    · rintro ⟨r, hmem, hle⟩
      exact hle.trans (hlongest r hmem)
    · intro hle
      have hneed := framesNeeded_pos size.toNat
      have hpos : 0 < n := by
        rcases Nat.eq_zero_or_pos n with rfl | hpos
        · have hnone : framesNeeded size.toNat ≤ 0 := hle
          omega
        · exact hpos
      obtain ⟨r, hmem, hlen⟩ := hexists hpos
      exact ⟨r, hmem, hlen ▸ hle⟩
  · intro hlong ops s hrun
    exact (((hr'.withinFrames hlongest).steps hp hrun).fragmented hp).fail size hsize hlong

end Nadir
