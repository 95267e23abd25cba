import Nadir.Lib.Mem
import Mathlib.Data.Nat.Bits
import Mathlib.Data.Set.Function
import Mathlib.Tactic.SplitIfs

/-!
# Address translation in long mode

Four levels of tables with 512 entries of 64 bits each, numbered 3 down to 0. The index of a level
is nine bits of the virtual address; an entry of level 1 or 2 may end the walk at a large page. A
page can be written when every entry on the way allows it. The processor keeps record in the
entries it uses: bit 5 of an entry is set when the walk goes through it, bit 6 of the last one on a
write. No walk depends on these bits.
-/

namespace Paging

open ByteMem

def present (e : UInt64) : Bool := e.toNat.testBit 0
def writable (e : UInt64) : Bool := e.toNat.testBit 1
def pageSize (e : UInt64) : Bool := e.toNat.testBit 7

/-- The number of address bits below the index of a level. -/
def levelShift (level : ℕ) : ℕ := 12 + 9 * level

def tableIndex (level v : ℕ) : ℕ := v / 2 ^ levelShift level % 512

/-- The address in bits 12 to 51. -/
def tableBase (e : UInt64) : ℕ := e.toNat / 2 ^ 12 % 2 ^ 40 * 2 ^ 12

/-- The address of a page of a level; the bits below its size are not part of it. -/
def pageBase (level : ℕ) (e : UInt64) : ℕ :=
  e.toNat % 2 ^ 52 / 2 ^ levelShift level * 2 ^ levelShift level

inductive Translation where
  | mapped (physical : ℕ) (writable : Bool)
  | notPresent (level : ℕ)
  deriving DecidableEq, Repr

/-- The walk from a table of a level on; `w` tells whether all entries so far allow writing. -/
def walk (m : Mem) (v : ℕ) : ℕ → ℕ → Bool → Translation
  | 0, table, w =>
    let e := load64 m (table + 8 * tableIndex 0 v)
    if present e then .mapped (pageBase 0 e + v % 2 ^ levelShift 0) (w && writable e)
    else .notPresent 0
  | level + 1, table, w =>
    let e := load64 m (table + 8 * tableIndex (level + 1) v)
    if present e then
      if level + 1 ≤ 2 ∧ pageSize e then
        .mapped (pageBase (level + 1) e + v % 2 ^ levelShift (level + 1)) (w && writable e)
      else walk m v level (tableBase e) (w && writable e)
    else .notPresent (level + 1)

def pageWalk (m : Mem) (cr3 v : UInt64) : Translation := walk m v.toNat 3 (tableBase cr3) true

/-- Accessed, and dirty for a write. -/
def pageMarks (write : Bool) : UInt8 := if write then 0x60 else 0x20

/-- Memory behind an access: the entries of its walk are marked. -/
def mark (write : Bool) (v : ℕ) : ℕ → ℕ → Mem → Mem
  | 0, table, m =>
    let entry := table + 8 * tableIndex 0 v
    if present (load64 m entry) then setBits m entry (pageMarks write) else m
  | level + 1, table, m =>
    let entry := table + 8 * tableIndex (level + 1) v
    let e := load64 m entry
    if present e then
      if level + 1 ≤ 2 ∧ pageSize e then setBits m entry (pageMarks write)
      else mark write v level (tableBase e) (setBits m entry 0x20)
    else m

def pageMark (write : Bool) (cr3 v : UInt64) (m : Mem) : Mem :=
  mark write v.toNat 3 (tableBase cr3) m

/-- Memory without the marks of entries. -/
def unmarked (m : Mem) : Mem := fun b => if b % 8 = 0 then m b &&& 0x9F else m b

/-- Bits 47 to 63 are equal. -/
def Canonical (v : UInt64) : Prop := v.toNat < 2 ^ 47 ∨ 2 ^ 64 - 2 ^ 47 ≤ v.toNat

variable {m : Mem} {v level table : ℕ} {w : Bool} {e : UInt64}

theorem walk_notPresent (he : load64 m (table + 8 * tableIndex (level + 1) v) = e)
    (hp : present e = false) : walk m v (level + 1) table w = .notPresent (level + 1) := by
  rw [walk]
  rw [he, hp]
  rfl

theorem walk_table (he : load64 m (table + 8 * tableIndex (level + 1) v) = e)
    (hp : present e = true) (hs : pageSize e = false) :
    walk m v (level + 1) table w = walk m v level (tableBase e) (w && writable e) := by
  rw [walk]
  rw [he, hp, hs, if_pos rfl, if_neg (fun h => Bool.false_ne_true h.2)]

theorem walk_page (he : load64 m (table + 8 * tableIndex (level + 1) v) = e)
    (hp : present e = true) (hlevel : level + 1 ≤ 2) (hs : pageSize e = true) :
    walk m v (level + 1) table w =
      .mapped (pageBase (level + 1) e + v % 2 ^ levelShift (level + 1)) (w && writable e) := by
  rw [walk]
  rw [he, hp, hs, if_pos rfl, if_pos ⟨hlevel, rfl⟩]

/-- What a walk takes from an entry. -/
structure SameEntry (e e' : UInt64) : Prop where
  present : present e = present e'
  writable : writable e = writable e'
  pageSize : pageSize e = pageSize e'
  tableBase : tableBase e = tableBase e'
  pageBase : ∀ level, pageBase level e = pageBase level e'

theorem SameEntry.symm {e e' : UInt64} (h : SameEntry e e') : SameEntry e' e :=
  ⟨h.present.symm, h.writable.symm, h.pageSize.symm, h.tableBase.symm,
    fun level => (h.pageBase level).symm⟩

theorem SameEntry.trans {e e' e'' : UInt64} (h : SameEntry e e') (h' : SameEntry e' e'') :
    SameEntry e e'' :=
  ⟨h.present.trans h'.present, h.writable.trans h'.writable, h.pageSize.trans h'.pageSize,
    h.tableBase.trans h'.tableBase, fun level => (h.pageBase level).trans (h'.pageBase level)⟩

/-- The walk depends on the entries of the tables it can reach and on nothing else. -/
theorem walk_sameEntry {m' : Mem} {T : ℕ → ℕ → Prop}
    (hsame : ∀ level table, T level table →
      SameEntry (load64 m (table + 8 * tableIndex level v))
        (load64 m' (table + 8 * tableIndex level v)))
    (hnext : ∀ level table, T (level + 1) table →
      present (load64 m' (table + 8 * tableIndex (level + 1) v)) = true →
      ¬(level + 1 ≤ 2 ∧ pageSize (load64 m' (table + 8 * tableIndex (level + 1) v)) = true) →
      T level (tableBase (load64 m' (table + 8 * tableIndex (level + 1) v))))
    (htable : T level table) : walk m v level table w = walk m' v level table w := by
  induction level generalizing table w with
  | zero =>
    have hentry := hsame 0 table htable
    rw [walk, walk]
    rw [hentry.present, hentry.pageBase, hentry.writable]
  | succ level ih =>
    have hentry := hsame (level + 1) table htable
    rw [walk, walk]
    rw [hentry.present, hentry.pageSize, hentry.pageBase, hentry.writable, hentry.tableBase]
    split_ifs with hpresent hlarge
    · rfl
    · exact ih (hnext level table htable hpresent hlarge)
    · rfl

/-- What is kept when a reachable entry is marked is kept by an access. -/
theorem mark_induction {I : Mem → Prop} {T : ℕ → ℕ → Prop} {write : Bool}
    (hset : ∀ {m level table bits}, I m → T level table → bits &&& 0x9F = 0 →
      I (setBits m (table + 8 * tableIndex level v) bits))
    (hnext : ∀ {m level table}, I m → T (level + 1) table →
      present (load64 m (table + 8 * tableIndex (level + 1) v)) = true →
      ¬(level + 1 ≤ 2 ∧ pageSize (load64 m (table + 8 * tableIndex (level + 1) v)) = true) →
      T level (tableBase (load64 m (table + 8 * tableIndex (level + 1) v))))
    (hm : I m) (htable : T level table) : I (mark write v level table m) := by
  have hmarks : pageMarks write &&& 0x9F = 0 := by
    cases write <;> decide
  induction level generalizing table m with
  | zero =>
    rw [mark]
    split_ifs
    · exact hset hm htable hmarks
    · exact hm
  | succ level ih =>
    rw [mark]
    split_ifs with hpresent hlarge
    · exact hset hm htable hmarks
    · exact ih (hset hm htable (by decide)) (hnext hm htable hpresent hlarge)
    · exact hm

theorem unmarked_congr {m' : Mem} {b : ℕ} (h : m' b = m b) : unmarked m' b = unmarked m b := by
  rw [unmarked, unmarked, h]

theorem unmarked_setBits {a : ℕ} (ha : a % 8 = 0) {bits : UInt8} (hbits : bits &&& 0x9F = 0) :
    unmarked (setBits m a bits) = unmarked m := by
  funext b
  by_cases hb : b = a
  · have hkept : (m a ||| bits) &&& 0x9F = m a &&& 0x9F := by
      rw [← UInt8.toNat_inj, UInt8.toNat_and, UInt8.toNat_or, Nat.and_or_distrib_right,
        ← UInt8.toNat_and bits, hbits, ← UInt8.toNat_and]
      exact Nat.or_zero _
    rw [hb, unmarked, unmarked, if_pos ha, if_pos ha, setBits, Function.update_self, hkept]
  · exact unmarked_congr (setBits_of_ne bits hb)

theorem load64_unmarked {a : ℕ} (ha : a % 8 = 0) :
    ∃ k r : ℕ, k < 256 ∧ (load64 m a).toNat = k + 256 * r ∧
      (load64 (unmarked m) a).toNat = (k &&& 0x9F) + 256 * r := by
  have hword : ∀ m' : Mem, (load64 m' a).toNat = (m' a).toNat + 256 * loadLE m' (a + 1) 7 := by
    intro m'
    have hlt : loadLE m' a 8 < 2 ^ 64 := loadLE_lt m' a 8
    rw [load64, UInt64.toNat_ofNat', Nat.mod_eq_of_lt hlt]
    rfl
  have hrest : loadLE (unmarked m) (a + 1) 7 = loadLE m (a + 1) 7 :=
    loadLE_congr fun b hlo hhi => if_neg (by omega)
  have hfirst : unmarked m a = m a &&& 0x9F := if_pos ha
  refine ⟨(m a).toNat, _, (m a).toNat_lt, hword m, ?_⟩
  rw [hword, hrest, hfirst, UInt8.toNat_and]
  rfl

theorem sameEntry_unmarked {a : ℕ} (ha : a % 8 = 0) :
    SameEntry (load64 (unmarked m) a) (load64 m a) := by
  obtain ⟨k, r, hk, he, he'⟩ := @load64_unmarked m a ha
  have hle : k &&& 0x9F ≤ k := Nat.and_le_left
  have hbit : ∀ i < 8, Nat.testBit 0x9F i = true →
      (load64 (unmarked m) a).toNat.testBit i = (load64 m a).toNat.testBit i := by
    intro i hi hkept
    have hlow : ∀ x < 256, (x + 256 * r).testBit i = x.testBit i := by
      intro x hx
      have hmod : (x + 256 * r) % 2 ^ 8 = x := by omega
      rw [← hmod, Nat.testBit_mod_two_pow, hmod, decide_eq_true hi, Bool.true_and]
    rw [he, he', hlow k hk, hlow _ (by omega), Nat.testBit_and, hkept, Bool.and_true]
  have hhigh : (load64 (unmarked m) a).toNat / 256 = (load64 m a).toNat / 256 := by
    rw [he, he']
    omega
  constructor
  case present => exact hbit 0 (by omega) (by decide)
  case writable => exact hbit 1 (by omega) (by decide)
  case pageSize => exact hbit 7 (by omega) (by decide)
  case tableBase =>
    rw [Paging.tableBase, Paging.tableBase]
    omega
  case pageBase =>
    intro level
    have hshift : 2 ^ levelShift level = 256 * 2 ^ (4 + 9 * level) := by
      rw [levelShift, show 12 + 9 * level = 8 + (4 + 9 * level) by omega, pow_add]
      rfl
    have hpart : (load64 (unmarked m) a).toNat % 2 ^ 52 / 256 =
        (load64 m a).toNat % 2 ^ 52 / 256 := by omega
    rw [Paging.pageBase, Paging.pageBase, hshift, ← Nat.div_div_eq_div_mul,
      ← Nat.div_div_eq_div_mul, hpart]

theorem tableIndex_of_high {v : UInt64} (h : 2 ^ 64 - 2 ^ 47 ≤ v.toNat) :
    256 ≤ tableIndex 3 v.toNat := by
  have hlt := v.toNat_lt
  have hshift : levelShift 3 = 39 := rfl
  rw [tableIndex, hshift]
  omega

end Paging
