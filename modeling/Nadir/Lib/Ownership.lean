import Mathlib.Data.Finset.Card
import Mathlib.Data.Finset.SDiff

/-!
# Exclusive ownership of a finite set of items

A pool of items `U` is split into the free items and the held ones. Taking moves a free item to
the holders and giving moves it back, so the split stays a partition of `U`.
-/

/-- A partition of `U` into free and held items. -/
structure Ownership {α : Type*} [DecidableEq α] (U : Finset α) where
  free : Finset α
  held : Finset α
  disjoint : Disjoint free held
  union_eq : free ∪ held = U

namespace Ownership

variable {α : Type*} [DecidableEq α] {U : Finset α}

def start (U : Finset α) : Ownership U := ⟨U, ∅, by simp, by simp⟩

def take (o : Ownership U) (x : α) (hx : x ∈ o.free) : Ownership U where
  free := o.free.erase x
  held := insert x o.held
  disjoint := by
    rw [Finset.disjoint_insert_right]
    exact ⟨Finset.notMem_erase x _, o.disjoint.mono_left (Finset.erase_subset x _)⟩
  union_eq := by
    rw [Finset.union_insert, ← Finset.insert_union, Finset.insert_erase hx, o.union_eq]

def give (o : Ownership U) (x : α) (hx : x ∈ o.held) : Ownership U where
  free := insert x o.free
  held := o.held.erase x
  disjoint := by
    rw [Finset.disjoint_insert_left]
    exact ⟨Finset.notMem_erase x _, o.disjoint.mono_right (Finset.erase_subset x _)⟩
  union_eq := by
    rw [Finset.insert_union, ← Finset.union_insert, Finset.insert_erase hx, o.union_eq]

variable (o : Ownership U)

theorem free_subset : o.free ⊆ U := Finset.subset_union_left.trans_eq o.union_eq

theorem held_subset : o.held ⊆ U := Finset.subset_union_right.trans_eq o.union_eq

theorem notMem_held {x : α} (hx : x ∈ o.free) : x ∉ o.held :=
  Finset.disjoint_left.mp o.disjoint hx

theorem card_free_add_card_held : o.free.card + o.held.card = U.card := by
  rw [← Finset.card_union_of_disjoint o.disjoint, o.union_eq]

theorem free_eq_empty_iff : o.free = ∅ ↔ U ⊆ o.held := by
  constructor
  · intro hempty
    calc U = o.free ∪ o.held := o.union_eq.symm
      _ = o.held := by rw [hempty, Finset.empty_union]
      _ ⊆ o.held := Finset.Subset.rfl
  · intro hall
    exact Finset.eq_empty_of_forall_notMem
      (fun x hx => o.notMem_held hx (hall (o.free_subset hx)))

end Ownership
