import Mathlib.Logic.Function.Basic
import Mathlib.Data.Nat.Notation
import Mathlib.Algebra.Group.Nat.Even
import Mathlib.Data.List.Basic

/-!
# Ring buffers with one sacrificed slot

A ring of `n` slots holds the elements between `tail` and `head`, at most `n - 1` of them. `push`
appends to the contents and `pop` drops the first element, unless the ring is full or empty.
-/

namespace RingBuffer

/-- The index `k` places further round. -/
def advance {n : ℕ} (i : Fin n) (k : ℕ) : Fin n := ⟨(i + k) % n, Nat.mod_lt _ i.pos⟩

structure Ring (α : Type*) (n : ℕ) where
  slot : Fin n → α
  head : Fin n
  tail : Fin n

variable {α : Type*} {n : ℕ}

theorem advance_val (i : Fin n) {k : ℕ} (hk : k ≤ n) :
    (advance i k).val = if i + k < n then i + k else i + k - n := by
  have hi := i.isLt
  change (i + k) % n = _
  split_ifs with h
  · exact Nat.mod_eq_of_lt h
  · rw [Nat.mod_eq_sub_mod (by omega), Nat.mod_eq_of_lt (by omega)]

theorem advance_advance (i : Fin n) (j k : ℕ) : advance (advance i j) k = advance i (j + k) := by
  apply Fin.ext
  change ((i + j) % n + k) % n = (i + (j + k)) % n
  rw [Nat.mod_add_mod, Nat.add_assoc]

theorem advance_zero (i : Fin n) : advance i 0 = i := Fin.ext (Nat.mod_eq_of_lt i.isLt)

namespace Ring

variable (r : Ring α n)

def count : ℕ := if r.tail.val ≤ r.head then r.head - r.tail else r.head + n - r.tail

def toList : List α := (List.range r.count).map (fun k => r.slot (advance r.tail k))

def Full : Prop := advance r.head 1 = r.tail

def push (c : α) : Ring α n :=
  ⟨Function.update r.slot r.head c, advance r.head 1, r.tail⟩

def pop : Ring α n := { r with tail := advance r.tail 1 }

theorem count_lt : r.count < n := by
  have hhead := r.head.isLt
  have htail := r.tail.isLt
  unfold count
  split_ifs <;> omega

theorem length_toList : r.toList.length = r.count := by
  rw [toList, List.length_map, List.length_range]

theorem full_iff : r.Full ↔ r.count + 1 = n := by
  have hhead := r.head.isLt
  have htail := r.tail.isLt
  rw [Full, Fin.ext_iff, advance_val _ (by omega)]
  unfold count
  split_ifs <;> omega

theorem advance_count : advance r.tail r.count = r.head := by
  have hhead := r.head.isLt
  have htail := r.tail.isLt
  apply Fin.ext
  rw [advance_val _ (Nat.le_of_lt r.count_lt)]
  unfold count
  split_ifs <;> omega

theorem advance_ne_head {k : ℕ} (hk : k < r.count) : advance r.tail k ≠ r.head := by
  have hhead := r.head.isLt
  have htail := r.tail.isLt
  have hn := r.count_lt
  rw [Ne, Fin.ext_iff, advance_val _ (by omega)]
  unfold count at hk
  split_ifs at hk ⊢ <;> omega

variable {r}

theorem count_push (h : ¬ r.Full) (c : α) : (r.push c).count = r.count + 1 := by
  have hhead := r.head.isLt
  have htail := r.tail.isLt
  have hlt := r.count_lt
  rw [full_iff] at h
  have hnext : (r.push c).head.val = if r.head.val + 1 < n then r.head.val + 1
      else r.head.val + 1 - n := advance_val r.head (by omega)
  have hsame : (r.push c).tail = r.tail := rfl
  unfold count at h ⊢
  rw [hnext, hsame]
  split_ifs at h ⊢ <;> omega

theorem toList_push (h : ¬ r.Full) (c : α) : (r.push c).toList = r.toList ++ [c] := by
  have hold : ∀ k ∈ List.range r.count,
      (r.push c).slot (advance r.tail k) = r.slot (advance r.tail k) :=
    fun k hk => Function.update_of_ne (r.advance_ne_head (List.mem_range.mp hk)) _ _
  have hnew : (r.push c).slot (advance r.tail r.count) = c := by
    rw [r.advance_count]
    exact Function.update_self _ _ _
  rw [toList, count_push h, List.range_succ, List.map_append, List.map_singleton]
  change List.map (fun k => (r.push c).slot (advance r.tail k)) _ ++
    [(r.push c).slot (advance r.tail r.count)] = _
  rw [List.map_congr_left hold, hnew, toList]

theorem count_pop (h : r.head ≠ r.tail) : r.count = r.pop.count + 1 := by
  have hhead := r.head.isLt
  have htail := r.tail.isLt
  rw [Ne, Fin.ext_iff] at h
  have hnext : r.pop.tail.val = if r.tail.val + 1 < n then r.tail.val + 1
      else r.tail.val + 1 - n := advance_val r.tail (by omega)
  have hsame : r.pop.head = r.head := rfl
  unfold count
  rw [hnext, hsame]
  split_ifs <;> omega

theorem toList_eq_cons (h : r.head ≠ r.tail) : r.toList = r.slot r.tail :: r.pop.toList := by
  have hrest : ∀ k ∈ List.range r.pop.count,
      r.slot (advance r.tail (k + 1)) = r.pop.slot (advance r.pop.tail k) := by
    intro k _
    rw [Nat.add_comm k 1, ← advance_advance]
    rfl
  rw [toList, count_pop h, List.range_succ_eq_map, List.map_cons, List.map_map, advance_zero]
  congr 1
  exact List.map_congr_left hrest

theorem slot_tail_push (h : r.head ≠ r.tail) (c : α) :
    (r.push c).slot (r.push c).tail = r.slot r.tail :=
  Function.update_of_ne h.symm _ _

theorem push_head_ne_tail (h : ¬ r.Full) (c : α) : (r.push c).head ≠ (r.push c).tail := h

end Ring

end RingBuffer
