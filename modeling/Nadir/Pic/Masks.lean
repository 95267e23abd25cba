import Nadir.Pic.Basic
import Nadir.Lib.Bits
import Mathlib.Data.List.Induction

/-!
# The mask follows the requests

Each line has its own mask bit, and after any calls that bit is clear exactly when the last call
on the line was an unmask. A line of the slave also needs the master's bit of the cascade line 2,
which only calls on line 2 itself change: unmasking a line of the slave does not open it.
-/

namespace Nadir

open ByteBits

/-- A call of the driver's users. -/
inductive PicCall where
  | mask (irq : UInt8)
  | unmask (irq : UInt8)
  deriving DecidableEq, Repr

namespace PicCall

def irq : PicCall → UInt8
  | .mask irq => irq
  | .unmask irq => irq

def exec (s : Pics) : PicCall → Pics
  | .mask irq => picMask irq s
  | .unmask irq => picUnmask irq s

def requests : PicCall → Bool
  | .mask _ => false
  | .unmask _ => true

def change : PicCall → UInt8 → UInt8 → UInt8
  | .mask _ => fun mask bit => mask ||| bit
  | .unmask _ => fun mask bit => mask &&& ~~~bit

theorem exec_eq (c : PicCall) (s : Pics) : c.exec s = picChangeMask c.change c.irq s := by
  cases c <;> rfl

theorem change_getLsbD (c : PicCall) (m : UInt8) {j k : ℕ} (hj : j < 8) (hk : k < 8) :
    (c.change m (1 <<< UInt8.ofNat k)).toBitVec.getLsbD j =
      if k = j then !c.requests else m.toBitVec.getLsbD j := by
  cases c with
  | mask irq =>
    rw [change, or_mask_getLsbD m hk]
    by_cases hjk : k = j
    · simp [hjk, requests]
    · simp [hjk]
  | unmask irq =>
    rw [change, and_not_mask_getLsbD m hj hk]
    by_cases hjk : k = j
    · simp [hjk, requests]
    · simp [hjk]

theorem eq_unmask_iff (c : PicCall) : c = .unmask c.irq ↔ c.requests = true := by
  cases c with
  | mask irq => exact iff_of_false (fun h => by cases h) (fun h => by cases h)
  | unmask irq => exact iff_of_true rfl rfl

end PicCall

def picRun (s : Pics) (calls : List PicCall) : Pics := calls.foldl PicCall.exec s

theorem picRun_append_singleton (s : Pics) (calls : List PicCall) (c : PicCall) :
    picRun s (calls ++ [c]) = c.exec (picRun s calls) := by
  rw [picRun, List.foldl_append]
  rfl

/-- The mask bit of a line in the controller that has it. -/
def Pics.masked (s : Pics) (i : ℕ) : Bool :=
  if i < 8 then s.master.imr.toBitVec.getLsbD i else s.slave.imr.toBitVec.getLsbD (i - 8)

/-- An interrupt on the line can reach the CPU: its bit is clear, and for a line of the slave so
is the bit of the cascade line. -/
def Pics.Reaches (s : Pics) (i : ℕ) : Prop :=
  s.masked i = false ∧ (8 ≤ i → s.masked 2 = false)

/-- Both controllers are through with their initialization. -/
def Pics.Ready (s : Pics) : Prop := s.master.stage = .ready ∧ s.slave.stage = .ready

/-- The last call on the line asked for it. -/
def Requested (calls : List PicCall) (i : ℕ) : Prop :=
  (calls.filter (fun c => c.irq.toNat = i)).getLast? = some (.unmask (UInt8.ofNat i))

instance (calls : List PicCall) : DecidablePred (Requested calls) :=
  fun _ => inferInstanceAs (Decidable (_ = _))

theorem requested_append_singleton (calls : List PicCall) (c : PicCall) (i : ℕ) :
    Requested (calls ++ [c]) i ↔
      if c.irq.toNat = i then c.requests = true else Requested calls i := by
  rw [Requested, List.filter_append]
  by_cases hc : c.irq.toNat = i
  · have hlast : [c].filter (fun c => c.irq.toNat = i) = [c] := by simp [hc]
    rw [if_pos hc, hlast, List.getLast?_concat, Option.some_inj, ← hc, UInt8.ofNat_toNat,
      c.eq_unmask_iff]
  · have hnone : [c].filter (fun c => c.irq.toNat = i) = [] := by simp [hc]
    rw [if_neg hc, hnone, List.append_nil, Requested]

theorem picChangeMask_of_ge (change : UInt8 → UInt8 → UInt8) {irq : UInt8} (h : 16 ≤ irq.toNat)
    (s : Pics) : picChangeMask change irq s = s := by
  apply if_pos
  rw [ge_iff_le, UInt8.le_iff_toNat_le]
  exact h

theorem picChangeMask_of_lt (change : UInt8 → UInt8 → UInt8) {irq : UInt8} (h : irq.toNat < 16)
    {s : Pics} (hs : s.Ready) :
    picChangeMask change irq s =
      if irq.toNat < 8 then
        { s with master := { s.master with
          imr := change s.master.imr (1 <<< UInt8.ofNat irq.toNat) } }
      else
        { s with slave := { s.slave with
          imr := change s.slave.imr (1 <<< UInt8.ofNat (irq.toNat - 8)) } } := by
  have hrange : ¬ irq ≥ picIrqCount := by
    rw [ge_iff_le, UInt8.le_iff_toNat_le]
    exact Nat.not_le_of_lt h
  have hside : irq < 8 ↔ irq.toNat < 8 := UInt8.lt_iff_toNat_lt
  rw [picChangeMask, if_neg hrange, and_seven]
  by_cases hmaster : irq.toNat < 8
  · have hbit : irq.toNat % 8 = irq.toNat := Nat.mod_eq_of_lt hmaster
    simp only [hside, if_pos hmaster, hbit, inb_pic1Data, outb_pic1Data, Pic.data, hs.1]
  · have hbit : irq.toNat % 8 = irq.toNat - 8 := by omega
    simp only [hside, if_neg hmaster, hbit, inb_pic2Data, outb_pic2Data, Pic.data, hs.2]

theorem PicCall.exec_ready (c : PicCall) {s : Pics} (hs : s.Ready) : (c.exec s).Ready := by
  rw [c.exec_eq]
  rcases Nat.lt_or_ge c.irq.toNat 16 with hlt | hge
  · rw [picChangeMask_of_lt _ hlt hs]
    split_ifs
    · exact hs
    · exact hs
  · rw [picChangeMask_of_ge _ hge]
    exact hs

theorem PicCall.masked_exec (c : PicCall) {s : Pics} (hs : s.Ready) {i : ℕ} (hi : i < 16) :
    (c.exec s).masked i = if c.irq.toNat = i then !c.requests else s.masked i := by
  rw [c.exec_eq]
  rcases Nat.lt_or_ge c.irq.toNat 16 with hlt | hge
  · rw [picChangeMask_of_lt _ hlt hs]
    unfold Pics.masked
    by_cases hmaster : c.irq.toNat < 8
    · by_cases hline : i < 8
      · simp only [if_pos hmaster, if_pos hline, c.change_getLsbD _ hline hmaster]
      · have hne : c.irq.toNat ≠ i := by omega
        simp only [if_pos hmaster, if_neg hline, if_neg hne]
    · by_cases hline : i < 8
      · have hne : c.irq.toNat ≠ i := by omega
        simp only [if_neg hmaster, if_pos hline, if_neg hne]
      · have hsame : c.irq.toNat - 8 = i - 8 ↔ c.irq.toNat = i := by omega
        simp only [if_neg hmaster, if_neg hline, hsame,
          c.change_getLsbD _ (show i - 8 < 8 by omega) (show c.irq.toNat - 8 < 8 by omega)]
  · have hne : c.irq.toNat ≠ i := by omega
    rw [picChangeMask_of_ge _ hge, if_neg hne]

/-- What the calls keep: the pair is ready, and a line is masked unless its last call asked
for it. -/
structure Tracks (s : Pics) (calls : List PicCall) : Prop where
  ready : s.Ready
  masked : ∀ i < 16, s.masked i = !decide (Requested calls i)

theorem Tracks.start (s : Pics) : Tracks (picRemap s) [] := by
  rw [picRemap_eq]
  constructor
  · exact ⟨rfl, rfl⟩
  · intro i hi
    have hnone : ¬ Requested [] i := fun h => by cases h
    rw [decide_eq_false hnone]
    have hall : ∀ j < 8, (0xFF : UInt8).toBitVec.getLsbD j = true := by decide
    unfold Pics.masked
    split_ifs with hline
    · exact hall i hline
    · exact hall (i - 8) (by omega)

theorem Tracks.step {s : Pics} {calls : List PicCall} (h : Tracks s calls) (c : PicCall) :
    Tracks (c.exec s) (calls ++ [c]) := by
  constructor
  · exact c.exec_ready h.ready
  · intro i hi
    rw [c.masked_exec h.ready hi, h.masked i hi]
    have hlast := requested_append_singleton calls c i
    split_ifs at hlast ⊢ with hirq
    · simp only [hlast, Bool.decide_eq_true]
    · simp only [hlast]

theorem tracks_picRun (s : Pics) (calls : List PicCall) :
    Tracks (picRun (picRemap s) calls) calls := by
  induction calls using List.reverseRecOn with
  | nil => exact Tracks.start s
  | append_singleton calls c ih =>
    rw [picRun_append_singleton]
    exact ih.step c

/-- A line of the master reaches the CPU as requested; a line of the slave if the cascade line is
requested too. -/
theorem Tracks.reaches_iff {s : Pics} {calls : List PicCall} (h : Tracks s calls) {i : ℕ}
    (hi : i < 16) : s.Reaches i ↔ Requested calls i ∧ (8 ≤ i → Requested calls 2) := by
  rw [Pics.Reaches, h.masked i hi, h.masked 2 (by omega)]
  simp

/-- The mask follows the requests through the calls: after each of them a line other than the
cascade line reaches the CPU exactly when it is requested, and a call on another line does not
change that. -/
structure FollowsRequests (s : Pics) (calls : List PicCall) : Prop where
  reaches : ∀ before, before <+: calls → ∀ i < 16, i ≠ 2 →
    ((picRun s before).Reaches i ↔ Requested before i)
  others : ∀ before c, before ++ [c] <+: calls → ∀ i < 16, i ≠ 2 → c.irq.toNat ≠ i →
    ((picRun s (before ++ [c])).Reaches i ↔ (picRun s before).Reaches i)

/-- Whenever a line of the slave is requested, so is the cascade line. -/
def CascadeOpen (calls : List PicCall) : Prop :=
  ∀ before, before <+: calls → ∀ i < 16, 8 ≤ i → Requested before i → Requested before 2

theorem CascadeOpen.reaches {calls : List PicCall} (h : CascadeOpen calls) (s : Pics)
    {before : List PicCall} (hbefore : before <+: calls) {i : ℕ} (hi : i < 16) :
    (picRun (picRemap s) before).Reaches i ↔ Requested before i := by
  rw [(tracks_picRun s before).reaches_iff hi]
  constructor
  · intro hreach
    exact hreach.1
  · intro hrequest
    exact ⟨hrequest, fun hslave => h before hbefore i hi hslave hrequest⟩

/-- After `pic_remap` the mask follows the requests through exactly the call sequences that keep
the cascade line open while a line of the slave is requested. -/
theorem followsRequests_iff (s : Pics) (calls : List PicCall) :
    FollowsRequests (picRemap s) calls ↔ CascadeOpen calls := by
  constructor
  · intro h before hbefore i hi hslave hrequest
    have hreach := (h.reaches before hbefore i hi (by omega)).mpr hrequest
    exact ((tracks_picRun s before).reaches_iff hi).mp hreach |>.2 hslave
  · intro h
    constructor
    · intro before hbefore i hi _
      exact h.reaches s hbefore hi
    · intro before c hbefore i hi _ hother
      have hshort : before <+: calls := (List.prefix_append before [c]).trans hbefore
      rw [h.reaches s hbefore hi, h.reaches s hshort hi, requested_append_singleton,
        if_neg hother]

/-- Unmasking line 8 alone leaves it behind the master's mask of the cascade line. -/
theorem not_followsRequests_unmask_eight :
    ¬ FollowsRequests (picRemap ⟨⟨.ready, 0, 0, 0, 0, 0, 0⟩, ⟨.ready, 0, 0, 0, 0, 0, 0⟩⟩)
      [.unmask 8] := by
  intro h
  have hrequest : Requested [.unmask 8] 8 := by decide
  have hreach := (h.reaches [.unmask 8] (List.prefix_refl _) 8 (by omega) (by omega)).mpr hrequest
  have hcascade := ((tracks_picRun _ [.unmask 8]).reaches_iff (by omega)).mp hreach
  exact absurd (hcascade.2 (Nat.le_refl 8)) (by decide)

end Nadir
