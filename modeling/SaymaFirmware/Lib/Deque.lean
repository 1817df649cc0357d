import Mathlib.Data.List.Basic
import Mathlib.Data.List.Perm.Basic

/-!
# Bounded queues with two ends

What a queue for at most `n` items is for, as a history of the operations that took effect: items are put at the back or at the front
and got from the front. `Serves n h l` says that a queue with the history `h` holds `l`.
-/

namespace SaymaFirmware.Deque

variable {α : Type*}

/-- An operation that took effect. -/
inductive Event (α : Type*) where
  | put (item : α) (toFront : Bool)
  | got (item : α)
deriving DecidableEq, Repr

/-- The histories of a queue for `n` items, with what the queue then holds. -/
inductive Serves (n : Nat) : List (Event α) → List α → Prop where
  | empty : Serves n [] []
  | back {h : List (Event α)} {l : List α} (item : α) : Serves n h l → l.length < n → Serves n (h ++ [.put item false]) (l ++ [item])
  | front {h : List (Event α)} {l : List α} (item : α) : Serves n h l → l.length < n → Serves n (h ++ [.put item true]) (item :: l)
  | got {h : List (Event α)} {l : List α} (item : α) : Serves n h (item :: l) → Serves n (h ++ [.got item]) l

/-- The items that were put, in this order. -/
def puts : List (Event α) → List α
  | [] => []
  | .put item _ :: h => item :: puts h
  | .got _ :: h => puts h

/-- The items that were got, in this order. -/
def gots : List (Event α) → List α
  | [] => []
  | .put _ _ :: h => gots h
  | .got item :: h => item :: gots h

/-- Nothing was put at the front. -/
def BackOnly (h : List (Event α)) : Prop := ∀ item, Event.put item true ∉ h

theorem puts_append (h h' : List (Event α)) : puts (h ++ h') = puts h ++ puts h' := by
  induction h with
  | nil => rfl
  | cons e h ih => cases e <;> simp only [List.cons_append, puts, ih]

theorem gots_append (h h' : List (Event α)) : gots (h ++ h') = gots h ++ gots h' := by
  induction h with
  | nil => rfl
  | cons e h ih => cases e <;> simp only [List.cons_append, gots, ih]

namespace Serves

variable {n : Nat} {h : List (Event α)} {l : List α}

theorem length_le (hs : Serves n h l) : l.length ≤ n := by
  induction hs with
  | empty => exact Nat.zero_le n
  | back item _ hlt _ => rw [List.length_append]; exact hlt
  | front item _ hlt _ => exact hlt
  | got item _ ih => exact Nat.le_of_succ_le ih

/-- Nothing is lost, and nothing is got twice. -/
theorem perm (hs : Serves n h l) : (puts h).Perm (gots h ++ l) := by
  induction hs with
  | empty => exact List.Perm.nil
  | @back h l item _ _ ih =>
    rw [puts_append, gots_append, gots, gots, List.append_nil, ← List.append_assoc]
    exact ih.append_right [item]
  | @front h l item _ _ ih =>
    rw [puts_append, gots_append, gots, gots, List.append_nil]
    exact (List.perm_append_singleton item _).trans ((ih.cons item).trans List.perm_middle.symm)
  | @got h l item _ ih =>
    rw [puts_append, gots_append, puts, puts, List.append_nil, gots, gots, List.append_assoc]
    exact ih

/-- With nothing put at the front, items are got in the order in which they were put. -/
theorem fifo (hs : Serves n h l) (hb : BackOnly h) : puts h = gots h ++ l := by
  induction hs with
  | empty => rfl
  | @back h l item _ _ ih =>
    rw [puts_append, gots_append, ih fun i hi => hb i (List.mem_append_left _ hi), gots, gots, List.append_nil, List.append_assoc]
    rfl
  | @front h l item _ _ _ => exact absurd (List.mem_append_right h (List.mem_singleton_self _)) (hb item)
  | @got h l item _ ih =>
    rw [puts_append, gots_append, ih fun i hi => hb i (List.mem_append_left _ hi), puts, puts, List.append_nil, gots, gots,
      List.append_assoc]
    rfl

end Serves

end SaymaFirmware.Deque
