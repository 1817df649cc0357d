import Mathlib.Data.List.Basic

/-!
# Delta lists

A queue of things that are due at some time, kept as the differences between one and the next: `due w ds` are the times themselves when
the clock is at `w`. Setting, removing and the passing of time change one or two differences, and are an insertion, a removal and
nothing at all on the times.
-/

namespace SaymaFirmware.Delta

variable {α : Type*}

/-- The times at which the entries are due when the clock is at `w`. -/
def due : Nat → List (Nat × α) → List (Nat × α)
  | _, [] => []
  | w, (d, x) :: ds => (w + d, x) :: due (w + d) ds

/-- Put an entry behind all that are due before it or at the same time. -/
def place (t : Nat) (x : α) : List (Nat × α) → List (Nat × α)
  | [] => [(t, x)]
  | (u, y) :: es => if t < u then (t, x) :: (u, y) :: es else (u, y) :: place t x es

/-- Set an entry `d` from now. -/
def set (d : Nat) (x : α) : List (Nat × α) → List (Nat × α)
  | [] => [(d, x)]
  | (e, y) :: ds => if d < e then (d, x) :: (e - d, y) :: ds else (e, y) :: set (d - e) x ds

/-- Add to the first difference. -/
def delay (d : Nat) : List (Nat × α) → List (Nat × α)
  | [] => []
  | (e, y) :: ds => (d + e, y) :: ds

/-- Remove the first entry that meets `p`. -/
def remove (p : α → Bool) : List (Nat × α) → List (Nat × α)
  | [] => []
  | (d, x) :: ds => if p x then delay d ds else (d, x) :: remove p ds

variable {w d t : Nat} {x : α} {ds es : List (Nat × α)}

theorem due_set (d : Nat) (x : α) : ∀ (w : Nat) (ds : List (Nat × α)), due w (set d x ds) = place (w + d) x (due w ds) := by
  intro w ds
  induction ds generalizing w d with
  | nil => rfl
  | cons e ds ih =>
    obtain ⟨e, y⟩ := e
    rw [set, due, place]
    by_cases h : d < e
    · rw [if_pos h, if_pos (by omega), due, due, show w + d + (e - d) = w + e by omega]
    · rw [if_neg h, if_neg (by omega), due, ih, show w + e + (d - e) = w + d by omega]

theorem due_delay (d w : Nat) (ds : List (Nat × α)) : due w (delay d ds) = due (w + d) ds := by
  cases ds with
  | nil => rfl
  | cons e ds => rw [delay, due, due, Nat.add_assoc]

theorem due_remove (p : α → Bool) : ∀ (w : Nat) (ds : List (Nat × α)), due w (remove p ds) = (due w ds).eraseP fun e => p e.2 := by
  intro w ds
  induction ds generalizing w with
  | nil => rfl
  | cons e ds ih =>
    obtain ⟨d, x⟩ := e
    rw [remove, due, List.eraseP_cons]
    cases hp : p x with
    | true => rw [if_pos rfl, cond_true, due_delay]
    | false => rw [if_neg Bool.false_ne_true, cond_false, due, ih]

/-- The clock may go on as far as the first entry is away. -/
theorem due_advance (w e d : Nat) (x : α) (ds : List (Nat × α)) (h : e ≤ d) : due (w + e) ((d - e, x) :: ds) = due w ((d, x) :: ds) := by
  rw [due, due, show w + e + (d - e) = w + d by omega]

theorem mem_place {e : Nat × α} : ∀ {es : List (Nat × α)}, e ∈ place t x es ↔ e = (t, x) ∨ e ∈ es
  | [] => by simp [place]
  | (u, y) :: es => by
    rw [place]
    split
    · simp
    · rw [List.mem_cons, mem_place, List.mem_cons]
      exact or_left_comm

theorem length_due (w : Nat) (ds : List (Nat × α)) : (due w ds).length = ds.length := by
  induction ds generalizing w with
  | nil => rfl
  | cons e ds ih => rw [due, List.length_cons, List.length_cons, ih]

/-- What is in the queue does not depend on the clock. -/
theorem map_snd_due (w : Nat) (ds : List (Nat × α)) : (due w ds).map Prod.snd = ds.map Prod.snd := by
  induction ds generalizing w with
  | nil => rfl
  | cons e ds ih => rw [due, List.map_cons, List.map_cons, ih]

/-- Setting adds one entry. -/
theorem map_snd_set_perm (d : Nat) (x : α) (ds : List (Nat × α)) : ((set d x ds).map Prod.snd).Perm (x :: ds.map Prod.snd) := by
  induction ds generalizing d with
  | nil => exact List.Perm.refl _
  | cons e ds ih =>
    rw [set]
    split
    · exact List.Perm.refl _
    · exact ((ih _).cons _).trans (List.Perm.swap _ _ _)

/-- Removing takes the first matching entry. -/
theorem map_snd_remove (p : α → Bool) (ds : List (Nat × α)) : (remove p ds).map Prod.snd = (ds.map Prod.snd).eraseP p := by
  rw [← map_snd_due 0, due_remove, ← map_snd_due 0 ds, List.eraseP_map]
  rfl

end SaymaFirmware.Delta
