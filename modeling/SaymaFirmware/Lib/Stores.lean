import Mathlib.Data.List.Basic
import Mathlib.Logic.Function.Basic

/-!
# Stores into a block of memory

Code that fills a buffer is a sequence of stores, each of one element at one place. `HoldsAt` says that a memory holds a list from a place
on; filling a buffer establishes it and stores elsewhere keep it.
-/

namespace SaymaFirmware

variable {β : Type*}

/-- A memory after stores in order. -/
def runStores : List (Nat × β) → (Nat → β) → Nat → β
  | [], m => m
  | s :: rest, m => runStores rest (Function.update m s.1 s.2)

/-- The stores that put a list at a place, from its first element to its last. -/
def storesAt (off : Nat) : List β → List (Nat × β)
  | [] => []
  | b :: bs => (off, b) :: storesAt (off + 1) bs

/-- The memory holds the list from the place on. -/
def HoldsAt (m : Nat → β) (off : Nat) (bs : List β) : Prop := ∀ i b, bs[i]? = some b → m (off + i) = b

theorem runStores_append (s t : List (Nat × β)) (m : Nat → β) : runStores (s ++ t) m = runStores t (runStores s m) := by
  induction s generalizing m with
  | nil => rfl
  | cons x s ih => exact ih _

/-- Stores change nothing before them or after them. -/
theorem runStores_storesAt_of_not_mem {bs : List β} {off j : Nat} (h : j < off ∨ off + bs.length ≤ j) (m : Nat → β) :
    runStores (storesAt off bs) m j = m j := by
  induction bs generalizing off m with
  | nil => rfl
  | cons b bs ih =>
    rw [List.length_cons] at h
    show runStores (storesAt (off + 1) bs) (Function.update m off b) j = m j
    rw [ih (by omega), Function.update_of_ne (by omega)]

namespace HoldsAt

variable {m : Nat → β} {off : Nat} {bs cs : List β}

theorem nil : HoldsAt m off [] := by
  intro i b h
  simp at h

theorem cons {b : β} : HoldsAt m off (b :: bs) ↔ m off = b ∧ HoldsAt m (off + 1) bs := by
  constructor
  · intro h
    refine ⟨h 0 b rfl, ?_⟩
    intro i c hc
    rw [Nat.add_assoc, Nat.add_comm 1 i]
    exact h (i + 1) c hc
  · rintro ⟨hb, hbs⟩ i c hc
    cases i with
    | zero => exact hb.trans (Option.some.inj hc)
    | succ i =>
      rw [← Nat.add_assoc, Nat.add_right_comm]
      exact hbs i c hc

theorem append : HoldsAt m off (bs ++ cs) ↔ HoldsAt m off bs ∧ HoldsAt m (off + bs.length) cs := by
  induction bs generalizing off with
  | nil => exact ⟨fun h => ⟨nil, h⟩, fun h => h.2⟩
  | cons b bs ih =>
    rw [List.cons_append, cons, cons, ih, and_assoc, List.length_cons, Nat.add_assoc, Nat.add_comm 1]

/-- What the memory holds is kept by a memory that agrees with it there. -/
theorem congr {m' : Nat → β} (h : HoldsAt m off bs) (heq : ∀ j, off ≤ j → j < off + bs.length → m' j = m j) :
    HoldsAt m' off bs := by
  intro i b hb
  have hi := (List.getElem?_eq_some_iff.mp hb).1
  rw [heq (off + i) (Nat.le_add_right _ _) (by omega)]
  exact h i b hb

/-- Filling a buffer. -/
theorem runStores_storesAt (m : Nat → β) (off : Nat) (bs : List β) : HoldsAt (runStores (storesAt off bs) m) off bs := by
  induction bs generalizing off m with
  | nil => exact nil
  | cons b bs ih =>
    refine cons.mpr ⟨?_, ih _ _⟩
    show runStores (storesAt (off + 1) bs) (Function.update m off b) off = b
    rw [runStores_storesAt_of_not_mem (Or.inl (Nat.lt_succ_self off)), Function.update_self]

/-- Stores behind a list keep it. -/
theorem runStores_behind (h : HoldsAt m off bs) {off' : Nat} (hoff : off + bs.length ≤ off') (cs : List β) :
    HoldsAt (runStores (storesAt off' cs) m) off bs :=
  h.congr fun _ _ hj => runStores_storesAt_of_not_mem (Or.inl (Nat.lt_of_lt_of_le hj hoff)) m

/-- A list put right behind what is there already. -/
theorem runStores_extend (h : HoldsAt m off bs) (cs : List β) :
    HoldsAt (runStores (storesAt (off + bs.length) cs) m) off (bs ++ cs) :=
  append.mpr ⟨h.runStores_behind (Nat.le_refl _) cs, runStores_storesAt m _ cs⟩

end HoldsAt

end SaymaFirmware
