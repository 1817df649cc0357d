import Mathlib.Data.List.Chain

/-!
# Linked lists

A list of nodes linked by a function `next`: `Linked next xs` says that each node of `xs` points to the one after it. The first node
is the list's head and the last one the marker behind its end, so an edit of the list is a change of `next` at one node, and
`Linked.splice` says which list it leaves. `walk` is the loop that moves along the list while a test holds of the next node.
-/

namespace SaymaFirmware.Links

variable {α : Type*} {next next' : α → α}

/-- Each node of the list points to the one after it. -/
def Linked (next : α → α) (xs : List α) : Prop := xs.IsChain (fun a b => next a = b)

namespace Linked

variable {a b n : α} {xs ps qs : List α}

/-- A node that stands before another one in the list points to it. -/
theorem next_eq (h : Linked next (ps ++ a :: b :: qs)) : next a = b := (List.isChain_append_cons_cons.mp h).2.1

/-- The head of a list points to its first node. -/
theorem head_eq (h : Linked next (a :: b :: qs)) : next a = b := (List.isChain_cons_cons.mp h).1

/-- A list without its head. -/
theorem of_cons (h : Linked next (a :: qs)) : Linked next qs := List.IsChain.tail h

/-- The part of a list from a node on. -/
theorem tail (h : Linked next (ps ++ a :: qs)) : Linked next (a :: qs) := (List.isChain_split.mp h).2

/-- A list stays linked when the pointers of its nodes stay. -/
theorem congr (h : Linked next xs) (hc : ∀ a ∈ xs, next' a = next a) : Linked next' xs := by
  apply h.imp_of_mem_imp
  intro a b ha _ hab
  rw [hc a ha, hab]

/-- Redirecting the node `a` to `n` joins the list up to `a` with the one from `n` on. -/
theorem splice (hp : Linked next (ps ++ [a])) (hps : ∀ b ∈ ps, next' b = next b) (ha : next' a = n)
    (hq : Linked next' (n :: qs)) : Linked next' (ps ++ a :: n :: qs) := by
  refine List.isChain_append_cons_cons.mpr ⟨?_, ha, hq⟩
  rcases List.eq_nil_or_concat ps with rfl | ⟨ps, p, rfl⟩
  · exact List.isChain_singleton a
  · rw [List.concat_eq_append, List.append_assoc, List.cons_append, List.nil_append] at hp ⊢
    obtain ⟨hl, hpa, -⟩ := List.isChain_append_cons_cons.mp hp
    refine List.isChain_append_cons_cons.mpr ⟨?_, ?_, List.isChain_singleton a⟩
    · apply Linked.congr hl
      intro b hb
      exact hps b (by rwa [List.concat_eq_append])
    · rw [hps p (by simp), hpa]

end Linked

/-- Move along the list while `go` holds of the next node. -/
def walk (next : α → α) (go : α → Bool) : Nat → α → Option α
  | 0, _ => none
  | fuel + 1, p => if go (next p) then walk next go fuel (next p) else some p

/-- The loop stops at the node before the first one that fails the test. -/
theorem walk_eq (go : α → Bool) {c : α} {qs : List α} (hc : go c = false) (ps : List α) :
    ∀ {p : α} {fuel : Nat}, Linked next (p :: ps ++ c :: qs) → (∀ a ∈ ps, go a = true) → ps.length < fuel →
      walk next go fuel p = some ((p :: ps).getLast (List.cons_ne_nil p ps)) := by
  induction ps with
  | nil =>
    intro p fuel h _ hfuel
    obtain ⟨fuel, rfl⟩ : ∃ k, fuel = k + 1 := ⟨fuel - 1, by simp only [List.length_nil] at hfuel; omega⟩
    have hp : next p = c := h.head_eq
    rw [walk, hp, hc]
    rfl
  | cons a ps ih =>
    intro p fuel h hgo hfuel
    rw [List.length_cons] at hfuel
    obtain ⟨fuel, rfl⟩ : ∃ k, fuel = k + 1 := ⟨fuel - 1, by omega⟩
    have hp : next p = a := h.head_eq
    rw [walk, hp, hgo a List.mem_cons_self, if_pos rfl, ih h.of_cons
      (fun b hb => hgo b (List.mem_cons_of_mem a hb)) (by omega), List.getLast_cons (List.cons_ne_nil a ps)]

end SaymaFirmware.Links
