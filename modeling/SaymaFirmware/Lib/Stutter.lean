import Mathlib.Data.List.Basic

/-!
# Lists up to immediate repetition

`Stutter l m` says that `m` is `l` with every item repeated some number of times, at least once, in place. A sequence of writes
that are each retried until one is acknowledged leaves such a list of applied writes.
-/

namespace SaymaFirmware

/-- `m` is `l` with each item written one or more times in a row. -/
inductive Stutter {α : Type*} : List α → List α → Prop where
  | nil : Stutter [] []
  | cons (a : α) (n : Nat) {l m : List α} : Stutter l m → Stutter (a :: l) (List.replicate (n + 1) a ++ m)

/-- One more item in front, repeated `n` times. -/
theorem Stutter.cons_replicate {α : Type*} {l m : List α} (h : Stutter l m) (a : α) {n : Nat} (hn : 1 ≤ n) :
    Stutter (a :: l) (List.replicate n a ++ m) := by
  obtain ⟨k, rfl⟩ : ∃ k, n = k + 1 := ⟨n - 1, by omega⟩
  exact Stutter.cons a k h

end SaymaFirmware
