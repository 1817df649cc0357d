import Mathlib.Data.List.Basic

/-!
# Logs

A log grows at its end. `EachEntry P` says of every entry that it stands in the relation `P` to what was logged before it, so it is kept
by an entry that does.
-/

namespace SaymaFirmware

variable {α : Type*}

/-- Every entry of the log is right after the entries before it. -/
def EachEntry (P : List α → α → Prop) (log : List α) : Prop := ∀ pre e post, log = pre ++ e :: post → P pre e

namespace EachEntry

variable {P : List α → α → Prop} {log : List α}

theorem nil : EachEntry P [] := by
  intro pre e post h
  simp at h

/-- A new entry that is right after the log. -/
theorem snoc (h : EachEntry P log) {x : α} (hx : P log x) : EachEntry P (log ++ [x]) := by
  intro pre e post he
  rcases List.append_eq_append_iff.mp he with ⟨mid, hpre, hmid⟩ | ⟨mid, hlog, hmid⟩
  · -- the entry is the new one
    cases mid with
    | nil =>
      obtain ⟨rfl, -⟩ := List.cons.inj hmid
      rw [hpre, List.append_nil]
      exact hx
    | cons y mid => simp at hmid
  · cases mid with
    | nil =>
      obtain ⟨rfl, -⟩ := List.cons.inj hmid
      rw [List.append_nil] at hlog
      exact hlog ▸ hx
    | cons y mid =>
      obtain ⟨rfl, -⟩ := List.cons.inj hmid
      exact h pre _ mid hlog

end EachEntry

end SaymaFirmware
