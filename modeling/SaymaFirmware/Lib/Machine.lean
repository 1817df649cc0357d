import Mathlib.Data.List.Basic

/-!
# Runs of a guarded step function

A machine is a function `step : σ → α → Option σ`: the action `a` is possible in `s` when `step s a` is some state. `Reaches step ok
s₀` are the states of the runs from `s₀` whose every step meets `ok`, a condition on the state before the step and the action.
`exec` runs a list of actions, for traces that are computed.
-/

namespace SaymaFirmware

variable {σ α : Type*}

/-- The states reached from `s₀` by steps that meet `ok`. -/
inductive Reaches (step : σ → α → Option σ) (ok : σ → α → Prop) (s₀ : σ) : σ → Prop where
  | start : Reaches step ok s₀ s₀
  | next {s s' : σ} (a : α) : Reaches step ok s₀ s → ok s a → step s a = some s' → Reaches step ok s₀ s'

/-- Every action is allowed. -/
abbrev AnyStep (σ α : Type*) : σ → α → Prop := fun _ _ => True

namespace Reaches

variable {step : σ → α → Option σ} {ok ok' : σ → α → Prop} {s₀ s s' : σ}

/-- The rule for invariants: what holds at the start and is kept by every allowed step holds in every state reached. -/
theorem invariant (Inv : σ → Prop) (h : Reaches step ok s₀ s) (h₀ : Inv s₀)
    (hstep : ∀ s a s', Inv s → ok s a → step s a = some s' → Inv s') : Inv s := by
  induction h with
  | start => exact h₀
  | next a _ hok hs ih => exact hstep _ a _ ih hok hs

/-- A weaker condition on the steps has more runs. -/
theorem mono (h : Reaches step ok s₀ s) (hok : ∀ s a, ok s a → ok' s a) : Reaches step ok' s₀ s := by
  induction h with
  | start => exact start
  | next a _ ha hs ih => exact next a ih (hok _ a ha) hs

/-- Runs compose. -/
theorem trans (h : Reaches step ok s₀ s) (h' : Reaches step ok s s') : Reaches step ok s₀ s' := by
  induction h' with
  | start => exact h
  | next a _ hok hs ih => exact next a ih hok hs

end Reaches

/-- Run a list of actions that each meet the test `ok`. -/
def exec (step : σ → α → Option σ) (ok : σ → α → Bool) : σ → List α → Option σ
  | s, [] => some s
  | s, a :: as => if ok s a then (step s a).bind fun s' => exec step ok s' as else none

/-- What a list of actions leads to is reached. -/
theorem reaches_of_exec {step : σ → α → Option σ} {ok : σ → α → Bool} (as : List α) :
    ∀ {s s' : σ}, exec step ok s as = some s' → Reaches step (fun s a => ok s a = true) s s' := by
  induction as with
  | nil =>
    intro s s' h
    obtain rfl := Option.some.inj h
    exact Reaches.start
  | cons a as ih =>
    intro s s' h
    rw [exec] at h
    split at h
    · rename_i hok
      obtain ⟨s₁, h₁, h₂⟩ := Option.bind_eq_some_iff.mp h
      exact (Reaches.next a Reaches.start hok h₁).trans (ih h₂)
    · nomatch h

/-- A computed trace that ends in a state with the property `p` shows that such a state is reached. -/
theorem exists_reaches_of_exec (step : σ → α → Option σ) (ok : σ → α → Bool) (s₀ : σ) (as : List α) (p : σ → Bool)
    (h : (exec step ok s₀ as).any p = true) : ∃ s, Reaches step (fun s a => ok s a = true) s₀ s ∧ p s = true := by
  obtain ⟨s, hs, hp⟩ := (Option.any_eq_true p _).mp h
  exact ⟨s, reaches_of_exec as hs, hp⟩

/-- Two machines whose steps go together run together. -/
theorem exec_rel {τ : Type*} {step : σ → α → Option σ} {step' : τ → α → Option τ} {ok : α → Bool} {R : σ → τ → Prop}
    (hstep : ∀ s t a, R s t → ok a = true → Option.Rel R (step s a) (step' t a)) (as : List α) :
    ∀ {s : σ} {t : τ}, R s t → Option.Rel R (exec step (fun _ => ok) s as) (exec step' (fun _ => ok) t as) := by
  induction as with
  | nil =>
    intro s t h
    exact Option.Rel.some h
  | cons a as ih =>
    intro s t h
    rw [exec, exec]
    cases hok : ok a with
    | false => exact Option.Rel.none
    | true =>
      rw [if_pos rfl, if_pos rfl]
      have hrel := hstep s t a h hok
      cases hs : step s a <;> cases ht : step' t a <;> rw [hs, ht] at hrel
      · exact Option.Rel.none
      · cases hrel
      · cases hrel
      · cases hrel with
        | some h' => exact ih h'

end SaymaFirmware
