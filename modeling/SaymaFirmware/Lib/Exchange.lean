import Mathlib.Data.List.Basic

/-!
# Exchanges

A plan lists operations, each with the answers after which the exchange goes on. An exchange performs the operations of a plan in
order and ends with the plan, or at the first operation whose answer is not one of those. The answers come from a sequence, one for
each operation.
-/

namespace SaymaFirmware

/-- An operation of a plan, and the answers after which the exchange goes on. -/
structure PlanStep (O A : Type) where
  op : O
  accepts : A → Bool

namespace Exchange

variable {O A : Type}

/-- Every operation of the plan was performed, one after another, with an answer after which the exchange goes on. -/
def Done (plan : List (PlanStep O A)) (xs : List (O × A)) : Prop := List.Forall₂ (fun s x => x.1 = s.op ∧ s.accepts x.2 = true) plan xs

/-- The last of the operations performed is the one whose answer ended the exchange. -/
def Refused (plan : List (PlanStep O A)) (xs : List (O × A)) : Prop :=
  ∃ before s after done x, plan = before ++ s :: after ∧ xs = done ++ [x] ∧ Done before done ∧ x.1 = s.op ∧ s.accepts x.2 = false

variable (answers : Nat → A)

/-- The operations performed, with their answers. The next answer is number `n`. -/
def run : List (PlanStep O A) → (n : Nat) → List (O × A)
  | [], _ => []
  | s :: plan, n => (s.op, answers n) :: if s.accepts (answers n) then run plan (n + 1) else []

/-- How many of them were answered as the plan asks. -/
def accepted : List (PlanStep O A) → (n : Nat) → Nat
  | [], _ => 0
  | s :: plan, n => if s.accepts (answers n) then accepted plan (n + 1) + 1 else 0

@[simp] theorem run_nil (n : Nat) : run answers ([] : List (PlanStep O A)) n = [] := rfl

@[simp] theorem accepted_nil (n : Nat) : accepted answers ([] : List (PlanStep O A)) n = 0 := rfl

variable {answers}

/-- The answer lets the exchange go on. -/
theorem run_cons_of_accepts {s : PlanStep O A} {plan : List (PlanStep O A)} {n : Nat} (h : s.accepts (answers n) = true) :
    run answers (s :: plan) n = (s.op, answers n) :: run answers plan (n + 1) := by
  simp [run, h]

/-- The answer ends the exchange. -/
theorem run_cons_of_not_accepts {s : PlanStep O A} {plan : List (PlanStep O A)} {n : Nat} (h : s.accepts (answers n) = false) :
    run answers (s :: plan) n = [(s.op, answers n)] := by
  simp [run, h]

theorem accepted_cons_of_accepts {s : PlanStep O A} {plan : List (PlanStep O A)} {n : Nat}
    (h : s.accepts (answers n) = true) : accepted answers (s :: plan) n = accepted answers plan (n + 1) + 1 := by
  simp [accepted, h]

theorem accepted_cons_of_not_accepts {s : PlanStep O A} {plan : List (PlanStep O A)} {n : Nat}
    (h : s.accepts (answers n) = false) : accepted answers (s :: plan) n = 0 := by
  simp [accepted, h]

/-- No more operations are accepted than planned. -/
theorem accepted_le_length (answers : Nat → A) (plan : List (PlanStep O A)) (n : Nat) : accepted answers plan n ≤ plan.length := by
  induction plan generalizing n with
  | nil => exact Nat.le_refl 0
  | cons s plan ih =>
    cases h : s.accepts (answers n)
    · rw [accepted_cons_of_not_accepts h]
      exact Nat.zero_le _
    · rw [accepted_cons_of_accepts h, List.length_cons]
      exact Nat.succ_le_succ (ih (n + 1))

/-- The accepted operations are among those performed. -/
theorem accepted_le_length_run (answers : Nat → A) (plan : List (PlanStep O A)) (n : Nat) :
    accepted answers plan n ≤ (run answers plan n).length := by
  induction plan generalizing n with
  | nil => exact Nat.le_refl 0
  | cons s plan ih =>
    cases h : s.accepts (answers n)
    · rw [accepted_cons_of_not_accepts h]
      exact Nat.zero_le _
    · rw [accepted_cons_of_accepts h, run_cons_of_accepts h, List.length_cons]
      exact Nat.succ_le_succ (ih (n + 1))

/-- The operations performed are the first ones of the plan. -/
theorem ops_run_begins (answers : Nat → A) (plan : List (PlanStep O A)) (n : Nat) :
    (run answers plan n).map Prod.fst <+: plan.map PlanStep.op := by
  induction plan generalizing n with
  | nil => exact List.nil_prefix
  | cons s plan ih =>
    cases h : s.accepts (answers n)
    · rw [run_cons_of_not_accepts h]
      exact ⟨plan.map PlanStep.op, rfl⟩
    · rw [run_cons_of_accepts h]
      exact (List.prefix_cons_inj s.op).mpr (ih (n + 1))

/-- An exchange in which every answer is accepted performs the whole plan. -/
theorem ops_run_of_accepted {plan : List (PlanStep O A)} {n : Nat} (h : accepted answers plan n = plan.length) :
    (run answers plan n).map Prod.fst = plan.map PlanStep.op := by
  induction plan generalizing n with
  | nil => rfl
  | cons s plan ih =>
    cases hs : s.accepts (answers n)
    · rw [accepted_cons_of_not_accepts hs, List.length_cons] at h
      exact absurd h.symm (Nat.succ_ne_zero _)
    · rw [accepted_cons_of_accepts hs, List.length_cons] at h
      rw [run_cons_of_accepts hs, List.map_cons, List.map_cons, ih (Nat.succ.inj h)]

/-- As many operations are performed as planned when every answer is accepted. -/
theorem length_run_of_accepted {plan : List (PlanStep O A)} {n : Nat} (h : accepted answers plan n = plan.length) :
    (run answers plan n).length = plan.length := by
  rw [← List.length_map Prod.fst, ops_run_of_accepted h, List.length_map]

/-- The whole plan is done exactly when every answer is accepted. -/
theorem done_run_iff (answers : Nat → A) (plan : List (PlanStep O A)) (n : Nat) :
    Done plan (run answers plan n) ↔ accepted answers plan n = plan.length := by
  induction plan generalizing n with
  | nil => exact iff_of_true List.Forall₂.nil rfl
  | cons s plan ih =>
    cases hs : s.accepts (answers n) with
    | false =>
      rw [run_cons_of_not_accepts hs, accepted_cons_of_not_accepts hs]
      refine iff_of_false ?_ (Nat.succ_ne_zero _).symm
      intro h
      cases h with
      | cons hx _ =>
        rw [hs] at hx
        exact Bool.false_ne_true hx.2
    | true =>
      rw [run_cons_of_accepts hs, accepted_cons_of_accepts hs, List.length_cons, Nat.add_right_cancel_iff, ← ih]
      exact ⟨fun h => (List.forall₂_cons.mp h).2, fun h => List.Forall₂.cons ⟨rfl, hs⟩ h⟩

/-- An exchange that does not get through its plan ends with the answer that is not accepted. -/
theorem refused_run {plan : List (PlanStep O A)} {n : Nat} (h : accepted answers plan n ≠ plan.length) :
    Refused plan (run answers plan n) := by
  induction plan generalizing n with
  | nil => exact absurd rfl h
  | cons s plan ih =>
    cases hs : s.accepts (answers n) with
    | false => exact ⟨[], s, plan, [], (s.op, answers n), rfl, run_cons_of_not_accepts hs, List.Forall₂.nil, rfl, hs⟩
    | true =>
      rw [accepted_cons_of_accepts hs, List.length_cons, ne_eq, Nat.add_right_cancel_iff] at h
      obtain ⟨before, t, after, done, x, hplan, hrun, hdone, hx, hno⟩ := ih h
      refine ⟨s :: before, t, after, (s.op, answers n) :: done, x, ?_, ?_, List.Forall₂.cons ⟨rfl, hs⟩ hdone, hx, hno⟩
      · rw [hplan, List.cons_append]
      · rw [run_cons_of_accepts hs, hrun, List.cons_append]

/-- A plan in two parts: the second is begun when the first is done. -/
theorem run_append (answers : Nat → A) (p q : List (PlanStep O A)) (n : Nat) :
    run answers (p ++ q) n =
      run answers p n ++ if accepted answers p n = p.length then run answers q (n + p.length) else [] := by
  induction p generalizing n with
  | nil => simp
  | cons s p ih =>
    cases h : s.accepts (answers n)
    · simp [run, accepted, h]
    · simp [run, accepted, h, ih, Nat.add_assoc, Nat.add_comm 1]

theorem accepted_append (answers : Nat → A) (p q : List (PlanStep O A)) (n : Nat) :
    accepted answers (p ++ q) n =
      accepted answers p n + if accepted answers p n = p.length then accepted answers q (n + p.length) else 0 := by
  induction p generalizing n with
  | nil => simp
  | cons s p ih =>
    cases h : s.accepts (answers n)
    · simp [accepted, h]
    · simp [accepted, h, ih, Nat.add_assoc, Nat.add_comm 1]

/-- What is performed of the second part. -/
theorem drop_run_append (answers : Nat → A) (p q : List (PlanStep O A)) (n : Nat) :
    (run answers (p ++ q) n).drop p.length =
      if accepted answers p n = p.length then run answers q (n + p.length) else [] := by
  rw [run_append]
  split
  · rename_i h
    rw [List.drop_append_of_le_length (Nat.le_of_eq (length_run_of_accepted h).symm),
      List.drop_eq_nil_of_le (Nat.le_of_eq (length_run_of_accepted h)), List.nil_append]
  · have hle := (ops_run_begins answers p n).length_le
    rw [List.length_map, List.length_map] at hle
    rw [List.append_nil, List.drop_eq_nil_of_le hle]

/-- What is accepted of it. -/
theorem accepted_append_sub (answers : Nat → A) (p q : List (PlanStep O A)) (n : Nat) :
    accepted answers (p ++ q) n - p.length =
      if accepted answers p n = p.length then accepted answers q (n + p.length) else 0 := by
  have hle := accepted_le_length answers p n
  rw [accepted_append]
  split <;> omega

/-- The accepted operations, counted in what was performed, where the operation itself says which answers it accepts. -/
theorem countP_run {done : O × A → Bool} {plan : List (PlanStep O A)}
    (h : ∀ s ∈ plan, ∀ a, s.accepts a = done (s.op, a)) (n : Nat) :
    (run answers plan n).countP done = accepted answers plan n := by
  induction plan generalizing n with
  | nil => rfl
  | cons s plan ih =>
    have hd := h s List.mem_cons_self (answers n)
    cases hs : s.accepts (answers n)
    · rw [run_cons_of_not_accepts hs, accepted_cons_of_not_accepts hs]
      simp [← hd, hs]
    · rw [run_cons_of_accepts hs, accepted_cons_of_accepts hs, List.countP_cons_of_pos (by rw [← hd, hs]),
        ih (fun t ht => h t (List.mem_cons_of_mem s ht)) (n + 1)]

end Exchange

end SaymaFirmware
