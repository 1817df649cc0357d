import Mathlib.Data.List.Basic

/-!
# Programs that perform operations

A program performs operations one at a time and goes on with the answer to each. What an operation does, and what runs between two
of them, is not part of it: a machine that holds a program takes its next operation as a step.
-/

namespace SaymaFirmware

/-- A program over the operations `O`, each answered with an `R`, that ends with an `α`. -/
inductive Prog (O R α : Type) where
  | ret (a : α)
  | perform (o : O) (k : R → Prog O R α)

namespace Prog

variable {O R α β : Type}

/-- Go on with a second program after the first. -/
def bind (p : Prog O R α) (f : α → Prog O R β) : Prog O R β :=
  match p with
  | .ret a => f a
  | .perform o k => .perform o fun r => (k r).bind f

instance : Monad (Prog O R) where
  pure := .ret
  bind := bind

/-- One operation, with its answer as result. -/
def op (o : O) : Prog O R R := .perform o .ret

/-- One operation, its answer dropped. -/
def op_ (o : O) : Prog O R Unit := .perform o fun _ => .ret ()

/-- Whatever the answers, as long as `ok` allows them, the program ends with a result with the property `Q`. -/
def Yields (ok : O → R → Prop) (Q : α → Prop) : Prog O R α → Prop
  | .ret a => Q a
  | .perform o k => ∀ r, ok o r → Yields ok Q (k r)

/-- Whatever the answers, as long as `ok` allows them, the program performs an operation before it ends for which, with its answer, `P`
holds. -/
def Performs (ok P : O → R → Prop) : Prog O R α → Prop
  | .ret _ => False
  | .perform o k => ∀ r, ok o r → P o r ∨ Performs ok P (k r)

variable {ok P : O → R → Prop} {Q : α → Prop} {f : α → Prog O R β}

/-- Nothing is asked of the result. -/
theorem yields_true (p : Prog O R α) : p.Yields ok fun _ => True := by
  induction p with
  | ret a => trivial
  | perform o k ih => exact fun r _ => ih r

/-- What a second program yields after each result of the first, both together yield. -/
theorem Yields.bind {Q' : β → Prop} {p : Prog O R α} (hp : p.Yields ok Q) (hf : ∀ a, Q a → (f a).Yields ok Q') :
    (p >>= f).Yields ok Q' := by
  induction p with
  | ret a => exact hf a hp
  | perform o k ih => exact fun r hr => ih r (hp r hr)

/-- What a second program performs after each result of the first, both together perform. -/
theorem Performs.bind {p : Prog O R α} (hp : p.Yields ok Q) (hf : ∀ a, Q a → (f a).Performs ok P) : (p >>= f).Performs ok P := by
  induction p with
  | ret a => exact hf a hp
  | perform o k ih => exact fun r hr => Or.inr (ih r (hp r hr))

/-- What the first program performs, both together perform. -/
theorem Performs.bind_left {p : Prog O R α} (hp : p.Performs ok P) : (p >>= f).Performs ok P := by
  induction p with
  | ret a => exact hp.elim
  | perform o k ih => exact fun r hr => (hp r hr).imp_right (ih r)

/-- A single operation. -/
theorem Performs.op_ {o : O} (h : ∀ r, ok o r → P o r) : (Prog.op_ o).Performs ok P := fun r hr => Or.inl (h r hr)

/-! ## Running a program against answers -/

section Run

variable {σ : Type} (answer : σ → O → R × σ)

/-- What the program ends with when `answer` gives the answers, from a state that each operation may change. -/
def result : Prog O R α → σ → α
  | .ret a, _ => a
  | .perform o k, s => (k (answer s o).1).result (answer s o).2

/-- The state it ends in. -/
def final : Prog O R α → σ → σ
  | .ret _, s => s
  | .perform o k, s => (k (answer s o).1).final (answer s o).2

/-- The operations it performs, with their answers. -/
def trace : Prog O R α → σ → List (O × R)
  | .ret _, _ => []
  | .perform o k, s => (o, (answer s o).1) :: (k (answer s o).1).trace (answer s o).2

@[simp] theorem result_pure (a : α) (s : σ) : result answer (pure a : Prog O R α) s = a := rfl

@[simp] theorem final_pure (a : α) (s : σ) : final answer (pure a : Prog O R α) s = s := rfl

@[simp] theorem trace_pure (a : α) (s : σ) : trace answer (pure a : Prog O R α) s = [] := rfl

@[simp] theorem result_op (o : O) (s : σ) : result answer (op o) s = (answer s o).1 := rfl

@[simp] theorem final_op (o : O) (s : σ) : final answer (op o) s = (answer s o).2 := rfl

@[simp] theorem trace_op (o : O) (s : σ) : trace answer (op o) s = [(o, (answer s o).1)] := rfl

@[simp] theorem result_bind (p : Prog O R α) (f : α → Prog O R β) (s : σ) :
    result answer (p >>= f) s = result answer (f (result answer p s)) (final answer p s) := by
  induction p generalizing s with
  | ret a => rfl
  | perform o k ih => exact ih (answer s o).1 (answer s o).2

@[simp] theorem final_bind (p : Prog O R α) (f : α → Prog O R β) (s : σ) :
    final answer (p >>= f) s = final answer (f (result answer p s)) (final answer p s) := by
  induction p generalizing s with
  | ret a => rfl
  | perform o k ih => exact ih (answer s o).1 (answer s o).2

@[simp] theorem trace_bind (p : Prog O R α) (f : α → Prog O R β) (s : σ) :
    trace answer (p >>= f) s = trace answer p s ++ trace answer (f (result answer p s)) (final answer p s) := by
  induction p generalizing s with
  | ret a => rfl
  | perform o k ih => exact congrArg ((o, (answer s o).1) :: ·) (ih (answer s o).1 (answer s o).2)

end Run

/-- Whatever the answers, the program performs no operation with the property `P`. -/
def Avoids (P : O → Prop) : Prog O R α → Prop
  | .ret _ => True
  | .perform o k => ¬ P o ∧ ∀ r, Avoids P (k r)

namespace Avoids

variable {P : O → Prop}

/-- A program without operations avoids every one. -/
theorem pure {a : α} : Avoids P (pure a : Prog O R α) := trivial

/-- A single operation avoids what it is not. -/
theorem op_ {o : O} (h : ¬ P o) : Avoids P (op_ o : Prog O R Unit) := ⟨h, fun _ => trivial⟩

theorem op {o : O} (h : ¬ P o) : Avoids P (Prog.op o : Prog O R R) := ⟨h, fun _ => trivial⟩

/-- A sequence avoids what both parts avoid. -/
theorem bind {p : Prog O R α} {f : α → Prog O R β} (hp : Avoids P p) (hf : ∀ a, Avoids P (f a)) : Avoids P (p >>= f) := by
  induction p with
  | ret a => exact hf a
  | perform o k ih => exact ⟨hp.1, fun r => ih r (hp.2 r)⟩

/-- Fewer operations are easier to avoid. -/
theorem mono {Q : O → Prop} (hPQ : ∀ o, Q o → P o) {p : Prog O R α} (h : Avoids P p) : Avoids Q p := by
  induction p with
  | ret a => trivial
  | perform o k ih => exact ⟨fun hq => h.1 (hPQ o hq), fun r => ih r (h.2 r)⟩

/-- Nothing in its trace has the property. -/
theorem not_of_mem_trace {σ : Type} {answer : σ → O → R × σ} {p : Prog O R α} (h : Avoids P p) (s : σ) :
    ∀ x ∈ trace answer p s, ¬ P x.1 := by
  induction p generalizing s with
  | ret a => exact fun x hx => nomatch hx
  | perform o k ih =>
    intro x hx
    rcases List.mem_cons.mp hx with rfl | hx
    · exact h.1
    · exact ih (answer s o).1 (h.2 _) (answer s o).2 x hx

/-- It leaves the state when only operations with the property change it. -/
theorem final_eq {σ : Type} {answer : σ → O → R × σ} (hkeep : ∀ s o, ¬ P o → (answer s o).2 = s) {p : Prog O R α} (h : Avoids P p)
    (s : σ) : final answer p s = s := by
  induction p generalizing s with
  | ret a => rfl
  | perform o k ih => exact (ih (answer s o).1 (h.2 _) (answer s o).2).trans (hkeep s o h.1)

end Avoids

end Prog

end SaymaFirmware
