import Mathlib.Data.List.TakeWhile

/-!
# C strings in memory

The memory from a pointer on is a list. The string functions read on until they find what they look for or a NUL; a memory that has
neither is read to its end, where the program stops (`fault`). A memory is taken apart at the first item of interest, and then one lemma
for each function says how it ends there, whatever follows.
-/

namespace SaymaFirmware

/-- How a search ends: at an offset, at the NUL, or at the end of the memory. -/
inductive Search where
  | hit (i : Nat)
  | miss
  | fault
deriving DecidableEq, Repr

/-- The same search, seen from one place before. -/
def Search.succ : Search → Search
  | .hit i => .hit (i + 1)
  | .miss => .miss
  | .fault => .fault

variable {α : Type}

/-- A list with an item of some kind, taken apart at the first one. -/
theorem split_first {P : α → Prop} {m : List α} (h : ∃ x ∈ m, P x) :
    ∃ u x v, m = u ++ x :: v ∧ P x ∧ ∀ y ∈ u, ¬ P y := by
  induction m with
  | nil =>
    obtain ⟨x, hx, -⟩ := h
    exact nomatch hx
  | cons b m ih =>
    by_cases hb : P b
    · exact ⟨[], b, m, rfl, hb, fun y hy => nomatch hy⟩
    · obtain ⟨x, hx, hP⟩ := h
      obtain ⟨u, x, v, rfl, hx, hu⟩ := ih ⟨x, (List.mem_cons.mp hx).resolve_left fun he => hb (he ▸ hP), hP⟩
      exact ⟨b :: u, x, v, rfl, hx, List.forall_mem_cons.mpr ⟨hb, hu⟩⟩

variable [DecidableEq α] {c : α} {u text : List α}

/-- What stands before the first `c`. -/
def before (c : α) (m : List α) : List α := m.takeWhile fun b => decide (b ≠ c)

theorem before_of_not_mem (h : c ∉ u) : before c u = u := by
  refine List.takeWhile_eq_self_iff.mpr fun b hb => decide_eq_true ?_
  rintro rfl
  exact h hb

theorem before_append_of_not_mem (h : c ∉ u) (v : List α) : before c (u ++ v) = u ++ before c v := by
  refine List.takeWhile_append_of_pos fun b hb => decide_eq_true ?_
  rintro rfl
  exact h hb

theorem before_append_cons (h : c ∉ u) (v : List α) : before c (u ++ c :: v) = u := by
  rw [before_append_of_not_mem h, before, List.takeWhile_cons_of_neg (by simp), List.append_nil]

theorem before_append_of_mem (h : c ∈ u) (v : List α) : before c (u ++ v) = before c u := by
  obtain ⟨a, b, rfl, hca⟩ := List.eq_append_cons_of_mem h
  rw [List.append_assoc, List.cons_append, before_append_cons hca, before_append_cons hca]

/-- A list comes apart at its first `c` in one way. -/
theorem append_cons_inj {u' v v' : List α} (h : c ∉ u) (h' : c ∉ u') (he : u ++ c :: v = u' ++ c :: v') : u = u' ∧ v = v' := by
  have hu : u = u' := by rw [← before_append_cons h v, he, before_append_cons h' v']
  subst hu
  exact ⟨rfl, (List.cons.inj (List.append_cancel_left he)).2⟩

variable [OfNat α 0]

/-- `strchr`. -/
def strchr (c : α) : List α → Search
  | [] => .fault
  | b :: m => if b = c then .hit 0 else if b = 0 then .miss else (strchr c m).succ

/-- `strstr`. -/
def strstr (text : List α) : List α → Search
  | [] => .fault
  | b :: m => if text.isPrefixOf (b :: m) then .hit 0 else if b = 0 then .miss else (strstr text m).succ

/-- The string at a pointer, or none when the memory has no NUL. -/
def cString : List α → Option (List α)
  | [] => none
  | b :: m => if b = 0 then some [] else (cString m).map (b :: ·)

/-- `strchr` finds the first `c` when no NUL comes before it. -/
theorem strchr_hit (hc : c ∉ u) (h0 : 0 ∉ u) (v : List α) : strchr c (u ++ c :: v) = .hit u.length := by
  induction u with
  | nil => simp [strchr]
  | cons b u ih =>
    rw [List.mem_cons, not_or] at hc h0
    rw [List.cons_append, strchr, if_neg (Ne.symm hc.1), if_neg (Ne.symm h0.1), ih hc.2 h0.2]
    rfl

/-- It finds none when the NUL comes first. -/
theorem strchr_miss (hc : c ∉ u) (h0 : 0 ∉ u) (hne : c ≠ 0) (v : List α) : strchr c (u ++ 0 :: v) = .miss := by
  induction u with
  | nil => simp [strchr, Ne.symm hne]
  | cons b u ih =>
    rw [List.mem_cons, not_or] at hc h0
    rw [List.cons_append, strchr, if_neg (Ne.symm hc.1), if_neg (Ne.symm h0.1), ih hc.2 h0.2]
    rfl

/-- The string up to the NUL. -/
theorem cString_eq (h0 : 0 ∉ u) (v : List α) : cString (u ++ 0 :: v) = some u := by
  induction u with
  | nil => simp [cString]
  | cons b u ih =>
    rw [List.mem_cons, not_or] at h0
    rw [List.cons_append, cString, if_neg (Ne.symm h0.1), ih h0.2]
    rfl

/-- A comparison with a text that has no NUL does not read past one. -/
theorem isPrefixOf_append_zero (ht : 0 ∉ text) (u v : List α) : text.isPrefixOf (u ++ 0 :: v) = text.isPrefixOf u := by
  induction text generalizing u with
  | nil => simp
  | cons t text ih =>
    rw [List.mem_cons, not_or] at ht
    cases u with
    | nil => simp [List.isPrefixOf, Ne.symm ht.1]
    | cons b u => rw [List.cons_append, List.isPrefixOf, List.isPrefixOf, ih ht.2]

/-- `strstr` finds a text that ends before any NUL. -/
theorem strstr_hit (hne : text ≠ []) (h : text <:+: u) (h0 : 0 ∉ u) (v : List α) : ∃ i, strstr text (u ++ v) = .hit i := by
  induction u with
  | nil => exact absurd (List.infix_nil.mp h) hne
  | cons b u ih =>
    rw [List.mem_cons, not_or] at h0
    rw [List.cons_append, strstr]
    split
    · exact ⟨0, rfl⟩
    · rename_i hp
      have hu : text <:+: u := by
        rcases List.infix_cons_iff.mp h with hpre | hinf
        · exact absurd (List.isPrefixOf_iff_prefix.mpr (hpre.trans (List.prefix_append _ v))) hp
        · exact hinf
      obtain ⟨i, hi⟩ := ih hu h0.2
      exact ⟨i + 1, by rw [if_neg (Ne.symm h0.1), hi]; rfl⟩

/-- It finds none when the text does not occur before the first NUL. -/
theorem strstr_miss (hne : text ≠ []) (ht : 0 ∉ text) (h : ¬ text <:+: u) (h0 : 0 ∉ u) (v : List α) :
    strstr text (u ++ 0 :: v) = .miss := by
  induction u with
  | nil =>
    have hp : text.isPrefixOf ((0 : α) :: v) = false := by
      have := isPrefixOf_append_zero ht [] v
      rw [List.nil_append] at this
      rw [this]
      cases text with
      | nil => exact absurd rfl hne
      | cons t text => rfl
    simp [strstr, hp]
  | cons b u ih =>
    rw [List.mem_cons, not_or] at h0
    rw [List.infix_cons_iff, not_or] at h
    have hp : ¬ text.isPrefixOf (b :: (u ++ 0 :: v)) = true := by
      rw [← List.cons_append, isPrefixOf_append_zero ht, List.isPrefixOf_iff_prefix]
      exact h.1
    rw [List.cons_append, strstr, if_neg hp, if_neg (Ne.symm h0.1), ih h.2 h0.2]
    rfl

/-! ## Cutting a string -/

/-- The memory once a NUL is stored at the first `c`, if there is one. -/
def cutAt (c : α) : List α → List α
  | [] => []
  | b :: m => if b = c then 0 :: m else b :: cutAt c m

@[simp] theorem length_cutAt (c : α) (m : List α) : (cutAt c m).length = m.length := by
  induction m with
  | nil => rfl
  | cons b m ih =>
    rw [cutAt]
    split
    · rfl
    · rw [List.length_cons, ih, List.length_cons]

theorem cutAt_of_not_mem (h : c ∉ u) : cutAt c u = u := by
  induction u with
  | nil => rfl
  | cons b u ih =>
    rw [List.mem_cons, not_or] at h
    rw [cutAt, if_neg (Ne.symm h.1), ih h.2]

theorem cutAt_append_cons (h : c ∉ u) (v : List α) : cutAt c (u ++ c :: v) = u ++ 0 :: v := by
  induction u with
  | nil => simp [cutAt]
  | cons b u ih =>
    rw [List.mem_cons, not_or] at h
    rw [List.cons_append, cutAt, if_neg (Ne.symm h.1), ih h.2, List.cons_append]

end SaymaFirmware
