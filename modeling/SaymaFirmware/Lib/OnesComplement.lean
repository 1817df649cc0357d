import Mathlib.Data.List.Basic

/-!
# Sums with an end-around carry

A 16-bit sum with an end-around carry keeps a number up to multiples of `65535`, and keeps apart a sum that is zero from one that only
comes out as zero: `canon n` is the number from `1` to `65535` that `n` is congruent to, and `0` for `0` alone. Folding the upper half
of a word onto the lower one keeps it, and exchanging the two bytes of a word multiplies it by `256`.

`weigh` is the sum of the bytes of a list as little-endian words, from an even place on or from an odd one.
-/

namespace SaymaFirmware.Ones

/-- The 16-bit sum that stands for `n`. -/
def canon (n : Nat) : Nat := if n = 0 then 0 else (n - 1) % 65535 + 1

/-- Add the upper half of a 32-bit word to the lower half. -/
def fold (u : Nat) : Nat := u / 65536 + u % 65536

/-- Exchange the bytes of a 16-bit word. -/
def swap (w : Nat) : Nat := w % 256 * 256 + w / 256 % 256

section Canon

variable {a b n u w : Nat}

/-- A folded sum is a 16-bit word. -/
theorem canon_le (n : Nat) : canon n ≤ 65535 := by
  rw [canon]
  split
  · exact Nat.zero_le _
  · have := Nat.mod_lt (n - 1) (by omega : 65535 > 0)
    omega

/-- Only zero is folded to zero. -/
theorem canon_eq_zero : canon n = 0 ↔ n = 0 := by
  rw [canon]
  split
  · simp only [*]
  · omega

/-- Folding keeps the number modulo `65535`. -/
theorem canon_mod (n : Nat) : canon n % 65535 = n % 65535 := by
  rw [canon]
  split
  · simp only [*]
  · omega

/-- A 16-bit word is its own folded sum. -/
theorem canon_of_le (h : n ≤ 65535) : canon n = n := by
  rw [canon]
  split
  · simp only [*]
  · omega

/-- The sum is fixed by the remainder and by whether the number is zero. -/
theorem canon_congr (hmod : a % 65535 = b % 65535) (hzero : a = 0 ↔ b = 0) : canon a = canon b := by
  unfold canon
  split <;> split <;> omega

/-- Parts of a sum may be folded before. -/
theorem canon_canon_add (a b : Nat) : canon (canon a + b) = canon (a + b) := by
  refine canon_congr ?_ ?_
  · rw [Nat.add_mod, canon_mod, ← Nat.add_mod]
  · have := canon_eq_zero (n := a)
    omega

theorem canon_add_canon (a b : Nat) : canon (a + canon b) = canon (a + b) := by
  rw [Nat.add_comm, canon_canon_add, Nat.add_comm]

theorem canon_mul_canon (a : Nat) : canon (256 * canon a) = canon (256 * a) := by
  refine canon_congr ?_ ?_
  · rw [Nat.mul_mod, canon_mod, ← Nat.mul_mod]
  · have := canon_eq_zero (n := a)
    omega

/-- One fold keeps the folded sum. -/
theorem canon_fold (u : Nat) : canon (fold u) = canon u := by
  rw [fold]
  refine canon_congr ?_ ?_ <;> omega

/-- One fold is enough for the sum of two 16-bit words. -/
theorem fold_eq (h : u ≤ 131070) : fold u = canon u := by
  have hle : fold u ≤ 65535 := by
    rw [fold]
    omega
  rw [← canon_fold, canon_of_le hle]

/-- Two folds are enough for a 32-bit word. -/
theorem fold_fold_eq (h : u < 4294967296) : fold (fold u) = canon u := by
  have hle : fold u ≤ 131070 := by
    rw [fold]
    omega
  rw [fold_eq hle, canon_fold]

/-- Exchanging the bytes of a word is multiplying by `256`. -/
theorem swap_eq (h : w ≤ 65535) : swap w = canon (256 * w) := by
  have hle : swap w ≤ 65535 := by
    rw [swap]
    omega
  have hmul : 256 * w = swap w + 65535 * (w / 256) := by
    rw [swap]
    omega
  calc swap w = canon (swap w) := (canon_of_le hle).symm
    _ = canon (swap w + 65535 * (w / 256)) := by
      refine canon_congr (by rw [Nat.add_mul_mod_self_left]) ?_
      rw [swap]
      omega
    _ = canon (256 * w) := by rw [hmul]

/-- Nothing is lacking exactly when the number is a multiple of `65535`, but not zero. -/
theorem canon_eq_max : canon n = 65535 ↔ n ≠ 0 ∧ n % 65535 = 0 := by
  have hmod := canon_mod n
  have hle := canon_le n
  have hzero := canon_eq_zero (n := n)
  omega

end Canon

/-- The bytes of a list as little-endian words, the first byte being an upper one when `odd`. -/
def weigh : Bool → List UInt8 → Nat
  | _, [] => 0
  | odd, b :: l => (if odd then 256 * b.toNat else b.toNat) + weigh (!odd) l

section Weigh

variable {l l' : List UInt8}

/-- Whether a list has an odd number of bytes. -/
def isOdd (l : List UInt8) : Bool := l.length % 2 = 1

theorem isOdd_cons (b : UInt8) (l : List UInt8) : isOdd (b :: l) = !isOdd l := by
  simp only [isOdd, List.length_cons]
  by_cases h : l.length % 2 = 1
  · rw [decide_eq_true h, decide_eq_false (by omega)]
    rfl
  · rw [decide_eq_false h, decide_eq_true (by omega)]
    rfl

/-- Two odd lengths make an even one. -/
theorem isOdd_append (l l' : List UInt8) : isOdd (l ++ l') = (isOdd l ^^ isOdd l') := by
  induction l with
  | nil => exact (Bool.false_xor _).symm
  | cons b l ih => rw [List.cons_append, isOdd_cons, ih, isOdd_cons, Bool.not_xor]

/-- The second part is summed from where the first ends. -/
theorem weigh_append (odd : Bool) (l l' : List UInt8) : weigh odd (l ++ l') = weigh odd l + weigh (odd ^^ isOdd l) l' := by
  induction l generalizing odd with
  | nil => rw [List.nil_append, weigh, Nat.zero_add, isOdd, List.length_nil, Nat.zero_mod, decide_eq_false nofun, Bool.xor_false]
  | cons b l ih => rw [List.cons_append, weigh, weigh, ih, isOdd_cons, Bool.xor_not, Bool.not_xor, Nat.add_assoc]

/-- The other order of bytes is `256` times the sum. -/
theorem weigh_flip (odd : Bool) (l : List UInt8) : (256 * weigh odd l) % 65535 = weigh (!odd) l % 65535 := by
  induction l generalizing odd with
  | nil => rfl
  | cons b l ih =>
    have := ih (!odd)
    cases odd <;> simp only [weigh, Bool.not_true, Bool.not_false, if_true, Bool.false_eq_true, if_false] at this ⊢ <;> omega

theorem weigh_flip_eq_zero (odd : Bool) (l : List UInt8) : weigh odd l = 0 ↔ weigh (!odd) l = 0 := by
  induction l generalizing odd with
  | nil => exact Iff.rfl
  | cons b l ih =>
    have := ih (!odd)
    cases odd <;> simp only [weigh, Bool.not_true, Bool.not_false, if_true, Bool.false_eq_true, if_false] at this ⊢ <;> omega

/-- Exchanging bytes moves a list by one place. -/
theorem canon_mul_weigh (odd : Bool) (l : List UInt8) : canon (256 * weigh odd l) = canon (weigh (!odd) l) := by
  refine canon_congr (weigh_flip odd l) ?_
  rw [← weigh_flip_eq_zero odd l]
  omega

/-- A sum is bounded by the length. -/
theorem weigh_le (odd : Bool) (l : List UInt8) : weigh odd l ≤ 65280 * l.length := by
  induction l generalizing odd with
  | nil => exact Nat.zero_le _
  | cons b l ih =>
    have := ih (!odd)
    have hb := b.toNat_lt
    cases odd <;> simp only [weigh, List.length_cons, if_true, Bool.false_eq_true, if_false] at this ⊢ <;> omega

end Weigh

end SaymaFirmware.Ones
