import SaymaFirmware.Lib.Word32

/-!
# Sequence numbers

32-bit numbers that count on after `2 ^ 32 - 1` with zero. They are compared by their difference as a signed number, which is the order
of the positions they stand for as long as these are less than `2 ^ 31` apart.
-/

namespace SaymaFirmware.SeqNum

/-- The number of a position. -/
def num (p : Nat) : Nat := p % 2 ^ 32

/-- `a - b` is negative. -/
def lt (a b : Nat) : Bool := 2 ^ 31 ≤ sub32 a b

/-- `a - b` is negative or zero. -/
def leq (a b : Nat) : Bool := sub32 a b = 0 || lt a b

/-- `a - b` is positive or zero. -/
def geq (a b : Nat) : Bool := !lt a b

/-- `a - b` is positive. -/
def gt (a b : Nat) : Bool := !leq a b

/-- `b ≤ a` and `a ≤ c`. -/
def between (a b c : Nat) : Bool := geq a b && leq a c

variable {p q r : Nat}

theorem sub32_num (p q : Nat) : sub32 (num p) (num q) = (p % 2 ^ 32 + (2 ^ 32 - q % 2 ^ 32)) % 2 ^ 32 := rfl

theorem num_add (p n : Nat) : add32 (num p) n = num (p + n) := by
  rw [add32, num, num, Nat.mod_add_mod]

/-- The difference of two numbers is the distance of their positions. -/
theorem sub32_num_eq (h : q ≤ p) (hlt : p < q + 2 ^ 32) : sub32 (num p) (num q) = p - q := by
  rw [sub32_num]
  omega

/-- A number is that of the position at its distance from another. -/
theorem eq_num_add {a : Nat} (h : a < 2 ^ 32) (q : Nat) : a = num (q + sub32 a (num q)) := by
  rw [sub32, num, num]
  omega

/-- Numbers start again after `2 ^ 32`. -/
theorem num_add_cycle (p : Nat) : num (p + 2 ^ 32) = num p := Nat.add_mod_right p (2 ^ 32)

theorem num_pred (p : Nat) : sub32 (num p) 1 = num (p + (2 ^ 32 - 1)) := by
  rw [sub32, num, num, Nat.mod_add_mod]

theorem lt_num (hp : p < q + 2 ^ 31) (hq : q ≤ p + 2 ^ 31) : lt (num p) (num q) = decide (p < q) := by
  rw [lt, sub32_num]
  by_cases h : p < q
  · rw [decide_eq_true h, decide_eq_true_eq]
    omega
  · rw [decide_eq_false h, decide_eq_false_iff_not]
    omega

theorem leq_num (hp : p < q + 2 ^ 31) (hq : q ≤ p + 2 ^ 31) : leq (num p) (num q) = decide (p ≤ q) := by
  rw [leq, lt_num hp hq, sub32_num]
  by_cases h : p ≤ q
  · rw [decide_eq_true h, Bool.or_eq_true, decide_eq_true_eq, decide_eq_true_eq]
    omega
  · rw [decide_eq_false h, Bool.or_eq_false_iff, decide_eq_false_iff_not, decide_eq_false_iff_not]
    omega

theorem geq_num (hp : p < q + 2 ^ 31) (hq : q ≤ p + 2 ^ 31) : geq (num p) (num q) = decide (q ≤ p) := by
  rw [geq, lt_num hp hq, ← decide_not, decide_eq_decide, Nat.not_lt]

theorem gt_num (hp : p < q + 2 ^ 31) (hq : q ≤ p + 2 ^ 31) : gt (num p) (num q) = decide (q < p) := by
  rw [gt, leq_num hp hq, ← decide_not, decide_eq_decide, Nat.not_le]

/-- Numbers of positions that are close are equal only if the positions are. -/
theorem num_inj (hp : p < q + 2 ^ 32) (hq : q < p + 2 ^ 32) : num p = num q ↔ p = q := by
  rw [num, num]
  omega

end SaymaFirmware.SeqNum
