import Mathlib.Algebra.GroupWithZero.Nat

/-!
# 32-bit sums and differences

Numbers below `2 ^ 32` with the wrapping sum and difference of a 32-bit machine.
-/

namespace SaymaFirmware

/-- `a + b` on a 32-bit machine. -/
def add32 (a b : Nat) : Nat := (a + b) % 2 ^ 32

/-- `a - b` on a 32-bit machine. -/
def sub32 (a b : Nat) : Nat := (a + (2 ^ 32 - b)) % 2 ^ 32

theorem add32_eq {a b : Nat} (h : a + b < 2 ^ 32) : add32 a b = a + b := Nat.mod_eq_of_lt h

theorem sub32_eq {a b : Nat} (hb : b ≤ a) (ha : a < 2 ^ 32) : sub32 a b = a - b := by
  rw [sub32, show a + (2 ^ 32 - b) = a - b + 2 ^ 32 by omega, Nat.add_mod_right, Nat.mod_eq_of_lt (by omega)]

end SaymaFirmware
