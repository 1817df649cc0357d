import Mathlib.Data.List.Basic

/-!
# Wrapping indices

Two parties share a ring of `n` places through two indices below `n`, each moved by `next`. The arithmetic is that of the counters
behind them: how many places have been filled (`p`) and how many emptied (`c`), never reduced, with `c ≤ p < c + n`. An index is its
counter modulo `n`, and a place between the counters is named by exactly one of them.
-/

namespace SaymaFirmware.Ring

/-- The next index: the source's increment and reset. -/
def next (n i : Nat) : Nat := if i + 1 = n then 0 else i + 1

/-- Moving an index is counting one more. -/
theorem next_mod {n : Nat} (hn : 0 < n) (k : Nat) : next n (k % n) = (k + 1) % n := by
  have hlt := Nat.mod_lt k hn
  rw [← Nat.mod_add_mod k n 1, next]
  split
  · rename_i h
    rw [h, Nat.mod_self]
  · exact (Nat.mod_eq_of_lt (by omega)).symm

/-- Counters less than `n` apart are at different places. -/
theorem mod_ne_of_lt {n j k : Nat} (h1 : j < k) (h2 : k < j + n) : j % n ≠ k % n := by
  intro h
  have hj := Nat.mod_add_div j n
  have hk := Nat.mod_add_div k n
  rw [h] at hj
  -- the quotients differ by at least one, so the counters by at least `n`
  have hlt : j / n < k / n := by
    rcases Nat.lt_trichotomy (j / n) (k / n) with h' | h' | h'
    · exact h'
    · rw [h'] at hj; omega
    · have := Nat.div_le_div_right (c := n) (Nat.le_of_lt h1); omega
  have hmul : n * (j / n) + n ≤ n * (k / n) := by
    rw [← Nat.mul_succ]; exact Nat.mul_le_mul_left n hlt
  omega

/-- The indices agree exactly when nothing is filled. -/
theorem mod_eq_iff {n c p : Nat} (h1 : c ≤ p) (h2 : p < c + n) : p % n = c % n ↔ p = c := by
  constructor
  · intro h
    rcases Nat.lt_or_eq_of_le h1 with hlt | heq
    · exact absurd h.symm (mod_ne_of_lt hlt h2)
    · exact heq.symm
  · rintro rfl; rfl

/-- The index in front of `p` is `c`'s exactly when `n - 1` places are filled. -/
theorem next_eq_iff {n c p : Nat} (hn : 0 < n) (h1 : c ≤ p) (h2 : p < c + n) :
    next n (p % n) = c % n ↔ p + 1 = c + n := by
  rw [next_mod hn]
  constructor
  · intro h
    by_contra hne
    exact absurd h.symm (mod_ne_of_lt (by omega : c < p + 1) (by omega))
  · intro h
    rw [h, Nat.add_mod_right]

/-- The increment and reset on a 32-bit register. -/
def nextWord (n idx : UInt32) : UInt32 := if idx + 1 = n then 0 else idx + 1

/-- A register that holds a counter modulo `n` holds the next one after it. -/
theorem nextWord_toNat {n idx : UInt32} (hn : 0 < n.toNat) {k : Nat} (h : idx.toNat = k % n.toNat) :
    (nextWord n idx).toNat = (k + 1) % n.toNat := by
  have hlt : k % n.toNat < n.toNat := Nat.mod_lt k hn
  have hword := n.toNat_lt
  have hadd : (idx + 1).toNat = idx.toNat + 1 := by
    rw [UInt32.toNat_add, UInt32.toNat_one, Nat.mod_eq_of_lt (by omega)]
  have hiff : idx + 1 = n ↔ idx.toNat + 1 = n.toNat := by
    rw [← UInt32.toNat_inj, hadd]
  rw [← next_mod hn, ← h, nextWord, next]
  simp only [hiff]
  split
  · rfl
  · exact hadd

end SaymaFirmware.Ring
