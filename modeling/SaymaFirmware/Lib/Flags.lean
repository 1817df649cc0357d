import Mathlib.Data.List.Basic

/-!
# Flags of a register

A register word with one bit `m` of interest: setting it, setting other bits, and clearing the bits of a word read earlier. A property
of bytes is checked on all of them.
-/

namespace SaymaFirmware

/-- `m` has exactly one bit. -/
def IsFlag (m : UInt32) : Prop := ∃ k < 32, m.toBitVec = BitVec.twoPow 32 k

namespace IsFlag

variable {m : UInt32}

/-- A flag is set or not. -/
theorem and_eq (hm : IsFlag m) (x : UInt32) : x &&& m = m ∨ x &&& m = 0 := by
  obtain ⟨k, -, hk⟩ := hm
  have h := BitVec.and_twoPow x.toBitVec k
  rw [← hk] at h
  by_cases hx : x.toBitVec.getLsbD k = true
  · left; apply UInt32.toBitVec_inj.mp; rw [UInt32.toBitVec_and, h, if_pos hx]
  · right; apply UInt32.toBitVec_inj.mp; rw [UInt32.toBitVec_and, h, if_neg hx]; rfl

/-- Clearing the bits of a word that has the flag clears it. -/
theorem clear_self (hm : IsFlag m) {c : UInt32} (hc : c &&& m ≠ 0) (x : UInt32) : (x &&& ~~~c) &&& m = 0 := by
  have hcm : c &&& m = m := (hm.and_eq c).resolve_right hc
  rw [← hcm, UInt32.and_assoc, ← UInt32.and_assoc (~~~c)]
  simp

end IsFlag

/-- A flag that is set is set. -/
theorem or_flag_and (x m : UInt32) : (x ||| m) &&& m = m := by
  apply UInt32.toBitVec_inj.mp
  ext i hi
  simp only [UInt32.toBitVec_and, UInt32.toBitVec_or, BitVec.getElem_and, BitVec.getElem_or]
  cases x.toBitVec[i] <;> cases m.toBitVec[i] <;> rfl

/-- No bit is in two disjoint words. -/
theorem and_getElem_of_disjoint {b m : UInt32} (hb : b &&& m = 0) (i : Nat) (hi : i < 32) :
    (b.toBitVec[i] && m.toBitVec[i]) = false := by
  have h := congrArg (fun x => x.toBitVec.getLsbD i) hb
  simpa [hi, BitVec.getLsbD_eq_getElem] using h

/-- Setting other bits leaves a flag. -/
theorem or_and_of_disjoint (x : UInt32) {b m : UInt32} (hb : b &&& m = 0) : (x ||| b) &&& m = x &&& m := by
  apply UInt32.toBitVec_inj.mp
  ext i hi
  have h := and_getElem_of_disjoint hb i hi
  simp only [UInt32.toBitVec_and, UInt32.toBitVec_or, BitVec.getElem_and, BitVec.getElem_or]
  revert h
  cases x.toBitVec[i] <;> cases b.toBitVec[i] <;> cases m.toBitVec[i] <;> decide

/-- Clearing the bits of a word without the flag leaves it. -/
theorem clear_and_of_disjoint (x : UInt32) {c m : UInt32} (hc : c &&& m = 0) : (x &&& ~~~c) &&& m = x &&& m := by
  apply UInt32.toBitVec_inj.mp
  ext i hi
  have h := and_getElem_of_disjoint hc i hi
  simp only [UInt32.toBitVec_and, UInt32.toBitVec_not, BitVec.getElem_and, BitVec.getElem_not]
  revert h
  cases x.toBitVec[i] <;> cases c.toBitVec[i] <;> cases m.toBitVec[i] <;> decide

/-- What holds of the 256 bytes holds of every byte. -/
theorem forall_byte {P : UInt8 → Prop} (h : ∀ n < 256, P (UInt8.ofNat n)) (x : UInt8) : P x := by
  have hx : UInt8.ofNat x.toNat = x := UInt8.ofNat_toNat
  rw [← hx]
  exact h _ x.toNat_lt

end SaymaFirmware
