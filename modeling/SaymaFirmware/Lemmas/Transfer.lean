import SaymaFirmware.I2c

/-!
# The driver on any peripheral

A transfer that may not retransmit is one pass and a STOP. A transfer that only sends passes through the START and the sending
phase, one that only receives through the START and the receiving phase.
-/

namespace SaymaFirmware

variable {σ : Type} (P : I2cPeripheral σ)

/-- The sending phase changes nothing of a setup but the count of bytes sent. -/
theorem txPhase_setup (c : I2cSetup) (w : σ) : ∃ n, (i2cTxPhase P c w).2.1 = { c with txCount := n } := by
  unfold i2cTxPhase
  split
  · exact ⟨c.txCount, rfl⟩
  · split
    · exact ⟨c.txCount, rfl⟩
    · dsimp only
      split
      · exact ⟨c.txCount, rfl⟩
      · exact ⟨_, rfl⟩

/-- The START changes nothing of it, and a phase after it starts from the setup before it. -/
theorem startPhase_andThen (next : I2cSetup → σ → I2cPass σ) (c : I2cSetup) (w : σ) :
    (i2cStartPhase P c w).andThen next =
      if (i2cStart P w).1 ≠ i2statStart ∧ (i2cStart P w).1 ≠ i2statRestart then (some (i2cStart P w).1, c, (i2cStart P w).2)
      else next c (i2cStart P w).2 := by
  unfold i2cStartPhase I2cPass.andThen
  by_cases h : (i2cStart P w).1 ≠ i2statStart ∧ (i2cStart P w).1 ≠ i2statRestart
  · simp only [if_pos h]
  · simp only [if_neg h]

/-- A setup that only sends passes through the START and the sending phase. -/
theorem pass_of_sends {x : I2cSetup} (hdata : x.rxData = none) (w : σ) :
    i2cPass P x w = (i2cStartPhase P { x with txCount := 0, rxCount := 0 } w).andThen (i2cTxPhase P) := by
  have hnone : ∀ r : I2cPass σ, r.2.1.rxData = none →
      (r.andThen (i2cRestartPhase P)).andThen (i2cRxPhase P) = r := by
    rintro ⟨_ | st, c, w'⟩ hc
    · simp only [I2cPass.andThen, i2cRestartPhase, i2cRxPhase, show c.rxData = none from hc, Option.isSome_none,
        Bool.false_eq_true, and_false, if_false]
    · rfl
  apply hnone
  rw [startPhase_andThen]
  split
  · exact hdata
  · obtain ⟨n, hn⟩ := txPhase_setup P { x with txCount := 0, rxCount := 0 } (i2cStart P w).2
    rw [hn]
    exact hdata

/-- A setup that only receives passes through the START and the receiving phase. -/
theorem pass_of_receives {x : I2cSetup} (hdata : x.txData = none) (w : σ) :
    i2cPass P x w = (i2cStartPhase P { x with txCount := 0, rxCount := 0 } w).andThen (i2cRxPhase P) := by
  have htx : ∀ w', i2cTxPhase P { x with txCount := 0, rxCount := 0 } w' = (none, { x with txCount := 0, rxCount := 0 }, w') := by
    intro w'
    simp only [i2cTxPhase, hdata]
  have hre : ∀ w', i2cRestartPhase P { x with txCount := 0, rxCount := 0 } w' =
      (none, { x with txCount := 0, rxCount := 0 }, w') := by
    intro w'
    simp only [i2cRestartPhase, hdata, Option.isSome_none, Bool.false_eq_true, false_and, and_false, if_false]
  unfold i2cPass
  simp only [startPhase_andThen, htx]
  by_cases h : (i2cStart P w).1 ≠ i2statStart ∧ (i2cStart P w).1 ≠ i2statRestart
  · simp only [if_pos h, I2cPass.andThen]
  · simp only [if_neg h, I2cPass.andThen, hre]

/-- A transfer that may not retransmit is one pass and a STOP. -/
theorem transfer_of_pass {x : I2cSetup} (hmax : x.retransmissionsMax = 0) {w w' : σ} {r : Option UInt32} {c : I2cSetup}
    (hpass : i2cPass P { x with txCount := 0, rxCount := 0, status := 0, retransmissionsCount := 0 } w = (r, c, w'))
    (hc : c.retransmissionsMax = 0) :
    ∃ n st, i2cMasterTransferData P x w = (r.isNone, { c with retransmissionsCount := n, status := st }, P.stop w') := by
  simp only [i2cMasterTransferData, hmax, i2cPasses] at hpass ⊢
  rw [hpass]
  cases r with
  | none => exact ⟨c.retransmissionsCount, c.status, rfl⟩
  | some st =>
    simp only [hc]
    exact ⟨c.retransmissionsCount + 1, st, rfl⟩

/-- The receiving phase of a read of one byte has received one when it did not fail, and only then. -/
theorem rxPhase_one {x : I2cSetup} {ch : List UInt8} (hdata : x.rxData = some ch) (hlen : x.rxLength = 1) (hcount : x.rxCount = 0)
    (w : σ) :
    (0 < (i2cRxPhase P x w).2.1.rxCount ↔ (i2cRxPhase P x w).1 = none) ∧
      (i2cRxPhase P x w).2.1.retransmissionsMax = x.retransmissionsMax := by
  unfold i2cRxPhase
  simp only [hdata, hlen, Nat.one_ne_zero, if_false]
  split
  · simp [hcount]
  · simp only [i2cGetLoop, Nat.lt_irrefl, decide_false, Bool.false_eq_true, if_false]
    split
    · simp
    · simp

/-- A read of one byte has received one when it succeeded, and only then. -/
theorem transfer_one {x : I2cSetup} {ch : List UInt8} (hrx : x.rxData = some ch) (hlen : x.rxLength = 1) (htx : x.txData = none)
    (hmax : x.retransmissionsMax = 0) (w : σ) :
    0 < (i2cMasterTransferData P x w).2.1.rxCount ↔ (i2cMasterTransferData P x w).1 = true := by
  obtain ⟨r, c, w', hpass, hcount, hc⟩ : ∃ r c w',
      i2cPass P { x with txCount := 0, rxCount := 0, status := 0, retransmissionsCount := 0 } w = (r, c, w') ∧
        (0 < c.rxCount ↔ r = none) ∧ c.retransmissionsMax = 0 := by
    rw [pass_of_receives P (x := { x with txCount := 0, rxCount := 0, status := 0, retransmissionsCount := 0 }) htx,
      startPhase_andThen]
    split
    · exact ⟨_, _, _, rfl, by simp, hmax⟩
    · have h := rxPhase_one P (x := { x with txCount := 0, rxCount := 0, status := 0, retransmissionsCount := 0 }) hrx hlen rfl
        (i2cStart P w).2
      exact ⟨_, _, _, rfl, h.1, h.2.trans hmax⟩
  obtain ⟨n, st, ht⟩ := transfer_of_pass P hmax hpass hc
  rw [ht, Option.isNone_iff_eq_none]
  exact hcount

end SaymaFirmware
