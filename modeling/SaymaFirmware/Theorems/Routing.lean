import SaymaFirmware.Lemmas.Boot

/-!
# Routing isolation of the clock configuration

Both clock chips have the address 0x68, so what keeps the two configurations apart is the state of the switches at each write. The
routines drop the result of the writes that set them. `routingIsolated_iff` says for which bus behaviours the boot keeps them apart
all the same: the calls that select a branch must latch, but for the outer select of `i2c_setSI5324_RTM`, which the one of
`i2c_RTM_PWRON` can stand in for when the deselect between them fails.
-/

namespace SaymaFirmware

/-- No chip latches an entry of the other's table, and every write to 0x68 is issued while the switches connect the branch
intended and no other. -/
structure RoutingIsolated (bus : BusBehaviour) : Prop where
  rtmChip : (afterAmc bus).dev.rtm.entries = []
  amcChip : (afterRtm bus).dev.amc.entries = (afterPwron bus).dev.amc.entries
  amcBranch : ∀ i ∈ clockIssues {} (afterAmc bus), i.tca = 16
  rtmBranch : ∀ i ∈ clockIssues (afterPwron bus) (afterRtm bus), i.tca = 128 ∧ i.tcaRtm = 32

namespace RoutingAux

theorem amcMask_eq_iff (bus : BusBehaviour) : amcMask bus = 16 ↔ latchedBy (bus 0) := by
  unfold amcMask tcaAfter
  split <;> simp_all

/-- The outer mask at the second table is the one intended when one of the two selects before it is in force. -/
theorem rtmMask_eq_iff (bus : BusBehaviour) :
    rtmMask bus = 128 ↔ latchedBy (bus 49) ∨ (latchedBy (bus 45) ∧ ¬ latchedBy (bus 48)) := by
  unfold rtmMask pwronMask amcMask tcaAfter
  by_cases h49 : latchedBy (bus 49) <;> by_cases h48 : latchedBy (bus 48) <;> by_cases h45 : latchedBy (bus 45) <;>
    by_cases h44 : latchedBy (bus 44) <;> by_cases h0 : latchedBy (bus 0) <;> simp [h49, h48, h45, h44, h0]

theorem rtmInnerMask_eq_iff {bus : BusBehaviour} (h : rtmMask bus = 128) :
    rtmInnerMask bus = 32 ↔ latchedBy (bus 50) := by
  have hon : connects 128 7 = true := by decide
  unfold rtmInnerMask tcaRtmAfter
  rw [h]
  by_cases h50 : latchedBy (bus 50) <;> simp [hon, h50]

end RoutingAux

open RoutingAux in
/-- The boot keeps the two configurations apart exactly when call 0 latches its mask, the outer mask of the RTM's branch is in force
at the second table (call 49 latched it, or call 45 did and call 48 did not undo it), and call 50 latches the inner one. -/
theorem routingIsolated_iff (bus : BusBehaviour) :
    RoutingIsolated bus ↔
      latchedBy (bus 0) ∧ (latchedBy (bus 49) ∨ (latchedBy (bus 45) ∧ ¬ latchedBy (bus 48))) ∧ latchedBy (bus 50) := by
  obtain ⟨m, hw, -, -, -, hi, -⟩ := afterAmc_board bus
  obtain ⟨m', hw', -, -, hi', -⟩ := afterRtm_board bus
  rw [← amcMask_eq_iff, ← rtmMask_eq_iff]
  constructor
  · intro h
    have h0 := h.amcBranch ⟨iicSlaveAddr, amcMask bus, 0⟩ (by rw [hi]; simp)
    obtain ⟨h1, h2⟩ := h.rtmBranch ⟨iicSlaveAddr, rtmMask bus, rtmInnerMask bus⟩ (by rw [hi']; simp)
    exact ⟨h0, h1, (rtmInnerMask_eq_iff h1).mp h2⟩
  · rintro ⟨h0, h1, h50⟩
    have h2 := (rtmInnerMask_eq_iff h1).mpr h50
    constructor
    · rw [hw.rtm, h0]; rfl
    · rw [hw'.amc, h1]; exact List.append_nil _
    · intro i hmem
      rw [hi] at hmem
      rw [List.eq_of_mem_replicate hmem]
      exact h0
    · intro i hmem
      rw [hi'] at hmem
      rw [List.eq_of_mem_replicate hmem]
      exact ⟨h1, h2⟩

/-- A bus on which every attempt of the deselect at the end of `i2c_setSI5324` and of the next three writes to the AMC's switch
fails at the START, and nothing else fails. -/
def lostDeselect : BusBehaviour := fun call _ => if call ∈ [44, 45, 48, 49] then .start else .none

/-- On it the AMC's branch stays connected and the AMC's chip takes the RTM's table as well. -/
theorem lostDeselect_not_isolated :
    ¬ RoutingIsolated lostDeselect ∧
    (afterRtm lostDeselect).dev.amc.entries = initTable ++ initTableRtm ∧ (afterRtm lostDeselect).dev.rtm.entries = [] := by
  refine ⟨?_, by decide +kernel, by decide +kernel⟩
  intro h
  have hlast := h.rtmBranch ⟨iicSlaveAddr, 16, 0⟩ (by decide +kernel)
  exact absurd hlast.1 (by decide)

end SaymaFirmware
