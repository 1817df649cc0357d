import SaymaFirmware.Lemmas.Boot

/-!
# The configuration the boot leaves when every call gets through

Attempts may fail anywhere, and a byte reported as failed may have been latched. As long as each call of `i2c_write` has one
acknowledged attempt among its ten, the repetitions are harmless: a switch or the expander that latches its byte twice holds the
same byte, and a clock chip takes the entry at hand again.
-/

namespace SaymaFirmware

/-- The calls of `i2c_write` that the three routines make in the boot order, address and bytes. -/
def bootWrites : List (UInt8 × List UInt8) :=
  let record : I2cWriter (List (UInt8 × List UInt8)) := fun addr buff log => log ++ [(addr, buff)]
  i2cSetSI5324Rtm record (i2cRtmPwron record (i2cSetSI5324 record []))

/-- Every call of the boot has an acknowledged attempt. -/
def EveryCallAcked (bus : BusBehaviour) : Prop :=
  ∀ n (h : n < bootWrites.length), ackedBy (bus n) bootWrites[n].2.length

namespace ConfigurationAux

theorem bootWrites_length : bootWrites.length = 96 := by decide +kernel

/-- Every call of the boot writes at least one byte. -/
theorem one_le_bytes : ∀ n (h : n < bootWrites.length), 1 ≤ bootWrites[n].2.length := by decide +kernel

/-- Calls 1 to 43 and 51 to 93 write a register and its value. -/
theorem table_bytes : ∀ n (h : n < bootWrites.length), (1 ≤ n ∧ n < 44) ∨ (51 ≤ n ∧ n < 94) →
    bootWrites[n].2.length = 2 := by decide +kernel

variable {bus : BusBehaviour}

theorem latched (h : EveryCallAcked bus) (n : Nat) (hn : n < 96) : latchedBy (bus n) := by
  have hlt : n < bootWrites.length := by rw [bootWrites_length]; exact hn
  exact latchedBy_of_ackedBy (one_le_bytes n hlt) (h n hlt)

theorem acked_table (h : EveryCallAcked bus) (n : Nat) (hn : (1 ≤ n ∧ n < 44) ∨ (51 ≤ n ∧ n < 94)) :
    ackedBy (bus n) 2 := by
  have hlt : n < bootWrites.length := by rw [bootWrites_length]; omega
  rw [← table_bytes n hlt hn]
  exact h n hlt

/-- A call that latches leaves its mask. -/
theorem tcaAfter_eq (h : EveryCallAcked bus) (n : Nat) (hn : n < 96) (x old : UInt8) : tcaAfter bus n x old = x :=
  if_pos (latched h n hn)

theorem amcMask_eq (h : EveryCallAcked bus) : amcMask bus = 16 := tcaAfter_eq h 0 (by decide) 16 0

theorem rtmMask_eq (h : EveryCallAcked bus) : rtmMask bus = 128 := tcaAfter_eq h 49 (by decide) 128 _

theorem tcaRtmAfter_eq (h : EveryCallAcked bus) (n : Nat) (hn : n < 96) (x old : UInt8) :
    tcaRtmAfter bus n 128 x old = x :=
  if_pos ⟨by decide, latched h n hn⟩

end ConfigurationAux

open ConfigurationAux in
/-- When every call has an acknowledged attempt, the boot writes exactly `InitTable` to the AMC's chip and exactly `InitTable_RTM`
to the RTM's, each entry once or more in its place, leaves the second value in the IO expander, and both switches deselected. -/
theorem boot_configures (bus : BusBehaviour) (h : EveryCallAcked bus) :
    Stutter initTable (afterRtm bus).dev.amc.entries ∧ Stutter initTableRtm (afterRtm bus).dev.rtm.entries ∧
    (afterRtm bus).dev.expander = some pwronSecond ∧ (afterRtm bus).dev.tca = 0 ∧ (afterRtm bus).dev.tcaRtm = 0 := by
  obtain ⟨m, hw, -, -, -, -, hs⟩ := afterAmc_board bus
  obtain ⟨hamc, hrtm, hexp, -, -, -⟩ := afterPwron_board bus
  obtain ⟨m', hw', htca, htcaRtm, -, hs'⟩ := afterRtm_board bus
  have hinner : rtmInnerMask bus = 32 := by
    rw [rtmInnerMask, rtmMask_eq h]; exact tcaRtmAfter_eq h 50 (by decide) 32 0
  rw [amcMask_eq h] at hw
  rw [rtmMask_eq h, hinner] at hw'
  refine ⟨?_, ?_, ?_, ?_, ?_⟩
  · -- the AMC's chip: the first table, and nothing at the second, whose masks do not connect it
    have hamc' : (afterRtm bus).dev.amc.entries = m := by
      rw [hw'.amc, hamc, hw.amc]
      exact List.append_nil _
    rw [hamc']
    exact hs fun i hi => acked_table h (1 + i) (Or.inl ⟨by omega, by omega⟩)
  · have hrtm' : (afterRtm bus).dev.rtm.entries = m' := by
      rw [hw'.rtm, hrtm, hw.rtm]
      rfl
    rw [hrtm']
    exact hs' fun i hi => acked_table h (51 + i) (Or.inr ⟨by omega, by omega⟩)
  · rw [hw'.expander, hexp, tcaAfter_eq h 45 (by decide)]
    exact if_pos ⟨by decide, latched h 47 (by decide)⟩
  · rw [htca]; exact tcaAfter_eq h 95 (by decide) 0 _
  · rw [htcaRtm, rtmMask_eq h]; exact tcaRtmAfter_eq h 94 (by decide) 0 _

/-- A bus on which the first nine attempts of every call fail, at places that change from call to call, and the tenth gets through. -/
def flakyBus : BusBehaviour := fun call attempt =>
  if attempt = 9 then .none
  else match (call + attempt) % 5 with
    | 0 => .start
    | 1 => .address
    | 2 => .data 0 true
    | 3 => .data 1 false
    | _ => .data 1 true

/-- It is configured all the same. -/
theorem flakyBus_configured :
    EveryCallAcked flakyBus ∧ Stutter initTable (afterRtm flakyBus).dev.amc.entries ∧
    Stutter initTableRtm (afterRtm flakyBus).dev.rtm.entries ∧ (afterRtm flakyBus).dev.expander = some pwronSecond ∧
    (afterRtm flakyBus).dev.tca = 0 ∧ (afterRtm flakyBus).dev.tcaRtm = 0 :=
  have h : EveryCallAcked flakyBus := fun _ _ => ⟨9, by decide, rfl⟩
  ⟨h, boot_configures flakyBus h⟩

end SaymaFirmware
