import SaymaFirmware.Lib.Log
import SaymaFirmware.Lemmas.Boot

/-!
# Calibrating a half-written clock chip

The last entry of both register tables, register 136, starts the calibration of the Si5324. The configuration routines drop the result
of `i2c_write`, so the loop over a table goes on to its last entry when an earlier one has been given up.
-/

namespace SaymaFirmware

/-- The two configuration routines. -/
inductive ClockRoutine where
  | amc
  | rtm
deriving DecidableEq, Repr

namespace ClockRoutine

/-- `i2c_setSI5324` or `i2c_setSI5324_RTM`. -/
def run {σ : Type} (r : ClockRoutine) (write : I2cWriter σ) (s : σ) : σ :=
  match r with
  | amc => i2cSetSI5324 write s
  | rtm => i2cSetSI5324Rtm write s

/-- `InitTable` or `InitTable_RTM`. -/
def table : ClockRoutine → List SI324Info
  | amc => initTable
  | rtm => initTableRtm

/-- The calls a routine makes before it writes its table: one for each switch on the way to the chip. -/
def selects : ClockRoutine → Nat
  | amc => 1
  | rtm => 2

/-- A clock chip is on the bus while the routine writes its table: its selection arrives, or a chip was on the bus before and stays
there. -/
def Reaches (r : ClockRoutine) (bus : BusBehaviour) (b : Board) : Prop :=
  match r with
  | amc => latchedBy (bus b.call) ∨ b.dev.amcOn = true ∨ b.dev.rtmClockOn = true
  | rtm => (¬ latchedBy (bus b.call) ∧ b.dev.amcOn = true) ∨
      ((latchedBy (bus b.call) ∨ b.dev.rtmOn = true) ∧ (latchedBy (bus (b.call + 1)) ∨ connects b.dev.tcaRtm 5 = true))

/-- The call for entry `i` of the table has an acknowledged attempt. -/
def EntryAcked (r : ClockRoutine) (bus : BusBehaviour) (b : Board) (i : Nat) : Prop := ackedBy (bus (b.call + r.selects + i)) 2

end ClockRoutine

/-- The register writes a chip has latched since. -/
def ClockChip.since (c c' : ClockChip) : List RegWrite := c'.writes.drop c.writes.length

/-- When the last entry of the table is acknowledged, every other one was acknowledged before. -/
def CalibratedLast (table : List SI324Info) (ws : List RegWrite) : Prop :=
  EachEntry (fun pre w => w.acked = true → table.getLast? = some w.entry → ∀ e ∈ table.dropLast, ⟨e, true⟩ ∈ pre) ws

/-- Neither chip is calibrated half-written in a run of the routine from this board. -/
def NoHalfWritten (r : ClockRoutine) (bus : BusBehaviour) (b : Board) : Prop :=
  CalibratedLast r.table (b.dev.amc.since (r.run (Board.write bus) b).dev.amc) ∧
    CalibratedLast r.table (b.dev.rtm.since (r.run (Board.write bus) b).dev.rtm)

namespace CalibrationAux

variable {bus : BusBehaviour} {c : Nat} {table : List SI324Info} {ws : List RegWrite}

/-- Only entries of the table are written. -/
theorem entry_mem (h : TableCalls bus c table ws) : ∀ w ∈ ws, w.entry ∈ table := by
  induction h with
  | nil c => exact fun w hw => nomatch hw
  | @cons c e table ws ws' hof _ ih =>
    intro w hw
    rcases List.mem_append.mp hw with hw | hw
    · rw [hof.entry w hw]
      exact List.mem_cons_self
    · exact List.mem_cons_of_mem e (ih w hw)

/-- A table in two parts. -/
theorem split {t₁ t₂ : List SI324Info} (h : TableCalls bus c (t₁ ++ t₂) ws) :
    ∃ ws₁ ws₂, ws = ws₁ ++ ws₂ ∧ TableCalls bus c t₁ ws₁ ∧ TableCalls bus (c + t₁.length) t₂ ws₂ := by
  induction t₁ generalizing c ws with
  | nil => exact ⟨[], ws, rfl, TableCalls.nil c, h⟩
  | cons e t₁ ih =>
    cases h with
    | @cons _ _ _ w w' hof htail =>
      obtain ⟨ws₁, ws₂, rfl, h₁, h₂⟩ := ih htail
      refine ⟨w ++ ws₁, ws₂, (List.append_assoc _ _ _).symm, TableCalls.cons hof h₁, ?_⟩
      rwa [List.length_cons, ← Nat.add_assoc, Nat.add_right_comm]

/-- An entry that occurs once in the table has an acknowledged write when its call has an acknowledged attempt, and only then. -/
theorem acked_iff (h : TableCalls bus c table ws) (hnodup : table.Nodup) {i : Nat} {e : SI324Info} (hi : table[i]? = some e) :
    ⟨e, true⟩ ∈ ws ↔ ackedBy (bus (c + i)) 2 := by
  induction h generalizing i with
  | nil c => exact nomatch hi
  | @cons c e' table ws ws' hof htail ih =>
    obtain ⟨hnot, hnodup⟩ := List.nodup_cons.mp hnodup
    cases i with
    | zero =>
      obtain rfl : e' = e := Option.some.inj hi
      have hws' : ⟨e', true⟩ ∉ ws' := fun hmem => hnot (entry_mem htail _ hmem)
      rw [List.mem_append, or_iff_left hws', hof.acked, Nat.add_zero]
    | succ i =>
      have hne : ⟨e, true⟩ ∉ ws := by
        intro hmem
        have := hof.entry _ hmem
        exact hnot (this ▸ List.mem_of_getElem? hi)
      rw [List.mem_append, or_iff_right hne, ih hnodup hi, Nat.add_right_comm, Nat.add_assoc]

/-- What stands before an item that the first list does not hold includes the first list. -/
theorem subset_of_append_eq {α : Type} {l₁ l₂ pre post : List α} {x : α} (h : l₁ ++ l₂ = pre ++ x :: post) (hx : x ∉ l₁) :
    l₁ ⊆ pre := by
  rcases List.append_eq_append_iff.mp h with ⟨mid, hpre, -⟩ | ⟨mid, hl₁, hmid⟩
  · rw [hpre]
    exact List.subset_append_left l₁ mid
  · cases mid with
    | nil => rw [hl₁, List.append_nil]; exact fun _ hy => hy
    | cons y mid =>
      obtain ⟨rfl, -⟩ := List.cons.inj hmid
      exact absurd (by rw [hl₁]; simp) hx

/-- The register writes of a table are right when, if the last call has an acknowledged attempt, every other call has one. -/
theorem calibratedLast_iff {last : SI324Info} (h : TableCalls bus c (table ++ [last]) ws) (hnodup : (table ++ [last]).Nodup) :
    CalibratedLast (table ++ [last]) ws ↔
      (ackedBy (bus (c + table.length)) 2 → ∀ i < table.length, ackedBy (bus (c + i)) 2) := by
  obtain ⟨ws₁, ws₂, rfl, h₁, h₂⟩ := split h
  have hlast : last ∉ table := fun hmem => (List.nodup_append.mp hnodup).2.2 last hmem last (List.mem_singleton.mpr rfl) rfl
  have hnot₁ : ⟨last, true⟩ ∉ ws₁ := fun hmem => hlast (entry_mem h₁ _ hmem)
  have hlastAcked : ⟨last, true⟩ ∈ ws₂ ↔ ackedBy (bus (c + table.length)) 2 :=
    acked_iff h₂ (List.nodup_append.mp hnodup).2.1 (i := 0) rfl
  have hacked : ∀ {i e}, table[i]? = some e → (⟨e, true⟩ ∈ ws₁ ↔ ackedBy (bus (c + i)) 2) :=
    acked_iff h₁ (List.nodup_append.mp hnodup).1
  simp only [CalibratedLast, List.getLast?_concat, List.dropLast_concat]
  constructor
  · intro hcal hack i hi
    obtain ⟨p, q, hpq⟩ := List.append_of_mem (hlastAcked.mpr hack)
    have hmem := hcal (ws₁ ++ p) ⟨last, true⟩ q (by rw [hpq, List.append_assoc]) rfl rfl (table.get ⟨i, hi⟩) (List.get_mem _ _)
    refine (hacked (List.getElem?_eq_getElem hi)).mp ((List.mem_append.mp hmem).resolve_right fun hp => ?_)
    -- the calls before the last have other entries
    have hentry := entry_mem h₂ _ (by rw [hpq]; exact List.mem_append_left _ hp)
    exact hlast (List.mem_singleton.mp hentry ▸ List.get_mem _ _)
  · rintro hall pre ⟨w, -⟩ post hws rfl hw e he
    obtain rfl : last = w := Option.some.inj hw
    have hmem : ⟨last, true⟩ ∈ ws₁ ++ ws₂ := by rw [hws]; simp
    have hack := hlastAcked.mp ((List.mem_append.mp hmem).resolve_left hnot₁)
    obtain ⟨i, hi, rfl⟩ := List.getElem_of_mem he
    exact subset_of_append_eq hws hnot₁ ((hacked (List.getElem?_eq_getElem hi)).mpr (hall hack i hi))

/-- What a chip has latched since, from what it holds. -/
theorem since_of_append {c c' : ClockChip} {on : Bool} (h : c'.writes = c.writes ++ (if on then ws else [])) :
    c.since c' = if on then ws else [] := by
  rw [ClockChip.since, h, List.drop_left]

/-- A chip that is off the bus latches nothing. -/
theorem calibratedLast_ite {on : Bool} : CalibratedLast table (if on then ws else []) ↔ (on = true → CalibratedLast table ws) := by
  cases on
  · exact Iff.intro (fun _ h => nomatch h) (fun _ => EachEntry.nil)
  · exact Iff.intro (fun h _ => h) (fun h => h rfl)

/-- A run from the masks `t` and `r` at which its table is written. -/
theorem noHalfWritten_iff_masks (routine : ClockRoutine) (bus : BusBehaviour) (b : Board) {t r : UInt8} {ws : List RegWrite}
    (hlatched : TableLatched t r ws b.dev (routine.run (Board.write bus) b).dev)
    (hcalls : TableCalls bus (b.call + routine.selects) routine.table ws) :
    NoHalfWritten routine bus b ↔
      (connects t 4 = true ∨ connects t 7 = true ∧ connects r 5 = true → routine.EntryAcked bus b 42 →
        ∀ i < 42, routine.EntryAcked bus b i) := by
  have htable : ∃ init last, routine.table = init ++ [last] ∧ init.length = 42 ∧ (init ++ [last]).Nodup := by
    cases routine
    · exact ⟨initTable.dropLast, ⟨136, 0x40⟩, rfl, rfl, by decide⟩
    · exact ⟨initTableRtm.dropLast, ⟨136, 0x40⟩, rfl, rfl, by decide⟩
  obtain ⟨init, last, htab, hlen, hnodup⟩ := htable
  rw [htab] at hcalls
  have hiff := calibratedLast_iff hcalls hnodup
  rw [hlen] at hiff
  rw [NoHalfWritten, since_of_append hlatched.amcWrites, since_of_append hlatched.rtmWrites, calibratedLast_ite,
    calibratedLast_ite, htab, hiff, Bool.and_eq_true, or_imp]
  rfl

/-- The masks at which the AMC's table is written connect a chip when the routine reaches one. -/
theorem reaches_amc (bus : BusBehaviour) (b : Board) :
    ClockRoutine.amc.Reaches bus b ↔ connects (tcaAfter bus b.call 16 b.dev.tca) 4 = true ∨
      connects (tcaAfter bus b.call 16 b.dev.tca) 7 = true ∧ connects b.dev.tcaRtm 5 = true := by
  have h4 : connects 16 4 = true := by decide
  by_cases hl : latchedBy (bus b.call)
  · simp [ClockRoutine.Reaches, tcaAfter, hl, h4]
  · simp [ClockRoutine.Reaches, tcaAfter, hl, Devices.amcOn, Devices.rtmClockOn, Devices.rtmOn]

/-- So for the RTM's table. -/
theorem reaches_rtm (bus : BusBehaviour) (b : Board) :
    ClockRoutine.rtm.Reaches bus b ↔ connects (tcaAfter bus b.call 128 b.dev.tca) 4 = true ∨
      connects (tcaAfter bus b.call 128 b.dev.tca) 7 = true ∧
        connects (tcaRtmAfter bus (b.call + 1) (tcaAfter bus b.call 128 b.dev.tca) 32 b.dev.tcaRtm) 5 = true := by
  have h4 : connects 128 4 = false := by decide
  have h7 : connects 128 7 = true := by decide
  have h5 : connects 32 5 = true := by decide
  by_cases hl : latchedBy (bus b.call) <;> by_cases hr : latchedBy (bus (b.call + 1))
  · simp [ClockRoutine.Reaches, tcaAfter, tcaRtmAfter, hl, hr, h4, h7, h5]
  · simp [ClockRoutine.Reaches, tcaAfter, tcaRtmAfter, hl, hr, h4, h7]
  · cases h : connects b.dev.tca 7 <;>
      simp [ClockRoutine.Reaches, tcaAfter, tcaRtmAfter, hl, hr, h, h5, Devices.amcOn, Devices.rtmOn]
  · simp [ClockRoutine.Reaches, tcaAfter, tcaRtmAfter, hl, hr, Devices.amcOn, Devices.rtmOn]

end CalibrationAux

open CalibrationAux in
/-- No chip is calibrated half-written exactly when no clock chip is on the bus while the table is written, or the call for the last
entry has no acknowledged attempt, or every call for another entry has one. -/
theorem no_half_written_iff (routine : ClockRoutine) (bus : BusBehaviour) (b : Board) :
    NoHalfWritten routine bus b ↔
      ¬ routine.Reaches bus b ∨ ¬ routine.EntryAcked bus b 42 ∨ ∀ i < 42, routine.EntryAcked bus b i := by
  have hreach : NoHalfWritten routine bus b ↔
      (routine.Reaches bus b → routine.EntryAcked bus b 42 → ∀ i < 42, routine.EntryAcked bus b i) := by
    cases routine with
    | amc =>
      obtain ⟨t, ws, b', rfl, rfl, hlatched, -, -, -, -, hcalls⟩ := setSI5324_board bus b
      rw [reaches_amc]
      exact noHalfWritten_iff_masks .amc bus b hlatched hcalls
    | rtm =>
      obtain ⟨t, r, ws, b', rfl, rfl, rfl, hlatched, -, -, -, hcalls⟩ := setSI5324Rtm_board bus b
      rw [reaches_rtm]
      exact noHalfWritten_iff_masks .rtm bus b hlatched hcalls
  rw [hreach]
  tauto

/-- Every attempt of call 1, the first table entry, is refused at the address; every other attempt is acknowledged. -/
def firstEntryRefused : BusBehaviour := fun call _ => if call = 1 then .address else .none

/-- Then the AMC's chip is calibrated without its register 0. -/
theorem half_written_firstEntryRefused : ¬ NoHalfWritten .amc firstEntryRefused {} := by
  rintro ⟨hamc, -⟩
  have hws : ({} : ClockChip).since (i2cSetSI5324 (Board.write firstEntryRefused) {}).dev.amc =
      (initTable.drop 1).map (⟨·, true⟩) := by decide +kernel
  have hmem := hamc (((initTable.drop 1).dropLast).map (⟨·, true⟩)) ⟨⟨136, 0x40⟩, true⟩ [] hws rfl rfl ⟨0, 0x34⟩ (by decide)
  exact absurd hmem (by decide)

end SaymaFirmware
