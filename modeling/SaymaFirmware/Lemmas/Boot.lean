import SaymaFirmware.Lib.Stutter
import SaymaFirmware.Lemmas.BoardWrite

/-!
# The boot sequence call by call

Each call of `i2c_write` that the three configuration routines make, and from these the board after each routine. Calls are
numbered from zero in the order in which `main` makes them: call 0 selects the AMC's branch, calls 1 to 43 write `InitTable`,
call 44 deselects; calls 45 to 48 are those of `i2c_RTM_PWRON`; calls 49 and 50 select the two branches to the RTM's chip, calls
51 to 93 write `InitTable_RTM`, calls 94 and 95 deselect.
-/

namespace SaymaFirmware

/-! ## One call -/

/-- A call to a device that holds one byte. -/
theorem write_tca (bus : BusBehaviour) (x : UInt8) (b : Board) :
    (Board.write bus tcaAddr [x] b).dev = (if latchedBy (bus b.call) then { b.dev with tca := x } else b.dev) ∧
    (Board.write bus tcaAddr [x] b).call = b.call + 1 ∧
    (Board.write bus tcaAddr [x] b).issued = b.issued ++ [⟨tcaAddr, b.dev.tca, b.dev.tcaRtm⟩] := by
  rw [← tca_attempts]
  exact board_write bus _ _ (by decide) (by simp) (by simp) b

theorem write_tcaRtm (bus : BusBehaviour) (x : UInt8) (b : Board) :
    (Board.write bus tcaRtmAddr [x] b).dev =
      (if b.dev.rtmOn = true ∧ latchedBy (bus b.call) then { b.dev with tcaRtm := x } else b.dev) ∧
    (Board.write bus tcaRtmAddr [x] b).call = b.call + 1 ∧
    (Board.write bus tcaRtmAddr [x] b).issued = b.issued ++ [⟨tcaRtmAddr, b.dev.tca, b.dev.tcaRtm⟩] := by
  rw [← tcaRtm_attempts]
  exact board_write bus _ _ (by decide) (by simp) (by simp) b

theorem write_ioExpander (bus : BusBehaviour) (x : UInt8) (b : Board) :
    (Board.write bus ioExpanderAddr [x] b).dev =
      (if b.dev.rtmOn = true ∧ latchedBy (bus b.call) then { b.dev with expander := some x } else b.dev) ∧
    (Board.write bus ioExpanderAddr [x] b).call = b.call + 1 ∧
    (Board.write bus ioExpanderAddr [x] b).issued = b.issued ++ [⟨ioExpanderAddr, b.dev.tca, b.dev.tcaRtm⟩] := by
  rw [← ioExpander_attempts]
  exact board_write bus _ _ (by decide) (by simp) (by simp) b

/-- Some of the first ten attempts are acknowledged to the end of `len` bytes. -/
def ackedBy (faults : Nat → Fault) (len : Nat) : Prop := ∃ a < i2cRetryCount, (faults a).acks len = true

instance (faults : Nat → Fault) (len : Nat) : Decidable (ackedBy faults len) := inferInstanceAs (Decidable (∃ a < _, _))

/-- A call with an acknowledged attempt latches its first byte. -/
theorem latchedBy_of_ackedBy {faults : Nat → Fault} {len : Nat} (hlen : 1 ≤ len) (h : ackedBy faults len) :
    latchedBy faults := by
  obtain ⟨a, ha, hf⟩ := h
  exact ⟨a, ha, Fault.latches_of_acks (Fault.acks_mono hlen hf)⟩

/-- The register writes that the calls for a table make, the first of them number `c`: each call some writes of its entry, with an
acknowledged one exactly when one of its attempts is acknowledged. -/
inductive TableCalls (bus : BusBehaviour) : Nat → List SI324Info → List RegWrite → Prop where
  | nil (c : Nat) : TableCalls bus c [] []
  | cons {c : Nat} {e : SI324Info} {table : List SI324Info} {ws ws' : List RegWrite} :
    WritesOf e (ackedBy (bus c) 2) ws → TableCalls bus (c + 1) table ws' → TableCalls bus c (e :: table) (ws ++ ws')

/-- When every call has an acknowledged attempt, the table's entries are written in their order. -/
theorem TableCalls.stutter {bus : BusBehaviour} {c : Nat} {table : List SI324Info} {ws : List RegWrite}
    (h : TableCalls bus c table ws) (hack : ∀ i < table.length, ackedBy (bus (c + i)) 2) :
    Stutter table (ws.map RegWrite.entry) := by
  induction h with
  | nil c => exact Stutter.nil
  | @cons c e table ws ws' hof _ ih =>
    have hmap : ws.map RegWrite.entry = List.replicate ws.length e :=
      List.eq_replicate_iff.mpr ⟨List.length_map _, by simpa using fun w hw => hof.entry w hw⟩
    have hmem := hof.acked.mpr (hack 0 (by simp))
    rw [List.map_append, hmap]
    refine (ih ?_).cons_replicate e (List.length_pos_of_mem hmem)
    intro i hi
    rw [Nat.add_right_comm, Nat.add_assoc]
    exact hack (i + 1) (by simpa using hi)

/-- The loop over a register table: each clock chip on the bus latches the same register writes. -/
theorem writeTable_board (bus : BusBehaviour) (table : List SI324Info) :
    ∀ b : Board, ∃ ws, ClockLatches ws b.dev (writeTable (Board.write bus) table b).dev ∧
      (writeTable (Board.write bus) table b).call = b.call + table.length ∧
      (writeTable (Board.write bus) table b).issued =
        b.issued ++ List.replicate table.length ⟨iicSlaveAddr, b.dev.tca, b.dev.tcaRtm⟩ ∧
      TableCalls bus b.call table ws := by
  induction table with
  | nil => intro b; exact ⟨[], ClockLatches.refl _, rfl, by simp [writeTable], TableCalls.nil b.call⟩
  | cons e table ih =>
    intro b
    obtain ⟨hd, hc, hi⟩ := board_write bus iicSlaveAddr e.bytes (by decide) (by simp [SI324Info.bytes])
      (by simp [SI324Info.bytes]) b
    obtain ⟨ws, hws, hof⟩ := clock_attempts (bus b.call) e i2cRetryCount 0 b.dev
    obtain ⟨ws', hws', hmc, hmi, hcalls⟩ := ih (Board.write bus iicSlaveAddr e.bytes b)
    rw [← hd] at hws
    rw [hc] at hcalls
    refine ⟨ws ++ ws', hws.trans hws', ?_, ?_, TableCalls.cons (by simpa only [Nat.zero_add, ackedBy] using hof) hcalls⟩
    · exact hmc.trans (by rw [hc, List.length_cons, Nat.add_right_comm, Nat.add_assoc])
    · refine hmi.trans ?_
      rw [hi, hws.tca, hws.tcaRtm, List.length_cons, List.replicate_succ, List.append_assoc, List.singleton_append]

/-! ## The three routines -/

/-- The AMC's mask after a call that writes `x` to its switch. -/
def tcaAfter (bus : BusBehaviour) (call : Nat) (x old : UInt8) : UInt8 := if latchedBy (bus call) then x else old

theorem write_tca_dev (bus : BusBehaviour) (x : UInt8) (b : Board) :
    (Board.write bus tcaAddr [x] b).dev =
      ⟨tcaAfter bus b.call x b.dev.tca, b.dev.tcaRtm, b.dev.amc, b.dev.rtm, b.dev.expander⟩ := by
  rw [(write_tca bus x b).1, tcaAfter]
  split <;> rfl

/-- The RTM's mask after a call that writes `x` to its switch while the AMC's mask is `tca`. -/
def tcaRtmAfter (bus : BusBehaviour) (call : Nat) (tca x old : UInt8) : UInt8 :=
  if connects tca 7 = true ∧ latchedBy (bus call) then x else old

theorem write_tcaRtm_dev (bus : BusBehaviour) (x : UInt8) (b : Board) :
    (Board.write bus tcaRtmAddr [x] b).dev =
      ⟨b.dev.tca, tcaRtmAfter bus b.call b.dev.tca x b.dev.tcaRtm, b.dev.amc, b.dev.rtm, b.dev.expander⟩ := by
  rw [(write_tcaRtm bus x b).1, tcaRtmAfter, Devices.rtmOn]
  split <;> rfl

/-- What the IO expander holds after a call that writes `x` to it. -/
def expanderAfter (bus : BusBehaviour) (call : Nat) (tca x : UInt8) (old : Option UInt8) : Option UInt8 :=
  if connects tca 7 = true ∧ latchedBy (bus call) then some x else old

theorem write_ioExpander_dev (bus : BusBehaviour) (x : UInt8) (b : Board) :
    (Board.write bus ioExpanderAddr [x] b).dev =
      ⟨b.dev.tca, b.dev.tcaRtm, b.dev.amc, b.dev.rtm, expanderAfter bus b.call b.dev.tca x b.dev.expander⟩ := by
  rw [(write_ioExpander bus x b).1, expanderAfter, Devices.rtmOn]
  split <;> rfl

/-- What a configuration routine does to the clock chips and the expander when its table is written at the masks `t` and `r`: every
chip that these connect latches `m`. -/
structure TableWritten (t r : UInt8) (m : List SI324Info) (d d' : Devices) : Prop where
  amc : d'.amc.entries = d.amc.entries ++ (if connects t 4 then m else [])
  rtm : d'.rtm.entries = d.rtm.entries ++ (if connects t 7 && connects r 5 then m else [])
  expander : d'.expander = d.expander

/-- The same with the acknowledgements of the register writes. -/
structure TableLatched (t r : UInt8) (ws : List RegWrite) (d d' : Devices) : Prop
    extends TableWritten t r (ws.map RegWrite.entry) d d' where
  amcWrites : d'.amc.writes = d.amc.writes ++ (if connects t 4 then ws else [])
  rtmWrites : d'.rtm.writes = d.rtm.writes ++ (if connects t 7 && connects r 5 then ws else [])

/-- `i2c_setSI5324` from any board: the table is written at the mask `t` that its first call leaves. -/
theorem setSI5324_board (bus : BusBehaviour) (b : Board) :
    ∃ t ws b', t = tcaAfter bus b.call 16 b.dev.tca ∧ b' = i2cSetSI5324 (Board.write bus) b ∧
      TableLatched t b.dev.tcaRtm ws b.dev b'.dev ∧
      b'.dev.tca = tcaAfter bus (b.call + 44) 0 t ∧ b'.dev.tcaRtm = b.dev.tcaRtm ∧ b'.call = b.call + 45 ∧
      b'.issued = b.issued ++ (⟨tcaAddr, b.dev.tca, b.dev.tcaRtm⟩ ::
        List.replicate 43 ⟨iicSlaveAddr, t, b.dev.tcaRtm⟩ ++ [⟨tcaAddr, t, b.dev.tcaRtm⟩]) ∧
      TableCalls bus (b.call + 1) initTable ws := by
  obtain ⟨-, hc₁, hi₁⟩ := write_tca bus 16 b
  have hd₁ := write_tca_dev bus 16 b
  generalize hb₁ : Board.write bus tcaAddr [16] b = b₁ at hc₁ hi₁ hd₁
  obtain ⟨ws, hm, hc₂, hi₂, hs⟩ := writeTable_board bus initTable b₁
  generalize hb₂ : writeTable (Board.write bus) initTable b₁ = b₂ at hm hc₂ hi₂
  obtain ⟨-, hc₃, hi₃⟩ := write_tca bus 0 b₂
  have hd₃ := write_tca_dev bus 0 b₂
  have hc₂' : b₂.call = b.call + 44 := by rw [hc₂, hc₁]; rfl
  have ht : b₂.dev.tca = tcaAfter bus b.call 16 b.dev.tca := by rw [hm.tca, hd₁]
  have hr : b₂.dev.tcaRtm = b.dev.tcaRtm := by rw [hm.tcaRtm, hd₁]
  refine ⟨_, ws, Board.write bus tcaAddr [0] b₂, rfl, by simp only [i2cSetSI5324, hb₁, hb₂], ⟨⟨?_, ?_, ?_⟩, ?_, ?_⟩,
    ?_, ?_, ?_, ?_, ?_⟩
  · rw [hd₃, hm.amc, hd₁]; rfl
  · rw [hd₃, hm.rtm, hd₁]; rfl
  · rw [hd₃, hm.expander, hd₁]
  · rw [hd₃, hm.amcWrites, hd₁]; rfl
  · rw [hd₃, hm.rtmWrites, hd₁]; rfl
  · rw [hd₃, hc₂', ht]
  · rw [hd₃, hr]
  · rw [hc₃, hc₂']
  · rw [hi₃, hi₂, hi₁, ht, hr, hd₁]
    simp [initTable]
  · rw [← hc₁]; exact hs

/-- `i2c_RTM_PWRON` from any board: the expander is written at the mask `t` that its first call leaves, and no clock chip is
written. -/
theorem rtmPwron_board (bus : BusBehaviour) (b : Board) :
    ∃ t b', t = tcaAfter bus b.call 128 b.dev.tca ∧ b' = i2cRtmPwron (Board.write bus) b ∧
      b'.dev.amc = b.dev.amc ∧ b'.dev.rtm = b.dev.rtm ∧
      b'.dev.expander = expanderAfter bus (b.call + 2) t pwronSecond
        (expanderAfter bus (b.call + 1) t pwronFirst b.dev.expander) ∧
      b'.dev.tca = tcaAfter bus (b.call + 3) 0 t ∧ b'.dev.tcaRtm = b.dev.tcaRtm ∧ b'.call = b.call + 4 := by
  obtain ⟨-, hc₁, -⟩ := write_tca bus 128 b
  have hd₁ := write_tca_dev bus 128 b
  generalize hb₁ : Board.write bus tcaAddr [128] b = b₁ at hc₁ hd₁
  obtain ⟨-, hc₂, -⟩ := write_ioExpander bus pwronFirst b₁
  have hd₂ := write_ioExpander_dev bus pwronFirst b₁
  generalize hb₂ : Board.write bus ioExpanderAddr [pwronFirst] b₁ = b₂ at hc₂ hd₂
  obtain ⟨-, hc₃, -⟩ := write_ioExpander bus pwronSecond b₂
  have hd₃ := write_ioExpander_dev bus pwronSecond b₂
  generalize hb₃ : Board.write bus ioExpanderAddr [pwronSecond] b₂ = b₃ at hc₃ hd₃
  obtain ⟨-, hc₄, -⟩ := write_tca bus 0 b₃
  have hd₄ := write_tca_dev bus 0 b₃
  refine ⟨_, Board.write bus tcaAddr [0] b₃, rfl, by simp only [i2cRtmPwron, hb₁, hb₂, hb₃], ?_⟩
  simp only [hd₄, hc₄, hd₃, hc₃, hd₂, hc₂, hd₁, hc₁, and_self]

/-- `i2c_setSI5324_RTM` from any board: the table is written at the masks `t` and `r` that its first two calls leave. -/
theorem setSI5324Rtm_board (bus : BusBehaviour) (b : Board) :
    ∃ t r ws b', t = tcaAfter bus b.call 128 b.dev.tca ∧ r = tcaRtmAfter bus (b.call + 1) t 32 b.dev.tcaRtm ∧
      b' = i2cSetSI5324Rtm (Board.write bus) b ∧ TableLatched t r ws b.dev b'.dev ∧
      b'.dev.tcaRtm = tcaRtmAfter bus (b.call + 45) t 0 r ∧ b'.dev.tca = tcaAfter bus (b.call + 46) 0 t ∧
      b'.issued = b.issued ++ ([⟨tcaAddr, b.dev.tca, b.dev.tcaRtm⟩, ⟨tcaRtmAddr, t, b.dev.tcaRtm⟩] ++
        List.replicate 43 ⟨iicSlaveAddr, t, r⟩ ++ [⟨tcaRtmAddr, t, r⟩, ⟨tcaAddr, t, b'.dev.tcaRtm⟩]) ∧
      TableCalls bus (b.call + 2) initTableRtm ws := by
  obtain ⟨-, hc₁, hi₁⟩ := write_tca bus 128 b
  have hd₁ := write_tca_dev bus 128 b
  generalize hb₁ : Board.write bus tcaAddr [128] b = b₁ at hc₁ hi₁ hd₁
  obtain ⟨-, hc₂, hi₂⟩ := write_tcaRtm bus 32 b₁
  have hd₂ := write_tcaRtm_dev bus 32 b₁
  generalize hb₂ : Board.write bus tcaRtmAddr [32] b₁ = b₂ at hc₂ hi₂ hd₂
  obtain ⟨ws, hm, hc₃, hi₃, hs⟩ := writeTable_board bus initTableRtm b₂
  generalize hb₃ : writeTable (Board.write bus) initTableRtm b₂ = b₃ at hm hc₃ hi₃
  obtain ⟨-, hc₄, hi₄⟩ := write_tcaRtm bus 0 b₃
  have hd₄ := write_tcaRtm_dev bus 0 b₃
  generalize hb₄ : Board.write bus tcaRtmAddr [0] b₃ = b₄ at hc₄ hi₄ hd₄
  obtain ⟨-, -, hi₅⟩ := write_tca bus 0 b₄
  have hd₅ := write_tca_dev bus 0 b₄
  have hc₂' : b₂.call = b.call + 2 := by rw [hc₂, hc₁]
  have hc₃' : b₃.call = b.call + 45 := by rw [hc₃, hc₂']; rfl
  have ht : b₃.dev.tca = tcaAfter bus b.call 128 b.dev.tca := by rw [hm.tca, hd₂, hd₁]
  have hr : b₃.dev.tcaRtm = tcaRtmAfter bus (b.call + 1) (tcaAfter bus b.call 128 b.dev.tca) 32 b.dev.tcaRtm := by
    rw [hm.tcaRtm, hd₂, hc₁, hd₁]
  refine ⟨_, _, ws, Board.write bus tcaAddr [0] b₄, rfl, rfl, by simp only [i2cSetSI5324Rtm, hb₁, hb₂, hb₃, hb₄],
    ⟨⟨?_, ?_, ?_⟩, ?_, ?_⟩, ?_, ?_, ?_, ?_⟩
  · rw [hd₅, hd₄, hm.amc, hd₂, hd₁]; rfl
  · rw [hd₅, hd₄, hm.rtm, hd₂, hc₁, hd₁]; rfl
  · rw [hd₅, hd₄, hm.expander, hd₂, hd₁]
  · rw [hd₅, hd₄, hm.amcWrites, hd₂, hd₁]; rfl
  · rw [hd₅, hd₄, hm.rtmWrites, hd₂, hc₁, hd₁]; rfl
  · rw [hd₅, hd₄, hc₃', ht, hr]
  · rw [hd₅, hc₄, hc₃', hd₄, ht]
  · rw [hi₅, hi₄, hi₃, hi₂, hi₁, hd₅, hd₄, ht, hr, hd₂, hc₁, hd₁]
    simp [initTableRtm]
  · rw [← hc₂']; exact hs

/-! ## The boot -/

/-- The calls to the clock chips' address made between two boards. -/
def clockIssues (b b' : Board) : List Issue := (b'.issued.drop b.issued.length).filter (fun i => i.addr = iicSlaveAddr)

/-- The mask of the AMC's switch while `i2c_setSI5324` writes its table. -/
def amcMask (bus : BusBehaviour) : UInt8 := tcaAfter bus 0 16 0

/-- The mask of the AMC's switch after `i2c_RTM_PWRON`. -/
def pwronMask (bus : BusBehaviour) : UInt8 := tcaAfter bus 48 0 (tcaAfter bus 45 128 (tcaAfter bus 44 0 (amcMask bus)))

/-- The mask of the AMC's switch while `i2c_setSI5324_RTM` writes its table. -/
def rtmMask (bus : BusBehaviour) : UInt8 := tcaAfter bus 49 128 (pwronMask bus)

/-- The mask of the RTM's switch then. -/
def rtmInnerMask (bus : BusBehaviour) : UInt8 := tcaRtmAfter bus 50 (rtmMask bus) 32 0

/-- Reading the calls to a clock chip off a routine's log. -/
theorem clockIssues_of_append {b b' : Board} (pre : List Issue) {post : List Issue} {n : Nat} {i : Issue}
    (h : b'.issued = b.issued ++ (pre ++ List.replicate n i ++ post)) (hpre : ∀ j ∈ pre, j.addr ≠ iicSlaveAddr)
    (hpost : ∀ j ∈ post, j.addr ≠ iicSlaveAddr) (hi : i.addr = iicSlaveAddr) :
    clockIssues b b' = List.replicate n i := by
  have hpre' : pre.filter (fun i => decide (i.addr = iicSlaveAddr)) = [] := by
    rw [List.filter_eq_nil_iff]; intro j hj; simpa using hpre j hj
  have hpost' : post.filter (fun i => decide (i.addr = iicSlaveAddr)) = [] := by
    rw [List.filter_eq_nil_iff]; intro j hj; simpa using hpost j hj
  rw [clockIssues, h, List.drop_left, List.filter_append, List.filter_append, hpre', hpost', List.filter_replicate]
  simp [hi]

/-- The board after `i2c_setSI5324`. -/
theorem afterAmc_board (bus : BusBehaviour) :
    ∃ m, TableWritten (amcMask bus) 0 m {} (afterAmc bus).dev ∧ (afterAmc bus).call = 45 ∧
      (afterAmc bus).dev.tca = tcaAfter bus 44 0 (amcMask bus) ∧ (afterAmc bus).dev.tcaRtm = 0 ∧
      clockIssues {} (afterAmc bus) = List.replicate 43 ⟨iicSlaveAddr, amcMask bus, 0⟩ ∧
      ((∀ i < 43, ackedBy (bus (1 + i)) 2) → Stutter initTable m) := by
  obtain ⟨t, ws, b', ht, hb', hw, htca, hrtm, hc, hi, hs⟩ := setSI5324_board bus {}
  obtain rfl : b' = afterAmc bus := hb'
  obtain rfl : t = amcMask bus := ht
  refine ⟨ws.map RegWrite.entry, hw.toTableWritten, by simpa using hc, by simpa using htca, hrtm, ?_, hs.stutter⟩
  exact clockIssues_of_append [⟨tcaAddr, 0, 0⟩] hi (by simp [tcaAddr, iicSlaveAddr])
    (by simp [tcaAddr, iicSlaveAddr]) rfl

/-- The board after `i2c_RTM_PWRON`. -/
theorem afterPwron_board (bus : BusBehaviour) :
    (afterPwron bus).dev.amc = (afterAmc bus).dev.amc ∧ (afterPwron bus).dev.rtm = (afterAmc bus).dev.rtm ∧
      (afterPwron bus).dev.expander = expanderAfter bus 47 (tcaAfter bus 45 128 (tcaAfter bus 44 0 (amcMask bus))) pwronSecond
        (expanderAfter bus 46 (tcaAfter bus 45 128 (tcaAfter bus 44 0 (amcMask bus))) pwronFirst none) ∧
      (afterPwron bus).dev.tca = pwronMask bus ∧ (afterPwron bus).dev.tcaRtm = 0 ∧ (afterPwron bus).call = 49 := by
  obtain ⟨m, hw, hc, htca, hrtm, -, -⟩ := afterAmc_board bus
  obtain ⟨t, b', ht, hb', h1, h2, h3, h4, h5, h6⟩ := rtmPwron_board bus (afterAmc bus)
  obtain rfl : b' = afterPwron bus := hb'
  rw [hc, htca] at ht
  rw [hc] at h3 h4 h6
  rw [hw.expander, ht] at h3
  exact ⟨h1, h2, h3, by rw [h4, ht, pwronMask], by rw [h5, hrtm], h6⟩

/-- The board after `i2c_setSI5324_RTM`. -/
theorem afterRtm_board (bus : BusBehaviour) :
    ∃ m, TableWritten (rtmMask bus) (rtmInnerMask bus) m (afterPwron bus).dev (afterRtm bus).dev ∧
      (afterRtm bus).dev.tca = tcaAfter bus 95 0 (rtmMask bus) ∧
      (afterRtm bus).dev.tcaRtm = tcaRtmAfter bus 94 (rtmMask bus) 0 (rtmInnerMask bus) ∧
      clockIssues (afterPwron bus) (afterRtm bus) = List.replicate 43 ⟨iicSlaveAddr, rtmMask bus, rtmInnerMask bus⟩ ∧
      ((∀ i < 43, ackedBy (bus (51 + i)) 2) → Stutter initTableRtm m) := by
  obtain ⟨-, -, -, htca, hrtm, hc⟩ := afterPwron_board bus
  obtain ⟨t, r, ws, b', ht, hr, hb', hw, h1, h2, hi, hs⟩ := setSI5324Rtm_board bus (afterPwron bus)
  obtain rfl : b' = afterRtm bus := hb'
  rw [hc, htca] at ht
  obtain rfl : t = rtmMask bus := ht
  rw [hc, hrtm] at hr
  obtain rfl : r = rtmInnerMask bus := hr
  rw [hc] at h1 h2 hs
  refine ⟨ws.map RegWrite.entry, hw.toTableWritten, h2, h1, ?_, hs.stutter⟩
  exact clockIssues_of_append _ hi (by simp [tcaAddr, tcaRtmAddr, iicSlaveAddr])
    (by simp [tcaAddr, tcaRtmAddr, iicSlaveAddr]) rfl

end SaymaFirmware
