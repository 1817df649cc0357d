import SaymaFirmware.Lemmas.I2cRetry

/-!
# The retry contract of `i2c_write` and `i2c_read`

For every sequence of status codes and received bytes. A setup of a wrapper stays one through its attempts (`WriteSetup`,
`ReadSetup`), and each attempt is one exchange and a STOP; `contract_of_calls` does the rest.
-/

namespace SaymaFirmware

namespace RetryAux

variable {answers : Nat → I2cAnswer} {addr len : UInt8} {buff : List UInt8}

/-- The setup of `i2c_write` at any attempt. -/
structure WriteSetup (addr : UInt8) (buff : List UInt8) (len : UInt8) (x : I2cSetup) : Prop where
  slAddr7bit : x.slAddr7bit = addr
  txData : x.txData = some buff
  txLength : x.txLength = len.toNat
  rxData : x.rxData = none
  retransmissionsMax : x.retransmissionsMax = 0

/-- The setup of `i2c_read` at any attempt: the buffer is as the caller gave it behind its first `len` bytes. -/
structure ReadSetup (addr : UInt8) (buff : List UInt8) (len : UInt8) (x : I2cSetup) : Prop where
  slAddr7bit : x.slAddr7bit = addr
  txData : x.txData = none
  rxLength : x.rxLength = len.toNat
  rxData : ∃ b, x.rxData = some b ∧ b.length = buff.length ∧ b.drop len.toNat = buff.drop len.toNat
  retransmissionsMax : x.retransmissionsMax = 0

/-- The bytes to send are done when they are acknowledged. -/
theorem dataDone_write {bytes : List UInt8} :
    ∀ s ∈ bytes.map i2cDataStep, ∀ a, s.accepts a = i2cDataDone (s.op, a) := by
  intro s hs a
  obtain ⟨b, -, rfl⟩ := List.mem_map.mp hs
  simp [i2cDataStep, i2cStep, i2cDataDone]

/-- The bytes to receive are done when they come with the right code. -/
theorem dataDone_read {n : Nat} : ∀ s ∈ i2cGetPlan n, ∀ a, s.accepts a = i2cDataDone (s.op, a) := by
  induction n with
  | zero => exact fun s hs => nomatch hs
  | succ n ih =>
    intro s hs a
    rcases List.mem_cons.mp hs with rfl | hmem
    · simp [i2cGetStep, i2cStep, i2cDataDone]
    · exact ih s hmem a

/-- An attempt of `i2c_write`. -/
theorem call_write (hlen : len ≠ 0) {x : I2cSetup} (hx : WriteSetup addr buff len x) (w : I2cTrace) :
    CallOf answers (i2cWritePlan addr (buff.take len.toNat)) (i2cCall (i2cTraced answers) x w) ∧
      WriteSetup addr buff len (i2cCall (i2cTraced answers) x w).setup ∧
      (i2cCall (i2cTraced answers) x w).setup.txCount =
        Exchange.accepted answers (i2cWritePlan addr (buff.take len.toNat)) w.answered - 2 := by
  have hlen0 : len.toNat ≠ 0 := fun h => hlen (UInt8.toNat_inj.mp h)
  obtain ⟨st, hpass, hst⟩ := pass_write answers
    (x := { x with txCount := 0, rxCount := 0, status := 0, retransmissionsCount := 0 }) hx.txData hx.rxData
    (by rw [hx.txLength]; exact hlen0) w
    (show i2cWritePlan addr (buff.take len.toNat) = _ by rw [hx.slAddr7bit, hx.txLength])
  obtain ⟨n, status, ht⟩ := transfer_of_pass (i2cTraced answers) hx.retransmissionsMax hpass hx.retransmissionsMax
  unfold i2cCall
  rw [ht]
  refine ⟨⟨?_, rfl⟩, ⟨hx.slAddr7bit, hx.txData, hx.txLength, hx.rxData, hx.retransmissionsMax⟩, rfl⟩
  rw [← hst]
  exact Option.isNone_iff_eq_none

/-- An attempt of `i2c_read`. -/
theorem call_read (answers : Nat → I2cAnswer) (hlen : len ≠ 0) (hbuff : len.toNat ≤ buff.length) {x : I2cSetup}
    (hx : ReadSetup addr buff len x) (w : I2cTrace) :
    CallOf answers (i2cReadPlan addr len.toNat) (i2cCall (i2cTraced answers) x w) ∧
      ReadSetup addr buff len (i2cCall (i2cTraced answers) x w).setup ∧
      (i2cCall (i2cTraced answers) x w).setup.rxCount =
        Exchange.accepted answers (i2cReadPlan addr len.toNat) w.answered - 2 ∧
      ((i2cCall (i2cTraced answers) x w).ok = true → ∃ b, (i2cCall (i2cTraced answers) x w).setup.rxData = some b ∧
        b.take len.toNat = answeredBytes ((Exchange.run answers (i2cReadPlan addr len.toNat) w.answered).drop 2)) := by
  have hlen0 : len.toNat ≠ 0 := fun h => hlen (UInt8.toNat_inj.mp h)
  obtain ⟨b, hb, hblen, hdrop⟩ := hx.rxData
  obtain ⟨st, hpass, hst⟩ := pass_read answers
    (x := { x with txCount := 0, rxCount := 0, status := 0, retransmissionsCount := 0 }) hb hx.txData
    (by rw [hx.rxLength]; exact hlen0) (by rw [hx.rxLength]; omega) w
    (show i2cReadPlan addr len.toNat = _ by rw [hx.slAddr7bit, hx.rxLength])
  obtain ⟨n, status, ht⟩ := transfer_of_pass (i2cTraced answers) hx.retransmissionsMax hpass hx.retransmissionsMax
  have hplan : (i2cReadPlan addr len.toNat).length = len.toNat + 2 := by
    rw [i2cReadPlan, List.length_append, length_i2cGetPlan, Nat.add_comm]
    rfl
  have hacc := Exchange.accepted_le_length answers (i2cReadPlan addr len.toNat) w.answered
  have hrun := Exchange.accepted_le_length_run answers (i2cReadPlan addr len.toNat) w.answered
  generalize hk : Exchange.accepted answers (i2cReadPlan addr len.toNat) w.answered - 2 = k at *
  generalize hxs : answeredBytes ((Exchange.run answers (i2cReadPlan addr len.toNat) w.answered).drop 2) = xs at *
  have hkxs : (xs.take k).length = k := by
    rw [List.length_take, ← hxs, answeredBytes, List.length_map, List.length_drop]
    omega
  unfold i2cCall
  rw [ht]
  refine ⟨⟨?_, rfl⟩, ⟨hx.slAddr7bit, hx.txData, hx.rxLength, ⟨_, rfl, ?_, ?_⟩, hx.retransmissionsMax⟩, rfl, ?_⟩
  · rw [← hst]
    exact Option.isNone_iff_eq_none
  · rw [List.length_append, hkxs, List.length_drop]
    omega
  · rw [List.drop_append, hkxs, List.drop_eq_nil_of_le (by omega), List.drop_drop, List.nil_append, ← hdrop]
    congr 1
    omega
  · intro hok
    have hdone := hst.mp (Option.isNone_iff_eq_none.mp hok)
    refine ⟨_, rfl, ?_⟩
    have hwhole := Exchange.length_run_of_accepted hdone
    have hxslen : xs.length = k := by
      rw [← hxs, answeredBytes, List.length_map, List.length_drop]
      omega
    have hlenk : len.toNat = k := by omega
    rw [hlenk, List.take_left' hkxs, List.take_of_length_le (Nat.le_of_eq hxslen)]

/-- The buffer of `i2c_read`: the buffer of its last call. -/
theorem readContract (answers : Nat → I2cAnswer) (hlen : len ≠ 0) (hbuff : len.toNat ≤ buff.length) (w : I2cTrace) :
    I2cReadContract len (i2cReadCalls (i2cTraced answers) addr buff len w) buff
      (i2cRead (i2cTraced answers) addr buff len w).2.1 := by
  have hof : ∀ c ∈ i2cReadCalls (i2cTraced answers) addr buff len w,
      ∃ x v, ReadSetup addr buff len x ∧ c = i2cCall (i2cTraced answers) x v :=
    exists_of_mem_calls (I := ReadSetup addr buff len) (fun x v hx => (call_read answers hlen hbuff hx v).2.1)
      ⟨rfl, rfl, rfl, ⟨buff, rfl, rfl, rfl⟩, rfl⟩
  obtain ⟨last, hlast, heq⟩ := attempts_eq_last (P := i2cTraced answers) 9
    { slAddr7bit := addr, rxData := some buff, rxLength := len.toNat, txLength := 0 } w
  have hread : (i2cRead (i2cTraced answers) addr buff len w).2.1 = last.setup.rxData.getD buff :=
    congrArg (fun r => r.1.rxData.getD buff) heq
  have hbeyond : ∀ c ∈ i2cReadCalls (i2cTraced answers) addr buff len w, ∃ b, c.setup.rxData = some b ∧
      b.drop len.toNat = buff.drop len.toNat := by
    intro c hc
    obtain ⟨x, v, hx, rfl⟩ := hof c hc
    obtain ⟨b, hb, -, hdrop⟩ := (call_read answers hlen hbuff hx v).2.1.rxData
    exact ⟨b, hb, hdrop⟩
  constructor
  · intro c hc hok
    rw [hread, Option.some.inj (hlast.symm.trans (getLast?_of_ok hc hok))]
    obtain ⟨x, v, hx, rfl⟩ := hof c hc
    obtain ⟨hcall, -, -, hbytes⟩ := call_read answers hlen hbuff hx v
    obtain ⟨b, hb, htake⟩ := hbytes hok
    rw [hb, Option.getD_some, htake, I2cCall.data, hcall.asked]
    rfl
  · obtain ⟨b, hb, hdrop⟩ := hbeyond last (List.mem_of_getLast? hlast)
    refine ⟨by rw [hread, hb]; exact hdrop, ?_⟩
    intro c hc
    obtain ⟨b, hb, hdrop⟩ := hbeyond c hc
    rw [hb, Option.map_some, hdrop]

end RetryAux

open RetryAux in
/-- At most ten attempts, a further one only when all earlier ones failed, each a part of its plan from the beginning on and then a
STOP; an attempt succeeds exactly when the whole plan was answered with the codes it asks for, and a failed one ends with the first code
that is another; 0 is returned exactly when one succeeded, and otherwise the bytes the tenth did not complete. A successful `i2c_read`
leaves the bytes of the successful attempt in the buffer, and none stores behind them. -/
theorem i2c_retry_contract (answers : Nat → I2cAnswer) (slaveAddr : UInt8) (buff : List UInt8) (len : UInt8) (w : I2cTrace)
    (hlen : 1 ≤ len) (hbuff : len.toNat ≤ buff.length) :
    I2cContract (i2cWritePlan slaveAddr (buff.take len.toNat)) len (i2cWriteCalls (i2cTraced answers) slaveAddr buff len w)
      (i2cWrite (i2cTraced answers) slaveAddr buff len w).1 w (i2cWrite (i2cTraced answers) slaveAddr buff len w).2 ∧
    I2cContract (i2cReadPlan slaveAddr len.toNat) len (i2cReadCalls (i2cTraced answers) slaveAddr buff len w)
      (i2cRead (i2cTraced answers) slaveAddr buff len w).1 w (i2cRead (i2cTraced answers) slaveAddr buff len w).2.2 ∧
    I2cReadContract len (i2cReadCalls (i2cTraced answers) slaveAddr buff len w) buff
      (i2cRead (i2cTraced answers) slaveAddr buff len w).2.1 := by
  have hne : len ≠ 0 := by
    rintro rfl
    exact absurd hlen (by decide)
  refine ⟨?_, ?_, ?_⟩
  · exact contract_of_calls (I := WriteSetup slaveAddr buff len) I2cSetup.txCount
      (fun x v hx => (call_write hne hx v).2.1) (fun x v hx => (call_write hne hx v).1) dataDone_write
      (fun x v hx => (call_write hne hx v).2.2) hne (by rw [List.length_map, List.length_take]; omega) w
      ⟨rfl, rfl, rfl, rfl, rfl⟩
  · exact contract_of_calls (I := ReadSetup slaveAddr buff len) I2cSetup.rxCount
      (fun x v hx => (call_read answers hne hbuff hx v).2.1) (fun x v hx => (call_read answers hne hbuff hx v).1) dataDone_read
      (fun x v hx => (call_read answers hne hbuff hx v).2.2.1) hne (length_i2cGetPlan _) w
      ⟨rfl, rfl, rfl, ⟨buff, rfl, rfl, rfl⟩, rfl⟩
  · exact readContract answers hne hbuff w

/-- Two bytes to the address 0x68: the first attempt is refused at the address, the second is acknowledged to the end. -/
def secondAttempt (n : Nat) : I2cAnswer :=
  ⟨[i2statStart, i2statSlawNack, i2statStart, i2statSlawAck, i2statTxDatAck, i2statTxDatAck].getD n 0, 0⟩

/-- Two bytes from it: the first attempt loses the bus at its second byte, the second gets both. -/
def secondReading (n : Nat) : I2cAnswer :=
  [⟨i2statStart, 0⟩, ⟨i2statSlarAck, 0⟩, ⟨i2statRxDatAck, 0xA1⟩, ⟨i2statArbLost, 0xA2⟩, ⟨i2statStart, 0⟩, ⟨i2statSlarAck, 0⟩,
    ⟨i2statRxDatAck, 0xB1⟩, ⟨i2statRxDatNack, 0xB2⟩].getD n ⟨0, 0⟩

/-- The contract of a write and of a read, each with a failed attempt and a successful one. -/
theorem i2c_retry_contract_secondAttempt :
    (1 : UInt8) ≤ 2 ∧ (2 : UInt8).toNat ≤ [(0 : UInt8), 0x34].length ∧
      I2cContract (i2cWritePlan 0x68 [0, 0x34]) 2 (i2cWriteCalls (i2cTraced secondAttempt) 0x68 [0, 0x34] 2 {})
        (i2cWrite (i2cTraced secondAttempt) 0x68 [0, 0x34] 2 {}).1 {}
        (i2cWrite (i2cTraced secondAttempt) 0x68 [0, 0x34] 2 {}).2 ∧
      (i2cWriteCalls (i2cTraced secondAttempt) 0x68 [0, 0x34] 2 {}).map I2cCall.ok = [false, true] ∧
      I2cContract (i2cReadPlan 0x68 2) 2 (i2cReadCalls (i2cTraced secondReading) 0x68 [0, 0, 0x77] 2 {})
        (i2cRead (i2cTraced secondReading) 0x68 [0, 0, 0x77] 2 {}).1 {}
        (i2cRead (i2cTraced secondReading) 0x68 [0, 0, 0x77] 2 {}).2.2 ∧
      I2cReadContract 2 (i2cReadCalls (i2cTraced secondReading) 0x68 [0, 0, 0x77] 2 {}) [0, 0, 0x77]
        (i2cRead (i2cTraced secondReading) 0x68 [0, 0, 0x77] 2 {}).2.1 ∧
      (i2cReadCalls (i2cTraced secondReading) 0x68 [0, 0, 0x77] 2 {}).map I2cCall.ok = [false, true] ∧
      (i2cRead (i2cTraced secondReading) 0x68 [0, 0, 0x77] 2 {}).2.1 = [0xB1, 0xB2, 0x77] := by
  have hwrite := i2c_retry_contract secondAttempt 0x68 [0, 0x34] 2 {} (by decide) (by decide)
  obtain ⟨-, hread, hbuffer⟩ := i2c_retry_contract secondReading 0x68 [0, 0, 0x77] 2 {} (by decide) (by decide)
  exact ⟨by decide, by decide, hwrite.1, by decide +kernel, hread, hbuffer, by decide +kernel, by decide +kernel⟩

end SaymaFirmware
