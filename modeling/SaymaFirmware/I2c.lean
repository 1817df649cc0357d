import Mathlib.Data.List.Basic

/-!
# The I2C master: the driver's polling transfer and the two retrying wrappers

`lpc177x_8x_i2c.c` and the first half of `i2c.c`. The peripheral is a parameter (`I2cPeripheral`): what it answers to a
START, to a byte sent and to a byte asked for, and what it does at a STOP. The waits for the SI flag are taken to end, so each
of the four is one step. Everything above the peripheral is the source's: the one pass between the label `retry` and the end of
`I2C_MasterTransferData`, its retransmission counter, and the ten attempts of `i2c_write` and `i2c_read`.
-/

namespace SaymaFirmware

/-! ## Status codes (`lpc177x_8x_i2c.h`) -/

/-- `I2C_STAT_CODE_BITMASK`. -/
def i2cStatCodeBitmask : UInt32 := 0xF8
/-- `I2C_I2STAT_M_TX_START`, also `I2C_I2STAT_M_RX_START`. -/
def i2statStart : UInt32 := 0x08
/-- `I2C_I2STAT_M_TX_RESTART`, also `I2C_I2STAT_M_RX_RESTART`. -/
def i2statRestart : UInt32 := 0x10
/-- `I2C_I2STAT_M_TX_SLAW_ACK`. -/
def i2statSlawAck : UInt32 := 0x18
/-- `I2C_I2STAT_M_TX_SLAW_NACK`. -/
def i2statSlawNack : UInt32 := 0x20
/-- `I2C_I2STAT_M_TX_DAT_ACK`. -/
def i2statTxDatAck : UInt32 := 0x28
/-- `I2C_I2STAT_M_TX_DAT_NACK`. -/
def i2statTxDatNack : UInt32 := 0x30
/-- `I2C_I2STAT_M_TX_ARB_LOST`. -/
def i2statArbLost : UInt32 := 0x38
/-- `I2C_I2STAT_M_RX_SLAR_ACK`. -/
def i2statSlarAck : UInt32 := 0x40
/-- `I2C_I2STAT_M_RX_DAT_ACK`. -/
def i2statRxDatAck : UInt32 := 0x50
/-- `I2C_I2STAT_M_RX_DAT_NACK`. -/
def i2statRxDatNack : UInt32 := 0x58
/-- `I2C_SETUP_STATUS_NOACKF`. -/
def i2cSetupStatusNoackf : UInt32 := 0x200

/-! ## The peripheral -/

/-- The I2C peripheral as the polling driver uses it: the value of the STAT register after a START, after a byte sent and
after a byte received (with the byte), and the STOP condition. -/
structure I2cPeripheral (σ : Type) where
  start : σ → UInt32 × σ
  sendByte : UInt8 → σ → UInt32 × σ
  getByte : Bool → σ → UInt8 × UInt32 × σ
  stop : σ → σ

variable {σ : Type}

/-- `I2C_Start`. -/
def i2cStart (P : I2cPeripheral σ) (w : σ) : UInt32 × σ :=
  ((P.start w).1 &&& i2cStatCodeBitmask, (P.start w).2)

/-- `I2C_SendByte`. -/
def i2cSendByte (P : I2cPeripheral σ) (databyte : UInt8) (w : σ) : UInt32 × σ :=
  ((P.sendByte databyte w).1 &&& i2cStatCodeBitmask, (P.sendByte databyte w).2)

/-- `I2C_GetByte`: the byte, the status code, and the peripheral after it. -/
def i2cGetByte (P : I2cPeripheral σ) (ack : Bool) (w : σ) : UInt8 × UInt32 × σ :=
  ((P.getByte ack w).1, (P.getByte ack w).2.1 &&& i2cStatCodeBitmask, (P.getByte ack w).2.2)

/-! ## One pass of the transfer -/

/-- `I2C_M_SETUP_Type`, without the callback (interrupt mode only). A pointer is an optional buffer, `none` for `NULL`. -/
structure I2cSetup where
  slAddr7bit : UInt8
  txData : Option (List UInt8) := none
  txLength : Nat := 0
  txCount : Nat := 0
  rxData : Option (List UInt8) := none
  rxLength : Nat := 0
  rxCount : Nat := 0
  retransmissionsMax : Nat := 0
  retransmissionsCount : Nat := 0
  status : UInt32 := 0

/-- Where a pass from the label `retry` has got to: it goes on (`none`), or it failed and this is the status to save if no
retransmission is left. -/
abbrev I2cPass (σ : Type) := Option UInt32 × I2cSetup × σ

/-- The next phase of a pass runs when no earlier one failed. -/
def I2cPass.andThen (r : I2cPass σ) (next : I2cSetup → σ → I2cPass σ) : I2cPass σ :=
  match r with
  | (none, cfg, w) => next cfg w
  | (some st, cfg, w) => (some st, cfg, w)

/-- The loop over the bytes to send: how many were acknowledged, and the code of the one that was not. -/
def i2cSendLoop (P : I2cPeripheral σ) : List UInt8 → σ → Nat × Option UInt32 × σ
  | [], w => (0, none, w)
  | x :: xs, w =>
    let r := i2cSendByte P x w
    if r.1 ≠ i2statTxDatAck then (0, some r.1, r.2)
    else
      let t := i2cSendLoop P xs r.2
      (t.1 + 1, t.2.1, t.2.2)

/-- The loop over the bytes to receive: `left` are missing and the next goes to place `pos` of the buffer. Every byte but the
last is acknowledged. -/
def i2cGetLoop (P : I2cPeripheral σ) : (left pos : Nat) → List UInt8 → σ → Nat × List UInt8 × Option UInt32 × σ
  | 0, pos, buf, w => (pos, buf, none, w)
  | left + 1, pos, buf, w =>
    let ack := decide (0 < left)
    let r := i2cGetByte P ack w
    if r.2.1 ≠ (if ack then i2statRxDatAck else i2statRxDatNack) then (pos, buf, some r.2.1, r.2.2)
    else i2cGetLoop P left (pos + 1) (buf.set pos r.1) r.2.2

/-- The first START. -/
def i2cStartPhase (P : I2cPeripheral σ) (cfg : I2cSetup) (w : σ) : I2cPass σ :=
  let r := i2cStart P w
  (if r.1 ≠ i2statStart ∧ r.1 ≠ i2statRestart then some r.1 else none, cfg, r.2)

/-- Sending: the address with the write bit, then the data bytes. -/
def i2cTxPhase (P : I2cPeripheral σ) (cfg : I2cSetup) (w : σ) : I2cPass σ :=
  match cfg.txData with
  | none => (none, cfg, w)
  | some txdat =>
    if cfg.txLength = 0 then (none, cfg, w)
    else
      let r := i2cSendByte P (cfg.slAddr7bit <<< 1) w
      if r.1 ≠ i2statSlawAck then (some (r.1 ||| i2cSetupStatusNoackf), cfg, r.2)
      else
        let t := i2cSendLoop P (txdat.take cfg.txLength) r.2
        (t.2.1.map (· ||| i2cSetupStatusNoackf), { cfg with txCount := t.1 }, t.2.2)

/-- The second START, only when the transfer both sends and receives. -/
def i2cRestartPhase (P : I2cPeripheral σ) (cfg : I2cSetup) (w : σ) : I2cPass σ :=
  if cfg.txLength ≠ 0 ∧ cfg.txData.isSome ∧ cfg.rxLength ≠ 0 ∧ cfg.rxData.isSome then i2cStartPhase P cfg w
  else (none, cfg, w)

/-- Receiving: the address with the read bit, then the data bytes. -/
def i2cRxPhase (P : I2cPeripheral σ) (cfg : I2cSetup) (w : σ) : I2cPass σ :=
  match cfg.rxData with
  | none => (none, cfg, w)
  | some rxdat =>
    if cfg.rxLength = 0 then (none, cfg, w)
    else
      let r := i2cSendByte P ((cfg.slAddr7bit <<< 1) ||| 1) w
      if r.1 ≠ i2statSlarAck then (some (r.1 ||| i2cSetupStatusNoackf), cfg, r.2)
      else
        let t := i2cGetLoop P cfg.rxLength 0 rxdat r.2
        (t.2.2.1, { cfg with rxData := some t.2.1, rxCount := t.1 }, t.2.2.2)

/-- What stands between the label `retry` and the final STOP. -/
def i2cPass (P : I2cPeripheral σ) (cfg : I2cSetup) (w : σ) : I2cPass σ :=
  (((i2cStartPhase P { cfg with txCount := 0, rxCount := 0 } w).andThen (i2cTxPhase P)).andThen
    (i2cRestartPhase P)).andThen (i2cRxPhase P)

/-! ## The transfer and its retransmissions -/

/-- The passes of a transfer: a failed one counts a retransmission and starts over while the counter allows it. `fuel` is the
number of passes left, `retransmissions_max + 1` at the first (the counter allows no more). -/
def i2cPasses (P : I2cPeripheral σ) : (fuel : Nat) → I2cSetup → σ → Bool × I2cSetup × σ
  | 0, cfg, w => (false, cfg, P.stop w)
  | fuel + 1, cfg, w =>
    match i2cPass P cfg w with
    | (none, cfg, w) => (true, cfg, P.stop w)
    | (some st, cfg, w) =>
      let cfg := { cfg with retransmissionsCount := cfg.retransmissionsCount + 1 }
      if cfg.retransmissionsCount > cfg.retransmissionsMax then (false, { cfg with status := st }, P.stop w)
      else i2cPasses P fuel cfg w

/-- `I2C_MasterTransferData` with `I2C_TRANSFER_POLLING`: `true` for `SUCCESS`. -/
def i2cMasterTransferData (P : I2cPeripheral σ) (cfg : I2cSetup) (w : σ) : Bool × I2cSetup × σ :=
  i2cPasses P (cfg.retransmissionsMax + 1)
    { cfg with txCount := 0, rxCount := 0, status := 0, retransmissionsCount := 0 } w

/-! ## `i2c_write` and `i2c_read` -/

/-- The loop of both wrappers: transfer until it succeeds or `retry_count` attempts have failed. -/
def i2cAttempts (P : I2cPeripheral σ) : (retryCount : Nat) → I2cSetup → σ → I2cSetup × σ
  | 0, xfer, w => (xfer, w)
  | n + 1, xfer, w =>
    match i2cMasterTransferData P xfer w with
    | (true, xfer, w) => (xfer, w)
    | (false, xfer, w) => i2cAttempts P n xfer w

/-- The number of attempts of both wrappers. -/
def i2cRetryCount : Nat := 10

/-- `i2c_write`: the bytes not sent in the last attempt, and the peripheral after it. -/
def i2cWrite (P : I2cPeripheral σ) (slaveAddr : UInt8) (buff : List UInt8) (len : UInt8) (w : σ) : UInt8 × σ :=
  let r := i2cAttempts P i2cRetryCount
    { slAddr7bit := slaveAddr, txData := some buff, txLength := len.toNat, rxLength := 0 } w
  ((len.toUInt32 - UInt32.ofNat r.1.txCount).toUInt8, r.2)

/-- `i2c_read`: the bytes missing after the last attempt, the buffer, and the peripheral after it. -/
def i2cRead (P : I2cPeripheral σ) (slaveAddr : UInt8) (buff : List UInt8) (len : UInt8) (w : σ) :
    UInt8 × List UInt8 × σ :=
  let r := i2cAttempts P i2cRetryCount
    { slAddr7bit := slaveAddr, rxData := some buff, rxLength := len.toNat, txLength := 0 } w
  ((len.toUInt32 - UInt32.ofNat r.1.rxCount).toUInt8, r.1.rxData.getD buff, r.2)

end SaymaFirmware
