import SaymaFirmware.I2c
import SaymaFirmware.Lib.Exchange

/-!
# What the two wrappers put on the bus

A peripheral that keeps a log of the bus and takes its status codes and received bytes from a sequence, so that every behaviour of a
bus is one such sequence; what one attempt of `i2c_write` and of `i2c_read` is to put on the bus; the calls of
`I2C_MasterTransferData` a wrapper makes; and the contract of the two wrappers.
-/

namespace SaymaFirmware

/-! ## The log -/

/-- What the master asks of the peripheral before a STOP. -/
inductive I2cOp where
  | start
  | send (byte : UInt8)
  | get (ack : Bool)
deriving DecidableEq, Repr

/-- The STAT register after it, and the byte in DAT. -/
structure I2cAnswer where
  stat : UInt32
  byte : UInt8
deriving DecidableEq, Repr

/-- The status code, as the driver masks it. -/
def I2cAnswer.code (a : I2cAnswer) : UInt32 := a.stat &&& i2cStatCodeBitmask

/-- An entry of the log. -/
inductive I2cEvent where
  | asked (x : I2cOp × I2cAnswer)
  | stop
deriving DecidableEq, Repr

/-- The log of the bus, and how many answers have been given. -/
structure I2cTrace where
  log : List I2cEvent := []
  answered : Nat := 0
deriving DecidableEq, Repr

/-- One operation, answered with the next answer. -/
def I2cTrace.ask (answers : Nat → I2cAnswer) (o : I2cOp) (w : I2cTrace) : I2cTrace :=
  { log := w.log ++ [.asked (o, answers w.answered)], answered := w.answered + 1 }

/-- The peripheral that answers with the sequence. -/
def i2cTraced (answers : Nat → I2cAnswer) : I2cPeripheral I2cTrace where
  start w := ((answers w.answered).stat, w.ask answers .start)
  sendByte b w := ((answers w.answered).stat, w.ask answers (.send b))
  getByte ack w := ((answers w.answered).byte, (answers w.answered).stat, w.ask answers (.get ack))
  stop w := { w with log := w.log ++ [.stop] }

/-! ## What an attempt is to put on the bus -/

/-- An operation the driver goes on after when the status code is one of these. -/
def i2cStep (o : I2cOp) (codes : List UInt32) : PlanStep I2cOp I2cAnswer := ⟨o, fun a => codes.contains a.code⟩

/-- The address byte: the 7-bit address and the direction bit. -/
def i2cAddressByte (slaveAddr : UInt8) (read : Bool) : UInt8 := UInt8.ofNat (2 * slaveAddr.toNat + read.toNat)

/-- START and the address byte. -/
def i2cHeadPlan (slaveAddr : UInt8) (read : Bool) : List (PlanStep I2cOp I2cAnswer) :=
  [i2cStep .start [i2statStart, i2statRestart],
    i2cStep (.send (i2cAddressByte slaveAddr read)) [if read then i2statSlarAck else i2statSlawAck]]

/-- A data byte the receiver acknowledges. -/
def i2cDataStep (byte : UInt8) : PlanStep I2cOp I2cAnswer := i2cStep (.send byte) [i2statTxDatAck]

/-- A data byte the master receives. -/
def i2cGetStep (ack : Bool) : PlanStep I2cOp I2cAnswer := i2cStep (.get ack) [if ack then i2statRxDatAck else i2statRxDatNack]

/-- `n` data bytes, every one but the last acknowledged. -/
def i2cGetPlan : (n : Nat) → List (PlanStep I2cOp I2cAnswer)
  | 0 => []
  | n + 1 => i2cGetStep (decide (0 < n)) :: i2cGetPlan n

/-- An attempt of `i2c_write`: START, the address with the write bit, and the bytes. -/
def i2cWritePlan (slaveAddr : UInt8) (bytes : List UInt8) : List (PlanStep I2cOp I2cAnswer) :=
  i2cHeadPlan slaveAddr false ++ bytes.map i2cDataStep

/-- An attempt of `i2c_read`: START, the address with the read bit, and `n` bytes. -/
def i2cReadPlan (slaveAddr : UInt8) (n : Nat) : List (PlanStep I2cOp I2cAnswer) := i2cHeadPlan slaveAddr true ++ i2cGetPlan n

/-! ## The calls of a wrapper -/

/-- A call of `I2C_MasterTransferData`: the peripheral before it, whether it returned `SUCCESS`, and what it left. -/
structure I2cCall (σ : Type) where
  before : σ
  ok : Bool
  setup : I2cSetup
  after : σ

/-- The call of `I2C_MasterTransferData` with this `xfer`. -/
def i2cCall {σ : Type} (P : I2cPeripheral σ) (xfer : I2cSetup) (w : σ) : I2cCall σ :=
  let r := i2cMasterTransferData P xfer w
  ⟨w, r.1, r.2.1, r.2.2⟩

/-- The calls the loop of a wrapper makes with `retryCount` attempts left. -/
def i2cCalls {σ : Type} (P : I2cPeripheral σ) : (retryCount : Nat) → I2cSetup → σ → List (I2cCall σ)
  | 0, _, _ => []
  | n + 1, xfer, w =>
    let c := i2cCall P xfer w
    c :: if c.ok then [] else i2cCalls P n c.setup c.after

/-- The attempts of `i2c_write`. -/
def i2cWriteCalls {σ : Type} (P : I2cPeripheral σ) (slaveAddr : UInt8) (buff : List UInt8) (len : UInt8) (w : σ) : List (I2cCall σ) :=
  i2cCalls P i2cRetryCount { slAddr7bit := slaveAddr, txData := some buff, txLength := len.toNat, rxLength := 0 } w

/-- The attempts of `i2c_read`. -/
def i2cReadCalls {σ : Type} (P : I2cPeripheral σ) (slaveAddr : UInt8) (buff : List UInt8) (len : UInt8) (w : σ) : List (I2cCall σ) :=
  i2cCalls P i2cRetryCount { slAddr7bit := slaveAddr, rxData := some buff, rxLength := len.toNat, txLength := 0 } w

/-- What a call added to the log. -/
def I2cCall.events (c : I2cCall I2cTrace) : List I2cEvent := c.after.log.drop c.before.log.length

/-- An operation and its answer, for an entry that is one. -/
def I2cEvent.asked? : I2cEvent → Option (I2cOp × I2cAnswer)
  | .asked x => some x
  | .stop => none

/-- The operations of a call, with their answers. -/
def I2cCall.asked (c : I2cCall I2cTrace) : List (I2cOp × I2cAnswer) := c.events.filterMap I2cEvent.asked?

/-- What a call asked for after START and the address byte: its data bytes. -/
def I2cCall.data (c : I2cCall I2cTrace) : List (I2cOp × I2cAnswer) := c.asked.drop 2

/-- A data byte that was completed: sent and acknowledged, or received with the acknowledgement the master chose. -/
def i2cDataDone : I2cOp × I2cAnswer → Bool
  | (.start, _) => false
  | (.send _, a) => a.code = i2statTxDatAck
  | (.get ack, a) => a.code = if ack then i2statRxDatAck else i2statRxDatNack

/-! ## The contract -/

/-- What a wrapper does on the bus and returns: `plan` is what an attempt is to put on the bus, `calls` are the attempts, and `w'` is
the peripheral after them. -/
structure I2cContract (plan : List (PlanStep I2cOp I2cAnswer)) (len : UInt8) (calls : List (I2cCall I2cTrace)) (result : UInt8)
    (w w' : I2cTrace) : Prop where
  /-- At least one attempt and at most ten. -/
  attempts : calls ≠ [] ∧ calls.length ≤ 10
  /-- A further one only when all earlier ones failed. -/
  further : ∀ c ∈ calls.dropLast, c.ok = false
  /-- The bus carries the attempts and nothing else. -/
  bus : w'.log = w.log ++ (calls.map I2cCall.events).flatten
  /-- An attempt puts a part of the plan on the bus, from its beginning on, and then a STOP. -/
  attempt : ∀ c ∈ calls, c.events = c.asked.map .asked ++ [.stop] ∧ c.asked.map Prod.fst <+: plan.map PlanStep.op
  /-- It succeeds exactly when the whole plan is on the bus, each operation answered with a status code the plan goes on after. -/
  ok : ∀ c ∈ calls, c.ok = true ↔ Exchange.Done plan c.asked
  /-- And a failed one ends with the first operation that is answered with another. -/
  refused : ∀ c ∈ calls, c.ok = false → Exchange.Refused plan c.asked
  /-- A successful one puts the whole plan on the bus. -/
  whole : ∀ c ∈ calls, c.ok = true → c.asked.map Prod.fst = plan.map PlanStep.op
  /-- The wrapper returns 0 when an attempt succeeded, and only then. -/
  zero : result = 0 ↔ ∃ c ∈ calls, c.ok = true
  /-- Otherwise there were ten attempts, and it returns the bytes the tenth did not complete. -/
  left : (∀ c ∈ calls, c.ok = false) →
    calls.length = 10 ∧ ∀ c, calls.getLast? = some c → result.toNat + c.data.countP i2cDataDone = len.toNat

/-- What `i2c_read` does to the buffer besides: an attempt stores nothing behind the first `len` bytes, and a successful one leaves
its bytes there. -/
structure I2cReadContract (len : UInt8) (calls : List (I2cCall I2cTrace)) (buff buff' : List UInt8) : Prop where
  bytes : ∀ c ∈ calls, c.ok = true → buff'.take len.toNat = c.data.map fun x => x.2.byte
  beyond : buff'.drop len.toNat = buff.drop len.toNat ∧
    ∀ c ∈ calls, c.setup.rxData.map (List.drop len.toNat) = some (buff.drop len.toNat)

end SaymaFirmware
