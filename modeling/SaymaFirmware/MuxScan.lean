import SaymaFirmware.Board

/-!
# The scan behind the I2C switch

`i2c_tcaselect` and `i2c_probe_slaves2` of `i2c.c`, and the buses they are for: devices on the root segment and on the eight branches of
the switch at `TCAADDR`, which connects the branches whose bits are set in the byte last written to it.
-/

namespace SaymaFirmware

variable {σ : Type}

/-! ## The scan -/

/-- A line the scan prints. -/
inductive ScanLine where
  /-- `TCAScanner start`. -/
  | start
  /-- `TCA Port #%d`. -/
  | port (t : UInt8)
  /-- `Found I2C %02X`. -/
  | found (addr : UInt8)
deriving DecidableEq, Repr

/-- `i2c_tcaselect`. -/
def i2cTcaselect (P : I2cPeripheral σ) (i : UInt8) (w : σ) : σ := (i2cWrite P tcaAddr [i] 1 w).2

/-- The scan's buffer `ch`, what it has printed, and the peripheral. -/
structure Scan (σ : Type) where
  ch : List UInt8
  out : List ScanLine
  bus : σ

/-- The setup of a read of one byte. -/
def oneByteRead (addr : UInt8) (ch : List UInt8) : I2cSetup := { slAddr7bit := addr, rxData := some ch, rxLength := 1 }

/-- One address: the switch itself is left out, and any other is found when a byte was received. -/
def Scan.probe (P : I2cPeripheral σ) (s : Scan σ) (addr : UInt8) : Scan σ :=
  if addr = tcaAddr then s
  else
    let r := i2cMasterTransferData P (oneByteRead addr s.ch) s.bus
    { ch := r.2.1.rxData.getD s.ch
      out := if r.2.1.rxCount > 0 then s.out ++ [.found addr] else s.out
      bus := r.2.2 }

/-- One port: select it, then every address from 0 to 127. -/
def Scan.port (P : I2cPeripheral σ) (s : Scan σ) (t : UInt8) : Scan σ :=
  ((List.range 128).map UInt8.ofNat).foldl (Scan.probe P)
    { s with bus := i2cTcaselect P t s.bus, out := s.out ++ [.port t] }

/-- `i2c_probe_slaves2`, with whatever `ch` holds at first. -/
def i2cProbeSlaves2 (P : I2cPeripheral σ) (ch : List UInt8) (w : σ) : Scan σ :=
  ((List.range 8).map UInt8.ofNat).foldl (Scan.port P) { ch := ch, out := [.start], bus := w }

/-- The addresses reported under port `t`, where `under` is the port whose lines come first. -/
def reportedUnder (t : UInt8) : (under : Option UInt8) → List ScanLine → List UInt8
  | _, [] => []
  | under, .start :: out => reportedUnder t under out
  | _, .port t' :: out => reportedUnder t (some t') out
  | under, .found addr :: out =>
    if under = some t then addr :: reportedUnder t under out else reportedUnder t under out

/-! ## The bus -/

/-- Which addresses the devices on the root segment and on each of the eight branches have. -/
structure Placement where
  root : UInt8 → Bool
  branch : Fin 8 → UInt8 → Bool
  root_addr : ∀ a, root a = true → a < 128 ∧ a ≠ tcaAddr
  branch_addr : ∀ n a, branch n a = true → a < 128 ∧ a ≠ tcaAddr

/-- The number of a branch, as `connects` takes it. -/
def branchNumber (n : Fin 8) : UInt8 := UInt8.ofNat n.val

/-- A device with this address is reachable when the switch holds this mask. -/
def Placement.reachable (p : Placement) (mask addr : UInt8) : Bool :=
  p.root addr || (List.finRange 8).any fun n => connects mask (branchNumber n) && p.branch n addr

/-- A peripheral on a bus with this placement, and the byte last written to the switch: every write to the switch succeeds, and a read
of one byte succeeds when a device with the address is reachable, and only then. -/
structure MuxBus (p : Placement) (σ : Type) where
  peripheral : I2cPeripheral σ
  mask : σ → UInt8
  select : ∀ x w, ∃ xfer w', i2cMasterTransferData peripheral
    { slAddr7bit := tcaAddr, txData := some [x], txLength := 1, rxLength := 0 } w = (true, xfer, w') ∧ mask w' = x
  read : ∀ addr ch w, addr < 128 → addr ≠ tcaAddr →
    (i2cMasterTransferData peripheral (oneByteRead addr ch) w).1 = p.reachable (mask w) addr ∧
    mask (i2cMasterTransferData peripheral (oneByteRead addr ch) w).2.2 = mask w

/-- The scan reports under every port exactly the addresses of the devices on the root segment and on the branch of that number. -/
def ScanRight {p : Placement} (bus : MuxBus p σ) (ch : List UInt8) (w : σ) : Prop :=
  ∀ (t : Fin 8) (addr : UInt8),
    addr ∈ reportedUnder (branchNumber t) none (i2cProbeSlaves2 bus.peripheral ch w).out ↔
      p.root addr = true ∨ p.branch t addr = true

/-! ## Such a bus for every placement -/

/-- Where the bus is within a transfer. -/
inductive MuxPhase where
  | idle
  | started
  | writing
  | reading
deriving DecidableEq, Repr

/-- The mask of the switch and the phase of the bus. -/
structure MuxState where
  mask : UInt8 := 0
  phase : MuxPhase := .idle
deriving DecidableEq, Repr

/-- The address byte: the switch acknowledges a write, a reachable device a read. -/
def MuxState.addressByte (p : Placement) (x : UInt8) (s : MuxState) : UInt32 × MuxState :=
  if x = tcaAddr <<< 1 then (i2statSlawAck, { s with phase := .writing })
  else if x &&& 1 = 1 ∧ p.reachable s.mask (x >>> 1) = true then (i2statSlarAck, { s with phase := .reading })
  else (i2statSlawNack, s)

/-- A peripheral on the bus. Every device answers a read with zeros. -/
def muxPeripheral (p : Placement) : I2cPeripheral MuxState where
  start s := (i2statStart, { s with phase := .started })
  sendByte x s :=
    match s.phase with
    | .started => s.addressByte p x
    | .writing => (i2statTxDatAck, { s with mask := x })
    | _ => (i2statArbLost, s)
  getByte ack s := (0, if s.phase = .reading then (if ack then i2statRxDatAck else i2statRxDatNack) else i2statArbLost, s)
  stop s := { s with phase := .idle }

end SaymaFirmware
