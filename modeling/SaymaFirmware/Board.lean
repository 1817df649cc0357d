import SaymaFirmware.ClockConfig

/-!
# The board's I2C devices and a bus that may fail

Two switches, two clock chips and an IO expander, as the configuration routines assume them: the AMC's Si5324 behind branch 4 of
the switch at `TCAADDR`; behind its branch 7 the IO expander and the RTM's switch at `TCARTMADDR`, and behind branch 5 of that one
the RTM's Si5324. A switch keeps the mask of the last data byte it latched. A clock chip takes the first data byte of a write as
register number and the second as its value.

A `Fault` says where one transfer attempt fails; a byte that is reported as failed may have been latched all the same. A bus
behaviour gives a fault for every attempt of every call of `i2c_write`.
-/

namespace SaymaFirmware

/-! ## Devices -/

/-- The devices on the bus. -/
inductive Device where
  | tca
  | tcaRtm
  | amcClock
  | rtmClock
  | ioExpander
deriving DecidableEq, Repr

/-- A register write that a clock chip has latched, and whether the chip's value byte was reported as acknowledged. -/
structure RegWrite where
  entry : SI324Info
  acked : Bool
deriving DecidableEq, Repr

/-- A Si5324: its register pointer and the register writes it has latched, the oldest first. -/
structure ClockChip where
  pointer : UInt8 := 0
  writes : List RegWrite := []
deriving DecidableEq, Repr

/-- The state of the devices: the mask of each switch, the clock chips, and the byte the IO expander holds. -/
structure Devices where
  tca : UInt8 := 0
  tcaRtm : UInt8 := 0
  amc : ClockChip := {}
  rtm : ClockChip := {}
  expander : Option UInt8 := none
deriving DecidableEq, Repr

/-- A switch with mask `mask` connects branch `n`. -/
def connects (mask : UInt8) (n : UInt8) : Bool := (mask >>> n) &&& 1 == 1

/-- The AMC's clock chip is on the bus. -/
def Devices.amcOn (d : Devices) : Bool := connects d.tca 4

/-- The RTM segment, with the IO expander and the second switch, is on the bus. -/
def Devices.rtmOn (d : Devices) : Bool := connects d.tca 7

/-- The devices that answer to an address in the present state of the switches. -/
def Devices.reached (d : Devices) (addr : UInt8) : List Device :=
  (if addr = tcaAddr then [.tca] else [] : List Device) ++
  (if addr = tcaRtmAddr ∧ d.rtmOn then [.tcaRtm] else [] : List Device) ++
  (if addr = iicSlaveAddr ∧ d.amcOn then [.amcClock] else [] : List Device) ++
  (if addr = iicSlaveAddr ∧ d.rtmOn ∧ connects d.tcaRtm 5 then [.rtmClock] else [] : List Device) ++
  (if addr = ioExpanderAddr ∧ d.rtmOn then [.ioExpander] else [] : List Device)

/-- A clock chip latches data byte `k` of a write: the register number, then the value. -/
def ClockChip.latch (c : ClockChip) (k : Nat) (x : UInt8) (acked : Bool) : ClockChip :=
  match k with
  | 0 => { c with pointer := x }
  | 1 => { c with writes := c.writes ++ [⟨⟨c.pointer, x⟩, acked⟩] }
  | _ => c

/-- A device latches data byte `k` of a write. -/
def Devices.latch (d : Devices) (k : Nat) (x : UInt8) (acked : Bool) : Device → Devices
  | .tca => { d with tca := x }
  | .tcaRtm => { d with tcaRtm := x }
  | .amcClock => { d with amc := d.amc.latch k x acked }
  | .rtmClock => { d with rtm := d.rtm.latch k x acked }
  | .ioExpander => { d with expander := some x }

/-- Every device addressed latches data byte `k`. -/
def Devices.latchAll (d : Devices) (ds : List Device) (k : Nat) (x : UInt8) (acked : Bool) : Devices :=
  ds.foldl (fun d dev => d.latch k x acked dev) d

/-! ## Faults -/

/-- Where a transfer attempt fails: nowhere, at the START, at the address, or at data byte `k`, which the device addressed may
have latched. -/
inductive Fault where
  | none
  | start
  | address
  | data (k : Nat) (latched : Bool)
deriving DecidableEq, Repr

/-- An attempt to write `len` bytes is acknowledged to the end. -/
def Fault.acks (f : Fault) (len : Nat) : Bool :=
  match f with
  | .none => true
  | .start => false
  | .address => false
  | .data k _ => decide (len ≤ k)

/-- Data byte `k` of the attempt is latched by the devices addressed. -/
def Fault.latches (f : Fault) (k : Nat) : Bool :=
  match f with
  | .none => true
  | .start => false
  | .address => false
  | .data j latched => decide (k < j) || (decide (k = j) && latched)

/-- A bus behaviour: the fault of each attempt of each call of `i2c_write`, both counted from zero. -/
abbrev BusBehaviour := Nat → Nat → Fault

/-! ## The bus -/

/-- Where the bus is within a transfer. -/
inductive BusPhase where
  | idle
  | started
  | addressed (ds : List Device) (count : Nat)
deriving DecidableEq, Repr

/-- A call of `i2c_write`: the address it writes to and the masks of the switches when it is issued. -/
structure Issue where
  addr : UInt8
  tca : UInt8
  tcaRtm : UInt8
deriving DecidableEq, Repr

/-- The bus with its devices: the attempt of the present call, how many calls have been made, and each call's issue. -/
structure Board where
  dev : Devices := {}
  phase : BusPhase := .idle
  attempt : Nat := 0
  call : Nat := 0
  issued : List Issue := []
deriving DecidableEq, Repr

/-- A data byte goes out to the devices addressed. -/
def Board.dataByte (f : Fault) (ds : List Device) (k : Nat) (x : UInt8) (b : Board) : UInt32 × Board :=
  if f.acks (k + 1) then
    (i2statTxDatAck, { b with dev := b.dev.latchAll ds k x true, phase := .addressed ds (k + 1) })
  else if f.latches k then (i2statTxDatNack, { b with dev := b.dev.latchAll ds k x false })
  else (i2statTxDatNack, b)

/-- The first byte after a START is the address: it is acknowledged when a device with it is on the bus and no fault says
otherwise. -/
def Board.addressByte (f : Fault) (x : UInt8) (b : Board) : UInt32 × Board :=
  if f = .address ∨ b.dev.reached (x >>> 1) = [] then (i2statSlawNack, b)
  else (i2statSlawAck, { b with phase := .addressed (b.dev.reached (x >>> 1)) 0 })

/-- The peripheral on this bus during one call of `i2c_write`, whose attempts fail as `faults` says. Only writes are made. -/
def boardPeripheral (faults : Nat → Fault) : I2cPeripheral Board where
  start b :=
    if faults b.attempt = .start then (i2statArbLost, { b with phase := .idle })
    else (i2statStart, { b with phase := .started })
  sendByte x b :=
    match b.phase with
    | .idle => (i2cStatCodeBitmask, b)
    | .started => b.addressByte (faults b.attempt) x
    | .addressed ds k => b.dataByte (faults b.attempt) ds k x
  getByte _ b := (0xFF, i2cStatCodeBitmask, b)
  stop b := { b with phase := .idle, attempt := b.attempt + 1 }

/-- A call of `i2c_write` on the board, its result dropped. -/
def Board.write (bus : BusBehaviour) : I2cWriter Board := fun addr buff b =>
  let b₀ := { b with attempt := 0, issued := b.issued ++ [⟨addr, b.dev.tca, b.dev.tcaRtm⟩] }
  let b₁ := (i2cWrite (boardPeripheral (bus b.call)) addr buff (UInt8.ofNat buff.length) b₀).2
  { b₁ with call := b.call + 1 }

/-! ## The boot order of `main` with a RTM present -/

/-- The board after `i2c_setSI5324`, from deselected switches. -/
def afterAmc (bus : BusBehaviour) : Board := i2cSetSI5324 (Board.write bus) {}

/-- Then after `i2c_RTM_PWRON`. -/
def afterPwron (bus : BusBehaviour) : Board := i2cRtmPwron (Board.write bus) (afterAmc bus)

/-- Then after `i2c_setSI5324_RTM`. -/
def afterRtm (bus : BusBehaviour) : Board := i2cSetSI5324Rtm (Board.write bus) (afterPwron bus)

end SaymaFirmware
