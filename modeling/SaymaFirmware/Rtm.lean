import Mathlib.Data.List.Basic

/-!
# The RTM: its presence, its power and its bring-up

`psu_init`, `main` up to the start of the scheduler and the loop of `vblinkIFTask`, of `main.c`, as the statements they make on the GPIO
ports and the I2C routines they call. Each of them samples the pin `RTM_PSn` (P0.29, low when the RTM is there) on its own. Delays are
left out.
-/

namespace SaymaFirmware

/-! ## GPIO -/

/-- The ports `LPC_GPIO0` to `LPC_GPIO4`. -/
inductive Port where
  | gpio0 | gpio1 | gpio2 | gpio3 | gpio4
deriving DecidableEq, Repr

/-- `1 << bit`. -/
abbrev pinMask (bit : Nat) : BitVec 32 := BitVec.twoPow 32 bit

/-- The I2C routines that `main` calls. -/
inductive I2cRoutine where
  | i2cInit | i2cSetSi5324 | i2cRtmPwron | i2cSetSi5324Rtm
deriving DecidableEq, Repr

/-- The statements. -/
inductive IoOp where
  /-- `DIR |= (1 << bit)`. -/
  | output (port : Port) (bit : Nat)
  /-- `DIR &= ~(1 << bit)`. -/
  | input (port : Port) (bit : Nat)
  /-- `SET |= (1 << bit)`. -/
  | set (port : Port) (bit : Nat)
  /-- `CLR |= (1 << bit)`. -/
  | clr (port : Port) (bit : Nat)
  | call (routine : I2cRoutine)
deriving DecidableEq, Repr

/-- What happens to the RTM. -/
inductive RtmEvent where
  /-- P1.26 and P1.30 become both set. -/
  | switchOn
  | ran (routine : I2cRoutine)
deriving DecidableEq, Repr

/-- The directions and output latches of the ports, and what has happened. -/
structure IoState where
  dir : Port → BitVec 32
  out : Port → BitVec 32
  log : List RtmEvent

/-- After a reset all pins are inputs and all latches 0. -/
def ioReset : IoState := { dir := fun _ => 0, out := fun _ => 0, log := [] }

/-- A pin's output latch. -/
def IoState.pin (s : IoState) (port : Port) (bit : Nat) : Bool := (s.out port).getLsbD bit

/-- The RTM has its 12 V (P1.26) and its management power (P1.30). -/
def IoState.rtmPowered (s : IoState) : Bool := s.pin .gpio1 26 && s.pin .gpio1 30

/-- The RTM's JTAG port is selected (`lpsel5`, P4.30). -/
def IoState.rtmSelected (s : IoState) : Bool := s.pin .gpio4 30

/-- Change one port. -/
def updatePort (f : Port → BitVec 32) (port : Port) (x : BitVec 32) : Port → BitVec 32 :=
  fun p => if p = port then x else f p

/-- What a statement does. `SET` reads as the latches, and a one written to it sets the latch; `CLR` is write-only and reads as 0, and a
one written to it clears the latch. -/
def IoState.apply (s : IoState) : IoOp → IoState
  | .output port bit => { s with dir := updatePort s.dir port (s.dir port ||| pinMask bit) }
  | .input port bit => { s with dir := updatePort s.dir port (s.dir port &&& ~~~pinMask bit) }
  | .set port bit => { s with out := updatePort s.out port (s.out port ||| (s.out port ||| pinMask bit)) }
  | .clr port bit => { s with out := updatePort s.out port (s.out port &&& ~~~(0 ||| pinMask bit)) }
  | .call routine => { s with log := s.log ++ [.ran routine] }

/-- A statement, with the switch-on it may be. -/
def IoState.exec (s : IoState) (op : IoOp) : IoState :=
  if !s.rtmPowered && (s.apply op).rtmPowered then { s.apply op with log := (s.apply op).log ++ [.switchOn] } else s.apply op

/-- Statements in order. -/
def IoState.run (s : IoState) (ops : List IoOp) : IoState := ops.foldl IoState.exec s

/-! ## `main.c` -/

/-- `LPC_GPIO0->PIN & (1 << bit)`. -/
def pinHigh (pin : BitVec 32) (bit : Nat) : Bool := pin &&& pinMask bit ≠ 0

/-- `RTM_PSn` is low. -/
def rtmPresent (pin : BitVec 32) : Bool := !pinHigh pin 29

/-- `psu_init`, with the word read from `LPC_GPIO0->PIN`. -/
def psuInit (pin : BitVec 32) : List IoOp :=
  ([.output .gpio1 26, .output .gpio1 28, .output .gpio1 29, .output .gpio1 30, .output .gpio1 31,
    .output .gpio4 18, .output .gpio4 25, .output .gpio4 26, .output .gpio4 27, .output .gpio4 28, .output .gpio4 29, .output .gpio4 30,
    .output .gpio4 31, .output .gpio4 19, .input .gpio0 29, .input .gpio0 5,
    .set .gpio1 28, .set .gpio1 29, .set .gpio1 31,
    -- LEDs
    .output .gpio3 5, .output .gpio3 4,
    -- SCANSTA
    .clr .gpio4 18, .clr .gpio4 25, .clr .gpio4 26, .set .gpio4 27, .clr .gpio4 28, .clr .gpio4 29, .clr .gpio4 31,
    .clr .gpio4 19] : List IoOp) ++
  (if pinHigh pin 29 then [.clr .gpio4 30] else [.set .gpio4 30] : List IoOp) ++
  ([.set .gpio4 18,
    -- I2C switch
    .output .gpio2 29, .clr .gpio2 29, .output .gpio2 28, .clr .gpio2 28,
    -- RTM power off
    .clr .gpio1 30, .clr .gpio1 26, .output .gpio1 26, .output .gpio1 30,
    -- Ethernet PHY
    .output .gpio0 23, .clr .gpio0 23, .output .gpio2 2, .set .gpio2 2, .output .gpio0 25, .clr .gpio0 25, .output .gpio0 24,
    .set .gpio0 24, .output .gpio0 26, .set .gpio0 26, .output .gpio0 23, .set .gpio0 23, .output .gpio0 31, .clr .gpio0 31] : List IoOp)

/-- `main` up to the start of the scheduler, with the words `psu_init` and `main` read from `LPC_GPIO0->PIN`. -/
def mainInit (psuPin pin : BitVec 32) : List IoOp :=
  -- `prvSetupHardware`
  ([.output .gpio2 26] : List IoOp) ++
  psuInit psuPin ++ ([.call .i2cInit, .call .i2cSetSi5324] : List IoOp) ++
  (if pinHigh pin 29 then [.clr .gpio1 30, .clr .gpio1 26]
    else [.set .gpio1 30, .set .gpio1 26, .call .i2cRtmPwron, .call .i2cSetSi5324Rtm] : List IoOp)

/-- The words an iteration of `vblinkIFTask` reads from `LPC_GPIO0->PIN`: for the DONE pin of the FPGA, and for `RTM_PSn`. -/
structure BlinkInput where
  done : BitVec 32
  pin : BitVec 32

/-- One iteration of `vblinkIFTask`. -/
def vblinkIteration (i : BlinkInput) : List IoOp :=
  ([.clr .gpio3 5, .set .gpio3 4, .set .gpio3 5, .clr .gpio3 4] : List IoOp) ++
  (if pinHigh i.done 5 then [.output .gpio0 23, .set .gpio0 23, .output .gpio0 31, .set .gpio0 31]
    else [.output .gpio0 23, .clr .gpio0 23, .output .gpio0 31, .clr .gpio0 31] : List IoOp) ++
  (if pinHigh i.pin 29 then [.clr .gpio1 30, .clr .gpio1 26] else [.set .gpio1 30, .set .gpio1 26] : List IoOp)

/-! ## Runs -/

/-- The words read by `psu_init`, by `main` and by the iterations of `vblinkIFTask`. -/
structure RtmSamples where
  psu : BitVec 32
  main : BitVec 32
  blink : Nat → BlinkInput

/-- The state after `main` and `n` iterations. -/
def RtmSamples.state (i : RtmSamples) : Nat → IoState
  | 0 => ioReset.run (mainInit i.psu i.main)
  | n + 1 => (i.state n).run (vblinkIteration (i.blink n))

end SaymaFirmware
