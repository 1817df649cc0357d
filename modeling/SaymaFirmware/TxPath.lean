import Mathlib.Algebra.GroupWithZero.Nat
import SaymaFirmware.Emac
import SaymaFirmware.Lib.Machine
import SaymaFirmware.Lib.RingIndex

/-!
# The transmit path: the EMAC's transmit ring and `prvLowLevelOutput`

The transmit half of `lpc17xx_emac.c` and `prvLowLevelOutput` of `ethernetif.c`, called by one thread, against a DMA that reads the
descriptors from `TxConsumeIndex` up to `TxProduceIndex` and moves only the former. Both sides go byte by byte: the thread's copy
writes one byte a step, and the DMA fetches a frame one byte a step, so a step of one may fall between any two of the other.
-/

namespace SaymaFirmware

/-! ## Registers -/

/-- The registers and the memory of the transmit half: the indices, `Tx_Desc[i].Ctrl`, and the bytes of `tx_buf[i]`. -/
structure TxHw where
  txProduceIndex : UInt32
  txConsumeIndex : UInt32
  ctrl : Nat → UInt32
  buf : Nat → Nat → UInt8

/-- `++idx`, wrapped at the number of descriptors. -/
def txNext (idx : UInt32) : UInt32 := Ring.nextWord emacNumTxFrag idx

/-- `EMAC_CheckTransmitIndex`, `tmp` being the value it read from `TxConsumeIndex`. -/
def emacCheckTransmitIndex (h : TxHw) (tmp : UInt32) : Bool :=
  if h.txProduceIndex = tmp - 1 then false
  else if tmp = 0 ∧ h.txProduceIndex = emacNumTxFrag - 1 then false
  else true

/-- The word `EMAC_StartTransmitNextBuffer` writes to the descriptor. -/
def txControl (ulLength : UInt32) : UInt32 := (ulLength - 1) ||| emacTctrlIntLast

/-- The length the DMA takes from a descriptor. -/
def dmaLength (ctrl : UInt32) : Nat := (ctrl &&& emacTctrlSize).toNat + 1

/-- The descriptors from `consume` up to `produce`, of a ring with `n` descriptors. -/
def ringSlots (consume produce : UInt32) : (n : Nat) → List Nat
  | 0 => []
  | n + 1 => if consume = produce then [] else consume.toNat :: ringSlots (txNext consume) produce n

/-- The descriptors the DMA may read. -/
def TxHw.owned (h : TxHw) : List Nat := ringSlots h.txConsumeIndex h.txProduceIndex emacNumTxFrag.toNat

/-! ## Packets -/

/-- A packet to send: a chain of pbufs whose `len` fields add up to `tot_len`, at least one byte. -/
structure TxPacket where
  pbufs : List (List UInt8)
  totLen : UInt16
  total : (pbufs.map List.length).sum = totLen.toNat
  pos : 1 ≤ totLen.toNat
deriving DecidableEq

/-- The bytes of a packet. -/
def TxPacket.bytes (p : TxPacket) : List UInt8 := p.pbufs.flatten

/-! ## The machine -/

/-- `ERR_OK` and `ERR_BUF`. -/
inductive ErrT where
  | ok
  | buf
deriving DecidableEq, Repr

/-- Where the thread is. -/
inductive TxPc where
  /-- It is not in a call. -/
  | idle
  /-- `EMAC_CheckTransmitIndex` is about to read `TxConsumeIndex`, for the attempt `x`. -/
  | readIndex (p : TxPacket) (x : Nat)
  /-- It has read `tmp`. -/
  | test (p : TxPacket) (x : Nat) (tmp : UInt32)
  /-- At the `vTaskDelay`. -/
  | delay (p : TxPacket) (x : Nat)
  /-- Copying: the bytes of each pbuf still to copy, and how far `pucChar` has moved. -/
  | copy (p : TxPacket) (qs : List (List UInt8)) (off : Nat)
  /-- `EMAC_StartTransmitNextBuffer`, at the write of the descriptor. -/
  | control (p : TxPacket)
  /-- And at the write of `TxProduceIndex`. -/
  | index (p : TxPacket)
  /-- At the `return`. -/
  | ret (p : TxPacket) (x : Nat) (xReturn : ErrT)
deriving DecidableEq

/-- What the DMA has of the frame it is fetching: its length and the bytes so far. -/
structure TxFetch where
  length : Nat
  bytes : List UInt8

/-- The transmit half: the thread, the DMA, the registers at the entry of the call, how many packets had been accepted and how many
frames sent at each of its readings of `TxConsumeIndex`, the packets for which `ERR_OK` was returned, and the frames sent. -/
structure TxState where
  hw : TxHw
  pc : TxPc
  fetch : Option TxFetch
  entry : TxHw
  reads : List (Nat × Nat)
  returned : List TxPacket
  sent : List (List UInt8)

/-- After `tx_descr_init`. -/
def txInit (mem : Nat → Nat → UInt8) : TxState :=
  let hw := { txProduceIndex := 0, txConsumeIndex := 0, ctrl := fun _ => 0, buf := mem }
  { hw := hw, pc := .idle, fetch := none, entry := hw, reads := [], returned := [], sent := [] }

/-- The steps: a call, the thread's next step, the DMA's next step. -/
inductive TxAct where
  | call (p : TxPacket)
  | cpu
  | dma

/-- One byte written to a transmit buffer. -/
def TxHw.store (h : TxHw) (i off : Nat) (b : UInt8) : TxHw :=
  { h with buf := Function.update h.buf i (Function.update (h.buf i) off b) }

/-- The packets for which `ERR_OK` has been or is being returned. -/
def TxState.accepted (s : TxState) : List TxPacket :=
  match s.pc with
  | .ret p _ .ok => s.returned ++ [p]
  | _ => s.returned

/-- The thread's next step. -/
def TxState.cpu (s : TxState) : Option TxState :=
  match s.pc with
  | .idle => none
  | .readIndex p x =>
    some { s with pc := .test p x s.hw.txConsumeIndex, reads := s.reads ++ [(s.accepted.length, s.sent.length)] }
  | .test p x tmp =>
    if emacCheckTransmitIndex s.hw tmp then
      some { s with pc := if p.totLen.toNat < emacEthMaxFlen.toNat then .copy p p.pbufs 0 else .ret p x .buf }
    else some { s with pc := .delay p x }
  | .delay p x => some { s with pc := if x + 1 < netifMaxTxAttempts then .readIndex p (x + 1) else .ret p (x + 1) .buf }
  | .copy p [] _ => some { s with pc := .control p }
  | .copy p ([] :: qs) off => some { s with pc := .copy p qs off }
  | .copy p ((b :: bs) :: qs) off =>
    some { s with hw := s.hw.store s.hw.txProduceIndex.toNat off b, pc := .copy p (bs :: qs) (off + 1) }
  | .control p =>
    some { s with
      hw := { s.hw with ctrl := Function.update s.hw.ctrl s.hw.txProduceIndex.toNat (txControl p.totLen.toUInt32) }
      pc := .index p }
  | .index p => some { s with hw := { s.hw with txProduceIndex := txNext s.hw.txProduceIndex }, pc := .ret p 0 .ok }
  | .ret p _ .ok => some { s with pc := .idle, returned := s.returned ++ [p] }
  | .ret _ _ .buf => some { s with pc := .idle }

/-- The DMA's next step: it takes up the descriptor at `TxConsumeIndex`, fetches a byte, or, with the whole frame, sends it and moves
on. -/
def TxState.dma (s : TxState) : Option TxState :=
  match s.fetch with
  | none =>
    if s.hw.txConsumeIndex = s.hw.txProduceIndex then none
    else some { s with fetch := some ⟨dmaLength (s.hw.ctrl s.hw.txConsumeIndex.toNat), []⟩ }
  | some f =>
    if f.bytes.length < f.length then
      some { s with fetch := some ⟨f.length, f.bytes ++ [s.hw.buf s.hw.txConsumeIndex.toNat f.bytes.length]⟩ }
    else
      some { s with hw := { s.hw with txConsumeIndex := txNext s.hw.txConsumeIndex }, fetch := none, sent := s.sent ++ [f.bytes] }

/-- A step of the transmit half. -/
def txStep (s : TxState) : TxAct → Option TxState
  | .call p => match s.pc with
    | .idle => some { s with pc := .readIndex p 0, entry := s.hw, reads := [] }
    | _ => none
  | .cpu => s.cpu
  | .dma => s.dma

/-- The transmit buffer or descriptor that the thread's next step writes. -/
def TxState.writes (s : TxState) : Option Nat :=
  match s.pc with
  | .copy _ ((_ :: _) :: _) _ => some s.hw.txProduceIndex.toNat
  | .control _ => some s.hw.txProduceIndex.toNat
  | _ => none

end SaymaFirmware
