import Mathlib.Algebra.GroupWithZero.Nat
import SaymaFirmware.Emac
import SaymaFirmware.Lib.Machine
import SaymaFirmware.Lib.RingIndex

/-!
# The receive path: the EMAC's receive ring and `ENET_IRQHandler`

The receive half of `lpc17xx_emac.c` and, from `ethernetif.c`, `prvLowLevelInput` and `ENET_IRQHandler`, against a DMA that fills
descriptors on its own. The handler is cut at its accesses to the registers and to the receive memory, so a frame may be completed
between any two of them. What the pbuf pool and the stack above answer is the choice of the step that asks (`RxOracle`).

What the handler asks for, reads, hands over and frees is written to a trace of `RxEvent`s; `configASSERT` is empty in this build,
and the counter `xInsideISR` is left out.
-/

namespace SaymaFirmware

/-! ## The receive registers and memory -/

/-- A receive descriptor: its word of `Rx_Stat`, and the memory from the start of its buffer on. -/
structure RxSlot where
  info : UInt32
  mem : Nat → UInt8

/-- The registers and the memory of the receive half. -/
structure RxHw where
  rxProduceIndex : UInt32
  rxConsumeIndex : UInt32
  intStatus : UInt32
  command : UInt32
  slots : Nat → RxSlot

/-- A byte of memory, and whether it came from the frame at `RxConsumeIndex`. -/
structure Cell where
  byte : UInt8
  ofFrame : Bool
deriving DecidableEq, Repr

/-- `++idx`, wrapped at the number of descriptors. -/
def rxNext (idx : UInt32) : UInt32 := Ring.nextWord emacNumRxFrag idx

namespace RxHw

/-- The descriptor at `RxConsumeIndex`. -/
def current (h : RxHw) : RxSlot := h.slots h.rxConsumeIndex.toNat

/-- `EMAC_CheckReceiveIndex`. -/
def emacCheckReceiveIndex (h : RxHw) : Bool := h.rxConsumeIndex != h.rxProduceIndex

/-- `EMAC_CheckReceiveDataStatus`. -/
def emacCheckReceiveDataStatus (h : RxHw) (ulRxStatType : UInt32) : Bool := h.current.info &&& ulRxStatType != 0

/-- `EMAC_GetReceiveDataSize`. -/
def emacGetReceiveDataSize (h : RxHw) : UInt32 := h.current.info &&& emacRinfoSize

/-- `EMAC_UpdateRxConsumeIndex`. -/
def emacUpdateRxConsumeIndex (h : RxHw) : RxHw := { h with rxConsumeIndex := rxNext h.rxConsumeIndex }

/-- What `EMAC_NextPacketToRead` points to. The frame's own bytes are the first ones, as many as the status word says. -/
def emacNextPacketToRead (h : RxHw) (i : Nat) : Cell :=
  ⟨h.current.mem i, decide (i < h.emacGetReceiveDataSize.toNat + 1)⟩

/-- The status bit of completed frames. -/
def rxDone (h : RxHw) : Bool := h.intStatus &&& emacIntRxDone != 0

/-- No descriptor is left to the DMA. -/
def full (h : RxHw) : Bool := rxNext h.rxProduceIndex == h.rxConsumeIndex

end RxHw

/-! ## Packet buffers -/

/-- A pbuf of the pool: the memory of its buffer, and how much of it is used. -/
structure Pbuf where
  mem : List Cell
  len : Nat
  len_le : len ≤ mem.length

/-- The bytes a pbuf holds. -/
def Pbuf.payload (q : Pbuf) : List UInt8 := (q.mem.take q.len).map Cell.byte

/-- What `pbuf_alloc(PBUF_RAW, length, PBUF_POOL)` returns when it succeeds: a chain whose lengths add up to `length`. A buffer of
the pool has room for an Ethernet header, the first one is used that far if the chain is that long, and what it holds is old. -/
structure PbufChain (length : Nat) where
  first : Pbuf
  rest : List Pbuf
  total : first.len + (rest.map Pbuf.len).sum = length
  room : 14 ≤ first.mem.length
  header : min 14 length ≤ first.len
  old : ∀ c ∈ first.mem, c.ofFrame = false

/-- `memcpy` of `q->len` bytes from `src[off]` on into `q->payload`. -/
def Pbuf.fill (src : Nat → Cell) (off : Nat) (q : Pbuf) : Pbuf where
  mem := (List.range q.len).map (fun i => src (off + i)) ++ q.mem.drop q.len
  len := q.len
  len_le := by simp

/-- The copying loop over a chain. -/
def fillChain (src : Nat → Cell) : Nat → List Pbuf → List Pbuf
  | _, [] => []
  | off, q :: qs => q.fill src off :: fillChain src (off + q.len) qs

/-- A filled chain, the first pbuf apart. -/
structure Packet where
  first : Pbuf
  rest : List Pbuf

/-- The bytes of a chain. -/
def Packet.payload (p : Packet) : List UInt8 := p.first.payload ++ p.rest.flatMap Pbuf.payload

/-! ## The handler's functions -/

/-- What the handler does to the world above the driver. Chains are numbered in the order of their allocation. -/
inductive RxEvent where
  /-- `pbuf_alloc` is asked for `length` bytes, the low half of `ulDataLength`; it returns chain `p` or `NULL`. -/
  | alloc (ulDataLength : UInt32) (length : UInt16) (p : Option Nat)
  /-- The two bytes of the EtherType are read. -/
  | readType (hi lo : Cell)
  /-- Chain `p` is passed to `netif->input` with these bytes, which returns `ERR_OK` or not. -/
  | input (p : Nat) (bytes : List UInt8) (ok : Bool)
  /-- `pbuf_free` of chain `p`. -/
  | free (p : Nat)
  /-- `EMAC_UpdateRxConsumeIndex`. -/
  | release
deriving DecidableEq, Repr

/-- What the pool and the stack answer. -/
structure RxOracle where
  alloc : (length : UInt16) → Option (PbufChain length.toNat)
  accepts : Bool

/-- The data length `prvLowLevelInput` computes: the size field less three, as unsigned. -/
def ulDataLength (h : RxHw) : UInt32 := h.emacGetReceiveDataSize - (4 - 1)

/-- `prvLowLevelInput`: what it asks for, and the filled chain, which gets the number `p`. -/
def prvLowLevelInput (h : RxHw) (o : RxOracle) (p : Nat) : List RxEvent × Option Packet :=
  if ulDataLength h > 0 then
    match o.alloc (ulDataLength h).toUInt16 with
    | none => ([.alloc (ulDataLength h) (ulDataLength h).toUInt16 none], none)
    | some c =>
      ([.alloc (ulDataLength h) (ulDataLength h).toUInt16 (some p)],
        some ⟨c.first.fill h.emacNextPacketToRead 0, fillChain h.emacNextPacketToRead c.first.len c.rest⟩)
  else ([], none)

/-- `htons(pxHeader->type)`. -/
def etherType (hi lo : UInt8) : UInt16 := (hi.toUInt16 <<< 8) ||| lo.toUInt16

/-- The types the handler passes up. -/
def ipOrArp (type : UInt16) : Bool := type == ethtypeIp || type == ethtypeArp

/-- The byte of the Ethernet header at offset `i`, read through `p->payload`. -/
def Packet.headerCell (p : Packet) (i : Nat) : Cell := p.first.mem.getD i ⟨0, false⟩

/-- The `switch` on the EtherType of chain `p`. -/
def deliver (o : RxOracle) (p : Nat) (pkt : Packet) : List RxEvent :=
  .readType (pkt.headerCell 12) (pkt.headerCell 13) ::
    if ipOrArp (etherType (pkt.headerCell 12).byte (pkt.headerCell 13).byte) then
      .input p pkt.payload o.accepts :: (if o.accepts then [] else [.free p])
    else [.free p]

/-- The handler's work on the descriptor at `RxConsumeIndex`, up to its release. -/
def serviceFrame (h : RxHw) (o : RxOracle) (p : Nat) : List RxEvent :=
  if h.emacCheckReceiveDataStatus emacRinfoLastFlag then
    match prvLowLevelInput h o p with
    | (ev, some pkt) => ev ++ deliver o p pkt
    | (ev, none) => ev
  else []

/-! ## The handler as a machine -/

/-- Where the handler is. -/
inductive RxPc where
  /-- It has returned. -/
  | idle
  /-- At the condition of the loop. -/
  | test
  | clear (ulInterruptCause : UInt32)
  | underrun (ulInterruptCause : UInt32)
  /-- At the test for a received frame. -/
  | check (ulInterruptCause : UInt32)
  /-- At the test of the LAST flag. -/
  | status
  | lowLevelInput
  | deliver (p : Nat) (pkt : Packet)
  | release

/-- A frame as the DMA writes it: the status word and the bytes, the CRC last. -/
structure RxFrame where
  info : UInt32
  bytes : List UInt8
deriving DecidableEq, Repr

/-- The receive half with the handler. `arrived` are the frames that got a descriptor, `asked` is the pool as each call of
`prvLowLevelInput` met it, `offered` the stack as each chain met it, and `pbufs` counts the chains allocated. -/
structure RxState where
  hw : RxHw
  masked : Bool
  pc : RxPc
  arrived : List RxFrame
  asked : List RxOracle
  offered : List RxOracle
  pbufs : Nat
  trace : List RxEvent

/-- After `rx_descr_init`, with interrupts enabled. -/
def rxInit (mem : Nat → Nat → UInt8) : RxState where
  hw := { rxProduceIndex := 0, rxConsumeIndex := 0, intStatus := 0, command := 0, slots := fun i => ⟨0, mem i⟩ }
  masked := false
  pc := .idle
  arrived := []
  asked := []
  offered := []
  pbufs := 0
  trace := []

/-- The steps of the DMA, of the rest of the system, and of the handler. -/
inductive RxAct where
  /-- The DMA completes a frame. -/
  | frame (f : RxFrame)
  /-- The EMAC raises interrupts other than RxDone. -/
  | event (bits : UInt32)
  /-- The running thread masks or unmasks interrupts. -/
  | mask (b : Bool)
  /-- The interrupt is taken. -/
  | enter
  /-- The handler's next step. -/
  | cpu (o : RxOracle)

/-- A frame is written to the descriptor at `RxProduceIndex`. -/
def RxSlot.store (slot : RxSlot) (f : RxFrame) : RxSlot where
  info := f.info
  mem := fun i => f.bytes.getD i (slot.mem i)

/-- The DMA completes a frame: it takes a descriptor unless the ring is full, and sets RxDone. -/
def RxState.complete (s : RxState) (f : RxFrame) : RxState :=
  let raised := { s.hw with intStatus := s.hw.intStatus ||| emacIntRxDone }
  if s.hw.full then { s with hw := raised }
  else
    let idx := s.hw.rxProduceIndex.toNat
    { s with
      hw := { raised with
        rxProduceIndex := rxNext s.hw.rxProduceIndex
        slots := Function.update s.hw.slots idx ((s.hw.slots idx).store f) }
      arrived := s.arrived ++ [f] }

/-- The handler's next step. -/
def RxState.cpu (s : RxState) (o : RxOracle) : Option RxState :=
  match s.pc with
  | .idle => none
  | .test => some { s with pc := if s.hw.intStatus ≠ 0 then .clear s.hw.intStatus else .idle }
  | .clear cause =>
    some { s with hw := { s.hw with intStatus := s.hw.intStatus &&& ~~~cause }, pc := .underrun cause }
  | .underrun cause =>
    some { s with
      hw := { s.hw with
        command := if cause &&& emacIntTxUnderrun ≠ 0 then s.hw.command ||| emacCrTxRes else s.hw.command }
      pc := .check cause }
  | .check cause =>
    some { s with pc := if cause &&& emacIntRxDone ≠ 0 ∧ s.hw.emacCheckReceiveIndex then .status else .test }
  | .status =>
    some { s with pc := if s.hw.emacCheckReceiveDataStatus emacRinfoLastFlag then .lowLevelInput else .release }
  | .lowLevelInput =>
    match prvLowLevelInput s.hw o s.pbufs with
    | (ev, some pkt) =>
      some { s with pc := .deliver s.pbufs pkt, asked := s.asked ++ [o], pbufs := s.pbufs + 1, trace := s.trace ++ ev }
    | (ev, none) => some { s with pc := .release, asked := s.asked ++ [o], trace := s.trace ++ ev }
  | .deliver p pkt => some { s with pc := .release, offered := s.offered ++ [o], trace := s.trace ++ deliver o p pkt }
  | .release => some { s with hw := s.hw.emacUpdateRxConsumeIndex, pc := .test, trace := s.trace ++ [.release] }

/-- A step of the receive half. -/
def rxStep (s : RxState) : RxAct → Option RxState
  | .frame f => some (s.complete f)
  | .event bits =>
    if bits &&& emacIntRxDone = 0 then some { s with hw := { s.hw with intStatus := s.hw.intStatus ||| bits } } else none
  | .mask b => match s.pc with
    | .idle => some { s with masked := b }
    | _ => none
  | .enter => match s.pc with
    | .idle => if s.masked = false ∧ s.hw.intStatus ≠ 0 then some { s with pc := .test } else none
    | _ => none
  | .cpu o => s.cpu o

end SaymaFirmware
