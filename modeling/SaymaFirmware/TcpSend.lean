import SaymaFirmware.InetChksum
import SaymaFirmware.Lib.Machine
import SaymaFirmware.Lib.SeqNum

/-!
# Sending on a TCP connection: `tcp_out.c`

`tcp_write` cuts what the application writes into segments and queues them on `unsent`; `tcp_output` sends them and moves them to
`unacked`; the acknowledgements in `tcp_receive` take them away; and `tcp_rexmit_rto` and `tcp_rexmit` move them back to `unsent`. The
checksum of a segment's data is kept with the segment and completed when it is sent.

This is the sending side of a connection that is open for data: there are no SYN, FIN or RST segments and no TCP options (the build has
no timestamps). Of a chain of pbufs only the bytes and the number of pbufs are kept. Memory is what is left of it in a call, `budget`:
the number of allocations that succeed before one fails. The windows and the flags `TF_ACK_NOW`, `TF_INFR` and `TF_FIN` are set by other
parts of the stack, so a call of `tcp_output` is given them. A failed assertion is `none`.
-/

namespace SaymaFirmware

/-- `TCP_SND_BUF`, `TCP_SND_QUEUELEN` and `TCP_OVERSIZE`. -/
def tcpSndBuf : Nat := 2920
def tcpSndQueuelen : Nat := 8
def tcpOversize : Nat := 1460

/-- `TCP_SNDQUEUELEN_OVERFLOW`. -/
def tcpSndqueuelenOverflow : Nat := 0xfffc

/-- A segment: `p` is its data and the number of pbufs it has it in, `sum` is `chksum` and `chksum_swapped`. -/
structure TcpSeg where
  seqno : Nat
  data : List UInt8
  clen : Nat
  oversizeLeft : Nat
  sum : Nat × Bool
  psh : Bool
deriving DecidableEq, Repr

/-- `len`. -/
def TcpSeg.len (seg : TcpSeg) : Nat := seg.data.length

/-- The sending side of a protocol control block. -/
structure TcpPcb where
  mss : Nat
  sndBuf : Nat
  sndQueuelen : Nat
  sndLbb : Nat
  sndNxt : Nat
  lastack : Nat
  unsent : List TcpSeg
  unacked : List TcpSeg
  unsentOversize : Nat
  nodelay : Bool
  nagleMemErr : Bool
deriving DecidableEq, Repr

/-- A write ends early. -/
inductive WriteFail where
  | mem
  | assertion
deriving DecidableEq, Repr

/-- `ERR_OK` and `ERR_MEM`. -/
inductive LwipErr where
  | ok
  | mem
deriving DecidableEq, Repr

/-- `a - b` on 16 bits. -/
def sub16 (a b : Nat) : Nat := (a + (65536 - b)) % 65536

/-! ## Checksums kept with a segment -/

def tcpSegAddChksum (chksum len : Nat) (seg : Nat × Bool) : Nat × Bool :=
  let sum := foldU32T (add32 chksum seg.1) % 65536
  if len % 2 ≠ 0 then (swapBytesInWord sum, !seg.2) else (sum, seg.2)

/-- The checksum of a piece of data: `LWIP_CHKSUM_COPY` when it is copied, `~inet_chksum` when it is not. -/
def pieceChksum (copy : Bool) (addr : Nat) (piece : List UInt8) : Nat :=
  if copy then lwipStandardChksum addr piece else not16 (inetChksum addr piece)

/-- The checksum of a new segment. -/
def startChksum (copy : Bool) (addr : Nat) (piece : List UInt8) : Nat × Bool :=
  if copy then tcpSegAddChksum (pieceChksum copy addr piece) piece.length (0, false) else (pieceChksum copy addr piece, false)

/-- `TCP_DATA_COPY` into the spare room of a segment. -/
def tailChksum (addr : Nat) (piece : List UInt8) (seg : Nat × Bool) : Nat × Bool :=
  tcpSegAddChksum (pieceChksum true addr piece) piece.length seg

/-- A pbuf that is chained to a segment: `concat_chksum` is built up from zero and then added. -/
def concatChksum (copy : Bool) (addr : Nat) (piece : List UInt8) (seg : Nat × Bool) : Nat × Bool :=
  tcpSegAddChksum (tcpSegAddChksum (pieceChksum copy addr piece) piece.length (0, false)).1 piece.length seg

/-! ## `tcp_write` -/

/-- One allocation. -/
def tcpAlloc : Nat → Except WriteFail Nat
  | 0 => .error .mem
  | budget + 1 => .ok budget

/-- `LWIP_MEM_ALIGN_SIZE`. -/
def lwipMemAlignSize (size : Nat) : Nat := (size + 3) / 4 * 4

/-- How much `tcp_pbuf_prealloc` asks for. -/
def preallocSize (pcb : TcpPcb) (length maxLength : Nat) (more firstSeg : Bool) : Nat :=
  if length < maxLength ∧ (more ∨ ¬pcb.nodelay ∧ (¬firstSeg ∨ pcb.unsent ≠ [] ∨ pcb.unacked ≠ [])) then
    min maxLength (lwipMemAlignSize (length + tcpOversize))
  else length

/-- `tcp_pbuf_prealloc`: the room at the end of the new pbuf, and what is left of the memory. -/
def tcpPbufPrealloc (pcb : TcpPcb) (budget length maxLength : Nat) (more firstSeg : Bool) : Except WriteFail (Nat × Nat) := do
  let budget ← tcpAlloc budget
  return (preallocSize pcb length maxLength more firstSeg - length, budget)

/-- While pbufs are counted, there are segments. -/
def validQueue (pcb : TcpPcb) : Bool := pcb.sndQueuelen = 0 || pcb.unacked ≠ [] || pcb.unsent ≠ []

def tcpWriteChecks (pcb : TcpPcb) (len : Nat) : Except WriteFail Unit :=
  if len = 0 then .ok ()
  else if pcb.sndBuf < len then .error .mem
  else if tcpSndQueuelen ≤ pcb.sndQueuelen ∨ tcpSndqueuelenOverflow < pcb.sndQueuelen then .error .mem
  else if pcb.sndQueuelen ≠ 0 then if pcb.unacked ≠ [] ∨ pcb.unsent ≠ [] then .ok () else .error .assertion
  else if pcb.unacked = [] ∧ pcb.unsent = [] then .ok ()
  else .error .assertion

/-- What the first two phases do to the last unsent segment: bytes put into its spare room, bytes chained to it, the room that is then
left, and what is left of the memory. -/
structure WriteTail where
  used : Nat
  concat : Nat
  oversize : Nat
  budget : Nat

/-- Phases 1 and 2. -/
def extendLast (pcb : TcpPcb) (last : TcpSeg) (budget len : Nat) (copy more : Bool) : Except WriteFail WriteTail :=
  if pcb.unsentOversize ≠ last.oversizeLeft then .error .assertion
  else
    let used := min pcb.unsentOversize len
    let oversize := pcb.unsentOversize - used
    let space := sub16 (sub16 pcb.mss last.len) used
    if oversize ≠ 0 ∧ used ≠ len then .error .assertion
    else if used < len ∧ 0 < space ∧ 0 < last.len then
      let seglen := min space (len - used)
      if copy then do
        let (oversize, budget) ← tcpPbufPrealloc pcb budget seglen space more true
        return ⟨used, seglen, oversize, budget⟩
      else do
        let budget ← tcpAlloc budget
        return ⟨used, seglen, oversize, budget⟩
    else .ok ⟨used, 0, oversize, budget⟩

/-- The segments of phase 3, the room at the end of the last one, and the number of pbufs in the queue. -/
structure WriteQueue where
  queue : List TcpSeg
  oversize : Nat
  queuelen : Nat

/-- The pbufs of a new segment: the room at the end, and what is left of the memory. -/
def newPbufs (pcb : TcpPcb) (budget oversize length : Nat) (copy more first : Bool) : Except WriteFail (Nat × Nat) :=
  if copy then tcpPbufPrealloc pcb budget length pcb.mss more first
  else if oversize ≠ 0 then .error .assertion
  else do
    let budget ← tcpAlloc budget
    let budget ← tcpAlloc budget
    return (oversize, budget)

/-- One segment of phase 3, with the room at its end, the number of pbufs in the queue, and what is left of the memory. -/
def newSeg (pcb : TcpPcb) (addr pos budget oversize queuelen : Nat) (piece : List UInt8) (copy more first : Bool) :
    Except WriteFail (TcpSeg × Nat × Nat × Nat) := do
  let (oversize, budget) ← newPbufs pcb budget oversize piece.length copy more first
  let clen := if copy then 1 else 2
  if tcpSndQueuelen < queuelen + clen ∨ tcpSndqueuelenOverflow < queuelen + clen then .error .mem
  else do
    let budget ← tcpAlloc budget
    return (⟨add32 pcb.sndLbb pos, piece, clen, oversize, startChksum copy addr piece, false⟩, oversize, queuelen + clen, budget)

/-- Phase 3. With an `mss` of zero the queue would grow until it is too long; `fuel` ends it in the same way. -/
def newSegs (pcb : TcpPcb) (place : Nat → Nat) (copy more : Bool) :
    Nat → Nat → Nat → Nat → Nat → List UInt8 → Bool → Except WriteFail WriteQueue
  | 0, _, _, oversize, queuelen, data, _ => if data = [] then .ok ⟨[], oversize, queuelen⟩ else .error .mem
  | fuel + 1, pos, budget, oversize, queuelen, data, first =>
    if data = [] then .ok ⟨[], oversize, queuelen⟩
    else do
      let seglen := min data.length pcb.mss
      let (seg, oversize, queuelen, budget) ← newSeg pcb (place pos) pos budget oversize queuelen (data.take seglen) copy more first
      let rest ← newSegs pcb place copy more fuel (pos + seglen) budget oversize queuelen (data.drop seglen) false
      return { rest with queue := seg :: rest.queue }

/-- The last unsent segment after the first two phases are committed. -/
def commitTail (last : TcpSeg) (tail : WriteTail) (place : Nat → Nat) (data : List UInt8) (copy : Bool) : TcpSeg :=
  let room := if copy ∧ 0 < tail.concat then tail.oversize else last.oversizeLeft
  let direct := data.take tail.used
  let chained := (data.drop tail.used).take tail.concat
  let sum := if 0 < tail.used then tailChksum (place 0) direct last.sum else last.sum
  { last with
    data := last.data ++ direct ++ chained
    clen := if 0 < tail.concat then last.clen + 1 else last.clen
    oversizeLeft := if 0 < tail.used then sub16 room tail.used else room
    sum := if 0 < tail.concat then concatChksum copy (place tail.used) chained sum else sum }

/-- Set the PSH flag in the last segment of a list. -/
def setPsh : List TcpSeg → List TcpSeg
  | [] => []
  | [seg] => [{ seg with psh := true }]
  | seg :: l => seg :: setPsh l

/-- The end of `tcp_write`: the new state of the connection. -/
def commitWrite (pcb : TcpPcb) (unsent : List TcpSeg) (len oversize queuelen : Nat) : TcpPcb :=
  { pcb with
    unsent := unsent
    unsentOversize := oversize
    sndLbb := add32 pcb.sndLbb len
    sndBuf := sub16 pcb.sndBuf len
    sndQueuelen := queuelen }

/-- The state after `memerr`. -/
def writeMemErr (pcb : TcpPcb) : Option (LwipErr × TcpPcb) :=
  if validQueue pcb then some (.mem, { pcb with nagleMemErr := true }) else none

/-- A write with nothing unsent. -/
def writeNew (pcb : TcpPcb) (place : Nat → Nat) (budget : Nat) (data : List UInt8) (copy more : Bool) : Option (LwipErr × TcpPcb) :=
  if pcb.unsentOversize ≠ 0 then none
  else
    match newSegs pcb place copy more data.length 0 budget 0 pcb.sndQueuelen data true with
    | .error .assertion => none
    | .error .mem => writeMemErr pcb
    | .ok q =>
      let pcb := commitWrite pcb (if more then q.queue else setPsh q.queue) data.length q.oversize q.queuelen
      if validQueue pcb then some (.ok, pcb) else none

/-- A write behind unsent segments, of which `last` is the last one. -/
def writeBehind (pcb : TcpPcb) (last : TcpSeg) (place : Nat → Nat) (budget : Nat) (data : List UInt8) (copy more : Bool) :
    Option (LwipErr × TcpPcb) :=
  match extendLast pcb last budget data.length copy more with
  | .error .assertion => none
  | .error .mem => writeMemErr pcb
  | .ok tail =>
    let pos := tail.used + tail.concat
    let queuelen := if 0 < tail.concat then pcb.sndQueuelen + 1 else pcb.sndQueuelen
    match newSegs pcb place copy more data.length pos tail.budget tail.oversize queuelen (data.drop pos) true with
    | .error .assertion => none
    | .error .mem =>
      -- the room at the end of the last segment has been noted there already
      let last := if copy ∧ 0 < tail.concat then { last with oversizeLeft := tail.oversize } else last
      writeMemErr { pcb with unsent := pcb.unsent.dropLast ++ [last] }
    | .ok q =>
      let last' := commitTail last tail place data copy
      let touched := decide (0 < pcb.unsentOversize ∨ 0 < tail.concat)
      let unsent :=
        if more = true ∨ q.queue = [] ∧ touched = false then pcb.unsent.dropLast ++ last' :: q.queue
        else pcb.unsent.dropLast ++ setPsh (last' :: q.queue)
      let pcb := commitWrite pcb unsent data.length q.oversize q.queuelen
      if validQueue pcb then some (.ok, pcb) else none

/-- `tcp_write` with `data` at `place 0`, or copied to there. -/
def tcpWrite (pcb : TcpPcb) (place : Nat → Nat) (budget : Nat) (data : List UInt8) (copy more : Bool) : Option (LwipErr × TcpPcb) :=
  match tcpWriteChecks pcb data.length with
  | .error .assertion => none
  | .error .mem => some (.mem, { pcb with nagleMemErr := true })
  | .ok () =>
    match pcb.unsent.getLast? with
    | none => writeNew pcb place budget data copy more
    | some last => writeBehind pcb last place budget data copy more

/-! ## `tcp_output` and the acknowledgements -/

/-- Into a list that is kept sorted. -/
def insertSeg (seg : TcpSeg) : List TcpSeg → List TcpSeg
  | [] => [seg]
  | s :: l => if SeqNum.lt s.seqno seg.seqno then s :: insertSeg seg l else seg :: s :: l

/-- What `tcp_output_segment` does to the checksum that is kept. -/
def tcpOutputSegment (seg : TcpSeg) : TcpSeg := { seg with sum := (unswap seg.sum, false) }

/-- What it puts into the checksum field, which is zero before. `p` is the segment with its header of `hdrlen` bytes. -/
def tcpOutputChksum (seg : TcpSeg) (p : List PbufSeg) (h : PseudoHdr) (hdrlen : Nat) : Option Nat :=
  (inetChksumPseudoPartial p h hdrlen).map fun acc => foldU32T (add32 acc (not16 (unswap seg.sum))) % 65536

/-- Behind the last unacknowledged segment, unless the segment is older. -/
def addUnacked (seg : TcpSeg) (unacked : List TcpSeg) : List TcpSeg :=
  match unacked.getLast? with
  | none => [seg]
  | some useg => if SeqNum.lt seg.seqno useg.seqno then insertSeg seg unacked else unacked ++ [seg]

/-- `tcp_do_output_nagle`. -/
def tcpDoOutputNagle (pcb : TcpPcb) (infr : Bool) : Bool :=
  pcb.unacked = [] || pcb.nodelay || infr ||
    match pcb.unsent with
    | [] => false
    | seg :: l => l ≠ [] || pcb.mss ≤ seg.len

/-- Send the first unsent segment. -/
def sendFirst (pcb : TcpPcb) (seg : TcpSeg) (rest : List TcpSeg) : TcpPcb :=
  let sndNxt := add32 seg.seqno seg.len
  { pcb with
    unsent := rest
    sndNxt := if SeqNum.lt pcb.sndNxt sndNxt then sndNxt else pcb.sndNxt
    unacked := if 0 < seg.len then addUnacked (tcpOutputSegment seg) pcb.unacked else pcb.unacked }

/-- The loop of `tcp_output`. -/
def tcpOutputLoop (wnd : Nat) (infr fin : Bool) : Nat → TcpPcb → TcpPcb
  | 0, pcb => pcb
  | n + 1, pcb =>
    match pcb.unsent with
    | [] => pcb
    | seg :: rest =>
      if add32 (sub32 seg.seqno pcb.lastack) seg.len ≤ wnd ∧ (tcpDoOutputNagle pcb infr ∨ pcb.nagleMemErr ∨ fin) then
        tcpOutputLoop wnd infr fin n (sendFirst pcb seg rest)
      else pcb

def tcpOutput (wnd : Nat) (ackNow infr fin : Bool) (pcb : TcpPcb) : TcpPcb :=
  -- with `TF_ACK_NOW` and no segment to carry the acknowledgement, an empty one is sent instead
  if ackNow ∧ pcb.unsent.head?.all (fun seg => wnd < add32 (sub32 seg.seqno pcb.lastack) seg.len) then pcb
  else
    let pcb := tcpOutputLoop wnd infr fin pcb.unsent.length pcb
    { pcb with unsentOversize := if pcb.unsent = [] then 0 else pcb.unsentOversize, nagleMemErr := false }

/-- The loops of `tcp_receive` that remove segments: those at the front for which `acked` holds, while `other` is the other queue. -/
def removeAcked (acked : TcpSeg → Bool) (other : List TcpSeg) : Nat → List TcpSeg → Option (Nat × List TcpSeg)
  | queuelen, [] => some (queuelen, [])
  | queuelen, seg :: l =>
    if acked seg then
      if seg.clen ≤ queuelen then
        if queuelen - seg.clen ≠ 0 ∧ other = [] ∧ l = [] then none else removeAcked acked other (queuelen - seg.clen) l
      else none
    else some (queuelen, seg :: l)

/-- An acknowledgement of new data, on `unacked`. -/
def ackNew (pcb : TcpPcb) (ackno : Nat) : Option TcpPcb :=
  let pcb := { pcb with sndBuf := (pcb.sndBuf + sub32 ackno pcb.lastack % 65536) % 65536, lastack := ackno }
  (removeAcked (fun seg => SeqNum.leq (add32 seg.seqno seg.len) ackno) pcb.unsent pcb.sndQueuelen pcb.unacked).map fun q =>
    { pcb with sndQueuelen := q.1, unacked := q.2 }

/-- Segments on `unsent` that have been sent before, and are acknowledged now. -/
def ackUnsent (pcb : TcpPcb) (ackno : Nat) : Option TcpPcb :=
  (removeAcked (fun seg => SeqNum.between ackno (add32 seg.seqno seg.len) pcb.sndNxt) pcb.unacked pcb.sndQueuelen pcb.unsent).map fun q =>
    { pcb with sndQueuelen := q.1, unsent := q.2 }

/-- The ACK processing of `tcp_receive`, as far as it concerns the queues. -/
def tcpReceiveAck (pcb : TcpPcb) (ackno : Nat) : Option TcpPcb :=
  if SeqNum.leq ackno pcb.lastack then ackUnsent pcb ackno
  else if SeqNum.between ackno (add32 pcb.lastack 1) pcb.sndNxt then (ackNew pcb ackno).bind fun pcb => ackUnsent pcb ackno
  else ackUnsent pcb ackno

/-- `tcp_rexmit_rto`. -/
def tcpRexmitRto (wnd : Nat) (ackNow infr fin : Bool) (pcb : TcpPcb) : TcpPcb :=
  if pcb.unacked = [] then pcb
  else tcpOutput wnd ackNow infr fin { pcb with unsent := pcb.unacked ++ pcb.unsent, unacked := [] }

/-- `tcp_rexmit`. -/
def tcpRexmit (pcb : TcpPcb) : TcpPcb :=
  match pcb.unacked with
  | [] => pcb
  | seg :: rest => { pcb with unacked := rest, unsent := insertSeg seg pcb.unsent }

/-! ## Runs -/

/-- A connection, and what the application has written to it so far. -/
structure TcpConn where
  pcb : TcpPcb
  written : List UInt8

/-- What happens on a connection. -/
inductive TcpAct where
  | write (place : Nat → Nat) (budget : Nat) (data : List UInt8) (copy more : Bool)
  | output (wnd : Nat) (ackNow infr fin : Bool)
  | ack (ackno : Nat)
  | rto (wnd : Nat) (ackNow infr fin : Bool)
  | rexmit

def tcpStep (s : TcpConn) : TcpAct → Option TcpConn
  | .write place budget data copy more =>
    (tcpWrite s.pcb place budget data copy more).map fun r => ⟨r.2, if r.1 = .ok then s.written ++ data else s.written⟩
  | .output wnd ackNow infr fin => some { s with pcb := tcpOutput wnd ackNow infr fin s.pcb }
  | .ack ackno => (tcpReceiveAck s.pcb ackno).map fun pcb => { s with pcb := pcb }
  | .rto wnd ackNow infr fin => some { s with pcb := tcpRexmitRto wnd ackNow infr fin s.pcb }
  | .rexmit => some { s with pcb := tcpRexmit s.pcb }

/-- An open connection on which nothing has been written. Its first byte has the number of the position `iss`. -/
def TcpConn.init (mss iss : Nat) (nodelay : Bool) : TcpConn where
  pcb := ⟨mss, tcpSndBuf, 0, SeqNum.num iss, SeqNum.num iss, SeqNum.num iss, [], [], 0, nodelay, false⟩
  written := []

end SaymaFirmware
