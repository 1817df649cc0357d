import SaymaFirmware.Lib.Machine
import SaymaFirmware.Lib.SeqNum

/-!
# Receiving on a TCP connection: `tcp_in.c`

`tcp_receive` passes data that is next in sequence to the application and keeps data that is not on `ooseq`, a queue sorted by sequence
number in which segments do not overlap; `tcp_input` hands data over, keeps what the application refuses, and reports the end;
`tcp_recved` opens the window again, and `tcp_update_rcv_ann_wnd` computes what of it is announced.

This is the receiving side of an open connection: segments carry no SYN or RST, and the application neither shuts down its side nor aborts
the connection. Of a pbuf chain only the bytes are kept, and a segment has its `len` apart from them, as in the source. The other side sends
pieces of one stream, which the network loses, repeats and reorders as it likes; what it sends is a part of each action. A failed assertion
is `none`.
-/

namespace SaymaFirmware

/-- `TCP_WND`. -/
def tcpWnd : Nat := 5840

/-- A segment with data, on its way in or on `ooseq`. -/
structure RcvSeg where
  seqno : Nat
  len : Nat
  data : List UInt8
  fin : Bool
deriving DecidableEq, Repr

/-- `TCP_TCPLEN`. -/
def RcvSeg.tcplen (seg : RcvSeg) : Nat := seg.len + if seg.fin then 1 else 0

/-- Set `len`, and `pbuf_realloc` the data to it, which can only shrink it. -/
def RcvSeg.realloc (seg : RcvSeg) (len : Nat) : RcvSeg := { seg with len := len, data := seg.data.take len }

/-- The receiving side of a protocol control block. No refused data is `[]`. -/
structure RcvPcb where
  mss : Nat
  rcvNxt : Nat
  rcvWnd : Nat
  annWnd : Nat
  annRightEdge : Nat
  ooseq : List RcvSeg
  refused : List UInt8
deriving DecidableEq, Repr

/-! ## The window -/

/-- `tcp_update_rcv_ann_wnd`. -/
def tcpUpdateRcvAnnWnd (pcb : RcvPcb) : Option RcvPcb :=
  if SeqNum.geq (add32 pcb.rcvNxt pcb.rcvWnd) (add32 pcb.annRightEdge (min (tcpWnd / 2) pcb.mss)) then
    some { pcb with annWnd := pcb.rcvWnd }
  else if SeqNum.gt pcb.rcvNxt pcb.annRightEdge then some { pcb with annWnd := 0 }
  else if sub32 pcb.annRightEdge pcb.rcvNxt ≤ 0xffff then some { pcb with annWnd := sub32 pcb.annRightEdge pcb.rcvNxt }
  else none

/-- What is received leaves the window. -/
def advance (pcb : RcvPcb) (tcplen : Nat) : Option RcvPcb :=
  if tcplen ≤ pcb.rcvWnd then
    tcpUpdateRcvAnnWnd { pcb with rcvNxt := add32 pcb.rcvNxt tcplen, rcvWnd := pcb.rcvWnd - tcplen }
  else none

/-- `tcp_recved`. -/
def tcpRecved (pcb : RcvPcb) (len : Nat) : Option RcvPcb :=
  if len ≤ 0xffff - pcb.rcvWnd then tcpUpdateRcvAnnWnd { pcb with rcvWnd := min (pcb.rcvWnd + len) tcpWnd } else none

/-- A header goes out, with the window in it. -/
def announce (pcb : RcvPcb) : RcvPcb := { pcb with annRightEdge := add32 pcb.rcvNxt pcb.annWnd }

/-! ## `tcp_receive` -/

/-- Trim the first edge. -/
def trimFront (rcvNxt : Nat) (inseg : RcvSeg) : Option RcvSeg :=
  if SeqNum.between rcvNxt (add32 inseg.seqno 1) (sub32 (add32 inseg.seqno inseg.tcplen) 1) then
    let off := sub32 rcvNxt inseg.seqno
    if off < 0x7fff ∧ off ≤ inseg.data.length then
      some { inseg with seqno := rcvNxt, len := inseg.len - off, data := inseg.data.drop off }
    else none
  else some inseg

/-- The end of a segment that takes in others, counting its FIN or not. -/
def coveredEnd (inseq : Bool) (seg : RcvSeg) : Nat := add32 seg.seqno (if inseq then seg.tcplen else seg.len)

/-- Drop the segments of `ooseq` that the segment covers, and take over their FIN. -/
def absorb (inseq : Bool) : RcvSeg → List RcvSeg → RcvSeg × List RcvSeg
  | seg, [] => (seg, [])
  | seg, next :: l =>
    if SeqNum.geq (coveredEnd inseq seg) (add32 next.seqno next.len) then absorb inseq { seg with fin := seg.fin || next.fin } l
    else (seg, next :: l)

/-- Does the segment reach into the first that is left on `ooseq`? -/
def overlaps (inseq : Bool) (seg : RcvSeg) : List RcvSeg → Bool
  | [] => false
  | next :: _ => SeqNum.gt (coveredEnd inseq seg) next.seqno

/-- Then trim it where that one starts. -/
def trimBack (inseq : Bool) (seg : RcvSeg) : List RcvSeg → RcvSeg
  | [] => seg
  | next :: l => if overlaps inseq seg (next :: l) then seg.realloc (sub32 next.seqno seg.seqno % 65536) else seg

/-- Trim a segment that is next in sequence to the window. -/
def trimWindow (rcvWnd : Nat) (inseg : RcvSeg) : RcvSeg :=
  if rcvWnd < inseg.tcplen then { inseg with fin := false }.realloc rcvWnd else inseg

/-- What a segment that is next in sequence does to `ooseq`, and `ooseq` to it. -/
def adjustOoseq (inseg : RcvSeg) (ooseq : List RcvSeg) : Option (RcvSeg × List RcvSeg) :=
  if inseg.fin then some (inseg, [])
  else
    let q := absorb true inseg ooseq
    let seg := trimBack true q.1 q.2
    if overlaps true q.1 q.2 ∧ ¬q.2.head?.any (fun next => add32 seg.seqno seg.tcplen = next.seqno) then none else some (seg, q.2)

/-- Take the segments off `ooseq` that are now in sequence: the state, their data, and whether a FIN was among them. -/
def drainOoseq : List RcvSeg → RcvPcb → Option (RcvPcb × List UInt8 × Bool)
  | [], pcb => some ({ pcb with ooseq := [] }, [], false)
  | cseg :: l, pcb =>
    if cseg.seqno = pcb.rcvNxt then
      (advance pcb cseg.tcplen).bind fun pcb => (drainOoseq l pcb).map fun r => (r.1, cseg.data ++ r.2.1, cseg.fin || r.2.2)
    else some ({ pcb with ooseq := cseg :: l }, [], false)

/-- The segment is next in sequence. -/
def receiveNext (pcb : RcvPcb) (inseg : RcvSeg) : Option (RcvPcb × List UInt8 × Bool) :=
  (adjustOoseq (trimWindow pcb.rcvWnd inseg) pcb.ooseq).bind fun q =>
    (advance pcb q.1.tcplen).bind fun pcb => (drainOoseq q.2 pcb).map fun r => (r.1, q.1.data ++ r.2.1, q.1.fin || r.2.2)

/-- `tcp_oos_insert_segment`. -/
def tcpOosInsertSegment (cseg : RcvSeg) (next : List RcvSeg) : List RcvSeg :=
  if cseg.fin then [cseg]
  else
    let q := absorb false cseg next
    trimBack false q.1 q.2 :: q.2

/-- Trim a segment of `ooseq` where a new one starts. -/
def trimBefore (seqno : Nat) (seg : RcvSeg) : RcvSeg :=
  if SeqNum.gt (add32 seg.seqno seg.len) seqno then seg.realloc (sub32 seqno seg.seqno % 65536) else seg

/-- Trim a segment that is put behind the last one to the window. The two edges are compared as plain numbers. -/
def trimOverrun (edge tcplen : Nat) (seg : RcvSeg) : Option RcvSeg :=
  if edge < add32 seg.seqno tcplen then
    let seg := { seg with fin := false }.realloc (sub32 edge seg.seqno % 65536)
    if add32 seg.seqno seg.tcplen = edge then some seg else none
  else some seg

/-- Is the segment between `prev` and `next`, or in front of the first one? -/
def goesBefore (seqno : Nat) (prev : Option RcvSeg) (next : RcvSeg) : Bool :=
  match prev with
  | none => SeqNum.lt seqno next.seqno
  | some prev => SeqNum.between seqno (add32 prev.seqno 1) (sub32 next.seqno 1)

/-- The walk through `ooseq`, with `prev` in hand. `mem` says whether there is memory for a copy. -/
def placeOoseq (edge tcplen : Nat) (mem : Bool) (inseg : RcvSeg) : Option RcvSeg → List RcvSeg → Option (List RcvSeg)
  | prev, [] => some prev.toList
  | prev, next :: l =>
    if inseg.seqno = next.seqno then
      some (prev.toList ++ if next.len < inseg.len ∧ mem then tcpOosInsertSegment inseg (next :: l) else next :: l)
    else if goesBefore inseg.seqno prev next then
      some (if mem then (prev.map (trimBefore inseg.seqno)).toList ++ tcpOosInsertSegment inseg (next :: l) else prev.toList ++ next :: l)
    else if l = [] ∧ SeqNum.gt inseg.seqno next.seqno then
      if next.fin ∨ ¬mem then some (prev.toList ++ [next])
      else (trimOverrun edge tcplen inseg).map fun seg => prev.toList ++ [trimBefore inseg.seqno next, seg]
    else (placeOoseq edge tcplen mem inseg (some next) l).map (prev.toList ++ ·)

/-- The segment is ahead of what is next. -/
def receiveAhead (pcb : RcvPcb) (inseg : RcvSeg) (tcplen : Nat) (mem : Bool) : Option RcvPcb :=
  if pcb.ooseq = [] then some { pcb with ooseq := if mem then [inseg] else [] }
  else (placeOoseq (add32 pcb.rcvNxt pcb.rcvWnd) tcplen mem inseg none pcb.ooseq).map fun ooseq => { pcb with ooseq := ooseq }

/-- The data part of `tcp_receive`: the new state, the data for the application, and whether the end was reached. `acked` says whether
the empty segments it sends get a header. -/
def tcpReceiveData (pcb : RcvPcb) (inseg : RcvSeg) (mem acked : Bool) : Option (RcvPcb × List UInt8 × Bool) :=
  (trimFront pcb.rcvNxt inseg).bind fun seg =>
    let told := if acked then announce pcb else pcb
    if SeqNum.between seg.seqno pcb.rcvNxt (sub32 (add32 pcb.rcvNxt pcb.rcvWnd) 1) then
      if pcb.rcvNxt = seg.seqno then receiveNext pcb seg
      else (receiveAhead told seg inseg.tcplen mem).map fun pcb => (pcb, [], false)
    else some (told, [], false)

/-! ## Runs -/

/-- A connection, with what the application has accepted and whether it has been told of the end. -/
structure RcvConn where
  pcb : RcvPcb
  received : List UInt8
  eof : Bool

/-- `TCP_EVENT_RECV`: the application accepts the data or not. What it does not accept is kept. -/
def eventRecv (s : RcvConn) (data : List UInt8) (accept : Bool) : RcvConn :=
  if accept then { s with received := s.received ++ data } else { s with pcb := { s.pcb with refused := data } }

/-- Offer the refused data again. -/
def offerRefused (s : RcvConn) (accept : Bool) : RcvConn :=
  if s.pcb.refused ≠ [] ∧ accept then
    { s with pcb := { s.pcb with refused := [] }, received := s.received ++ s.pcb.refused }
  else s

/-- After the end is received, the place it took in the window is free again. -/
def eventClosed (s : RcvConn) : RcvConn :=
  { s with pcb := { s.pcb with rcvWnd := if s.pcb.rcvWnd ≠ tcpWnd then s.pcb.rcvWnd + 1 else s.pcb.rcvWnd }, eof := true }

/-- `tcp_input`, from where the connection is found. `again` and `accept` are what the application says to refused and to new data. -/
def tcpInput (s : RcvConn) (inseg : RcvSeg) (mem acked again accept : Bool) : Option RcvConn :=
  let s := offerRefused s again
  if s.pcb.refused ≠ [] ∧ 0 < inseg.tcplen then some s
  else if inseg.tcplen = 0 then some s
  else
    (tcpReceiveData s.pcb inseg mem acked).bind fun r =>
      let s := { s with pcb := r.1 }
      if r.2.1 ≠ [] ∧ s.pcb.refused ≠ [] then none
      else
        let s := if r.2.1 ≠ [] then eventRecv s r.2.1 accept else s
        some (if r.2.2 then eventClosed s else s)

/-- What happens on a connection: `n` bytes of the stream arrive that start at the position `p`, with a FIN or without. -/
inductive RcvAct where
  | segment (p n : Nat) (fin mem acked again accept : Bool)
  | offer (accept : Bool)
  | recved (len : Nat)
  | announce

/-- The segment that carries a piece of the stream, of which the first byte has the number of the position `irs`. -/
def sentSeg (irs : Nat) (stream : List UInt8) (p n : Nat) (fin : Bool) : RcvSeg :=
  ⟨SeqNum.num (irs + p), n, (stream.drop p).take n, fin⟩

/-- What an action does. -/
def rcvStep (irs : Nat) (stream : List UInt8) (s : RcvConn) : RcvAct → Option RcvConn
  | .segment p n fin mem acked again accept => tcpInput s (sentSeg irs stream p n fin) mem acked again accept
  | .offer accept => some (offerRefused s accept)
  | .recved len => (tcpRecved s.pcb len).map fun pcb => { s with pcb := pcb }
  | .announce => some { s with pcb := announce s.pcb }

/-- A connection that has just been opened. -/
def RcvConn.init (mss irs : Nat) : RcvConn where
  pcb := ⟨mss, SeqNum.num irs, tcpWnd, tcpWnd, SeqNum.num irs, [], []⟩
  received := []
  eof := false

end SaymaFirmware
