import SaymaFirmware.Lemmas.TcpReceive

/-!
# What a TCP connection receives

The network may lose, repeat and reorder what the other side sends, in any pieces. The application is given the stream from its start on,
each byte once and in order, and is told of the end when that is reached; what it refuses is kept and offered again. A segment with the
next byte is taken as far as the window is open, and while the other side keeps to the window no assertion fails.

The one thing that can go wrong is the test for a segment that overruns the window: it compares the edges as plain numbers, so where these
wrap around it can take a short segment for one (`EdgeOk`).
-/

namespace SaymaFirmware

open SeqNum

/-- How far the stream has been received. The FIN has the place behind the last byte. -/
def RcvConn.position (s : RcvConn) : Nat := (s.received ++ s.pcb.refused).length + s.eof.toNat

/-- How far the segment of a step reaches, its FIN included. -/
def RcvAct.ends : RcvAct → Nat
  | .segment p n fin _ _ _ _ => p + (n + fin.toNat)
  | .offer _ | .recved _ | .announce => 0

/-- A segment carries a piece of the stream that is not half the number space away, with a FIN only at the end, and is not mistaken for
one that overruns the window. -/
def RcvAct.Sent (irs : Nat) (stream : List UInt8) (s : RcvConn) : RcvAct → Prop
  | .segment p n fin _ _ _ _ =>
    p + n ≤ stream.length ∧ (fin = true → p + n = stream.length) ∧ n < 65536 ∧ (p < s.position + 2 ^ 29 ∧ s.position < p + 2 ^ 29) ∧
      EdgeOk s.pcb (sentSeg irs stream p n fin)
  | .offer _ | .recved _ | .announce => True

instance (irs : Nat) (stream : List UInt8) (s : RcvConn) : DecidablePred (RcvAct.Sent irs stream s)
  | .segment .. => inferInstanceAs (Decidable (_ ∧ _))
  | .offer _ | .recved _ | .announce => inferInstanceAs (Decidable True)

/-- No assertion is in danger: the segment is not longer than an offset may be and keeps to the window, the application takes no more than
a window, and the edge of the window has been announced lately. -/
def RcvAct.Kept (irs : Nat) (stream : List UInt8) (s : RcvConn) : RcvAct → Prop
  | .segment p n fin mem acked again accept =>
    (RcvAct.segment p n fin mem acked again accept).Sent irs stream s ∧ p + (n + fin.toNat) ≤ s.position + s.pcb.rcvWnd ∧ n < 0x7fff ∧
      EdgeTold s.pcb
  | .recved len => len ≤ tcpWnd ∧ EdgeTold s.pcb
  | .offer _ | .announce => True

instance (irs : Nat) (stream : List UInt8) (s : RcvConn) : DecidablePred (RcvAct.Kept irs stream s)
  | .segment .. => inferInstanceAs (Decidable (_ ∧ _))
  | .recved _ => inferInstanceAs (Decidable (_ ∧ _))
  | .offer _ | .announce => inferInstanceAs (Decidable True)

namespace TcpReceptionAux

open TcpPiecesAux TcpReceiveAux

variable {irs top p k n n' : Nat} {stream data : List UInt8} {fin mem acked again accept : Bool} {s s' : RcvConn}

/-- The stream has been received up to the position `n`, and nothing that waits on `ooseq` ends behind `top`. -/
structure RcvInv (irs : Nat) (stream : List UInt8) (top : Nat) (s : RcvConn) (n : Nat) : Prop where
  at_n : RcvAt irs stream top s.pcb n
  data : s.received ++ s.pcb.refused = stream.take n
  eof : s.eof = true ↔ n = stream.length + 1

/-- The position can be read off the data and the end. -/
theorem position_eq (h : RcvInv irs stream top s n) : s.position = n := by
  have hle := h.at_n.le
  rw [RcvConn.position, h.data, List.length_take]
  cases heof : s.eof with
  | false =>
    have hne : n ≠ stream.length + 1 := by
      intro hn
      rw [h.eof.mpr hn] at heof
      cases heof
    rw [Bool.toNat_false]
    omega
  | true =>
    have hn := h.eof.mp heof
    rw [Bool.toNat_true]
    omega

theorem sentSeg_tcplen (irs : Nat) (stream : List UInt8) (p k : Nat) (fin : Bool) :
    (sentSeg irs stream p k fin).tcplen = k + fin.toNat := by
  cases fin <;> rfl

/-- What is sent is a piece of the stream. -/
theorem isPiece_sentSeg (hfits : p + k ≤ stream.length) (hfin : fin = true → p + k = stream.length) (hshort : k < 65536)
    (hsome : (sentSeg irs stream p k fin).tcplen ≠ 0) : IsPiece irs stream p (sentSeg irs stream p k fin) := by
  refine ⟨rfl, rfl, hfits, hfin, ?_, hshort⟩
  intro hf
  rw [tcplen_of_not_fin hf] at hsome
  exact Nat.pos_of_ne_zero hsome

/-- A wider window holds the same queue. -/
theorem rcvAt_widen {pcb pcb' : RcvPcb} (h : RcvAt irs stream top pcb n) (hnxt : pcb'.rcvNxt = pcb.rcvNxt)
    (hedge : pcb'.annRightEdge = pcb.annRightEdge) (hooseq : pcb'.ooseq = pcb.ooseq) (hle : pcb.rcvWnd ≤ pcb'.rcvWnd)
    (hwnd : pcb'.rcvWnd ≤ tcpWnd) : RcvAt irs stream top pcb' n :=
  ⟨hwnd, hnxt.trans h.nxt, hedge ▸ h.edge, h.le, hooseq ▸ oos_mono h.ooseq (Nat.le_refl _) (Nat.add_le_add_left hle n) (Nat.le_refl top)⟩

/-- Refused data that is accepted now goes behind what was accepted before. -/
theorem inv_offer (h : RcvInv irs stream top s n) (accept : Bool) : RcvInv irs stream top (offerRefused s accept) n := by
  unfold offerRefused
  split
  · refine ⟨⟨h.at_n.wnd, h.at_n.nxt, h.at_n.edge, h.at_n.le, h.at_n.ooseq⟩, ?_, h.eof⟩
    rw [← h.data]
    exact List.append_nil _
  · exact h

/-- Offering refused data leaves the rest of the connection. -/
theorem offerRefused_pcb (s : RcvConn) (accept : Bool) : ∃ l, (offerRefused s accept).pcb = { s.pcb with refused := l } := by
  unfold offerRefused
  split
  · exact ⟨[], rfl⟩
  · exact ⟨s.pcb.refused, rfl⟩

theorem offerRefused_rcvWnd (s : RcvConn) (accept : Bool) : (offerRefused s accept).pcb.rcvWnd = s.pcb.rcvWnd := by
  obtain ⟨l, hpcb⟩ := offerRefused_pcb s accept
  rw [hpcb]

/-- Afterwards there is none if there was none, or if it was accepted. -/
theorem offerRefused_refused (h : s.pcb.refused = [] ∨ accept = true) : (offerRefused s accept).pcb.refused = [] := by
  unfold offerRefused
  split
  · rfl
  · rename_i hc
    rcases h with h | h
    · exact h
    · by_contra hne
      exact hc ⟨hne, h⟩

/-- `tcp_recved` opens the window. -/
theorem inv_recved {pcb : RcvPcb} {len : Nat} (h : RcvInv irs stream top s n) (hs : tcpRecved s.pcb len = some pcb) :
    RcvInv irs stream top { s with pcb := pcb } n ∧ s.pcb.rcvWnd ≤ pcb.rcvWnd := by
  unfold tcpRecved at hs
  split at hs
  · obtain ⟨w, rfl⟩ := tcpUpdateRcvAnnWnd_some hs
    have hle : s.pcb.rcvWnd ≤ min (s.pcb.rcvWnd + len) tcpWnd := Nat.le_min.mpr ⟨Nat.le_add_right _ _, h.at_n.wnd⟩
    exact ⟨⟨rcvAt_widen h.at_n rfl rfl rfl hle (Nat.min_le_right _ _), h.data, h.eof⟩, hle⟩
  · cases hs

/-- New data goes to the application, or is kept if that does not accept it. -/
theorem eventRecv_spec (hat : RcvAt irs stream top s.pcb n) (hrefused : s.pcb.refused = []) (hdata : s.received ++ data = stream.take n) :
    RcvAt irs stream top (eventRecv s data accept).pcb n ∧
      (eventRecv s data accept).received ++ (eventRecv s data accept).pcb.refused = stream.take n ∧
      (eventRecv s data accept).eof = s.eof := by
  cases accept with
  | false => exact ⟨⟨hat.wnd, hat.nxt, hat.edge, hat.le, hat.ooseq⟩, hdata, rfl⟩
  | true =>
    refine ⟨hat, ?_, rfl⟩
    change s.received ++ data ++ s.pcb.refused = _
    rw [hrefused, List.append_nil, hdata]

/-- The end is reported. -/
theorem eventClosed_spec (hat : RcvAt irs stream top s.pcb n) : RcvAt irs stream top (eventClosed s).pcb n := by
  have hwnd := hat.wnd
  refine rcvAt_widen hat rfl rfl rfl ?_ ?_ <;> simp only [eventClosed] <;> split <;> omega

/-- Handing data over leaves the window, and the end opens it. -/
theorem received_rcvWnd (s : RcvConn) (r : RcvPcb × List UInt8 × Bool) (accept : Bool) (s₁ : RcvConn)
    (hs₁ : s₁ = if r.2.1 ≠ [] then eventRecv { s with pcb := r.1 } r.2.1 accept else { s with pcb := r.1 }) :
    r.1.rcvWnd ≤ (if r.2.2 then eventClosed s₁ else s₁).pcb.rcvWnd := by
  have hone : s₁.pcb.rcvWnd = r.1.rcvWnd := by
    rw [hs₁]
    split
    · cases accept <;> rfl
    · rfl
  rw [← hone]
  split
  · simp only [eventClosed]
    split <;> omega
  · exact Nat.le_refl _

/-- What `tcp_receive` has taken goes to the application. -/
theorem inv_received {r : RcvPcb × List UInt8 × Bool} (h : RcvInv irs stream top s n) (hempty : s.pcb.refused = [])
    (hr : Received irs stream top s.pcb n n' r) {s₁ : RcvConn}
    (hs₁ : s₁ = if r.2.1 ≠ [] then eventRecv { s with pcb := r.1 } r.2.1 accept else { s with pcb := r.1 }) :
    RcvInv irs stream top (if r.2.2 then eventClosed s₁ else s₁) n' := by
  have hrefused : r.1.refused = [] := hr.refused.trans hempty
  have hreceived : s.received = stream.take n := by
    have := h.data
    rwa [hempty, List.append_nil] at this
  have hdata : s.received ++ r.2.1 = stream.take n' := by rw [hreceived, hr.data]
  have hone : RcvAt irs stream top s₁.pcb n' ∧ s₁.received ++ s₁.pcb.refused = stream.take n' ∧ s₁.eof = s.eof := by
    rw [hs₁]
    split
    · exact eventRecv_spec hr.at_end hrefused hdata
    · rename_i hnil
      rw [not_not.mp hnil] at hdata
      refine ⟨hr.at_end, ?_, rfl⟩
      change s.received ++ r.1.refused = _
      rw [hrefused, hdata]
  obtain ⟨hat, hdata₁, heof⟩ := hone
  have hle := hr.le
  have hend := hr.at_end.le
  cases hfin : r.2.2 with
  | false =>
    refine ⟨hat, hdata₁, ?_⟩
    change s₁.eof = true ↔ _
    rw [heof, h.eof]
    exact ⟨fun hn => by omega, hr.not_fin hfin⟩
  | true => exact ⟨eventClosed_spec hat, hdata₁, iff_of_true rfl (hr.fin hfin)⟩

/-- A segment moves the position on, and if it has the next byte, as far as it reaches in the window. The edge of the window stays. -/
theorem inv_segment (h : RcvInv irs stream top s n) (hsent : (RcvAct.segment p k fin mem acked again accept).Sent irs stream s)
    (htop : p + (k + fin.toNat) ≤ top) (hs : tcpInput s (sentSeg irs stream p k fin) mem acked again accept = some s') :
    ∃ n', RcvInv irs stream top s' n' ∧ n ≤ n' ∧ n + s.pcb.rcvWnd ≤ n' + s'.pcb.rcvWnd ∧
      (s.pcb.refused = [] ∨ again = true → p ≤ n → min (p + (k + fin.toNat)) (n + s.pcb.rcvWnd) ≤ n') := by
  obtain ⟨hfits, hfin, hshort, hnear, hedge⟩ := hsent
  rw [position_eq h] at hnear
  have hinv := inv_offer h again
  obtain ⟨l, hpcb⟩ := offerRefused_pcb s again
  have hedge' : EdgeOk (offerRefused s again).pcb (sentSeg irs stream p k fin) := by rw [hpcb]; exact hedge
  have hwnd := offerRefused_rcvWnd s again
  unfold tcpInput at hs
  simp only at hs
  split at hs
  · rename_i hrefused
    obtain rfl := Option.some.inj hs
    exact ⟨n, hinv, Nat.le_refl n, Nat.add_le_add_left (Nat.le_of_eq hwnd.symm) n,
      fun hnone => absurd (offerRefused_refused hnone) hrefused.1⟩
  · rename_i hgo
    split at hs
    · rename_i hzero
      obtain rfl := Option.some.inj hs
      rw [sentSeg_tcplen] at hzero
      exact ⟨n, hinv, Nat.le_refl n, Nat.add_le_add_left (Nat.le_of_eq hwnd.symm) n, fun _ hp => by omega⟩
    · rename_i hsome
      have hempty : (offerRefused s again).pcb.refused = [] := by
        by_contra hne
        exact hgo ⟨hne, Nat.pos_of_ne_zero hsome⟩
      have hpiece := isPiece_sentSeg hfits hfin hshort hsome
      have hend : p + (sentSeg irs stream p k fin).tcplen ≤ top := by
        rw [sentSeg_tcplen]
        exact htop
      obtain ⟨r, hrecv, hs⟩ := Option.bind_eq_some_iff.mp hs
      obtain ⟨n', hr, htaken⟩ := tcpReceiveData_spec hinv.at_n hpiece hend hnear hedge' hrecv
      rw [sentSeg_tcplen, hwnd] at htaken
      have hkept := hr.edge
      rw [hwnd] at hkept
      split at hs
      · cases hs
      · obtain rfl := Option.some.inj hs
        refine ⟨n', inv_received hinv hempty hr rfl, hr.le, ?_, fun _ => htaken⟩
        rw [← hkept]
        exact Nat.add_le_add_left (received_rcvWnd _ _ _ _ rfl) n'

/-- Every step keeps what has been received a first part of the stream, and takes nothing back of the window. -/
theorem inv_step {a : RcvAct} (h : RcvInv irs stream top s n) (ha : a.Sent irs stream s) (htop : a.ends ≤ top)
    (hs : rcvStep irs stream s a = some s') :
    ∃ n', RcvInv irs stream top s' n' ∧ n ≤ n' ∧ n + s.pcb.rcvWnd ≤ n' + s'.pcb.rcvWnd := by
  cases a with
  | segment p k fin mem acked again accept =>
    obtain ⟨n', hinv, hle, hwnd, _⟩ := inv_segment h ha htop hs
    exact ⟨n', hinv, hle, hwnd⟩
  | offer accept =>
    obtain rfl := Option.some.inj hs
    exact ⟨n, inv_offer h accept, Nat.le_refl n, Nat.add_le_add_left (Nat.le_of_eq (offerRefused_rcvWnd s accept).symm) n⟩
  | recved len =>
    obtain ⟨pcb, hrecved, rfl⟩ := Option.map_eq_some_iff.mp hs
    obtain ⟨hinv, hle⟩ := inv_recved h hrecved
    exact ⟨n, hinv, Nat.le_refl n, Nat.add_le_add_left hle n⟩
  | announce =>
    obtain rfl := Option.some.inj hs
    exact ⟨n, ⟨rcvAt_announce h.at_n, h.data, h.eof⟩, Nat.le_refl n, Nat.le_refl _⟩

/-- A new connection is at the start of the stream. -/
theorem inv_init (mss irs : Nat) (stream : List UInt8) (top : Nat) : RcvInv irs stream top (RcvConn.init mss irs) 0 :=
  ⟨⟨Nat.le_refl _, rfl, Nat.mod_lt _ (by decide), Nat.zero_le _, trivial⟩, rfl,
    iff_of_false Bool.false_ne_true (Nat.succ_ne_zero _).symm⟩

/-- What is sent ends with the stream. -/
theorem ends_le_of_sent {a : RcvAct} (ha : a.Sent irs stream s) : a.ends ≤ stream.length + 1 := by
  cases a with
  | segment p k fin mem acked again accept =>
    obtain ⟨hfits, -⟩ := ha
    change p + (k + fin.toNat) ≤ _
    have := Bool.toNat_le fin
    omega
  | offer _ => exact Nat.zero_le _
  | recved _ => exact Nat.zero_le _
  | announce => exact Nat.zero_le _

/-- In every state reached. -/
theorem inv_of_sent {mss : Nat} (h : Reaches (rcvStep irs stream) (fun s a => a.Sent irs stream s) (RcvConn.init mss irs) s) :
    ∃ n, RcvInv irs stream (stream.length + 1) s n := by
  refine h.invariant (fun s => ∃ n, RcvInv irs stream (stream.length + 1) s n) ⟨0, inv_init mss irs stream _⟩ ?_
  rintro s a s' ⟨n, hinv⟩ ha hs
  obtain ⟨n', hinv', _⟩ := inv_step hinv ha (ends_le_of_sent ha) hs
  exact ⟨n', hinv'⟩

/-! ## No step fails -/

/-- What waits on `ooseq` may end later. -/
theorem inv_top {top' : Nat} (h : RcvInv irs stream top s n) (htop : top ≤ top') : RcvInv irs stream top' s n :=
  ⟨⟨h.at_n.wnd, h.at_n.nxt, h.at_n.edge, h.at_n.le, oos_mono h.at_n.ooseq (Nat.le_refl _) (Nat.le_refl _) htop⟩, h.data, h.eof⟩

/-- While everything ends inside of the window, so does what is on `ooseq`. -/
def InWindow (irs : Nat) (stream : List UInt8) (s : RcvConn) : Prop := ∃ n, RcvInv irs stream (n + s.pcb.rcvWnd) s n

theorem sent_of_kept {a : RcvAct} (ha : a.Kept irs stream s) : a.Sent irs stream s := by
  cases a with
  | segment p k fin mem acked again accept => exact ha.1
  | offer _ => trivial
  | recved _ => trivial
  | announce => trivial

/-- What keeps to the window ends in it. -/
theorem ends_le_of_kept {a : RcvAct} (ha : a.Kept irs stream s) : a.ends ≤ s.position + s.pcb.rcvWnd := by
  cases a with
  | segment p k fin mem acked again accept => exact ha.2.1
  | offer _ => exact Nat.zero_le _
  | recved _ => exact Nat.zero_le _
  | announce => exact Nat.zero_le _

/-- The window is never left. -/
theorem inWindow_of_kept {mss : Nat} (h : Reaches (rcvStep irs stream) (fun s a => a.Kept irs stream s) (RcvConn.init mss irs) s) :
    InWindow irs stream s := by
  refine h.invariant (InWindow irs stream) ⟨0, inv_init mss irs stream _⟩ ?_
  rintro s a s' ⟨n, hinv⟩ ha hs
  have hends := ends_le_of_kept ha
  rw [position_eq hinv] at hends
  obtain ⟨n', hinv', _, hwnd⟩ := inv_step hinv (sent_of_kept ha) hends hs
  exact ⟨n', inv_top hinv' hwnd⟩

/-- A segment that keeps to the window goes through. -/
theorem tcpInput_isSome (h : RcvInv irs stream (n + s.pcb.rcvWnd) s n)
    (ha : (RcvAct.segment p k fin mem acked again accept).Kept irs stream s) :
    ∃ s', tcpInput s (sentSeg irs stream p k fin) mem acked again accept = some s' := by
  obtain ⟨⟨hfits, hfin, hshort, hnear, hedge⟩, hend, hlen, htold⟩ := ha
  rw [position_eq h] at hnear hend
  have hinv := inv_offer h again
  obtain ⟨l, hpcb⟩ := offerRefused_pcb s again
  have hwnd := offerRefused_rcvWnd s again
  have hedge' : EdgeOk (offerRefused s again).pcb (sentSeg irs stream p k fin) := by rw [hpcb]; exact hedge
  have htold' : EdgeTold (offerRefused s again).pcb := by rw [hpcb]; exact htold
  unfold tcpInput
  simp only
  split
  · exact ⟨_, rfl⟩
  · rename_i hgo
    split
    · exact ⟨_, rfl⟩
    · rename_i hsome
      have hempty : (offerRefused s again).pcb.refused = [] := by
        by_contra hne
        exact hgo ⟨hne, Nat.pos_of_ne_zero hsome⟩
      have hpiece := isPiece_sentSeg hfits hfin hshort hsome
      rw [← sentSeg_tcplen irs stream p k fin] at hend
      obtain ⟨r, hrecv⟩ : ∃ r, tcpReceiveData (offerRefused s again).pcb (sentSeg irs stream p k fin) mem acked = some r :=
        Option.isSome_iff_exists.mp
          (tcpReceiveData_isSome hinv.at_n hpiece hend (Nat.add_le_add_left (Nat.le_of_eq hwnd.symm) n) htold' hnear hlen)
      obtain ⟨n', hr, _⟩ := tcpReceiveData_spec hinv.at_n hpiece hend hnear hedge' hrecv
      rw [hrecv, Option.bind_some, if_neg fun hc => hc.2 (hr.refused.trans hempty)]
      exact ⟨_, rfl⟩

/-- No step that keeps to the conditions ends in a failed assertion. -/
theorem rcvStep_isSome {a : RcvAct} (h : InWindow irs stream s) (ha : a.Kept irs stream s) : ∃ s', rcvStep irs stream s a = some s' := by
  obtain ⟨n, hinv⟩ := h
  cases a with
  | segment p k fin mem acked again accept => exact tcpInput_isSome hinv ha
  | offer accept => exact ⟨_, rfl⟩
  | recved len =>
    obtain ⟨pcb, hpcb⟩ := Option.isSome_iff_exists.mp (tcpRecved_isSome hinv.at_n ha.2 ha.1)
    exact ⟨_, by rw [rcvStep, hpcb, Option.map_some]⟩
  | announce => exact ⟨_, rfl⟩

end TcpReceptionAux

/-- A short stream. -/
def tenBytes : List UInt8 := [1, 2, 3, 4, 5, 6, 7, 8, 9, 10]

/-- A segment of it. -/
def gapSegment : RcvAct := .segment 1 4 false true true true true

open TcpReceptionAux in
/-- In every run, what the application has accepted and what it has refused are the stream up to the position, and it has been told of
the end exactly if that is behind the FIN. Unless refused data is in the way, a segment that starts at the position or before it moves
this on to its own end or to that of the window. -/
theorem tcp_receives_stream (mss irs : Nat) (stream : List UInt8) (s : RcvConn)
    (h : Reaches (rcvStep irs stream) (fun s a => a.Sent irs stream s) (RcvConn.init mss irs) s) :
    s.received ++ s.pcb.refused = stream.take s.position ∧ (s.eof = true ↔ s.position = stream.length + 1) ∧
      s.pcb.rcvNxt = num (irs + s.position) ∧
      ∀ p n fin mem acked again accept s', (RcvAct.segment p n fin mem acked again accept).Sent irs stream s →
        rcvStep irs stream s (.segment p n fin mem acked again accept) = some s' →
        s.position ≤ s'.position ∧ (s.pcb.refused = [] ∨ again = true → p ≤ s.position →
          min (p + (n + fin.toNat)) (s.position + s.pcb.rcvWnd) ≤ s'.position) := by
  obtain ⟨n, hinv⟩ := inv_of_sent h
  have hpos := position_eq hinv
  rw [hpos]
  refine ⟨hinv.data, hinv.eof, hinv.at_n.nxt, ?_⟩
  intro p k fin mem acked again accept s' hsent hs
  obtain ⟨n', hinv', hle, _, htaken⟩ := inv_segment hinv hsent (ends_le_of_sent hsent) hs
  rw [position_eq hinv']
  exact ⟨hle, htaken⟩

/-- Around the end of the sequence numbers: segments ahead of their turn, one of which overlaps the other and has the FIN, data that is
refused and then taken, and a segment that closes the gap and overlaps on both sides. -/
theorem tcp_receives_stream_gap :
    ∃ s s', Reaches (rcvStep 4294967293 tenBytes) (fun s a => a.Sent 4294967293 tenBytes s) (RcvConn.init 536 4294967293) s ∧
      (s.received = [1, 2] ∧ s.pcb.ooseq.map RcvSeg.data = [[5, 6], [7, 8, 9, 10]]) ∧
      rcvStep 4294967293 tenBytes s gapSegment = some s' ∧ (s'.received = tenBytes ∧ s'.eof = true) ∧ 5 ≤ s'.position := by
  obtain ⟨s, hs, hp⟩ := exists_reaches_of_exec (rcvStep 4294967293 tenBytes) (fun s a => decide (a.Sent 4294967293 tenBytes s))
    (RcvConn.init 536 4294967293)
    [.segment 4 3 false true true true true, .segment 6 4 true true true true true, .segment 0 2 false true true true false,
      .segment 2 3 false true true false true, .offer true]
    (fun s => decide (s.received = [1, 2] ∧ s.pcb.ooseq.map RcvSeg.data = [[5, 6], [7, 8, 9, 10]]) &&
      decide (gapSegment.Sent 4294967293 tenBytes s) && decide (s.pcb.refused = [] ∧ s.position = 2 ∧ s.pcb.rcvWnd = 5838) &&
      (rcvStep 4294967293 tenBytes s gapSegment).any fun s' : RcvConn => decide (s'.received = tenBytes ∧ s'.eof = true))
    (by decide +kernel)
  have hr : Reaches (rcvStep 4294967293 tenBytes) (fun s a => a.Sent 4294967293 tenBytes s) (RcvConn.init 536 4294967293) s :=
    hs.mono fun s a ha => of_decide_eq_true ha
  simp only [Bool.and_eq_true, decide_eq_true_eq] at hp
  obtain ⟨⟨⟨hqueue, hsent⟩, hrefused, hpos, hwnd⟩, hlast⟩ := hp
  obtain ⟨s', hs', hdone⟩ := (Option.any_eq_true _ _).mp hlast
  obtain ⟨_, _, _, hstep⟩ := tcp_receives_stream 536 4294967293 tenBytes s hr
  have htaken := (hstep 1 4 false true true true true s' hsent hs').2 (Or.inl hrefused) (by omega)
  rw [hpos, hwnd] at htaken
  exact ⟨s, s', hr, hqueue, hs', of_decide_eq_true hdone, by simpa using htaken⟩

/-- Where the window ends behind the last sequence number, a short segment can be mistaken for one that overruns it. It is made longer then,
and all of that is acknowledged. -/
example :
    (exec (rcvStep 4294961461 tenBytes) (fun _ _ => true) (RcvConn.init 536 4294961461)
      [.segment 3 2 false true true true true, .segment 7 2 false true true true true, .segment 0 3 false true true true true,
        .segment 5 2 false true true true true]).map (fun s => (s.pcb.rcvNxt, s.received.length)) = some (num (4294961461 + 5840), 9) := by
  decide +kernel

open TcpReceptionAux in
/-- While the other side keeps to the window, every step goes through, none takes back what has been received, and a segment with the next
byte is taken to its end. -/
theorem tcp_receive_goes_through (mss irs : Nat) (stream : List UInt8) (s : RcvConn)
    (h : Reaches (rcvStep irs stream) (fun s a => a.Kept irs stream s) (RcvConn.init mss irs) s) (a : RcvAct) (ha : a.Kept irs stream s) :
    ∃ s', rcvStep irs stream s a = some s' ∧ s.position ≤ s'.position ∧
      ∀ p n fin mem acked again accept, a = .segment p n fin mem acked again accept → s.pcb.refused = [] ∨ again = true →
        p ≤ s.position → p + (n + fin.toNat) ≤ s'.position := by
  have hin := inWindow_of_kept h
  obtain ⟨s', hs⟩ := rcvStep_isSome hin ha
  obtain ⟨n, hinv⟩ := hin
  have hends := ends_le_of_kept ha
  rw [position_eq hinv] at hends
  obtain ⟨n', hinv', hle, _⟩ := inv_step hinv (sent_of_kept ha) hends hs
  rw [← position_eq hinv, ← position_eq hinv'] at hle
  refine ⟨s', hs, hle, ?_⟩
  rintro p k fin mem acked again accept rfl hrefused hp
  obtain ⟨n₂, hinv₂, _, _, htaken⟩ := inv_segment hinv ha.1 hends hs
  rw [position_eq hinv] at hp
  have hmin := htaken hrefused hp
  have hwithin : p + (k + fin.toNat) ≤ n + s.pcb.rcvWnd := hends
  rw [Nat.min_eq_left hwithin] at hmin
  rw [position_eq hinv₂]
  exact hmin

/-- The window is told and opened again in between. -/
theorem tcp_receive_goes_through_gap :
    ∃ s s', Reaches (rcvStep 4294967293 tenBytes) (fun s a => a.Kept 4294967293 tenBytes s) (RcvConn.init 536 4294967293) s ∧
      (s.received = [1, 2] ∧ s.pcb.ooseq.map RcvSeg.data = [[5, 6], [7, 8, 9, 10]]) ∧
      rcvStep 4294967293 tenBytes s gapSegment = some s' ∧ 5 ≤ s'.position := by
  obtain ⟨s, hs, hp⟩ := exists_reaches_of_exec (rcvStep 4294967293 tenBytes) (fun s a => decide (a.Kept 4294967293 tenBytes s))
    (RcvConn.init 536 4294967293)
    [.segment 4 3 false true true true true, .segment 6 4 true true true true true, .segment 0 2 false true true true true, .announce,
      .recved 2]
    (fun s => decide (s.received = [1, 2] ∧ s.pcb.ooseq.map RcvSeg.data = [[5, 6], [7, 8, 9, 10]]) &&
      decide (gapSegment.Kept 4294967293 tenBytes s) && decide (s.pcb.refused = [] ∧ s.position = 2)) (by decide +kernel)
  have hr : Reaches (rcvStep 4294967293 tenBytes) (fun s a => a.Kept 4294967293 tenBytes s) (RcvConn.init 536 4294967293) s :=
    hs.mono fun s a ha => of_decide_eq_true ha
  simp only [Bool.and_eq_true, decide_eq_true_eq] at hp
  obtain ⟨⟨hqueue, hkept⟩, hrefused, hpos⟩ := hp
  obtain ⟨s', hs', _, htaken⟩ := tcp_receive_goes_through 536 4294967293 tenBytes s hr gapSegment hkept
  exact ⟨s, s', hr, hqueue, hs', htaken 1 4 false true true true true rfl (Or.inl hrefused) (by omega)⟩

end SaymaFirmware
