import SaymaFirmware.Lemmas.TcpPieces

/-!
# What `tcp_receive` does with a piece of the stream

`RcvAt` says that the stream has been received up to the position `n`: `rcv_nxt` is its number, and what is on `ooseq` starts behind it and
inside of the window. A segment moves the position on (`Received`), by the data that goes to the application and the end of the stream.

What ends up on `ooseq` ends no later than a bound `top`. In any run that is the end of the stream; while the other side keeps to the
window it is the end of the window, and then no assertion fails.
-/

namespace SaymaFirmware

open SeqNum

/-- The stream has been received up to the position `n`; the FIN stands behind its last byte. -/
structure RcvAt (irs : Nat) (stream : List UInt8) (top : Nat) (pcb : RcvPcb) (n : Nat) : Prop where
  wnd : pcb.rcvWnd ≤ tcpWnd
  nxt : pcb.rcvNxt = num (irs + n)
  edge : pcb.annRightEdge < 2 ^ 32
  le : n ≤ stream.length + 1
  ooseq : Oos irs stream (n + pcb.rcvWnd) top (n + 1) pcb.ooseq

/-- A segment that is put behind the last one on `ooseq`, and that the comparison of the two edges as plain numbers takes for one beyond the
window, is beyond it. -/
def EdgeOk (pcb : RcvPcb) (seg : RcvSeg) : Prop :=
  ∀ last ∈ pcb.ooseq.getLast?, gt seg.seqno last.seqno = true →
    add32 pcb.rcvNxt pcb.rcvWnd < add32 seg.seqno seg.tcplen → lt (add32 pcb.rcvNxt pcb.rcvWnd) (add32 seg.seqno seg.tcplen) = true

instance (pcb : RcvPcb) (seg : RcvSeg) : Decidable (EdgeOk pcb seg) := inferInstanceAs (Decidable (∀ last ∈ pcb.ooseq.getLast?, _))

/-- What a step of the receiver does: it goes on to `n'`, `data` is what lies between, and `fin` says whether the end does. -/
structure Received (irs : Nat) (stream : List UInt8) (top : Nat) (pcb : RcvPcb) (n n' : Nat) (r : RcvPcb × List UInt8 × Bool) : Prop where
  at_end : RcvAt irs stream top r.1 n'
  le : n ≤ n'
  data : stream.take n ++ r.2.1 = stream.take n'
  fin : r.2.2 = true → n' = stream.length + 1
  not_fin : r.2.2 = false → n' = stream.length + 1 → n = stream.length + 1
  refused : r.1.refused = pcb.refused
  edge : n' + r.1.rcvWnd = n + pcb.rcvWnd

namespace TcpReceiveAux

open TcpPiecesAux

variable {irs p n top : Nat} {stream : List UInt8} {seg : RcvSeg} {pcb pcb' : RcvPcb} {l : List RcvSeg}

/-- The announced window is all that changes. -/
theorem tcpUpdateRcvAnnWnd_some (h : tcpUpdateRcvAnnWnd pcb = some pcb') : ∃ w, pcb' = { pcb with annWnd := w } := by
  unfold tcpUpdateRcvAnnWnd at h
  split at h
  · exact ⟨_, (Option.some.inj h).symm⟩
  · split at h
    · exact ⟨_, (Option.some.inj h).symm⟩
    · split at h
      · exact ⟨_, (Option.some.inj h).symm⟩
      · cases h

theorem advance_some {tcplen : Nat} (h : advance pcb tcplen = some pcb') :
    tcplen ≤ pcb.rcvWnd ∧ ∃ w, pcb' = { pcb with rcvNxt := add32 pcb.rcvNxt tcplen, rcvWnd := pcb.rcvWnd - tcplen, annWnd := w } := by
  unfold advance at h
  split at h
  · rename_i hle
    obtain ⟨w, rfl⟩ := tcpUpdateRcvAnnWnd_some h
    exact ⟨hle, w, rfl⟩
  · cases h

/-- Behind the end of the stream there is nothing to take. -/
theorem take_tcplen (h : IsPiece irs stream p seg) : stream.take p ++ seg.data = stream.take (p + seg.tcplen) := by
  rw [take_append_data h, RcvSeg.tcplen]
  split
  · rename_i hfin
    rw [← Nat.add_assoc, h.fin hfin, List.take_length, List.take_of_length_le (by omega)]
  · rfl

theorem tcplen_le (seg : RcvSeg) : seg.len ≤ seg.tcplen ∧ seg.tcplen ≤ seg.len + 1 := by
  rw [RcvSeg.tcplen]
  split <;> omega

/-- A segment has the FIN if it ends behind the last byte. -/
theorem tcplen_fin (h : IsPiece irs stream p seg) : seg.fin = true ↔ p + seg.tcplen = stream.length + 1 := by
  have hfits := h.fits
  rw [RcvSeg.tcplen]
  constructor
  · intro hfin
    rw [if_pos hfin, ← Nat.add_assoc, h.fin hfin]
  · intro hend
    split at hend
    · assumption
    · omega

/-- A header that goes out changes the announced edge only. -/
theorem rcvAt_announce (h : RcvAt irs stream top pcb n) : RcvAt irs stream top (announce pcb) n :=
  ⟨h.wnd, h.nxt, Nat.mod_lt _ (by decide), h.le, h.ooseq⟩

/-- A piece that is next is taken, and then what comes behind it. -/
theorem received_after {pcb₁ : RcvPcb} {n' : Nat} {r : RcvPcb × List UInt8 × Bool} (h : IsPiece irs stream n seg)
    (htcplen : seg.tcplen ≤ pcb.rcvWnd) (hr : Received irs stream top pcb₁ (n + seg.tcplen) n' r)
    (hwnd : pcb₁.rcvWnd = pcb.rcvWnd - seg.tcplen) (hrefused : pcb₁.refused = pcb.refused) :
    Received irs stream top pcb n n' (r.1, seg.data ++ r.2.1, seg.fin || r.2.2) where
  at_end := hr.at_end
  le := Nat.le_trans (Nat.le_add_right _ _) hr.le
  data := by
    rw [← List.append_assoc, take_tcplen h]
    exact hr.data
  fin hf := by
    rcases Bool.or_eq_true_iff.mp hf with hf | hf
    · have hend := (tcplen_fin h).mp hf
      have hge := hr.le
      have hle := hr.at_end.le
      omega
    · exact hr.fin hf
  not_fin hf hn' := by
    obtain ⟨hsf, hrf⟩ := Bool.or_eq_false_iff.mp hf
    have hback := (tcplen_fin h).mpr (hr.not_fin hrf hn')
    rw [hsf] at hback
    cases hback
  refused := hr.refused.trans hrefused
  edge := by
    have hedge := hr.edge
    rw [hwnd] at hedge
    dsimp only
    omega

/-- Nothing is taken. -/
theorem received_none (h : RcvAt irs stream top pcb' n) (hrefused : pcb'.refused = pcb.refused) (hwnd : pcb'.rcvWnd = pcb.rcvWnd) :
    Received irs stream top pcb n n (pcb', [], false) :=
  ⟨h, Nat.le_refl n, List.append_nil _, Bool.noConfusion, fun _ hn => hn, hrefused, by rw [hwnd]⟩

/-- Segments that are now in sequence come off the queue, the first one at least. -/
theorem drainOoseq_spec {hi : Nat} {r : RcvPcb × List UInt8 × Bool} (hs : drainOoseq l pcb = some r) (hwnd : pcb.rcvWnd ≤ tcpWnd)
    (hhi : hi = n + pcb.rcvWnd) (hnxt : pcb.rcvNxt = num (irs + n)) (hedge : pcb.annRightEdge < 2 ^ 32) (hle : n ≤ stream.length + 1)
    (hl : Oos irs stream hi top n l) :
    ∃ n', Received irs stream top pcb n n' r ∧ ∀ seg ∈ l.head?, seg.seqno = num (irs + n) → n + seg.tcplen ≤ n' := by
  induction l generalizing pcb n r with
  | nil =>
    obtain rfl := Option.some.inj hs
    exact ⟨n, received_none ⟨hwnd, hnxt, hedge, hle, trivial⟩ rfl rfl, nofun⟩
  | cons cseg l ih =>
    obtain ⟨q, hq, ⟨hlt, htop⟩, hpiece, hfin, hrest⟩ := id hl
    rw [tcpWnd] at hwnd
    have hsame : cseg.seqno = pcb.rcvNxt ↔ q = n := by
      rw [hpiece.seqno, hnxt, num_inj (by omega) (by omega), Nat.add_left_cancel_iff]
    have hend := isPiece_end hpiece
    unfold drainOoseq at hs
    split at hs
    · rename_i hseq
      obtain rfl := hsame.mp hseq
      obtain ⟨pcb₁, hadv, hrun⟩ := Option.bind_eq_some_iff.mp hs
      obtain ⟨r₁, hdrain, rfl⟩ := Option.map_eq_some_iff.mp hrun
      obtain ⟨htcplen, w, rfl⟩ := advance_some hadv
      -- behind a FIN there is nothing
      have hrest' : Oos irs stream hi top (q + cseg.tcplen) l := by
        cases hf : cseg.fin with
        | false => rwa [tcplen_of_not_fin hf]
        | true =>
          rw [hfin hf]
          trivial
      have hnxt' : add32 pcb.rcvNxt cseg.tcplen = num (irs + (q + cseg.tcplen)) := by rw [hnxt, num_add, Nat.add_assoc]
      have hwnd' : pcb.rcvWnd - cseg.tcplen ≤ tcpWnd := by
        rw [tcpWnd]
        omega
      have hhi' : hi = q + cseg.tcplen + (pcb.rcvWnd - cseg.tcplen) := by omega
      obtain ⟨n', hr, _⟩ := ih hdrain hwnd' hhi' hnxt' hedge hend hrest'
      refine ⟨n', received_after hpiece htcplen hr rfl rfl, ?_⟩
      intro seg hseg _
      obtain rfl := Option.some.inj hseg
      exact hr.le
    · rename_i hseq
      obtain rfl := Option.some.inj hs
      have hne : q ≠ n := fun h => hseq (hsame.mpr h)
      have hqueue : Oos irs stream (n + pcb.rcvWnd) top (n + 1) (cseg :: l) :=
        ⟨q, by omega, ⟨hhi ▸ hlt, htop⟩, hpiece, hfin, hhi ▸ hrest⟩
      refine ⟨n, received_none ⟨by rw [tcpWnd]; exact hwnd, hnxt, hedge, hle, hqueue⟩ rfl rfl, ?_⟩
      intro seg hseg hnum
      obtain rfl := Option.some.inj hseg
      exact absurd (hnxt ▸ hnum) hseq

/-- Trimmed to an open window, a piece ends where it did or where the window does. -/
theorem trimWindow_spec {rcvWnd : Nat} (h : IsPiece irs stream p seg) (hwnd : 0 < rcvWnd) :
    IsPiece irs stream p (trimWindow rcvWnd seg) ∧ (trimWindow rcvWnd seg).tcplen = min seg.tcplen rcvWnd := by
  have hlen := tcplen_le seg
  unfold trimWindow
  split
  · rename_i hover
    refine ⟨isPiece_trim h (by omega), ?_⟩
    rw [tcplen_of_not_fin rfl, Nat.min_eq_right (Nat.le_of_lt hover)]
    rfl
  · rename_i hle
    exact ⟨h, (Nat.min_eq_left (Nat.le_of_not_lt hle)).symm⟩

/-- The segment that is next and the queue, made to fit. -/
theorem adjustOoseq_spec {hi : Nat} {q : RcvSeg × List RcvSeg} (h : IsPiece irs stream n seg) (htop : n + seg.tcplen ≤ top)
    (hhi : hi ≤ n + 2 ^ 16) (hl : Oos irs stream hi top (n + 1) l) (hs : adjustOoseq seg l = some q) :
    IsPiece irs stream n q.1 ∧ n + q.1.tcplen ≤ top ∧ Oos irs stream hi top (n + q.1.tcplen) q.2 ∧
      (seg.tcplen ≤ q.1.tcplen ∨
        ∃ next l', q.2 = next :: l' ∧ next.seqno = num (irs + (n + q.1.tcplen)) ∧ seg.tcplen ≤ q.1.tcplen + next.tcplen) := by
  unfold adjustOoseq at hs
  split at hs
  · obtain rfl := Option.some.inj hs
    exact ⟨h, htop, trivial, Or.inl (Nat.le_refl _)⟩
  · rename_i hf
    have hfin := Bool.eq_false_iff.mpr hf
    obtain ⟨hfit, _⟩ := fitted_trimBack true h htop hfin (Nat.lt_succ_self n) hhi hl rfl
    simp only at hs
    split at hs
    · cases hs
    · obtain rfl := Option.some.inj hs
      have hge := (tcplen_le (trimBack true (absorb true seg l).1 (absorb true seg l).2)).1
      have htcplen := tcplen_of_not_fin hfin
      refine ⟨hfit.piece, hfit.ends, ?_, ?_⟩
      · cases hf' : (trimBack true (absorb true seg l).1 (absorb true seg l).2).fin with
        | false =>
          rw [tcplen_of_not_fin hf']
          exact hfit.queue
        | true =>
          simp only [hfit.fin hf']
          trivial
      · rcases hfit.reach with hreach | ⟨next, l', heq, hseq, hreach⟩
        · exact Or.inl (by dsimp only; omega)
        · have hf' : (trimBack true (absorb true seg l).1 (absorb true seg l).2).fin = false := by
            rw [Bool.eq_false_iff]
            intro hf'
            rw [hfit.fin hf'] at heq
            cases heq
          have hnext := (tcplen_le next).1
          refine Or.inr ⟨next, l', heq, ?_, ?_⟩
          · dsimp only
            rw [tcplen_of_not_fin hf']
            exact hseq
          · dsimp only
            omega

/-- A segment that is next in sequence is taken as far as the window goes, and what was waiting for it with it. -/
theorem receiveNext_spec {r : RcvPcb × List UInt8 × Bool} (hat : RcvAt irs stream top pcb n) (h : IsPiece irs stream n seg)
    (htop : n + seg.tcplen ≤ top) (hwnd : 0 < pcb.rcvWnd) (hs : receiveNext pcb seg = some r) :
    ∃ n', Received irs stream top pcb n n' r ∧ min (n + seg.tcplen) (n + pcb.rcvWnd) ≤ n' := by
  have hle := hat.wnd
  rw [tcpWnd] at hle
  obtain ⟨htrim, hmin⟩ := trimWindow_spec h hwnd
  obtain ⟨q, hadj, hs⟩ := Option.bind_eq_some_iff.mp hs
  obtain ⟨hpiece, _, hqueue, hreach⟩ := adjustOoseq_spec htrim (by omega) (by omega) hat.ooseq hadj
  obtain ⟨pcb₁, hadv, hrun⟩ := Option.bind_eq_some_iff.mp hs
  obtain ⟨r₁, hdrain, rfl⟩ := Option.map_eq_some_iff.mp hrun
  obtain ⟨htcplen, w, rfl⟩ := advance_some hadv
  have hnxt : add32 pcb.rcvNxt q.1.tcplen = num (irs + (n + q.1.tcplen)) := by rw [hat.nxt, num_add, Nat.add_assoc]
  have hwnd' : pcb.rcvWnd - q.1.tcplen ≤ tcpWnd := Nat.le_trans (Nat.sub_le _ _) hat.wnd
  have hhi : n + pcb.rcvWnd = n + q.1.tcplen + (pcb.rcvWnd - q.1.tcplen) := by omega
  obtain ⟨n', hr, hhead⟩ := drainOoseq_spec hdrain hwnd' hhi hnxt hat.edge (isPiece_end hpiece) hqueue
  refine ⟨n', received_after hpiece htcplen hr rfl rfl, ?_⟩
  have hge := hr.le
  rcases hreach with hreach | ⟨next, l', heq, hseq, hreach⟩
  · omega
  · have := hhead next (heq ▸ rfl) hseq
    omega

/-- A segment that is ahead of what is next goes to its place on `ooseq`, if there is memory for it. -/
theorem receiveAhead_spec {mem : Bool} (hat : RcvAt irs stream top pcb n) (h : IsPiece irs stream p seg)
    (htop : p + seg.tcplen ≤ top) (hp : n < p ∧ p < n + pcb.rcvWnd)
    (hedge : EdgeOk pcb seg) (hs : receiveAhead pcb seg seg.tcplen mem = some pcb') :
    RcvAt irs stream top pcb' n ∧ pcb'.refused = pcb.refused ∧ pcb'.rcvWnd = pcb.rcvWnd := by
  have hle := hat.wnd
  rw [tcpWnd] at hle
  unfold receiveAhead at hs
  split at hs
  · obtain rfl := Option.some.inj hs
    refine ⟨⟨hat.wnd, hat.nxt, hat.edge, hat.le, ?_⟩, rfl, rfl⟩
    cases mem with
    | false => trivial
    | true => exact ⟨p, hp.1, ⟨hp.2, htop⟩, h, fun _ => rfl, trivial⟩
  · obtain ⟨ooseq, hplace, rfl⟩ := Option.map_eq_some_iff.mp hs
    have hnum : add32 pcb.rcvNxt pcb.rcvWnd = num (irs + (n + pcb.rcvWnd)) := by rw [hat.nxt, num_add, Nat.add_assoc]
    rw [EdgeOk, hnum] at hedge
    rw [hnum] at hplace
    have hqueue := placeOoseq_spec (b := n + 1) h rfl (by omega) hp.2 htop (by omega) (prevOk_none hp.1) (Nat.le_refl _) hat.ooseq hedge
      hplace
    exact ⟨⟨hat.wnd, hat.nxt, hat.edge, hat.le, hqueue⟩, rfl, rfl⟩

/-- Trimming the first edge: what has been received before is cut off, if there is more. -/
theorem trimFront_spec {seg' : RcvSeg} (h : IsPiece irs stream p seg) (hnear : p < n + 2 ^ 29 ∧ n < p + 2 ^ 29)
    (hs : trimFront (num (irs + n)) seg = some seg') :
    (p < n ∧ n < p + seg.tcplen ∧ IsPiece irs stream n seg' ∧ n + seg'.tcplen = p + seg.tcplen) ∨
      (n ≤ p ∨ p + seg.tcplen ≤ n) ∧ seg' = seg := by
  have hlen := tcplen_le seg
  have hshort := h.short
  have hwithin : between (num (irs + n)) (add32 seg.seqno 1) (sub32 (add32 seg.seqno seg.tcplen) 1) =
      decide (p + 1 ≤ n ∧ n < p + seg.tcplen) := by
    rw [h.seqno, num_add, num_add, between_positions (by omega) (by omega), decide_eq_decide]
    omega
  unfold trimFront at hs
  rw [hwithin] at hs
  split at hs
  · rename_i hc
    rw [decide_eq_true_eq] at hc
    have hoff : sub32 (num (irs + n)) seg.seqno = n - p := by
      rw [h.seqno, sub32_num_eq (by omega) (by omega)]
      omega
    simp only [hoff, isPiece_length h] at hs
    split at hs
    · rename_i hle
      obtain rfl := Option.some.inj hs
      have hfits := h.fits
      have hend : n + (seg.len - (n - p)) = p + seg.len := by omega
      refine Or.inl ⟨by omega, hc.2, ⟨rfl, ?_, ?_, ?_, ?_, ?_⟩, ?_⟩
      · change seg.data.drop (n - p) = (stream.drop n).take (seg.len - (n - p))
        rw [h.data, List.drop_take, List.drop_drop, show p + (n - p) = n by omega]
      · change n + (seg.len - (n - p)) ≤ stream.length
        rw [hend]
        exact hfits
      · intro hf
        change n + (seg.len - (n - p)) = stream.length
        rw [hend]
        exact h.fin hf
      · intro hf
        change 0 < seg.len - (n - p)
        have htcplen : seg.tcplen = seg.len := tcplen_of_not_fin hf
        omega
      · change seg.len - (n - p) < 65536
        omega
      · change n + (seg.len - (n - p) + if seg.fin then 1 else 0) = p + (seg.len + if seg.fin then 1 else 0)
        omega
    · cases hs
  · rename_i hc
    rw [decide_eq_true_eq] at hc
    obtain rfl := Option.some.inj hs
    exact Or.inr ⟨by omega, rfl⟩

/-- What a segment does. All of it that is next and inside of the window is taken. -/
theorem tcpReceiveData_spec {mem acked : Bool} {r : RcvPcb × List UInt8 × Bool} (hat : RcvAt irs stream top pcb n)
    (h : IsPiece irs stream p seg) (htop : p + seg.tcplen ≤ top) (hnear : p < n + 2 ^ 29 ∧ n < p + 2 ^ 29) (hedge : EdgeOk pcb seg)
    (hs : tcpReceiveData pcb seg mem acked = some r) :
    ∃ n', Received irs stream top pcb n n' r ∧ (p ≤ n → min (p + seg.tcplen) (n + pcb.rcvWnd) ≤ n') := by
  have hle := hat.wnd
  rw [tcpWnd] at hle
  obtain ⟨seg', htrim, hs⟩ := Option.bind_eq_some_iff.mp hs
  rw [hat.nxt] at htrim
  have htold : RcvAt irs stream top (if acked then announce pcb else pcb) n ∧ (if acked then announce pcb else pcb).refused = pcb.refused ∧
      (if acked then announce pcb else pcb).rcvWnd = pcb.rcvWnd ∧ EdgeOk (if acked then announce pcb else pcb) seg := by
    cases acked with
    | false => exact ⟨hat, rfl, rfl, hedge⟩
    | true => exact ⟨rcvAt_announce hat, rfl, rfl, hedge⟩
  obtain ⟨hat', hrefused, hwnd, hedge'⟩ := htold
  have hwindow : ∀ q, q < n + 2 ^ 29 ∧ n < q + 2 ^ 29 →
      between (num (irs + q)) pcb.rcvNxt (sub32 (add32 pcb.rcvNxt pcb.rcvWnd) 1) = decide (n ≤ q ∧ q < n + pcb.rcvWnd) := by
    intro q hq
    rw [hat.nxt, num_add, between_positions (by omega) (by omega), decide_eq_decide]
    omega
  rcases trimFront_spec h hnear htrim with ⟨hlt, hgt, hpiece, hend⟩ | ⟨hapart, rfl⟩
  · -- its first part has been received before
    simp only [hpiece.seqno, hwindow n (by omega)] at hs
    split at hs
    · rename_i hopen
      rw [decide_eq_true_eq] at hopen
      rw [if_pos hat.nxt] at hs
      obtain ⟨n', hr, htaken⟩ := receiveNext_spec hat hpiece (by omega) (by omega) hs
      exact ⟨n', hr, fun _ => by omega⟩
    · rename_i hclosed
      rw [decide_eq_true_eq] at hclosed
      obtain rfl := Option.some.inj hs
      exact ⟨n, received_none hat' hrefused hwnd, fun _ => by omega⟩
  · simp only [h.seqno, hwindow p hnear] at hs
    split at hs
    · rename_i hopen
      rw [decide_eq_true_eq] at hopen
      have hsame : pcb.rcvNxt = num (irs + p) ↔ n = p := by
        rw [hat.nxt, num_inj (by omega) (by omega), Nat.add_left_cancel_iff]
      split at hs
      · rename_i hnext
        obtain rfl := hsame.mp hnext
        obtain ⟨n', hr, htaken⟩ := receiveNext_spec hat h htop (by omega) hs
        exact ⟨n', hr, fun _ => htaken⟩
      · rename_i hnext
        have hne : n ≠ p := fun hnp => hnext (hsame.mpr hnp)
        obtain ⟨pcb', hahead, rfl⟩ := Option.map_eq_some_iff.mp hs
        obtain ⟨hat'', hrefused', hwnd'⟩ := receiveAhead_spec hat' h htop (by rw [hwnd]; omega) hedge' hahead
        exact ⟨n, received_none hat'' (hrefused'.trans hrefused) (hwnd'.trans hwnd), fun _ => by omega⟩
    · rename_i hclosed
      rw [decide_eq_true_eq] at hclosed
      obtain rfl := Option.some.inj hs
      exact ⟨n, received_none hat' hrefused hwnd, fun _ => by omega⟩

end TcpReceiveAux

/-! ## No assertion fails -/

/-- The edge of the window that was announced last is not too far behind. -/
def EdgeTold (pcb : RcvPcb) : Prop := sub32 pcb.rcvNxt pcb.annRightEdge < 2 ^ 30 ∨ sub32 pcb.annRightEdge pcb.rcvNxt ≤ 0xffff

instance (pcb : RcvPcb) : Decidable (EdgeTold pcb) := inferInstanceAs (Decidable (_ ∨ _))

/-- It stays so when the window is used up. -/
structure Told (pcb : RcvPcb) : Prop where
  nxt : pcb.rcvNxt < 2 ^ 32
  edge : pcb.annRightEdge < 2 ^ 32
  wnd : pcb.rcvWnd ≤ tcpWnd
  told : sub32 pcb.rcvNxt pcb.annRightEdge + pcb.rcvWnd < 2 ^ 31 ∨ sub32 pcb.annRightEdge pcb.rcvNxt ≤ 0xffff

namespace TcpReceiveAux

open TcpPiecesAux

variable {irs p n hi top : Nat} {stream : List UInt8} {seg : RcvSeg} {pcb pcb' : RcvPcb} {l : List RcvSeg}

/-- With any window. -/
theorem told_of_edgeTold (hat : RcvAt irs stream top pcb n) (h : EdgeTold pcb) {w : Nat} (hw : w ≤ tcpWnd) :
    Told { pcb with rcvWnd := w } := by
  refine ⟨hat.nxt ▸ Nat.mod_lt _ (by decide), hat.edge, hw, h.imp_left ?_⟩
  intro hlt
  rw [tcpWnd] at hw
  dsimp only
  omega

/-- The new window is the old edge's distance, if that is ahead. -/
theorem tcpUpdateRcvAnnWnd_isSome (h : Told pcb) : ∃ w, tcpUpdateRcvAnnWnd pcb = some { pcb with annWnd := w } := by
  obtain ⟨hnxt, hedge, -, htold⟩ := h
  unfold tcpUpdateRcvAnnWnd
  split
  · exact ⟨_, rfl⟩
  · split
    · exact ⟨_, rfl⟩
    · rename_i hgt
      split
      · exact ⟨_, rfl⟩
      · rename_i hfar
        rw [gt, leq, lt, Bool.not_eq_true, Bool.not_eq_false', Bool.or_eq_true, decide_eq_true_eq, decide_eq_true_eq] at hgt
        simp only [sub32] at hgt hfar htold
        omega

/-- What is taken moves `rcv_nxt` towards the edge of the window. -/
theorem told_advance {tcplen : Nat} (h : Told pcb) (hle : tcplen ≤ pcb.rcvWnd) :
    Told { pcb with rcvNxt := add32 pcb.rcvNxt tcplen, rcvWnd := pcb.rcvWnd - tcplen } := by
  obtain ⟨hnxt, hedge, hwnd, htold⟩ := h
  refine ⟨Nat.mod_lt _ (by decide), hedge, Nat.le_trans (Nat.sub_le _ _) hwnd, ?_⟩
  rw [tcpWnd] at hwnd
  simp only [sub32, add32] at htold ⊢
  omega

theorem advance_isSome {tcplen : Nat} (h : Told pcb) (hle : tcplen ≤ pcb.rcvWnd) :
    ∃ pcb', advance pcb tcplen = some pcb' ∧ Told pcb' := by
  have htold := told_advance h hle
  obtain ⟨w, hw⟩ := tcpUpdateRcvAnnWnd_isSome htold
  have hadv : advance pcb tcplen =
      some { pcb with rcvNxt := add32 pcb.rcvNxt tcplen, rcvWnd := pcb.rcvWnd - tcplen, annWnd := w } := by
    rw [advance, if_pos hle, hw]
  exact ⟨_, hadv, htold.nxt, htold.edge, htold.wnd, htold.told⟩

/-- What is on `ooseq` fits into the window. -/
theorem drainOoseq_isSome (h : Told pcb) (hhi : hi = n + pcb.rcvWnd) (htop : top ≤ n + pcb.rcvWnd) (hnxt : pcb.rcvNxt = num (irs + n))
    (hl : Oos irs stream hi top n l) : (drainOoseq l pcb).isSome := by
  induction l generalizing pcb n with
  | nil => rfl
  | cons cseg l ih =>
    obtain ⟨q, hq, ⟨hlt, hend⟩, hpiece, hfin, hrest⟩ := hl
    have hwnd := h.wnd
    rw [tcpWnd] at hwnd
    have hsame : cseg.seqno = pcb.rcvNxt ↔ q = n := by
      rw [hpiece.seqno, hnxt, num_inj (by omega) (by omega), Nat.add_left_cancel_iff]
    unfold drainOoseq
    split
    · rename_i hseq
      obtain rfl := hsame.mp hseq
      obtain ⟨pcb₁, hadv, htold⟩ := advance_isSome h (show cseg.tcplen ≤ pcb.rcvWnd by omega)
      obtain ⟨htcplen, w, rfl⟩ := advance_some hadv
      have hrest' : Oos irs stream hi top (q + cseg.tcplen) l := by
        cases hf : cseg.fin with
        | false => rwa [tcplen_of_not_fin hf]
        | true =>
          rw [hfin hf]
          trivial
      rw [hadv, Option.bind_some, Option.isSome_map]
      refine ih htold ?_ ?_ (by rw [hnxt, num_add, Nat.add_assoc]) hrest' <;> simp only <;> omega
    · rfl

/-- The segment is trimmed where the queue starts. -/
theorem adjustOoseq_isSome (h : IsPiece irs stream n seg) (htop : n + seg.tcplen ≤ top) (hhi : hi ≤ n + 2 ^ 16)
    (hl : Oos irs stream hi top (n + 1) l) : ∃ q, adjustOoseq seg l = some q := by
  unfold adjustOoseq
  split
  · exact ⟨_, rfl⟩
  · rename_i hf
    obtain ⟨_, hmeet⟩ := fitted_trimBack true h htop (Bool.eq_false_iff.mpr hf) (Nat.lt_succ_self n) hhi hl rfl
    simp only
    rw [if_neg fun hc => hc.2 (hmeet hc.1)]
    exact ⟨_, rfl⟩

/-- A segment that is next goes through, and what was waiting for it. -/
theorem receiveNext_isSome (hat : RcvAt irs stream top pcb n) (h : IsPiece irs stream n seg) (hend : n + seg.tcplen ≤ top)
    (htop : top ≤ n + pcb.rcvWnd) (htold : Told pcb) (hwnd : 0 < pcb.rcvWnd) : (receiveNext pcb seg).isSome := by
  have hle := hat.wnd
  rw [tcpWnd] at hle
  obtain ⟨htrim, hmin⟩ := trimWindow_spec h hwnd
  obtain ⟨q, hadj⟩ := adjustOoseq_isSome htrim (show _ ≤ top by omega) (show n + pcb.rcvWnd ≤ n + 2 ^ 16 by omega) hat.ooseq
  obtain ⟨hpiece, hqend, hqueue, _⟩ := adjustOoseq_spec htrim (by omega) (by omega) hat.ooseq hadj
  obtain ⟨pcb₁, hadv, htold₁⟩ := advance_isSome htold (show q.1.tcplen ≤ pcb.rcvWnd by omega)
  obtain ⟨htcplen, w, rfl⟩ := advance_some hadv
  rw [receiveNext, hadj, Option.bind_some, hadv, Option.bind_some, Option.isSome_map]
  refine drainOoseq_isSome htold₁ ?_ ?_ (by rw [hat.nxt, num_add, Nat.add_assoc]) hqueue <;> simp only <;> omega

/-- Trimmed to the window, a segment ends there. -/
theorem trimOverrun_isSome {edge tcplen : Nat} (h : IsPiece irs stream p seg) (hedge : p < edge ∧ edge < p + 2 ^ 16) :
    (trimOverrun (num (irs + edge)) tcplen seg).isSome := by
  unfold trimOverrun
  split
  · have hsub : sub32 (num (irs + edge)) seg.seqno % 65536 = edge - p := by
      rw [h.seqno, sub32_num_eq (by omega) (by omega), Nat.mod_eq_of_lt (by omega)]
      omega
    have hmeet : add32 ({ seg with fin := false }.realloc (edge - p)).seqno ({ seg with fin := false }.realloc (edge - p)).tcplen =
        num (irs + edge) := by
      rw [tcplen_of_not_fin rfl]
      change add32 seg.seqno (edge - p) = _
      rw [h.seqno, num_add, show irs + p + (edge - p) = irs + edge by omega]
    simp only [hsub]
    rw [if_pos hmeet]
    rfl
  · rfl

/-- The walk always ends at a place. -/
theorem placeOoseq_isSome {edge tcplen : Nat} {mem : Bool} (h : IsPiece irs stream p seg) (hedge : p < edge ∧ edge < p + 2 ^ 16)
    (prev : Option RcvSeg) : (placeOoseq (num (irs + edge)) tcplen mem seg prev l).isSome := by
  induction l generalizing prev with
  | nil => rfl
  | cons next l ih =>
    unfold placeOoseq
    split
    · rfl
    · split
      · rfl
      · split
        · split
          · rfl
          · rw [Option.isSome_map]
            exact trimOverrun_isSome h hedge
        · rw [Option.isSome_map]
          exact ih (some next)

theorem receiveAhead_isSome {mem : Bool} {tcplen : Nat} (hat : RcvAt irs stream top pcb n) (h : IsPiece irs stream p seg)
    (hp : n < p ∧ p < n + pcb.rcvWnd) : (receiveAhead pcb seg tcplen mem).isSome := by
  have hle := hat.wnd
  rw [tcpWnd] at hle
  have hnum : add32 pcb.rcvNxt pcb.rcvWnd = num (irs + (n + pcb.rcvWnd)) := by rw [hat.nxt, num_add, Nat.add_assoc]
  unfold receiveAhead
  split
  · rfl
  · rw [Option.isSome_map, hnum]
    exact placeOoseq_isSome h (by omega) none

/-- A segment that is not too long can be cut where the new part starts. -/
theorem trimFront_isSome (h : IsPiece irs stream p seg) (hnear : p < n + 2 ^ 29 ∧ n < p + 2 ^ 29) (hshort : seg.len < 0x7fff) :
    ∃ seg', trimFront (num (irs + n)) seg = some seg' := by
  have hlen := tcplen_le seg
  unfold trimFront
  split
  · rename_i hc
    rw [h.seqno, num_add, num_add, between_positions (by omega) (by omega), decide_eq_true_eq] at hc
    have hoff : sub32 (num (irs + n)) seg.seqno = n - p := by
      rw [h.seqno, sub32_num_eq (by omega) (by omega)]
      omega
    simp only [hoff, isPiece_length h]
    rw [if_pos (by omega)]
    exact ⟨_, rfl⟩
  · exact ⟨_, rfl⟩

/-- While the window's edges are told, the application can open it again. -/
theorem tcpRecved_isSome (hat : RcvAt irs stream top pcb n) (h : EdgeTold pcb) {len : Nat} (hlen : len ≤ tcpWnd) :
    (tcpRecved pcb len).isSome := by
  have hwnd := hat.wnd
  rw [tcpWnd] at hwnd hlen
  obtain ⟨w, hw⟩ := tcpUpdateRcvAnnWnd_isSome (told_of_edgeTold hat h (Nat.min_le_right (pcb.rcvWnd + len) tcpWnd))
  rw [tcpRecved, if_pos (by omega), hw]
  rfl

/-- While the other side keeps to the window, `tcp_receive` goes through. -/
theorem tcpReceiveData_isSome {mem acked : Bool} (hat : RcvAt irs stream top pcb n) (h : IsPiece irs stream p seg)
    (hend : p + seg.tcplen ≤ top) (htop : top ≤ n + pcb.rcvWnd) (htold : EdgeTold pcb) (hnear : p < n + 2 ^ 29 ∧ n < p + 2 ^ 29)
    (hshort : seg.len < 0x7fff) : (tcpReceiveData pcb seg mem acked).isSome := by
  obtain ⟨seg', htrim⟩ := trimFront_isSome h hnear hshort
  have hspec := trimFront_spec h hnear htrim
  rw [tcpReceiveData, hat.nxt, htrim, Option.bind_some]
  have hle := hat.wnd
  rw [tcpWnd] at hle
  -- where the trimmed segment starts
  obtain ⟨q, hpiece, hqend, hnearq⟩ : ∃ q, IsPiece irs stream q seg' ∧ q + seg'.tcplen ≤ top ∧ (q < n + 2 ^ 29 ∧ n < q + 2 ^ 29) := by
    rcases hspec with ⟨_, _, hpiece, hsame⟩ | ⟨_, rfl⟩
    · exact ⟨n, hpiece, by omega, by omega⟩
    · exact ⟨p, h, hend, hnear⟩
  simp only [hpiece.seqno]
  rw [num_add, between_positions (by omega) (by omega)]
  split
  · rename_i hopen
    rw [decide_eq_true_eq] at hopen
    split
    · rename_i hnext
      rw [num_inj (by omega) (by omega), Nat.add_left_cancel_iff] at hnext
      subst hnext
      exact receiveNext_isSome hat hpiece hqend htop (told_of_edgeTold hat htold hat.wnd) (by omega)
    · rename_i hnext
      rw [num_inj (by omega) (by omega), Nat.add_left_cancel_iff] at hnext
      rw [Option.isSome_map]
      cases acked with
      | false => exact receiveAhead_isSome hat hpiece (show n < q ∧ q < n + pcb.rcvWnd by omega)
      | true =>
        exact receiveAhead_isSome (rcvAt_announce hat) hpiece (show n < q ∧ q < n + pcb.rcvWnd by omega)
  · rfl

end TcpReceiveAux

end SaymaFirmware
