import SaymaFirmware.Lemmas.TcpAsserts

/-!
# What the sending side of a connection keeps

Over any run of writes, outputs, acknowledgements, timeouts and fast retransmissions, what the application has written and the other side
has not acknowledged is in the two queues, once and in order, under the right sequence numbers; the room in the send buffer and the number
of pbufs are counted exactly; and no acknowledgement makes an assertion fail. A write can fail one, `unsent_oversize mismatch`, and that
only after a retransmission.
-/

namespace SaymaFirmware

open SeqNum

open TcpStreamAux in
/-- In every state reached the queues hold the end of the stream from `start` on, where at most the first segment is acknowledged in part;
and an acknowledgement is always processed to the end. -/
theorem tcp_stream_intact (mss iss : Nat) (nodelay : Bool) (hmss : 0 < mss ∧ mss ≤ tcpOversize) (s : TcpConn)
    (h : Reaches tcpStep (fun s a => a.Sound s) (TcpConn.init mss iss nodelay) s) :
    (∃ start acked nxt m, TcpStream iss s start acked nxt m) ∧ ∀ ackno, AckOk s.pcb ackno → (tcpReceiveAck s.pcb ackno).isSome := by
  obtain ⟨start, acked, nxt, m, hstream⟩ := stream_of_reaches hmss h
  refine ⟨⟨start, acked, nxt, m, hstream⟩, ?_⟩
  intro ackno hok
  obtain ⟨_, _, _, pcb', hacked⟩ := stream_ack hstream hok
  rw [hacked.eq]
  rfl

/-- Two writes around the end of the sequence numbers, a timeout, and an acknowledgement of the first. -/
theorem tcp_stream_intact_wrap :
    ∃ s, Reaches tcpStep (fun s a => a.Sound s) (TcpConn.init 536 4294967294 false) s ∧
      (s.written = [1, 2, 3, 4, 5] ∧ s.pcb.lastack = 1 ∧ segBytes s.pcb.unsent = [4, 5]) ∧
      ∃ start acked nxt m, TcpStream 4294967294 s start acked nxt m := by
  obtain ⟨s, hs, hp⟩ := exists_reaches_of_exec tcpStep (fun s a => decide (a.Sound s)) (TcpConn.init 536 4294967294 false)
    [.write id 9 [1, 2, 3] true false, .output 1000 false false false, .write id 9 [4, 5] true false, .rto 1000 false false false, .ack 1]
    (fun s => decide (s.written = [1, 2, 3, 4, 5] ∧ s.pcb.lastack = 1 ∧ segBytes s.pcb.unsent = [4, 5])) (by decide +kernel)
  have hr : Reaches tcpStep (fun s a => a.Sound s) (TcpConn.init 536 4294967294 false) s := hs.mono fun s a ha => of_decide_eq_true ha
  exact ⟨s, hr, of_decide_eq_true hp, (tcp_stream_intact 536 4294967294 false (by simp [tcpOversize]) s hr).1⟩

/-- In every state reached a write ends in a failed assertion exactly if it comes to the segments and `unsent_oversize` is not the room at
the end of the last unsent segment. -/
theorem tcp_write_aborts_iff (mss iss : Nat) (nodelay : Bool) (hmss : 0 < mss ∧ mss ≤ tcpOversize) (s : TcpConn)
    (h : Reaches tcpStep (fun s a => a.Sound s) (TcpConn.init mss iss nodelay) s) (place : Nat → Nat) (budget : Nat) (data : List UInt8)
    (copy more : Bool) :
    tcpStep s (.write place budget data copy more) = none ↔
      tcpWriteChecks s.pcb data.length = .ok () ∧ s.pcb.unsentOversize ≠ endRoom s.pcb.unsent := by
  obtain ⟨start, acked, nxt, m, hstream⟩ := stream_of_reaches hmss h
  rw [tcpStep, Option.map_eq_none_iff]
  exact tcpWrite_eq_none_iff_of_stream hstream place budget data copy more

/-- A segment with room at its end is sent and taken back; then a write ends in the failed assertion. -/
theorem tcp_write_aborts_rexmit :
    ∃ s, Reaches tcpStep (fun s a => a.Sound s) (TcpConn.init 536 0 false) s ∧ s.written = [1, 2, 3] ∧
      tcpStep s (.write id 9 [4] true false) = none := by
  obtain ⟨s, hs, hp⟩ := exists_reaches_of_exec tcpStep (fun s a => decide (a.Sound s)) (TcpConn.init 536 0 false)
    [.write id 9 [1, 2, 3] true true, .output 1000 false false false, .rexmit]
    (fun s => decide (s.written = [1, 2, 3]) && (tcpWriteChecks s.pcb 1).toBool && decide (s.pcb.unsentOversize ≠ endRoom s.pcb.unsent))
    (by decide +kernel)
  have hr : Reaches tcpStep (fun s a => a.Sound s) (TcpConn.init 536 0 false) s := hs.mono fun s a ha => of_decide_eq_true ha
  rw [Bool.and_eq_true, Bool.and_eq_true, decide_eq_true_eq, decide_eq_true_eq] at hp
  have hchecks : tcpWriteChecks s.pcb 1 = .ok () := by
    cases hc : tcpWriteChecks s.pcb 1 with
    | error e =>
      rw [hc] at hp
      cases hp.1.2
    | ok u => rfl
  exact ⟨s, hr, hp.1.1, (tcp_write_aborts_iff 536 0 false (by simp [tcpOversize]) s hr id 9 [4] true false).mpr ⟨hchecks, hp.2⟩⟩

namespace TcpDeliveryAux

open TcpStreamAux TcpAssertsAux

theorem sentOnce_step {iss start acked nxt : Nat} {s s' : TcpConn} {m : List (TcpSeg × Bool)} {a : TcpAct}
    (h : SentOnce iss s start acked nxt m) (ha : a.NoRexmit s) (hs : tcpStep s a = some s') :
    ∃ start' acked' nxt' m', SentOnce iss s' start' acked' nxt' m' := by
  cases a with
  | write place budget data copy more =>
    obtain ⟨⟨err, pcb'⟩, hwrite, rfl⟩ := Option.map_eq_some_iff.mp hs
    obtain ⟨m', h'⟩ := sentOnce_write h hwrite
    exact ⟨start, acked, nxt, m', h'⟩
  | output wnd ackNow infr fin =>
    obtain rfl := Option.some.inj hs
    exact ⟨start, acked, sentOnce_output wnd ackNow infr fin h⟩
  | ack ackno =>
    obtain ⟨start', acked', m', pcb', heq, h'⟩ := sentOnce_ack h ha
    obtain ⟨p, hp, rfl⟩ := Option.map_eq_some_iff.mp hs
    obtain rfl := Option.some.inj (hp.symm.trans heq)
    exact ⟨start', acked', nxt, m', h'⟩
  | rto wnd ackNow infr fin => exact ha.elim
  | rexmit => exact ha.elim

theorem sentOnce_of_reaches {mss iss : Nat} {nodelay : Bool} {s : TcpConn} (hmss : 0 < mss ∧ mss ≤ tcpOversize)
    (h : Reaches tcpStep (fun s a => a.NoRexmit s) (TcpConn.init mss iss nodelay) s) :
    ∃ start acked nxt m, SentOnce iss s start acked nxt m := by
  refine h.invariant (fun s => ∃ start acked nxt m, SentOnce iss s start acked nxt m)
    ⟨0, 0, 0, [], stream_init mss iss nodelay hmss, trivial, rfl⟩ ?_
  rintro s a s' ⟨start, acked, nxt, m, honce⟩ ha hs
  exact sentOnce_step honce ha hs

end TcpDeliveryAux

open TcpDeliveryAux TcpAssertsAux in
/-- In a run without retransmissions no assertion fails: whatever is done next leads on. -/
theorem tcp_never_aborts (mss iss : Nat) (nodelay : Bool) (hmss : 0 < mss ∧ mss ≤ tcpOversize) (s : TcpConn)
    (h : Reaches tcpStep (fun s a => a.NoRexmit s) (TcpConn.init mss iss nodelay) s) (a : TcpAct) (ha : a.NoRexmit s) :
    (tcpStep s a).isSome := by
  obtain ⟨start, acked, nxt, m, honce⟩ := sentOnce_of_reaches hmss h
  cases a with
  | write place budget data copy more =>
    rw [tcpStep, Option.isSome_map, Option.isSome_iff_ne_none]
    intro hnone
    exact ((tcpWrite_eq_none_iff_of_stream honce.stream place budget data copy more).mp hnone).2 honce.oversize
  | output wnd ackNow infr fin => rfl
  | ack ackno =>
    obtain ⟨_, _, _, pcb', heq, _⟩ := sentOnce_ack honce ha
    rw [tcpStep, heq]
    rfl
  | rto wnd ackNow infr fin => exact ha.elim
  | rexmit => exact ha.elim

/-- After a write that leaves room, one that is not copied, an output and an acknowledgement, a third write goes through. -/
theorem tcp_never_aborts_third :
    ∃ s, Reaches tcpStep (fun s a => a.NoRexmit s) (TcpConn.init 536 0 false) s ∧
      (s.written = [1, 2, 3, 4, 5] ∧ s.pcb.lastack = 3 ∧ s.pcb.unsentOversize = 0) ∧
      (tcpStep s (.write id 9 [6] true false)).isSome := by
  obtain ⟨s, hs, hp⟩ := exists_reaches_of_exec tcpStep (fun s a => decide (a.NoRexmit s)) (TcpConn.init 536 0 false)
    [.write id 9 [1, 2, 3] true true, .output 1000 false false false, .write id 9 [4, 5] false false, .ack 3]
    (fun s => decide (s.written = [1, 2, 3, 4, 5] ∧ s.pcb.lastack = 3 ∧ s.pcb.unsentOversize = 0)) (by decide +kernel)
  have hr : Reaches tcpStep (fun s a => a.NoRexmit s) (TcpConn.init 536 0 false) s := hs.mono fun s a ha => of_decide_eq_true ha
  exact ⟨s, hr, of_decide_eq_true hp, tcp_never_aborts 536 0 false (by simp [tcpOversize]) s hr (.write id 9 [6] true false) trivial⟩

end SaymaFirmware
