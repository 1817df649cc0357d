import SaymaFirmware.Lemmas.TcpWrite

/-!
# The stream of a connection

The queues of a connection hold the end of what has been written, from `start` on, cut into segments (`TcpStream`). `acked` is how much
the other side has acknowledged and `nxt` how much has been sent at least once. Each thing that can happen on a connection keeps this:
a segment that is sent or taken back changes its mark, and an acknowledgement moves `start` up to the first segment it does not cover.
-/

namespace SaymaFirmware

open SeqNum

/-- Marked segments from the position `p` on, of which those that have been sent end at `nxt` or before. -/
def SentUpTo (nxt : Nat) : Nat → List (TcpSeg × Bool) → Prop
  | _, [] => True
  | p, x :: m => (x.2 = true → p + x.1.len ≤ nxt) ∧ SentUpTo nxt (p + x.1.len) m

/-- The state of a connection whose first byte has the number of the position `iss`. -/
structure TcpStream (iss : Nat) (s : TcpConn) (start acked nxt : Nat) (m : List (TcpSeg × Bool)) : Prop where
  mss : 0 < s.pcb.mss ∧ s.pcb.mss ≤ tcpOversize
  unacked : s.pcb.unacked = sentSegs m
  unsent : s.pcb.unsent = unsentSegs m
  tiled : Tiled (iss + start) (allSegs m)
  bytes : segBytes (allSegs m) = s.written.drop start
  bounds : start ≤ acked ∧ acked ≤ nxt ∧ nxt ≤ s.written.length
  front : ∀ x ∈ m.head?, acked < start + x.1.len
  sent : SentUpTo nxt start m
  lastack : s.pcb.lastack = num (iss + acked)
  sndNxt : s.pcb.sndNxt = num (iss + nxt)
  sndLbb : s.pcb.sndLbb = num (iss + s.written.length)
  sndBuf : s.pcb.sndBuf + s.written.length = tcpSndBuf + acked
  sndQueuelen : s.pcb.sndQueuelen = segClens (allSegs m)
  room : ∀ seg ∈ allSegs m, RoomOk s.pcb.mss seg

/-! ## What a step is asked

A write extends the last unsent segment, which is wrong when that is one of the older ones that are sent again (`AtEnd`). An acknowledgement
that is half the number space behind is taken for one of data that was never sent (`AckOk`). After a timeout the unacknowledged segments
are put in front of the unsent ones, which must not be older (`InOrder`). -/

/-- The last unsent segment is at the end of what has been written. -/
def AtEnd (pcb : TcpPcb) : Prop := ∀ last ∈ pcb.unsent.getLast?, add32 last.seqno last.len = pcb.sndLbb

/-- An acknowledgement that is not new is not too far back. -/
def AckOk (pcb : TcpPcb) (ackno : Nat) : Prop :=
  ackno < 2 ^ 32 ∧ (sub32 ackno pcb.lastack < 2 ^ 31 ∨ 2 ^ 31 + 2 ^ 16 ≤ sub32 ackno pcb.lastack)

/-- No unsent segment is older than a segment that waits for its acknowledgement. -/
def InOrder (pcb : TcpPcb) : Prop := ∀ u ∈ pcb.unacked.getLast?, ∀ seg ∈ pcb.unsent.head?, lt u.seqno seg.seqno = true

instance (pcb : TcpPcb) : Decidable (AtEnd pcb) := inferInstanceAs (Decidable (∀ last ∈ pcb.unsent.getLast?, _))

instance (pcb : TcpPcb) (ackno : Nat) : Decidable (AckOk pcb ackno) := inferInstanceAs (Decidable (_ ∧ _))

instance (pcb : TcpPcb) : Decidable (InOrder pcb) :=
  inferInstanceAs (Decidable (∀ u ∈ pcb.unacked.getLast?, ∀ seg ∈ pcb.unsent.head?, _))

/-- The steps of a run that keeps the stream. -/
def TcpAct.Sound (s : TcpConn) : TcpAct → Prop
  | .write .. => AtEnd s.pcb
  | .output .. => True
  | .ack ackno => AckOk s.pcb ackno
  | .rto .. => InOrder s.pcb
  | .rexmit => True

instance (s : TcpConn) : DecidablePred (TcpAct.Sound s)
  | .write .. => inferInstanceAs (Decidable (AtEnd s.pcb))
  | .output .. => inferInstanceAs (Decidable True)
  | .ack ackno => inferInstanceAs (Decidable (AckOk s.pcb ackno))
  | .rto .. => inferInstanceAs (Decidable (InOrder s.pcb))
  | .rexmit => inferInstanceAs (Decidable True)

namespace TcpStreamAux

section Marked

variable {nxt nxt' p : Nat} {m m' : List (TcpSeg × Bool)}

/-- Sent up to a position, for the two parts of a list. -/
theorem sentUpTo_append :
    SentUpTo nxt p (m ++ m') ↔ SentUpTo nxt p m ∧ SentUpTo nxt (p + (segBytes (allSegs m)).length) m' := by
  induction m generalizing p with
  | nil => exact (and_iff_right trivial).symm
  | cons x m ih =>
    obtain ⟨seg, b⟩ := x
    rw [List.cons_append, SentUpTo, SentUpTo, ih, allSegs_cons, segBytes_cons, List.length_append, ← Nat.add_assoc, and_assoc]
    rfl

/-- More may have been sent. -/
theorem sentUpTo_mono (h : SentUpTo nxt p m) (hle : nxt ≤ nxt') : SentUpTo nxt' p m := by
  induction m generalizing p with
  | nil => trivial
  | cons x m ih => exact ⟨fun hx => Nat.le_trans (h.1 hx) hle, ih h.2⟩

/-- Unsent segments may lie anywhere. -/
theorem sentUpTo_unsent (l : List TcpSeg) : SentUpTo nxt p (l.map fun seg => (seg, false)) := by
  induction l generalizing p with
  | nil => trivial
  | cons seg l ih => exact ⟨Bool.noConfusion, ih⟩

@[simp] theorem allSegs_unsent (l : List TcpSeg) : allSegs (l.map fun seg => (seg, false)) = l := by
  rw [allSegs, List.map_map]
  exact List.map_id l

@[simp] theorem sentSegs_unsent (l : List TcpSeg) : sentSegs (l.map fun seg => (seg, false)) = [] := by
  induction l with
  | nil => rfl
  | cons seg l ih => exact ih

@[simp] theorem unsentSegs_unsent (l : List TcpSeg) : unsentSegs (l.map fun seg => (seg, false)) = l := by
  rw [unsentSegs_eq_all (sentSegs_unsent l), allSegs_unsent]

/-- A segment's number against those of the segments around it. -/
theorem tiled_sep {a b : List TcpSeg} {seg : TcpSeg} (h : Tiled p (a ++ seg :: b)) (hlt : (segBytes (a ++ seg :: b)).length < 2 ^ 31) :
    (∀ s ∈ a, lt s.seqno seg.seqno = true ∧ lt seg.seqno s.seqno = false) ∧
      ∀ s ∈ b, lt seg.seqno s.seqno = true ∧ lt s.seqno seg.seqno = false := by
  constructor
  · intro s hs
    obtain ⟨l₁, l₂, rfl⟩ := List.append_of_mem hs
    rw [List.append_assoc, List.cons_append] at h hlt
    exact tiled_lt h hlt
  · intro s hs
    obtain ⟨l₁, l₂, rfl⟩ := List.append_of_mem hs
    exact tiled_lt h hlt

end Marked

section Facts

variable {iss start acked nxt : Nat} {s : TcpConn} {m : List (TcpSeg × Bool)}

/-- The segments end where the stream does. -/
theorem length_eq (h : TcpStream iss s start acked nxt m) : start + (segBytes (allSegs m)).length = s.written.length := by
  have hb := h.bounds
  rw [h.bytes, List.length_drop]
  omega

/-- What the queues hold is at most a full buffer and the segment that is acknowledged in part. -/
theorem length_le (h : TcpStream iss s start acked nxt m) : s.written.length ≤ start + 4380 := by
  have hbuf := h.sndBuf
  have hlen := length_eq h
  have hmss := h.mss.2
  rw [tcpSndBuf] at hbuf
  rw [tcpOversize] at hmss
  cases m with
  | nil =>
    rw [allSegs, List.map_nil, segBytes_nil, List.length_nil] at hlen
    omega
  | cons x m =>
    have hfront := h.front x rfl
    have hroom := (h.room x.1 List.mem_cons_self).len
    omega

/-- `snd_buf` is a 16-bit number. -/
theorem sndBuf_lt (h : TcpStream iss s start acked nxt m) : s.pcb.sndBuf < 65536 := by
  have hbuf := h.sndBuf
  have hb := h.bounds
  rw [tcpSndBuf] at hbuf
  omega

/-- What is not acknowledged is less than half the number space. -/
theorem bytes_lt (h : TcpStream iss s start acked nxt m) : (segBytes (allSegs m)).length < 2 ^ 31 := by
  have hlen := length_eq h
  have hle := length_le h
  omega

end Facts

/-! ## Sending -/

section Send

variable {iss start acked nxt : Nat} {s : TcpConn} {m : List (TcpSeg × Bool)}

/-- A segment that gets a new mark. -/
structure Remarked (seg seg' : TcpSeg) (mss : Nat) : Prop where
  core : seg'.core = seg.core
  room : RoomOk mss seg → RoomOk mss seg'

/-- A segment as it was. -/
theorem remarked_self (seg : TcpSeg) (mss : Nat) : Remarked seg seg mss := ⟨rfl, id⟩

/-- Sending a segment changes its flags and its checksum field only. -/
theorem remarked_output (seg : TcpSeg) (mss : Nat) : Remarked seg (tcpOutputSegment seg) mss := ⟨rfl, fun h => ⟨h.len, h.room, h.pbufs⟩⟩

/-- Marks do not matter to the stream, except that what is sent is behind `nxt`. -/
theorem stream_remark {m₁ m₂ : List (TcpSeg × Bool)} {seg seg' : TcpSeg} {b b' : Bool} {pcb : TcpPcb} {nxt' : Nat}
    (h : TcpStream iss s start acked nxt (m₁ ++ (seg, b) :: m₂)) (hseg : Remarked seg seg' s.pcb.mss)
    (hnxt : nxt ≤ nxt' ∧ nxt' ≤ s.written.length) (hmark : b' = true → start + (segBytes (allSegs m₁)).length + seg.len ≤ nxt')
    (hpcb : { s.pcb with unsent := pcb.unsent, unacked := pcb.unacked, sndNxt := pcb.sndNxt } = pcb)
    (hunacked : pcb.unacked = sentSegs (m₁ ++ (seg', b') :: m₂)) (hunsent : pcb.unsent = unsentSegs (m₁ ++ (seg', b') :: m₂))
    (hsnd : pcb.sndNxt = num (iss + nxt')) :
    TcpStream iss { s with pcb := pcb } start acked nxt' (m₁ ++ (seg', b') :: m₂) := by
  have hcore : (allSegs (m₁ ++ (seg, b) :: m₂)).map TcpSeg.core = (allSegs (m₁ ++ (seg', b') :: m₂)).map TcpSeg.core := by
    rw [allSegs_append, allSegs_append, allSegs_cons, allSegs_cons, List.map_append, List.map_append, List.map_cons, List.map_cons,
      hseg.core]
  have hlen : seg'.len = seg.len := by rw [TcpSeg.len, TcpSeg.len, (core_eq_iff.mp hseg.core).2.1]
  have hb := h.bounds
  have hsent := sentUpTo_append.mp h.sent
  rw [← hpcb] at hunacked hunsent hsnd ⊢
  refine ⟨h.mss, hunacked, hunsent, tiled_congr hcore h.tiled, segBytes_congr hcore ▸ h.bytes, ⟨hb.1, by omega, hnxt.2⟩, ?_, ?_, h.lastack,
    hsnd, h.sndLbb, h.sndBuf, segClens_congr hcore ▸ h.sndQueuelen, ?_⟩
  · intro x hx
    cases m₁ with
    | nil =>
      obtain rfl := Option.some.inj hx
      rw [hlen]
      exact h.front (seg, b) rfl
    | cons y m₁ => exact h.front x hx
  · rw [sentUpTo_append, SentUpTo, hlen]
    exact ⟨sentUpTo_mono hsent.1 hnxt.1, hmark, sentUpTo_mono hsent.2.2 hnxt.1⟩
  · intro a ha
    rw [allSegs_append, allSegs_cons, List.mem_append, List.mem_cons] at ha
    have hroom : ∀ a, a ∈ allSegs m₁ ∨ a = seg ∨ a ∈ allSegs m₂ → RoomOk s.pcb.mss a := by
      intro a ha
      refine h.room a ?_
      rw [allSegs_append, allSegs_cons, List.mem_append, List.mem_cons]
      exact ha
    rcases ha with ha | rfl | ha
    · exact hroom a (Or.inl ha)
    · exact hseg.room (hroom seg (Or.inr (Or.inl rfl)))
    · exact hroom a (Or.inr (Or.inr ha))

/-- Sending the first unsent segment changes its mark. -/
theorem stream_sendFirst {seg : TcpSeg} {rest : List TcpSeg} (h : TcpStream iss s start acked nxt m)
    (hunsent : s.pcb.unsent = seg :: rest) :
    ∃ m₁ m₂, m = m₁ ++ (seg, false) :: m₂ ∧ unsentSegs m₁ = [] ∧
      TcpStream iss { s with pcb := sendFirst s.pcb seg rest } start acked
        (max nxt (start + (segBytes (allSegs m₁)).length + seg.len)) (m₁ ++ (tcpOutputSegment seg, true) :: m₂) := by
  obtain ⟨m₁, m₂, rfl, hm₁, hm₂⟩ := unsentSegs_eq_cons (h.unsent ▸ hunsent)
  have hlt := bytes_lt h
  have hle := length_le h
  have hlen := length_eq h
  have hb := h.bounds
  have htiled := h.tiled
  rw [allSegs_append, allSegs_cons] at hlt htiled hlen
  obtain ⟨hfront, hback⟩ := tiled_sep htiled hlt
  obtain ⟨hseq, hpos, hend⟩ := tiled_mem htiled
  rw [segBytes_append, segBytes_cons, List.length_append, List.length_append, ← TcpSeg.len] at hlen
  rw [Nat.add_assoc iss, Nat.add_assoc iss] at hend
  have hnum : lt s.pcb.sndNxt (add32 seg.seqno seg.len) = decide (nxt < start + (segBytes (allSegs m₁)).length + seg.len) := by
    rw [hend, h.sndNxt, lt_num (by omega) (by omega), decide_eq_decide]
    omega
  refine ⟨m₁, m₂, rfl, hm₁, stream_remark h (remarked_output seg _) ⟨Nat.le_max_left _ _, Nat.max_le.mpr ⟨hb.2.2, by omega⟩⟩
    (fun _ => Nat.le_max_right _ _) rfl ?_ ?_ ?_⟩
  · have hadd : addUnacked (tcpOutputSegment seg) (sentSegs m₁ ++ sentSegs m₂) = sentSegs m₁ ++ tcpOutputSegment seg :: sentSegs m₂ :=
      addUnacked_eq (fun s hs => hfront s (mem_allSegs_of_sent hs)) fun s hs => hback s (mem_allSegs_of_sent hs)
    unfold sendFirst
    rw [sentSegs_append, sentSegs, ← hadd]
    dsimp only
    rw [if_pos hpos, h.unacked, sentSegs_append, sentSegs]
  · rw [unsentSegs_append, hm₁, unsentSegs, hm₂]
    rfl
  · unfold sendFirst
    dsimp only
    rw [hnum, hend, h.sndNxt]
    by_cases hc : nxt < start + (segBytes (allSegs m₁)).length + seg.len
    · rw [if_pos (decide_eq_true hc), Nat.max_eq_right (Nat.le_of_lt hc)]
    · rw [if_neg (by rw [decide_eq_true_eq]; exact hc), Nat.max_eq_left (Nat.le_of_not_lt hc)]

/-- The loop of `tcp_output` changes some marks. -/
theorem stream_outputLoop (wnd : Nat) (infr fin : Bool) (n : Nat) :
    ∀ {s : TcpConn} {nxt : Nat} {m : List (TcpSeg × Bool)}, TcpStream iss s start acked nxt m →
      ∃ nxt' m', TcpStream iss { s with pcb := tcpOutputLoop wnd infr fin n s.pcb } start acked nxt' m' := by
  induction n with
  | zero =>
    intro s nxt m h
    exact ⟨nxt, m, h⟩
  | succ n ih =>
    intro s nxt m h
    unfold tcpOutputLoop
    cases hunsent : s.pcb.unsent with
    | nil => exact ⟨nxt, m, h⟩
    | cons seg rest =>
      dsimp only
      split
      · obtain ⟨_, _, _, _, h'⟩ := stream_sendFirst h hunsent
        exact ih h'
      · exact ⟨nxt, m, h⟩

/-- So does `tcp_output`. -/
theorem stream_output (wnd : Nat) (ackNow infr fin : Bool) (h : TcpStream iss s start acked nxt m) :
    ∃ nxt' m', TcpStream iss { s with pcb := tcpOutput wnd ackNow infr fin s.pcb } start acked nxt' m' := by
  unfold tcpOutput
  split
  · exact ⟨nxt, m, h⟩
  · obtain ⟨nxt', m', h'⟩ := stream_outputLoop wnd infr fin s.pcb.unsent.length h
    exact ⟨nxt', m', h'.mss, h'.unacked, h'.unsent, h'.tiled, h'.bytes, h'.bounds, h'.front, h'.sent, h'.lastack, h'.sndNxt, h'.sndLbb,
      h'.sndBuf, h'.sndQueuelen, h'.room⟩

end Send

/-! ## Acknowledgements -/

section Ack

variable {iss start acked nxt ackno : Nat} {s : TcpConn} {m pre post : List (TcpSeg × Bool)}

/-- Where a segment ends. -/
theorem tiled_end {p : Nat} {l : List TcpSeg} {seg : TcpSeg} (h : Tiled p l) (hmem : seg ∈ l) :
    ∃ e, add32 seg.seqno seg.len = num e ∧ (∀ x ∈ l.head?, p + x.len ≤ e) ∧ e ≤ p + (segBytes l).length := by
  obtain ⟨l₁, l₂, rfl⟩ := List.append_of_mem hmem
  refine ⟨_, (tiled_mem h).2.2, ?_, ?_⟩
  · intro x hx
    cases l₁ with
    | nil =>
      obtain rfl := Option.some.inj hx
      rw [segBytes_nil, List.length_nil]
      omega
    | cons y l₁ =>
      obtain rfl := Option.some.inj hx
      rw [segBytes_cons, List.length_append, ← TcpSeg.len]
      omega
  · rw [segBytes_append, segBytes_cons, List.length_append, List.length_append, ← TcpSeg.len]
    omega

/-- The segments that end at `c` or before, and the others. -/
theorem exists_split (m : List (TcpSeg × Bool)) (c : Nat) :
    ∀ p, p ≤ c → ∃ pre post, m = pre ++ post ∧ p + (segBytes (allSegs pre)).length ≤ c ∧
      ∀ x ∈ post.head?, c < p + (segBytes (allSegs pre)).length + x.1.len := by
  induction m with
  | nil =>
    intro p hp
    exact ⟨[], [], rfl, hp, nofun⟩
  | cons x m ih =>
    intro p hp
    obtain ⟨seg, b⟩ := x
    by_cases hc : p + seg.len ≤ c
    · obtain ⟨pre, post, rfl, hpre, hpost⟩ := ih (p + seg.len) hc
      refine ⟨(seg, b) :: pre, post, rfl, ?_, ?_⟩
      · rw [allSegs_cons, segBytes_cons, List.length_append, ← TcpSeg.len]
        omega
      · intro x hx
        have := hpost x hx
        rw [allSegs_cons, segBytes_cons, List.length_append, ← TcpSeg.len]
        omega
    · refine ⟨[], (seg, b) :: m, rfl, hp, ?_⟩
      intro x hx
      obtain rfl := Option.some.inj hx
      exact Nat.lt_of_not_le hc

/-- The stream without the segments in front that are acknowledged. -/
theorem stream_drop {acked' : Nat} (h : TcpStream iss s start acked nxt (pre ++ post)) (hle : acked ≤ acked' ∧ acked' ≤ nxt)
    (hpre : start + (segBytes (allSegs pre)).length ≤ acked')
    (hpost : ∀ x ∈ post.head?, acked' < start + (segBytes (allSegs pre)).length + x.1.len) :
    TcpStream iss
      { s with
        pcb := { s.pcb with
          sndBuf := s.pcb.sndBuf + (acked' - acked)
          lastack := num (iss + acked')
          unacked := sentSegs post
          unsent := unsentSegs post
          sndQueuelen := segClens (allSegs post) } }
      (start + (segBytes (allSegs pre)).length) acked' nxt post := by
  have htiled := h.tiled
  have hbytes := h.bytes
  rw [allSegs_append] at htiled hbytes
  rw [segBytes_append] at hbytes
  refine ⟨h.mss, rfl, rfl, ?_, ?_, ⟨hpre, hle.2, h.bounds.2.2⟩, hpost, (sentUpTo_append.mp h.sent).2, rfl, h.sndNxt, h.sndLbb, ?_, rfl, ?_⟩
  · rw [← Nat.add_assoc]
    exact (tiled_append.mp htiled).2
  · rw [← List.drop_drop, ← hbytes, List.drop_left]
  · have hbuf := h.sndBuf
    dsimp only
    omega
  · intro seg hseg
    exact h.room seg (by rw [allSegs_append]; exact List.mem_append_right _ hseg)

/-- The segments an acknowledgement removes from a queue are those that end where it acknowledges or before. -/
theorem dropWhile_marks {p : TcpSeg → Bool} {c : Nat} {f : List (TcpSeg × Bool) → List TcpSeg}
    (h : Tiled (iss + start) (allSegs (pre ++ post))) (hf : ∀ a b, f (a ++ b) = f a ++ f b) (hmem : ∀ a, ∀ seg ∈ f a, seg ∈ allSegs a)
    (hpre : start + (segBytes (allSegs pre)).length ≤ c)
    (hpost : ∀ x ∈ post.head?, c < start + (segBytes (allSegs pre)).length + x.1.len)
    (hlt : ∀ e seg, add32 seg.seqno seg.len = num (iss + e) → e ≤ start + (segBytes (allSegs (pre ++ post))).length → start ≤ e →
      p seg = decide (e ≤ c)) :
    (f (pre ++ post)).dropWhile p = f post := by
  rw [allSegs_append] at h
  rw [allSegs_append, segBytes_append, List.length_append] at hlt
  obtain ⟨hl, hr⟩ := tiled_append.mp h
  rw [hf]
  refine dropWhile_append_eq ?_ ?_
  · intro seg hseg
    obtain ⟨e, hend, hge, hle⟩ := tiled_end hl (hmem pre seg hseg)
    have hstart : iss + start ≤ e := by
      cases hp : allSegs pre with
      | nil => exact absurd (hmem pre seg hseg) (by rw [hp]; exact List.not_mem_nil)
      | cons x l =>
        have := hge x (by rw [hp]; rfl)
        omega
    obtain ⟨e, rfl⟩ := Nat.exists_eq_add_of_le (Nat.le_trans (Nat.le_add_right iss start) hstart)
    rw [hlt e seg hend (by omega) (by omega), decide_eq_true_eq]
    omega
  · intro seg hseg
    obtain ⟨e, hend, hge, hle⟩ := tiled_end hr (hmem post seg hseg)
    have hstart : iss + c < e := by
      cases hp : post with
      | nil => exact absurd (hmem post seg hseg) (by rw [hp]; exact List.not_mem_nil)
      | cons x l =>
        have h₁ := hge x.1 (by rw [hp]; rfl)
        have h₂ := hpost x (by rw [hp]; rfl)
        omega
    obtain ⟨e, rfl⟩ := Nat.exists_eq_add_of_le (Nat.le_trans (Nat.le_add_right iss c) (Nat.le_of_lt hstart))
    rw [hlt e seg hend (by omega) (by omega), decide_eq_false_iff_not]
    omega

/-- An acknowledgement that removes nothing. -/
theorem receiveAck_none (h : TcpStream iss s start acked nxt m)
    (hnew : leq ackno s.pcb.lastack = true ∨ between ackno (add32 s.pcb.lastack 1) s.pcb.sndNxt = false)
    (hfalse : ∀ seg ∈ unsentSegs m, between ackno (add32 seg.seqno seg.len) s.pcb.sndNxt = false) :
    tcpReceiveAck s.pcb ackno = some s.pcb := by
  have hkeep : (unsentSegs m).dropWhile (fun seg => between ackno (add32 seg.seqno seg.len) s.pcb.sndNxt) = unsentSegs m :=
    dropWhile_append_eq (a := []) nofun hfalse
  have hclens : segClens (unsentSegs m) + segClens (sentSegs m) = s.pcb.sndQueuelen := by
    rw [h.sndQueuelen, ← segClens_marks, Nat.add_comm]
  have hunsent : ackUnsent s.pcb ackno = some s.pcb := by
    have hrem := removeAcked_eq (fun seg => between ackno (add32 seg.seqno seg.len) s.pcb.sndNxt) (sentSegs m) (unsentSegs m)
    rw [hkeep, hclens, ← h.unacked, ← h.unsent] at hrem
    rw [ackUnsent, hrem, Option.map_some]
  unfold tcpReceiveAck
  rcases hnew with hold | hfar
  · rw [if_pos hold, hunsent]
  · rw [hfar, if_neg Bool.false_ne_true, ite_self, hunsent]

/-- An acknowledgement of data that was sent. -/
theorem receiveAck_new {acked' : Nat} (h : TcpStream iss s start acked nxt (pre ++ post)) (hack : ackno = num (iss + acked'))
    (hle : acked < acked' ∧ acked' ≤ nxt) (hpre : start + (segBytes (allSegs pre)).length ≤ acked')
    (hpost : ∀ x ∈ post.head?, acked' < start + (segBytes (allSegs pre)).length + x.1.len) :
    tcpReceiveAck s.pcb ackno =
      some { s.pcb with
        sndBuf := s.pcb.sndBuf + (acked' - acked)
        lastack := num (iss + acked')
        unacked := sentSegs post
        unsent := unsentSegs post
        sndQueuelen := segClens (allSegs post) } := by
  have hb := h.bounds
  have hlen := length_eq h
  have hmax := length_le h
  have hbuf := h.sndBuf
  rw [tcpSndBuf] at hbuf
  have hold : leq ackno s.pcb.lastack = false := by
    rw [hack, h.lastack, leq_num (by omega) (by omega), decide_eq_false_iff_not]
    omega
  have hnxt : leq ackno s.pcb.sndNxt = true := by
    rw [hack, h.sndNxt, leq_num (by omega) (by omega), decide_eq_true_eq]
    omega
  have hbetween : between ackno (add32 s.pcb.lastack 1) s.pcb.sndNxt = true := by
    rw [between, hnxt, Bool.and_true, hack, h.lastack, num_add, geq_num (by omega) (by omega), decide_eq_true_eq]
    omega
  have hsub : sub32 ackno s.pcb.lastack = acked' - acked := by
    rw [hack, h.lastack, sub32_num_eq (by omega) (by omega)]
    omega
  have hsent : (sentSegs (pre ++ post)).dropWhile (fun seg => leq (add32 seg.seqno seg.len) ackno) = sentSegs post := by
    refine dropWhile_marks h.tiled sentSegs_append (fun a seg => mem_allSegs_of_sent) hpre hpost ?_
    intro e seg hend he hs
    rw [hend, hack, leq_num (by omega) (by omega), decide_eq_decide]
    omega
  have hunsent : (unsentSegs (pre ++ post)).dropWhile (fun seg => between ackno (add32 seg.seqno seg.len) s.pcb.sndNxt) =
      unsentSegs post := by
    refine dropWhile_marks h.tiled unsentSegs_append (fun a seg => mem_allSegs_of_unsent) hpre hpost ?_
    intro e seg hend he hs
    rw [between, hnxt, Bool.and_true, hend, hack, geq_num (by omega) (by omega), decide_eq_decide]
    omega
  unfold tcpReceiveAck ackNew
  rw [hold, if_neg Bool.false_ne_true, hbetween, if_pos rfl, hsub, Nat.mod_eq_of_lt (show acked' - acked < 65536 by omega),
    Nat.mod_eq_of_lt (show s.pcb.sndBuf + (acked' - acked) < 65536 by omega), h.unacked, h.unsent, h.sndQueuelen, ← segClens_marks]
  dsimp only
  rw [removeAcked_eq, hsent, Option.map_some, Option.bind_some]
  unfold ackUnsent
  dsimp only
  rw [Nat.add_comm (segClens (sentSegs post)), removeAcked_eq, hunsent, Option.map_some, ← segClens_marks,
    Nat.add_comm (segClens (sentSegs post)), hack]

/-- An unsent segment ends behind what is acknowledged. -/
theorem end_of_unsent {seg : TcpSeg} (h : TcpStream iss s start acked nxt m) (hseg : seg ∈ unsentSegs m) :
    ∃ e, add32 seg.seqno seg.len = num (iss + e) ∧ acked < e ∧ e ≤ s.written.length := by
  obtain ⟨e, hend, hfirst, hle⟩ := tiled_end h.tiled (mem_allSegs_of_unsent hseg)
  have hlen := length_eq h
  have hafter : iss + acked < e := by
    cases m with
    | nil => cases hseg
    | cons x m =>
      have hx := hfirst x.1 rfl
      have hfront := h.front x rfl
      omega
  obtain ⟨e, rfl⟩ := Nat.exists_eq_add_of_le (Nat.le_trans (Nat.le_add_right iss acked) (Nat.le_of_lt hafter))
  exact ⟨e, hend, by omega, by omega⟩

/-- What an acknowledgement does: it removes segments from the front, and no assertion fails. -/
structure Acked (iss start nxt : Nat) (s : TcpConn) (m : List (TcpSeg × Bool)) (ackno start' acked' : Nat)
    (m' : List (TcpSeg × Bool)) (pcb' : TcpPcb) : Prop where
  eq : tcpReceiveAck s.pcb ackno = some pcb'
  stream : TcpStream iss { s with pcb := pcb' } start' acked' nxt m'
  removed : ∃ pre, m = pre ++ m' ∧ start' = start + (segBytes (allSegs pre)).length
  oversize : pcb'.unsentOversize = s.pcb.unsentOversize

/-- An acknowledgement removes segments from the front. -/
theorem stream_ack (h : TcpStream iss s start acked nxt m) (hok : AckOk s.pcb ackno) :
    ∃ start' acked' m' pcb', Acked iss start nxt s m ackno start' acked' m' pcb' := by
  have hb := h.bounds
  have hlen := length_eq h
  have hmax := length_le h
  have hack := eq_num_add hok.1 (iss + acked)
  have hdist := hok.2
  rw [h.lastack] at hdist
  generalize hd : sub32 ackno (num (iss + acked)) = d at hack hdist
  rcases hdist with hlt | hge
  · by_cases hnew : 0 < d ∧ acked + d ≤ nxt
    · obtain ⟨pre, post, rfl, hpre, hpost⟩ := exists_split m (acked + d) start (by omega)
      have heq := receiveAck_new h (Nat.add_assoc iss acked d ▸ hack) (by omega) hpre hpost
      exact ⟨_, _, _, _, heq, stream_drop h (by omega) hpre hpost, ⟨pre, rfl, rfl⟩, rfl⟩
    · refine ⟨start, acked, m, s.pcb, receiveAck_none h ?_ ?_, h, ⟨[], rfl, rfl⟩, rfl⟩
      · rw [between, hack, h.lastack, h.sndNxt, leq_num (by omega) (by omega), leq_num (by omega) (by omega), decide_eq_true_eq,
          Bool.and_eq_false_iff, decide_eq_false_iff_not]
        omega
      · intro seg hseg
        obtain ⟨e, hend, hafter, hle⟩ := end_of_unsent h hseg
        rw [between, hend, hack, h.sndNxt, geq_num (by omega) (by omega), leq_num (by omega) (by omega), Bool.and_eq_false_iff,
          decide_eq_false_iff_not, decide_eq_false_iff_not]
        omega
  · refine ⟨start, acked, m, s.pcb, receiveAck_none h (Or.inl ?_) ?_, h, ⟨[], rfl, rfl⟩, rfl⟩
    · rw [leq, lt, h.lastack, hd, Bool.or_eq_true, decide_eq_true_eq, decide_eq_true_eq]
      omega
    · intro seg hseg
      obtain ⟨e, hend, hafter, hle⟩ := end_of_unsent h hseg
      rw [between, Bool.and_eq_false_iff]
      refine Or.inl ?_
      rw [geq, lt, hend, Bool.not_eq_false', decide_eq_true_eq]
      rw [sub32, num] at hd ⊢
      omega

end Ack

/-! ## Retransmission -/

section Rexmit

variable {iss start acked nxt : Nat} {s : TcpConn} {m : List (TcpSeg × Bool)}

/-- A fast retransmission takes back the mark of one segment. -/
theorem stream_rexmit (h : TcpStream iss s start acked nxt m) :
    ∃ m', TcpStream iss { s with pcb := tcpRexmit s.pcb } start acked nxt m' := by
  unfold tcpRexmit
  cases hunacked : s.pcb.unacked with
  | nil => exact ⟨m, h⟩
  | cons seg rest =>
    obtain ⟨m₁, m₂, rfl, hm₁, hm₂⟩ := sentSegs_eq_cons (h.unacked ▸ hunacked)
    have hlt := bytes_lt h
    have htiled := h.tiled
    rw [allSegs_append, allSegs_cons] at hlt htiled
    obtain ⟨hfront, hback⟩ := tiled_sep htiled hlt
    refine ⟨m₁ ++ (seg, false) :: m₂,
      stream_remark h (remarked_self seg _) ⟨Nat.le_refl _, h.bounds.2.2⟩ Bool.noConfusion rfl ?_ ?_ h.sndNxt⟩
    · rw [sentSegs_append, hm₁, sentSegs, hm₂]
      rfl
    · dsimp only
      rw [h.unsent, unsentSegs_append, unsentSegs, unsentSegs_append, unsentSegs,
        insertSeg_eq (fun s hs => (hfront s (mem_allSegs_of_unsent hs)).1) fun s hs => (hback s (mem_allSegs_of_unsent hs)).2]

/-- Then the one queue stands behind the other. -/
theorem queues_eq_all (h : TcpStream iss s start acked nxt m) (hord : InOrder s.pcb) :
    s.pcb.unacked ++ s.pcb.unsent = allSegs m := by
  rw [h.unacked, h.unsent]
  cases hunsent : unsentSegs m with
  | nil => rw [List.append_nil, sentSegs_eq_all hunsent]
  | cons seg rest =>
    obtain ⟨m₁, m₂, rfl, hm₁, hm₂⟩ := unsentSegs_eq_cons hunsent
    have hlt := bytes_lt h
    have htiled := h.tiled
    rw [allSegs_append, allSegs_cons] at hlt htiled
    have hback := (tiled_sep htiled hlt).2
    have hm₂nil : sentSegs m₂ = [] := by
      rcases (sentSegs m₂).eq_nil_or_concat with hnil | ⟨l, u, hu⟩
      · exact hnil
      · rw [List.concat_eq_append] at hu
        have hlast : u ∈ s.pcb.unacked.getLast? := by
          rw [h.unacked, sentSegs_append, sentSegs, hu, ← List.append_assoc, List.getLast?_concat]
          rfl
        have hhead : seg ∈ s.pcb.unsent.head? := by
          rw [h.unsent, hunsent]
          rfl
        have hmem : u ∈ allSegs m₂ := mem_allSegs_of_sent (by rw [hu]; simp)
        have hlater := hord u hlast seg hhead
        rw [(hback u hmem).2] at hlater
        cases hlater
    rw [sentSegs_append, sentSegs, hm₂nil, List.append_nil, sentSegs_eq_all hm₁, ← hm₂, unsentSegs_eq_all hm₂nil, allSegs_append,
      allSegs_cons]

/-- A timeout takes back all marks, and `tcp_output` sets some again. -/
theorem stream_rto (wnd : Nat) (ackNow infr fin : Bool) (h : TcpStream iss s start acked nxt m) (hord : InOrder s.pcb) :
    ∃ nxt' m', TcpStream iss { s with pcb := tcpRexmitRto wnd ackNow infr fin s.pcb } start acked nxt' m' := by
  unfold tcpRexmitRto
  split
  · exact ⟨nxt, m, h⟩
  · have h' : TcpStream iss { s with pcb := { s.pcb with unsent := s.pcb.unacked ++ s.pcb.unsent, unacked := [] } } start acked nxt
        ((allSegs m).map fun seg => (seg, false)) := by
      refine ⟨h.mss, (sentSegs_unsent _).symm, ?_, ?_, ?_, h.bounds, ?_, sentUpTo_unsent _, h.lastack, h.sndNxt, h.sndLbb, h.sndBuf, ?_,
        ?_⟩
      · rw [unsentSegs_unsent]
        exact queues_eq_all h hord
      · rw [allSegs_unsent]
        exact h.tiled
      · rw [allSegs_unsent]
        exact h.bytes
      · intro x hx
        cases m with
        | nil => cases hx
        | cons y m =>
          obtain rfl := Option.some.inj hx
          exact h.front y rfl
      · rw [allSegs_unsent]
        exact h.sndQueuelen
      · rw [allSegs_unsent]
        exact h.room
    exact stream_output wnd ackNow infr fin h'

end Rexmit

/-! ## Writing -/

section Write

variable {iss start acked nxt : Nat} {s : TcpConn} {m : List (TcpSeg × Bool)}

/-- Then it is the last segment there is. -/
theorem marks_eq_concat {kept : List TcpSeg} {last : TcpSeg} (h : TcpStream iss s start acked nxt m) (hend : AtEnd s.pcb)
    (hunsent : s.pcb.unsent = kept ++ [last]) : ∃ m₁, m = m₁ ++ [(last, false)] ∧ unsentSegs m₁ = kept := by
  obtain ⟨m₁, m₂, rfl, hm₁, _⟩ := unsentSegs_eq_append (h.unsent ▸ hunsent)
  have hlast := hend last (by rw [hunsent, List.getLast?_concat]; rfl)
  have hlen := length_eq h
  have hmax := length_le h
  have htiled := h.tiled
  rw [allSegs_append, allSegs_cons] at htiled hlen
  rw [segBytes_append, segBytes_cons, List.length_append, List.length_append, ← TcpSeg.len] at hlen
  rw [(tiled_mem htiled).2.2, h.sndLbb, num, num] at hlast
  have hempty : m₂ = [] := by
    cases m₂ with
    | nil => rfl
    | cons x m₂ =>
      have hpos := (tiled_append.mp htiled).2.2.2.2.1
      rw [show allSegs (x :: m₂) = x.1 :: allSegs m₂ from rfl, segBytes_cons, List.length_append, ← TcpSeg.len] at hlen
      omega
  exact ⟨m₁, by rw [hempty], hm₁⟩

/-- What a write adds stands at the end of the stream. -/
theorem stream_wrote {d : List UInt8} {pcb' : TcpPcb} {kept old new : List TcpSeg} (h : TcpStream iss s start acked nxt m)
    (hend : AtEnd s.pcb) (hw : Wrote s.pcb d pcb' kept old new) :
    ∃ m₁, m = m₁ ++ old.map (fun seg => (seg, false)) ∧
      TcpStream iss ⟨pcb', s.written ++ d⟩ start acked nxt (m₁ ++ new.map fun seg => (seg, false)) := by
  have hm : ∃ m₁, m = m₁ ++ old.map (fun seg => (seg, false)) ∧ unsentSegs m₁ = kept := by
    rcases hw.shape with ⟨hnil, rfl, rfl⟩ | ⟨last, rfl⟩
    · exact ⟨m, (List.append_nil m).symm, h.unsent ▸ hnil⟩
    · exact marks_eq_concat h hend hw.before
  obtain ⟨m₁, rfl, hm₁⟩ := hm
  obtain ⟨hmss, hnxt, hlastack, hunacked⟩ := hw.same
  have hlen := length_eq h
  have hb := h.bounds
  have htiled := h.tiled
  have hbytes := h.bytes
  have hclens := h.sndQueuelen
  have hwclens := hw.clens
  have hbuf := hw.buf
  have hsndBuf := h.sndBuf
  rw [allSegs_append, allSegs_unsent] at hlen htiled hbytes hclens
  rw [segBytes_append] at hlen hbytes
  rw [List.length_append] at hlen
  rw [segClens_append] at hclens
  obtain ⟨hl, hr⟩ := tiled_append.mp htiled
  have hnew : Tiled (iss + start + (segBytes (allSegs m₁)).length) new := by
    refine hw.tiled _ ?_ hr
    rw [h.sndLbb]
    congr 1
    omega
  refine ⟨m₁, rfl, hmss ▸ h.mss, ?_, ?_, ?_, ?_, ⟨hb.1, hb.2.1, ?_⟩, ?_, ?_, ?_, ?_, ?_, ?_, ?_, ?_⟩
  · rw [hunacked, h.unacked, sentSegs_append, sentSegs_append, sentSegs_unsent, sentSegs_unsent]
  · rw [unsentSegs_append, unsentSegs_unsent, hm₁]
    exact hw.after
  · rw [allSegs_append, allSegs_unsent, tiled_append]
    exact ⟨hl, hnew⟩
  · rw [allSegs_append, allSegs_unsent, segBytes_append, hw.bytes, ← List.append_assoc, hbytes, List.drop_append_of_le_length (by omega)]
  · rw [List.length_append]
    omega
  · intro x hx
    cases m₁ with
    | cons y m₁ => exact h.front x hx
    | nil =>
      rcases hw.shape with ⟨_, rfl, rfl⟩ | ⟨last, rfl⟩
      · cases new with
        | nil => cases hx
        | cons seg l =>
          obtain rfl := Option.some.inj hx
          have hpos := hnew.2.1
          simp only [allSegs, List.map_nil, segBytes_nil, List.length_nil] at hlen ⊢
          omega
      · obtain ⟨seg, l, rfl, hle⟩ := hw.grows last rfl
        obtain rfl := Option.some.inj hx
        exact Nat.lt_of_lt_of_le (h.front (last, false) rfl) (Nat.add_le_add_left hle start)
  · rw [sentUpTo_append]
    exact ⟨(sentUpTo_append.mp h.sent).1, sentUpTo_unsent new⟩
  · exact hlastack ▸ h.lastack
  · exact hnxt ▸ h.sndNxt
  · rw [List.length_append, ← Nat.add_assoc]
    exact hw.lbb _ h.sndLbb
  · rw [List.length_append]
    dsimp only
    omega
  · rw [allSegs_append, allSegs_unsent, segClens_append]
    dsimp only
    omega
  · intro seg hseg
    rw [allSegs_append, allSegs_unsent] at hseg
    dsimp only
    rw [hmss]
    rcases List.mem_append.mp hseg with hseg | hseg
    · exact h.room seg (by rw [allSegs_append]; exact List.mem_append_left _ hseg)
    · exact hw.room seg hseg

/-- A write puts its data at the end. -/
theorem stream_write {place : Nat → Nat} {budget : Nat} {data : List UInt8} {copy more : Bool} {err : LwipErr} {pcb' : TcpPcb}
    (h : TcpStream iss s start acked nxt m) (hend : AtEnd s.pcb)
    (hs : tcpWrite s.pcb place budget data copy more = some (err, pcb')) :
    ∃ m', TcpStream iss ⟨pcb', if err = .ok then s.written ++ data else s.written⟩ start acked nxt m' := by
  have hroom : ∀ seg ∈ s.pcb.unsent, RoomOk s.pcb.mss seg := by
    intro seg hseg
    exact h.room seg (mem_allSegs_of_unsent (h.unsent ▸ hseg))
  obtain ⟨kept, old, new, hw⟩ := tcpWrite_spec h.mss.1 h.mss.2 (sndBuf_lt h) hroom hs
  have hwritten : (if err = .ok then s.written ++ data else s.written) = s.written ++ if err = .ok then data else [] := by
    split
    · rfl
    · rw [List.append_nil]
  obtain ⟨m₁, _, h'⟩ := stream_wrote h hend hw
  exact ⟨_, hwritten ▸ h'⟩

end Write

end TcpStreamAux

open TcpStreamAux in
/-- One step of a connection keeps its stream. -/
theorem stream_step {iss start acked nxt : Nat} {s s' : TcpConn} {m : List (TcpSeg × Bool)} {a : TcpAct}
    (h : TcpStream iss s start acked nxt m) (ha : a.Sound s) (hs : tcpStep s a = some s') :
    ∃ start' acked' nxt' m', TcpStream iss s' start' acked' nxt' m' := by
  cases a with
  | write place budget data copy more =>
    obtain ⟨⟨err, pcb'⟩, hwrite, rfl⟩ := Option.map_eq_some_iff.mp hs
    obtain ⟨m', h'⟩ := stream_write h ha hwrite
    exact ⟨start, acked, nxt, m', h'⟩
  | output wnd ackNow infr fin =>
    obtain rfl := Option.some.inj hs
    exact ⟨start, acked, stream_output wnd ackNow infr fin h⟩
  | ack ackno =>
    obtain ⟨start', acked', m', pcb', hacked⟩ := stream_ack h ha
    obtain ⟨p, hp, rfl⟩ := Option.map_eq_some_iff.mp hs
    obtain rfl := Option.some.inj (hp.symm.trans hacked.eq)
    exact ⟨start', acked', nxt, m', hacked.stream⟩
  | rto wnd ackNow infr fin =>
    obtain rfl := Option.some.inj hs
    exact ⟨start, acked, stream_rto wnd ackNow infr fin h ha⟩
  | rexmit =>
    obtain rfl := Option.some.inj hs
    obtain ⟨m', h'⟩ := stream_rexmit h
    exact ⟨start, acked, nxt, m', h'⟩

/-- A new connection has nothing written. -/
theorem stream_init (mss iss : Nat) (nodelay : Bool) (hmss : 0 < mss ∧ mss ≤ tcpOversize) :
    TcpStream iss (TcpConn.init mss iss nodelay) 0 0 0 [] where
  mss := hmss
  unacked := rfl
  unsent := rfl
  tiled := trivial
  bytes := rfl
  bounds := ⟨Nat.le_refl 0, Nat.le_refl 0, Nat.le_refl 0⟩
  front := nofun
  sent := trivial
  lastack := rfl
  sndNxt := rfl
  sndLbb := rfl
  sndBuf := rfl
  sndQueuelen := rfl
  room := nofun

/-- So in every run, what is not acknowledged is in the queues. -/
theorem stream_of_reaches {mss iss : Nat} {nodelay : Bool} {s : TcpConn} (hmss : 0 < mss ∧ mss ≤ tcpOversize)
    (h : Reaches tcpStep (fun s a => a.Sound s) (TcpConn.init mss iss nodelay) s) :
    ∃ start acked nxt m, TcpStream iss s start acked nxt m := by
  refine h.invariant (fun s => ∃ start acked nxt m, TcpStream iss s start acked nxt m) ⟨0, 0, 0, [], stream_init mss iss nodelay hmss⟩ ?_
  rintro s a s' ⟨start, acked, nxt, m, hstream⟩ ha hs
  exact stream_step hstream ha hs

end SaymaFirmware
