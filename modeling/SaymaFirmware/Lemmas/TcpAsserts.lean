import SaymaFirmware.Lemmas.TcpStream

/-!
# The assertions of `tcp_write`

While pbufs are counted right, the only assertion of a write that can fail is that `unsent_oversize` is the room at the end of the last
unsent segment (`tcpWrite_isSome`). A retransmission can break that; without one it holds in every state (`SentOnce`).
-/

namespace SaymaFirmware

open SeqNum

namespace TcpAssertsAux

open TcpWriteAux

variable {pcb : TcpPcb} {place : Nat → Nat} {copy more first : Bool}

/-- A composed phase fails where its first part does, or in its second part. -/
theorem bind_error {α β : Type} {x : Except WriteFail α} {f : α → Except WriteFail β} {e : WriteFail} (h : (x >>= f) = .error e) :
    x = .error e ∨ ∃ a, x = .ok a ∧ f a = .error e := by
  cases x with
  | error e' =>
    cases h
    exact Or.inl rfl
  | ok a => exact Or.inr ⟨a, rfl, h⟩

/-- Running out of memory is no failed assertion. -/
theorem tcpAlloc_ne_assertion (budget : Nat) : tcpAlloc budget ≠ .error .assertion := by
  cases budget <;> exact nofun

/-- `tcp_pbuf_prealloc` has no assertion. -/
theorem prealloc_ne_assertion {budget length maxLength : Nat} :
    tcpPbufPrealloc pcb budget length maxLength more first ≠ .error .assertion := by
  intro h
  rcases bind_error h with h | ⟨b, _, h⟩
  · exact tcpAlloc_ne_assertion budget h
  · cases h

/-- Data that is not copied wants no room at the end. -/
theorem newPbufs_ne_assertion {budget oversize length : Nat} (hroom : copy = true ∨ oversize = 0) :
    newPbufs pcb budget oversize length copy more first ≠ .error .assertion := by
  intro h
  cases copy with
  | true => exact prealloc_ne_assertion h
  | false =>
    rcases hroom with hcopy | rfl
    · cases hcopy
    · rw [newPbufs, if_neg Bool.false_ne_true, if_neg (by simp)] at h
      rcases bind_error h with h | ⟨b, _, h⟩
      · exact tcpAlloc_ne_assertion budget h
      · rcases bind_error h with h | ⟨b', _, h⟩
        · exact tcpAlloc_ne_assertion b h
        · cases h

/-- So a new segment meets no assertion. -/
theorem newSeg_ne_assertion {addr pos budget oversize queuelen : Nat} {piece : List UInt8} (hroom : copy = true ∨ oversize = 0) :
    newSeg pcb addr pos budget oversize queuelen piece copy more first ≠ .error .assertion := by
  intro h
  rcases bind_error h with h | ⟨⟨spare, b⟩, _, h⟩
  · exact newPbufs_ne_assertion hroom h
  · simp only at h
    by_cases hlen : tcpSndQueuelen < queuelen + (if copy then 1 else 2) ∨ tcpSndqueuelenOverflow < queuelen + (if copy then 1 else 2)
    · rw [if_pos hlen] at h
      cases h
    · rw [if_neg hlen] at h
      rcases bind_error h with h | ⟨b', _, h⟩
      · exact tcpAlloc_ne_assertion b h
      · cases h

/-- Without a copy there is never room at the end of a segment. -/
theorem newSeg_room {addr pos budget oversize queuelen : Nat} {piece : List UInt8} {r : TcpSeg × Nat × Nat × Nat}
    (h : newSeg pcb addr pos budget oversize queuelen piece copy more first = .ok r) (hroom : copy = true ∨ oversize = 0) :
    copy = true ∨ r.2.1 = 0 := by
  rcases hroom with hcopy | rfl
  · exact Or.inl hcopy
  · cases copy with
    | true => exact Or.inl rfl
    | false =>
      obtain ⟨⟨spare, b⟩, hp, h⟩ := bind_ok h
      rw [newPbufs, if_neg Bool.false_ne_true, if_neg (by simp)] at hp
      obtain ⟨b₁, _, hp⟩ := bind_ok hp
      obtain ⟨b₂, _, hp⟩ := bind_ok hp
      obtain ⟨rfl, rfl⟩ := Prod.mk.inj (Except.ok.inj hp)
      simp only [Bool.false_eq_true, if_false] at h
      split at h
      · cases h
      · obtain ⟨b', _, h⟩ := bind_ok h
        obtain rfl := Except.ok.inj h
        exact Or.inr rfl

/-- Nor do all of phase 3, of which only the first segment can find room left by the phases before. -/
theorem newSegs_ne_assertion (fuel : Nat) :
    ∀ {pos budget oversize queuelen : Nat} {data : List UInt8} {first : Bool}, data = [] ∨ copy = true ∨ oversize = 0 →
      newSegs pcb place copy more fuel pos budget oversize queuelen data first ≠ .error .assertion := by
  induction fuel with
  | zero =>
    intro pos budget oversize queuelen data first _ h
    unfold newSegs at h
    split at h <;> cases h
  | succ fuel ih =>
    intro pos budget oversize queuelen data first hroom h
    unfold newSegs at h
    split at h
    · cases h
    · rename_i hne
      have hroom' := hroom.resolve_left hne
      rcases bind_error h with h | ⟨⟨seg, spare, qlen, b⟩, hseg, h⟩
      · exact newSeg_ne_assertion hroom' h
      · rcases bind_error h with h | ⟨rest, _, h⟩
        · exact ih (Or.inr (newSeg_room hseg hroom')) h
        · cases h

/-- Phases 1 and 2 assert nothing but that the room is the one in `unsent_oversize`. -/
theorem extendLast_ne_assertion {last : TcpSeg} {budget len : Nat} (hroom : pcb.unsentOversize = last.oversizeLeft) :
    extendLast pcb last budget len copy more ≠ .error .assertion := by
  intro h
  unfold extendLast at h
  rw [if_neg (not_not.mpr hroom)] at h
  simp only at h
  rw [if_neg (by omega)] at h
  split at h
  · split at h
    · rcases bind_error h with h | ⟨⟨spare, b⟩, _, h⟩
      · exact prealloc_ne_assertion h
      · cases h
    · rcases bind_error h with h | ⟨b, _, h⟩
      · exact tcpAlloc_ne_assertion budget h
      · cases h
  · cases h

section Write

variable {budget : Nat} {data : List UInt8}

/-- With something unsent, the count of pbufs may be what it is. -/
theorem validQueue_of_unsent (h : pcb.unsent ≠ []) : validQueue pcb = true := by
  rw [validQueue, decide_eq_true h, Bool.or_true]

/-- The exit for lack of memory asserts that queues are empty only without pbufs. -/
theorem writeMemErr_isSome (h : validQueue pcb = true) : (writeMemErr pcb).isSome := by
  rw [writeMemErr, if_pos h]
  rfl

/-- With nothing unsent, a write goes through when no room is left over from before. -/
theorem writeNew_isSome (place : Nat → Nat) (budget : Nat) (data : List UInt8) (copy more : Bool) (hpos : 0 < pcb.mss)
    (hmss : pcb.mss ≤ tcpOversize) (hnil : pcb.unsent = []) (hvalid : validQueue pcb = true)
    (hover : pcb.unsentOversize = 0) : (writeNew pcb place budget data copy more).isSome := by
  unfold writeNew
  rw [if_neg (not_not.mpr hover)]
  cases hq : newSegs pcb place copy more data.length 0 budget 0 pcb.sndQueuelen data true with
  | error e =>
    cases e with
    | assertion => exact absurd hq (newSegs_ne_assertion _ (Or.inr (Or.inr rfl)))
    | mem => exact writeMemErr_isSome hvalid
  | ok q =>
    have hnew := newSegs_ok hpos hmss _ hq
    dsimp only
    rw [if_pos]
    · rfl
    · cases hqueue : q.queue with
      | nil =>
        have hclens := hnew.clens
        rw [hqueue, segClens_nil, Nat.add_zero] at hclens
        rw [validQueue, hnil] at hvalid
        simpa [validQueue, commitWrite, hclens, setPsh] using hvalid
      | cons seg l =>
        refine validQueue_of_unsent ?_
        intro hempty
        have hcore := congrArg (List.map TcpSeg.core) hempty
        unfold commitWrite at hcore
        dsimp only at hcore
        split at hcore
        · cases hcore
        · rw [map_core_setPsh] at hcore
          cases hcore

/-- Behind an unsent segment, it goes through when `unsent_oversize` is the room at its end. -/
theorem writeBehind_isSome {kept : List TcpSeg} {last : TcpSeg} (place : Nat → Nat) (budget : Nat) (data : List UInt8)
    (copy more : Bool) (hmss : pcb.mss ≤ tcpOversize) (hunsent : pcb.unsent = kept ++ [last])
    (hroom : RoomOk pcb.mss last) (hover : pcb.unsentOversize = last.oversizeLeft) :
    (writeBehind pcb last place budget data copy more).isSome := by
  unfold writeBehind
  cases hext : extendLast pcb last budget data.length copy more with
  | error e =>
    cases e with
    | assertion => exact absurd hext (extendLast_ne_assertion hover)
    | mem => exact writeMemErr_isSome (validQueue_of_unsent (by rw [hunsent]; simp))
  | ok tail =>
    have ht := extendLast_ok hext hroom hmss
    dsimp only
    split
    · rename_i hq
      refine absurd hq (newSegs_ne_assertion _ ?_)
      rcases ht.rest with hall | hzero
      · exact Or.inl (List.drop_of_length_le (by omega))
      · exact Or.inr (Or.inr hzero)
    · exact writeMemErr_isSome (validQueue_of_unsent (by simp))
    · rw [if_pos]
      · rfl
      · refine validQueue_of_unsent ?_
        intro hempty
        have hcore := congrArg (List.map TcpSeg.core) hempty
        unfold commitWrite at hcore
        dsimp only at hcore
        split at hcore
        · simp at hcore
        · rw [List.map_append, map_core_setPsh] at hcore
          simp at hcore

/-- And it fails an assertion otherwise. -/
theorem writeNew_eq_none_iff (hpos : 0 < pcb.mss) (hmss : pcb.mss ≤ tcpOversize) (hnil : pcb.unsent = [])
    (hvalid : validQueue pcb = true) : writeNew pcb place budget data copy more = none ↔ pcb.unsentOversize ≠ 0 := by
  constructor
  · intro h hover
    have hsome := writeNew_isSome place budget data copy more hpos hmss hnil hvalid hover
    rw [h] at hsome
    cases hsome
  · intro hover
    rw [writeNew, if_pos hover]

/-- Here too. -/
theorem writeBehind_eq_none_iff {kept : List TcpSeg} {last : TcpSeg} (hmss : pcb.mss ≤ tcpOversize)
    (hunsent : pcb.unsent = kept ++ [last]) (hroom : RoomOk pcb.mss last) :
    writeBehind pcb last place budget data copy more = none ↔ pcb.unsentOversize ≠ last.oversizeLeft := by
  constructor
  · intro h hover
    have hsome := writeBehind_isSome place budget data copy more hmss hunsent hroom hover
    rw [h] at hsome
    cases hsome
  · intro hover
    rw [writeBehind, extendLast, if_pos hover]

end Write

section Checks

variable {len : Nat}

/-- Segments have pbufs. -/
theorem segClens_pos {mss : Nat} {l : List TcpSeg} (h : ∀ seg ∈ l, RoomOk mss seg) : 0 < segClens l ↔ l ≠ [] := by
  cases l with
  | nil => simp
  | cons seg l =>
    have := (h seg List.mem_cons_self).pbufs
    rw [segClens_cons]
    simp
    omega

/-- Pbufs are counted when there are segments. -/
theorem queuelen_eq_zero (hroom : ∀ seg ∈ pcb.unacked ++ pcb.unsent, RoomOk pcb.mss seg)
    (hcount : pcb.sndQueuelen = segClens (pcb.unacked ++ pcb.unsent)) : pcb.sndQueuelen = 0 ↔ pcb.unacked = [] ∧ pcb.unsent = [] := by
  have hpos := segClens_pos hroom
  rw [← List.append_eq_nil_iff, hcount]
  constructor
  · intro h
    by_contra hne
    have := hpos.mpr hne
    omega
  · intro h
    rw [h]
    rfl

/-- The checks assert that the count of pbufs is zero exactly when both queues are empty. -/
theorem tcpWriteChecks_ne_assertion (hzero : pcb.sndQueuelen = 0 ↔ pcb.unacked = [] ∧ pcb.unsent = []) :
    tcpWriteChecks pcb len ≠ .error .assertion := by
  intro h
  unfold tcpWriteChecks at h
  by_cases hq : pcb.sndQueuelen = 0
  · rw [if_neg (not_not.mpr hq), if_pos (hzero.mp hq)] at h
    repeat' split at h
    all_goals cases h
  · have hne : pcb.unacked ≠ [] ∨ pcb.unsent ≠ [] := by
      by_contra hnone
      exact hq (hzero.mpr (by simpa using hnone))
    rw [if_pos hq, if_pos hne] at h
    repeat' split at h
    all_goals cases h

/-- The same at the exit for lack of memory. -/
theorem validQueue_of_count (hzero : pcb.sndQueuelen = 0 ↔ pcb.unacked = [] ∧ pcb.unsent = []) : validQueue pcb = true := by
  by_cases hq : pcb.sndQueuelen = 0
  · simp [validQueue, hq]
  · have hne : ¬(pcb.unacked = [] ∧ pcb.unsent = []) := fun h => hq (hzero.mpr h)
    rw [not_and_or] at hne
    rcases hne with hne | hne
    · simp [validQueue, hne]
    · simp [validQueue, hne]

end Checks

end TcpAssertsAux

open TcpWriteAux TcpAssertsAux in
/-- A write ends in a failed assertion exactly if it comes to the segments and the room noted for the last one is not the room there is. -/
theorem tcpWrite_eq_none_iff {pcb : TcpPcb} (hpos : 0 < pcb.mss) (hmss : pcb.mss ≤ tcpOversize)
    (hroom : ∀ seg ∈ pcb.unacked ++ pcb.unsent, RoomOk pcb.mss seg) (hcount : pcb.sndQueuelen = segClens (pcb.unacked ++ pcb.unsent))
    (place : Nat → Nat) (budget : Nat) (data : List UInt8) (copy more : Bool) :
    tcpWrite pcb place budget data copy more = none ↔
      tcpWriteChecks pcb data.length = .ok () ∧ pcb.unsentOversize ≠ endRoom pcb.unsent := by
  have hzero := queuelen_eq_zero hroom hcount
  unfold tcpWrite
  cases hchecks : tcpWriteChecks pcb data.length with
  | error e =>
    cases e with
    | assertion => exact absurd hchecks (tcpWriteChecks_ne_assertion hzero)
    | mem => simp
  | ok u =>
    rcases pcb.unsent.eq_nil_or_concat with hnil | ⟨kept, last, hlast⟩
    · rw [hnil]
      exact (writeNew_eq_none_iff hpos hmss hnil (validQueue_of_count hzero)).trans (and_iff_right rfl).symm
    · rw [List.concat_eq_append] at hlast
      rw [hlast, List.getLast?_concat, endRoom_concat]
      exact (writeBehind_eq_none_iff hmss hlast (hroom last (by simp [hlast]))).trans (and_iff_right rfl).symm

/-- So it is in every state of a connection. -/
theorem tcpWrite_eq_none_iff_of_stream {iss start acked nxt : Nat} {s : TcpConn} {m : List (TcpSeg × Bool)}
    (h : TcpStream iss s start acked nxt m) (place : Nat → Nat) (budget : Nat) (data : List UInt8) (copy more : Bool) :
    tcpWrite s.pcb place budget data copy more = none ↔
      tcpWriteChecks s.pcb data.length = .ok () ∧ s.pcb.unsentOversize ≠ endRoom s.pcb.unsent := by
  have hroom : ∀ seg ∈ s.pcb.unacked ++ s.pcb.unsent, RoomOk s.pcb.mss seg := by
    intro seg hseg
    rw [h.unacked, h.unsent] at hseg
    rcases List.mem_append.mp hseg with hseg | hseg
    · exact h.room seg (mem_allSegs_of_sent hseg)
    · exact h.room seg (mem_allSegs_of_unsent hseg)
  have hcount : s.pcb.sndQueuelen = segClens (s.pcb.unacked ++ s.pcb.unsent) := by
    rw [h.sndQueuelen, h.unacked, h.unsent, segClens_append, segClens_marks]
  exact tcpWrite_eq_none_iff h.mss.1 h.mss.2 hroom hcount place budget data copy more

/-! ## Without retransmissions -/

/-- The steps of a run without retransmissions. -/
def TcpAct.NoRexmit (s : TcpConn) : TcpAct → Prop
  | .write .. => True
  | .output .. => True
  | .ack ackno => AckOk s.pcb ackno
  | .rto .. => False
  | .rexmit => False

instance (s : TcpConn) : DecidablePred (TcpAct.NoRexmit s)
  | .write .. => inferInstanceAs (Decidable True)
  | .output .. => inferInstanceAs (Decidable True)
  | .ack ackno => inferInstanceAs (Decidable (AckOk s.pcb ackno))
  | .rto .. => inferInstanceAs (Decidable False)
  | .rexmit => inferInstanceAs (Decidable False)

/-- Marked segments from the position `p` on, of which those that have not been sent start at `nxt` or behind. -/
def UnsentFrom (nxt : Nat) : Nat → List (TcpSeg × Bool) → Prop
  | _, [] => True
  | p, x :: m => (x.2 = false → nxt ≤ p) ∧ UnsentFrom nxt (p + x.1.len) m

/-- A connection on which nothing was sent twice. -/
structure SentOnce (iss : Nat) (s : TcpConn) (start acked nxt : Nat) (m : List (TcpSeg × Bool)) : Prop where
  stream : TcpStream iss s start acked nxt m
  from_nxt : UnsentFrom nxt start m
  oversize : s.pcb.unsentOversize = endRoom s.pcb.unsent

namespace TcpAssertsAux

open TcpWriteAux TcpStreamAux

section Marked

variable {nxt p : Nat} {m m' : List (TcpSeg × Bool)}

/-- Unsent from a position on, for the two parts of a list. -/
theorem unsentFrom_append :
    UnsentFrom nxt p (m ++ m') ↔ UnsentFrom nxt p m ∧ UnsentFrom nxt (p + (segBytes (allSegs m)).length) m' := by
  induction m generalizing p with
  | nil => exact (and_iff_right trivial).symm
  | cons x m ih =>
    obtain ⟨seg, b⟩ := x
    rw [List.cons_append, UnsentFrom, UnsentFrom, ih, allSegs_cons, segBytes_cons, List.length_append, ← Nat.add_assoc, and_assoc]
    rfl

/-- Before that position nothing is asked. -/
theorem unsentFrom_of_le (h : nxt ≤ p) : UnsentFrom nxt p m := by
  induction m generalizing p with
  | nil => trivial
  | cons x m ih => exact ⟨fun _ => h, ih (Nat.le_add_right_of_le h)⟩

/-- Where everything is sent, nothing is asked either. -/
theorem unsentFrom_of_sent (h : unsentSegs m = []) : UnsentFrom nxt p m := by
  induction m generalizing p with
  | nil => trivial
  | cons x m ih =>
    obtain ⟨seg, b⟩ := x
    cases b with
    | false => cases h
    | true => exact ⟨Bool.noConfusion, ih h⟩

end Marked

section Steps

variable {iss start acked nxt ackno : Nat} {s : TcpConn} {m : List (TcpSeg × Bool)}

/-- What is not sent yet is at the end of the stream. -/
theorem atEnd_of_sentOnce (h : TcpStream iss s start acked nxt m) (hfrom : UnsentFrom nxt start m) : AtEnd s.pcb := by
  intro last hlast
  obtain ⟨kept, hkept⟩ : ∃ kept, unsentSegs m = kept ++ [last] := by
    rw [h.unsent] at hlast
    exact ⟨_, (List.dropLast_append_getLast? last hlast).symm⟩
  obtain ⟨m₁, m₂, rfl, _, hm₂⟩ := unsentSegs_eq_append hkept
  have hlen := length_eq h
  have htiled := h.tiled
  rw [allSegs_append, allSegs_cons] at htiled hlen
  rw [segBytes_append, segBytes_cons, List.length_append, List.length_append, ← TcpSeg.len] at hlen
  obtain ⟨_, hpos, hend⟩ := tiled_mem htiled
  cases m₂ with
  | nil =>
    rw [hend, h.sndLbb, ← hlen]
    congr 1
    simp only [allSegs, List.map_nil, segBytes_nil, List.length_nil]
    omega
  | cons x m₂ =>
    obtain ⟨seg, b⟩ := x
    cases b with
    | false => cases hm₂
    | true =>
      have hbefore := (sentUpTo_append.mp h.sent).2.2.1 rfl
      have hafter := (unsentFrom_append.mp hfrom).2.1 rfl
      dsimp only at hbefore
      omega

/-- Sending the first unsent segment moves the position to its end. -/
theorem sentOnce_sendFirst {seg : TcpSeg} {rest : List TcpSeg} (h : TcpStream iss s start acked nxt m) (hfrom : UnsentFrom nxt start m)
    (hunsent : s.pcb.unsent = seg :: rest) :
    ∃ nxt' m', TcpStream iss { s with pcb := sendFirst s.pcb seg rest } start acked nxt' m' ∧ UnsentFrom nxt' start m' := by
  obtain ⟨m₁, m₂, rfl, hm₁, h'⟩ := stream_sendFirst h hunsent
  have hle := (unsentFrom_append.mp hfrom).2.1 rfl
  refine ⟨_, _, h', unsentFrom_append.mpr ⟨unsentFrom_of_sent hm₁, Bool.noConfusion, unsentFrom_of_le ?_⟩⟩
  have hlen : (tcpOutputSegment seg).len = seg.len := rfl
  dsimp only
  omega

/-- The loop of `tcp_output` sends some of the segments, in order. -/
theorem sentOnce_outputLoop (wnd : Nat) (infr fin : Bool) (n : Nat) :
    ∀ {s : TcpConn} {nxt : Nat} {m : List (TcpSeg × Bool)}, TcpStream iss s start acked nxt m → UnsentFrom nxt start m →
      s.pcb.unsent = [] ∨ s.pcb.unsentOversize = endRoom s.pcb.unsent →
      ∃ nxt' m', TcpStream iss { s with pcb := tcpOutputLoop wnd infr fin n s.pcb } start acked nxt' m' ∧ UnsentFrom nxt' start m' ∧
        ((tcpOutputLoop wnd infr fin n s.pcb).unsent = [] ∨
          (tcpOutputLoop wnd infr fin n s.pcb).unsentOversize = endRoom (tcpOutputLoop wnd infr fin n s.pcb).unsent) := by
  induction n with
  | zero =>
    intro s nxt m h hfrom hover
    exact ⟨nxt, m, h, hfrom, hover⟩
  | succ n ih =>
    intro s nxt m h hfrom hover
    unfold tcpOutputLoop
    cases hunsent : s.pcb.unsent with
    | nil => exact ⟨nxt, m, h, hfrom, Or.inl hunsent⟩
    | cons seg rest =>
      dsimp only
      split
      · obtain ⟨nxt', m', h', hfrom'⟩ := sentOnce_sendFirst h hfrom hunsent
        refine ih h' hfrom' ?_
        cases rest with
        | nil => exact Or.inl rfl
        | cons seg' rest =>
          rw [hunsent] at hover
          exact Or.inr (hover.resolve_left (List.cons_ne_nil _ _))
      · exact ⟨nxt, m, h, hfrom, hover⟩

/-- So `tcp_output` keeps what is sent in front of what is not. -/
theorem sentOnce_output (wnd : Nat) (ackNow infr fin : Bool) (h : SentOnce iss s start acked nxt m) :
    ∃ nxt' m', SentOnce iss { s with pcb := tcpOutput wnd ackNow infr fin s.pcb } start acked nxt' m' := by
  unfold tcpOutput
  split
  · exact ⟨nxt, m, h⟩
  · obtain ⟨nxt', m', h', hfrom, hover⟩ := sentOnce_outputLoop wnd infr fin s.pcb.unsent.length h.stream h.from_nxt (Or.inr h.oversize)
    refine ⟨nxt', m', ⟨h'.mss, h'.unacked, h'.unsent, h'.tiled, h'.bytes, h'.bounds, h'.front, h'.sent, h'.lastack, h'.sndNxt, h'.sndLbb,
      h'.sndBuf, h'.sndQueuelen, h'.room⟩, hfrom, ?_⟩
    dsimp only at hover ⊢
    split
    · rename_i hnil
      rw [hnil]
      rfl
    · rename_i hne
      exact hover.resolve_left hne

/-- An acknowledgement goes through, and what it leaves was sent once. -/
theorem sentOnce_ack (h : SentOnce iss s start acked nxt m) (hok : AckOk s.pcb ackno) :
    ∃ start' acked' m' pcb', tcpReceiveAck s.pcb ackno = some pcb' ∧ SentOnce iss { s with pcb := pcb' } start' acked' nxt m' := by
  obtain ⟨start', acked', m', pcb', hacked⟩ := stream_ack h.stream hok
  obtain ⟨pre, rfl, rfl⟩ := hacked.removed
  have hfrom := unsentFrom_append.mp h.from_nxt
  have hb := hacked.stream.bounds
  -- what is acknowledged has been sent, so no unsent segment goes
  have hpre : unsentSegs pre = [] := by
    cases hunsent : unsentSegs pre with
    | nil => rfl
    | cons seg l =>
      obtain ⟨m₁, m₂, rfl, _, _⟩ := unsentSegs_eq_cons hunsent
      have hle := (unsentFrom_append.mp hfrom.1).2.1 rfl
      have htiled := h.stream.tiled
      rw [allSegs_append, allSegs_append, allSegs_cons, List.append_assoc, List.cons_append] at htiled
      have hpos := (tiled_mem htiled).2.1
      rw [allSegs_append, allSegs_cons, segBytes_append, segBytes_cons, List.length_append, List.length_append, ← TcpSeg.len] at hb
      omega
  refine ⟨_, acked', m', pcb', hacked.eq, hacked.stream, hfrom.2, ?_⟩
  have hover := h.oversize
  rw [h.stream.unsent, unsentSegs_append, hpre, List.nil_append] at hover
  rw [hacked.stream.unsent, ← hover]
  exact hacked.oversize

/-- A write puts its data behind everything that was sent. -/
theorem sentOnce_write {place : Nat → Nat} {budget : Nat} {data : List UInt8} {copy more : Bool} {err : LwipErr} {pcb' : TcpPcb}
    (h : SentOnce iss s start acked nxt m) (hs : tcpWrite s.pcb place budget data copy more = some (err, pcb')) :
    ∃ m', SentOnce iss ⟨pcb', if err = .ok then s.written ++ data else s.written⟩ start acked nxt m' := by
  have hst := h.stream
  have hroom : ∀ seg ∈ s.pcb.unsent, RoomOk s.pcb.mss seg := by
    intro seg hseg
    exact hst.room seg (mem_allSegs_of_unsent (hst.unsent ▸ hseg))
  obtain ⟨kept, old, new, hw⟩ := tcpWrite_spec hst.mss.1 hst.mss.2 (sndBuf_lt hst) hroom hs
  have hwritten : (if err = .ok then s.written ++ data else s.written) = s.written ++ if err = .ok then data else [] := by
    split
    · rfl
    · rw [List.append_nil]
  obtain ⟨m₁, rfl, h'⟩ := stream_wrote hst (atEnd_of_sentOnce hst h.from_nxt) hw
  have hfrom := unsentFrom_append.mp h.from_nxt
  have hle : nxt ≤ start + (segBytes (allSegs m₁)).length := by
    rcases hw.shape with ⟨_, rfl, rfl⟩ | ⟨last, rfl⟩
    · have hlen := length_eq hst
      have hb := hst.bounds
      rw [allSegs_append, allSegs_unsent, List.append_nil] at hlen
      omega
    · exact hfrom.2.1 rfl
  refine ⟨m₁ ++ new.map fun seg => (seg, false), ?_⟩
  rw [hwritten]
  exact ⟨h', unsentFrom_append.mpr ⟨hfrom.1, unsentFrom_of_le hle⟩, hw.oversize h.oversize⟩

end Steps

end TcpAssertsAux

end SaymaFirmware
