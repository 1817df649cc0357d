import SaymaFirmware.Lemmas.TcpSegs

/-!
# What a write does to the queue

A write that succeeds replaces the last unsent segment, if there is one, by one with more data and puts new segments behind it; a write
that fails leaves the data of every segment alone (`tcpWrite_spec`). The spare room at the end of a segment always fills the segment up
to the `mss` (`RoomOk`), which is why the first two phases never meet in one write.
-/

namespace SaymaFirmware

open SeqNum

/-- A segment is not too long, the room at its end fills it up, and it has a pbuf. -/
structure RoomOk (mss : Nat) (seg : TcpSeg) : Prop where
  len : seg.len ≤ mss
  room : seg.oversizeLeft = 0 ∨ seg.len + seg.oversizeLeft = mss
  pbufs : 0 < seg.clen

namespace TcpWriteAux

variable {pcb : TcpPcb} {place : Nat → Nat} {copy more first : Bool}

/-- A composed phase succeeds when both parts do. -/
theorem bind_ok {α β : Type} {x : Except WriteFail α} {f : α → Except WriteFail β} {r : β} (h : (x >>= f) = .ok r) :
    ∃ a, x = .ok a ∧ f a = .ok r := by
  cases x with
  | error e => cases h
  | ok a => exact ⟨a, rfl, h⟩

/-- Either no room, or all the room there is. -/
theorem preallocSize_sub (pcb : TcpPcb) (more first : Bool) (length : Nat) {maxLength : Nat} (hmax : maxLength ≤ tcpOversize) :
    preallocSize pcb length maxLength more first - length = 0 ∨
      length + (preallocSize pcb length maxLength more first - length) = maxLength := by
  rw [preallocSize]
  split
  · right
    rw [Nat.min_eq_left (by rw [lwipMemAlignSize]; omega)]
    omega
  · left
    omega

/-- The room that `tcp_pbuf_prealloc` leaves. -/
theorem prealloc_ok {budget length maxLength : Nat} {r : Nat × Nat}
    (h : tcpPbufPrealloc pcb budget length maxLength more first = .ok r) :
    r.1 = preallocSize pcb length maxLength more first - length := by
  obtain ⟨b, _, h⟩ := bind_ok h
  obtain rfl := Except.ok.inj h
  rfl

/-- A new segment has no room at its end, or it is filled up to the `mss`. -/
theorem newPbufs_ok {budget oversize length : Nat} {r : Nat × Nat} (h : newPbufs pcb budget oversize length copy more first = .ok r)
    (hmss : pcb.mss ≤ tcpOversize) : r.1 = 0 ∨ length + r.1 = pcb.mss := by
  cases copy with
  | true =>
    rw [newPbufs, if_pos rfl] at h
    rw [prealloc_ok h]
    exact preallocSize_sub pcb more first length hmss
  | false =>
    rw [newPbufs, if_neg Bool.false_ne_true] at h
    split at h
    · cases h
    · rename_i hzero
      obtain ⟨b, _, h⟩ := bind_ok h
      obtain ⟨b', _, h⟩ := bind_ok h
      obtain rfl := Except.ok.inj h
      exact Or.inl (not_not.mp hzero)

/-- A segment of phase 3. -/
structure IsNewSeg (pcb : TcpPcb) (copy : Bool) (pos : Nat) (piece : List UInt8) (oversize : Nat) (seg : TcpSeg) : Prop where
  seqno : seg.seqno = add32 pcb.sndLbb pos
  data : seg.data = piece
  clen : seg.clen = if copy then 1 else 2
  room : seg.oversizeLeft = oversize
  sum : ∃ addr, seg.sum = startChksum copy addr piece

/-- What a step of phase 3 makes. -/
theorem newSeg_ok {addr pos budget oversize queuelen : Nat} {piece : List UInt8} {r : TcpSeg × Nat × Nat × Nat}
    (h : newSeg pcb addr pos budget oversize queuelen piece copy more first = .ok r) (hmss : pcb.mss ≤ tcpOversize) :
    IsNewSeg pcb copy pos piece r.2.1 r.1 ∧ (r.2.1 = 0 ∨ piece.length + r.2.1 = pcb.mss) ∧ r.2.2.1 = queuelen + r.1.clen ∧
      r.2.2.1 ≤ tcpSndQueuelen := by
  obtain ⟨⟨spare, b⟩, hpbufs, h⟩ := bind_ok h
  simp only at h
  by_cases hlen : tcpSndQueuelen < queuelen + (if copy then 1 else 2) ∨ tcpSndqueuelenOverflow < queuelen + (if copy then 1 else 2)
  · rw [if_pos hlen] at h
    cases h
  · rw [if_neg hlen] at h
    obtain ⟨b', _, h⟩ := bind_ok h
    obtain rfl := Except.ok.inj h
    exact ⟨⟨rfl, rfl, rfl, rfl, addr, rfl⟩, newPbufs_ok hpbufs hmss, rfl, Nat.le_of_not_lt fun hlt => hlen (Or.inl hlt)⟩

/-- What phase 3 makes of the data that is left. -/
structure NewSegs (pcb : TcpPcb) (copy : Bool) (pos oversize queuelen : Nat) (data : List UInt8) (q : WriteQueue) : Prop where
  bytes : segBytes q.queue = data
  tiled : ∀ p, pcb.sndLbb = num p → Tiled (p + pos) q.queue
  room : ∀ seg ∈ q.queue, RoomOk pcb.mss seg
  sums : ∀ seg ∈ q.queue, ∃ addr, seg.sum = startChksum copy addr seg.data
  clens : q.queuelen = queuelen + segClens q.queue
  count : q.queue = [] ∨ q.queuelen ≤ tcpSndQueuelen
  last : q.queue = [] ∧ q.oversize = oversize ∨ ∃ init last, q.queue = init ++ [last] ∧ q.oversize = last.oversizeLeft

/-- With no data left, phase 3 makes nothing. -/
theorem newSegs_nil {pos oversize queuelen : Nat} : NewSegs pcb copy pos oversize queuelen [] ⟨[], oversize, queuelen⟩ where
  bytes := rfl
  tiled _ _ := trivial
  room := nofun
  sums := nofun
  clens := rfl
  count := Or.inl rfl
  last := Or.inl ⟨rfl, rfl⟩

/-- Phase 3 cuts the data into segments, one behind the other. -/
theorem newSegs_ok (hpos : 0 < pcb.mss) (hmss : pcb.mss ≤ tcpOversize) (fuel : Nat) :
    ∀ {pos budget oversize queuelen : Nat} {data : List UInt8} {first : Bool} {q : WriteQueue},
      newSegs pcb place copy more fuel pos budget oversize queuelen data first = .ok q →
      NewSegs pcb copy pos oversize queuelen data q := by
  induction fuel with
  | zero =>
    intro pos budget oversize queuelen data first q h
    rw [newSegs] at h
    split at h
    · rename_i hnil
      obtain rfl := Except.ok.inj h
      exact hnil ▸ newSegs_nil
    · cases h
  | succ fuel ih =>
    intro pos budget oversize queuelen data first q h
    rw [newSegs] at h
    split at h
    · rename_i hnil
      obtain rfl := Except.ok.inj h
      exact hnil ▸ newSegs_nil
    · rename_i hne
      simp only at h
      obtain ⟨⟨seg, spare, qlen, b⟩, hseg, h⟩ := bind_ok h
      obtain ⟨rest, hrest, h⟩ := bind_ok h
      obtain rfl := Except.ok.inj h
      have hlen : (data.take (min data.length pcb.mss)).length = min data.length pcb.mss := by
        rw [List.length_take]
        omega
      obtain ⟨hnew, hover, hqlen, hcount⟩ := newSeg_ok hseg hmss
      simp only at hnew hover hqlen hcount hrest
      have hr := ih hrest
      have hseglen : seg.len = min data.length pcb.mss := by rw [TcpSeg.len, hnew.data, hlen]
      have hdata : 0 < data.length := List.length_pos_of_ne_nil hne
      refine ⟨?_, fun p hp => ⟨?_, by rw [hseglen]; omega, ?_⟩, ?_, ?_, ?_, Or.inr ?_, Or.inr ?_⟩
      · rw [segBytes_cons, hnew.data, hr.bytes, List.take_append_drop]
      · rw [hnew.seqno, hp, num_add]
      · rw [hseglen, Nat.add_assoc]
        exact hr.tiled p hp
      · intro s hs
        rcases List.mem_cons.mp hs with rfl | hs
        · refine ⟨by rw [hseglen]; omega, ?_, ?_⟩
          · rw [hnew.room, hseglen, ← hlen]
            exact hover
          · rw [hnew.clen]
            split <;> omega
        · exact hr.room s hs
      · intro s hs
        rcases List.mem_cons.mp hs with rfl | hs
        · exact hnew.data ▸ hnew.sum
        · exact hr.sums s hs
      · simp only [segClens_cons]
        rw [hr.clens, hqlen]
        omega
      · rcases hr.count with hnil | hle
        · have := hr.clens
          rw [hnil, segClens_nil] at this
          simp only
          omega
        · exact hle
      · rcases hr.last with ⟨hnil, ho⟩ | ⟨init, last, hl, ho⟩
        · exact ⟨[], seg, by rw [hnil]; rfl, by rw [ho, hnew.room]⟩
        · exact ⟨seg :: init, last, by rw [hl]; rfl, ho⟩

/-- What the first two phases plan for the last unsent segment. -/
structure Extends (pcb : TcpPcb) (last : TcpSeg) (len : Nat) (copy : Bool) (tail : WriteTail) : Prop where
  agree : pcb.unsentOversize = last.oversizeLeft
  total : tail.used + tail.concat ≤ len
  fits : last.len + tail.used + tail.concat ≤ pcb.mss
  direct : tail.concat = 0 → last.oversizeLeft = tail.oversize + tail.used
  chained : 0 < tail.concat → last.oversizeLeft = 0 ∧ tail.used = 0 ∧ (copy = false → tail.oversize = 0)
  room : tail.oversize = 0 ∨ last.len + tail.used + tail.concat + tail.oversize = pcb.mss
  rest : tail.used + tail.concat = len ∨ tail.oversize = 0

/-- Subtraction without a borrow. -/
theorem sub16_eq {a b : Nat} (h : b ≤ a) (ha : a < 65536) : sub16 a b = a - b := by
  rw [sub16]
  omega

/-- The last segment has room left: all of the write that fits goes there, and nothing is chained. -/
theorem extendLast_direct {last : TcpSeg} {budget len : Nat} {tail : WriteTail}
    (h : extendLast pcb last budget len copy more = .ok tail) (hroom : last.len + last.oversizeLeft = pcb.mss)
    (hmss : pcb.mss ≤ tcpOversize) : Extends pcb last len copy tail := by
  unfold extendLast at h
  split at h
  · cases h
  · rename_i hagree
    rw [not_not] at hagree
    rw [tcpOversize] at hmss
    simp only at h
    have hspace : sub16 pcb.mss last.len = last.oversizeLeft := by rw [sub16_eq (by omega) (by omega)]; omega
    rw [hagree, hspace, sub16_eq (Nat.min_le_left _ _) (by omega)] at h
    split at h
    · cases h
    · rw [if_neg (by omega)] at h
      obtain rfl := Except.ok.inj h
      refine ⟨hagree, ?_, ?_, ?_, ?_, ?_, ?_⟩ <;> dsimp only <;> omega

/-- It has none: a pbuf is chained to it. -/
theorem extendLast_chained {last : TcpSeg} {budget len : Nat} {tail : WriteTail}
    (h : extendLast pcb last budget len copy more = .ok tail) (hlen : last.len ≤ pcb.mss) (hroom : last.oversizeLeft = 0)
    (hmss : pcb.mss ≤ tcpOversize) : Extends pcb last len copy tail := by
  unfold extendLast at h
  split at h
  · cases h
  · rename_i hagree
    rw [not_not] at hagree
    have hm : pcb.mss < 65536 := by rw [tcpOversize] at hmss; omega
    simp only at h
    rw [hagree, hroom, Nat.zero_min, sub16_eq hlen hm, sub16_eq (Nat.zero_le _) (by omega)] at h
    simp only [Nat.sub_zero] at h
    split at h
    · cases h
    · split at h
      · cases copy with
        | true =>
          rw [if_pos rfl] at h
          obtain ⟨⟨spare, b⟩, hpre, h⟩ := bind_ok h
          obtain rfl := Except.ok.inj h
          have hover : spare = _ := prealloc_ok hpre
          have hsize := preallocSize_sub pcb more true (min (pcb.mss - last.len) len) (Nat.le_trans (Nat.sub_le pcb.mss last.len) hmss)
          rw [← hover] at hsize
          refine ⟨hagree, ?_, ?_, ?_, fun _ => ⟨hroom, rfl, Bool.noConfusion⟩, ?_, ?_⟩ <;> dsimp only <;> omega
        | false =>
          rw [if_neg Bool.false_ne_true] at h
          obtain ⟨b, _, h⟩ := bind_ok h
          obtain rfl := Except.ok.inj h
          refine ⟨hagree, ?_, ?_, ?_, ?_, ?_, ?_⟩ <;> dsimp only <;> omega
      · obtain rfl := Except.ok.inj h
        refine ⟨hagree, ?_, ?_, ?_, ?_, ?_, ?_⟩ <;> dsimp only <;> omega

/-- Phases 1 and 2 use the room at the end of the last segment, then chain a pbuf to it. -/
theorem extendLast_ok {last : TcpSeg} {budget len : Nat} {tail : WriteTail}
    (h : extendLast pcb last budget len copy more = .ok tail) (hroom : RoomOk pcb.mss last) (hmss : pcb.mss ≤ tcpOversize) :
    Extends pcb last len copy tail := by
  rcases hroom.room with hzero | hfull
  · exact extendLast_chained h hroom.len hzero hmss
  · exact extendLast_direct h hfull hmss

section Commit

variable {last : TcpSeg} {tail : WriteTail} {data : List UInt8}

/-- The data that the last segment gets. -/
theorem commitTail_data (last : TcpSeg) (tail : WriteTail) (place : Nat → Nat) (data : List UInt8) (copy : Bool) :
    (commitTail last tail place data copy).data = last.data ++ data.take (tail.used + tail.concat) := by
  rw [List.take_add, ← List.append_assoc]
  rfl

/-- The room that is left at its end. -/
theorem commitTail_oversizeLeft (h : Extends pcb last data.length copy tail) (hmss : pcb.mss ≤ tcpOversize) :
    (commitTail last tail place data copy).oversizeLeft = tail.oversize := by
  unfold commitTail
  dsimp only
  by_cases hconcat : 0 < tail.concat
  · obtain ⟨hzero, hused, hcopy⟩ := h.chained hconcat
    rw [if_neg (by omega)]
    cases copy with
    | true => rw [if_pos ⟨rfl, hconcat⟩]
    | false => rw [if_neg (fun hc => Bool.noConfusion hc.1), hzero, hcopy rfl]
  · have hdirect := h.direct (by omega)
    have hroom := h.room
    have hfits := h.fits
    rw [tcpOversize] at hmss
    rw [if_neg fun (hc : copy = true ∧ 0 < tail.concat) => hconcat hc.2, hdirect]
    split
    · rw [sub16_eq (by omega) (by omega), Nat.add_sub_cancel]
    · omega

/-- It stays within the `mss`. -/
theorem commitTail_room (h : Extends pcb last data.length copy tail) (hmss : pcb.mss ≤ tcpOversize) (hpbufs : 0 < last.clen) :
    RoomOk pcb.mss (commitTail last tail place data copy) := by
  have hlen : (commitTail last tail place data copy).len = last.len + tail.used + tail.concat := by
    rw [TcpSeg.len, commitTail_data, List.length_append, List.length_take_of_le h.total, TcpSeg.len, Nat.add_assoc]
  refine ⟨hlen ▸ h.fits, ?_, ?_⟩
  · rw [commitTail_oversizeLeft h hmss, hlen]
    exact h.room
  · unfold commitTail
    dsimp only
    split <;> omega

end Commit

/-- The list, or the list with the PSH flag set in its last segment. -/
def Pushed (l l' : List TcpSeg) : Prop := l' = l ∨ l' = setPsh l

/-- What a write comes to. -/
inductive WriteCase (pcb : TcpPcb) (place : Nat → Nat) (budget : Nat) (data : List UInt8) (copy more : Bool) :
    LwipErr → TcpPcb → Prop where
  | mem : WriteCase pcb place budget data copy more .mem { pcb with nagleMemErr := true }
  | fresh (q : WriteQueue) (l : List TcpSeg) : pcb.unsent = [] → data.length ≤ pcb.sndBuf →
      NewSegs pcb copy 0 0 pcb.sndQueuelen data q → Pushed q.queue l →
      WriteCase pcb place budget data copy more .ok (commitWrite pcb l data.length q.oversize q.queuelen)
  | behind (kept : List TcpSeg) (last : TcpSeg) (tail : WriteTail) (q : WriteQueue) (l : List TcpSeg) :
      pcb.unsent = kept ++ [last] → data.length ≤ pcb.sndBuf → extendLast pcb last budget data.length copy more = .ok tail →
      Extends pcb last data.length copy tail →
      NewSegs pcb copy (tail.used + tail.concat) tail.oversize
        (if 0 < tail.concat then pcb.sndQueuelen + 1 else pcb.sndQueuelen) (data.drop (tail.used + tail.concat)) q →
      Pushed (commitTail last tail place data copy :: q.queue) l →
      WriteCase pcb place budget data copy more .ok (commitWrite pcb (kept ++ l) data.length q.oversize q.queuelen)

/-- A write that passes the checks finds place in `snd_buf`. -/
theorem tcpWriteChecks_ok {len : Nat} (h : tcpWriteChecks pcb len = .ok ()) : len ≤ pcb.sndBuf := by
  unfold tcpWriteChecks at h
  split at h
  · omega
  · split at h
    · cases h
    · omega

/-- The exit for lack of memory changes a flag only. -/
theorem writeMemErr_eq {r : LwipErr × TcpPcb} (h : writeMemErr pcb = some r) : r = (.mem, { pcb with nagleMemErr := true }) := by
  unfold writeMemErr at h
  split at h
  · exact (Option.some.inj h).symm
  · cases h

section Cases

variable {budget : Nat} {data : List UInt8} {r : LwipErr × TcpPcb}

/-- With nothing unsent: no memory, or all data in new segments. -/
theorem writeNew_cases (hpos : 0 < pcb.mss) (hmss : pcb.mss ≤ tcpOversize) (hnil : pcb.unsent = []) (hbuf : data.length ≤ pcb.sndBuf)
    (h : writeNew pcb place budget data copy more = some r) : WriteCase pcb place budget data copy more r.1 r.2 := by
  unfold writeNew at h
  split at h
  · cases h
  · cases hq : newSegs pcb place copy more data.length 0 budget 0 pcb.sndQueuelen data true with
    | error e =>
      rw [hq] at h
      cases e with
      | assertion => cases h
      | mem =>
        rw [writeMemErr_eq h]
        exact .mem
    | ok q =>
      rw [hq] at h
      obtain rfl := Option.some.inj (Option.ite_none_right_eq_some.mp h).2
      refine .fresh q _ hnil hbuf (newSegs_ok hpos hmss _ hq) ?_
      cases more with
      | true => exact Or.inl rfl
      | false => exact Or.inr rfl

/-- Behind an unsent segment: no memory, or some data in it and the rest in new segments. -/
theorem writeBehind_cases {kept : List TcpSeg} {last : TcpSeg} (hpos : 0 < pcb.mss) (hmss : pcb.mss ≤ tcpOversize)
    (hunsent : pcb.unsent = kept ++ [last]) (hroom : RoomOk pcb.mss last) (hbuf : data.length ≤ pcb.sndBuf)
    (h : writeBehind pcb last place budget data copy more = some r) : WriteCase pcb place budget data copy more r.1 r.2 := by
  unfold writeBehind at h
  cases hext : extendLast pcb last budget data.length copy more with
  | error e =>
    rw [hext] at h
    cases e with
    | assertion => cases h
    | mem =>
      rw [writeMemErr_eq h]
      exact .mem
  | ok tail =>
    rw [hext] at h
    simp only at h
    have ht := extendLast_ok hext hroom hmss
    split at h
    · cases h
    · rename_i hq
      -- data is left for new segments, so the last one has no room and is as it was
      have hsame : (if copy ∧ 0 < tail.concat then { last with oversizeLeft := tail.oversize } else last) = last := by
        split
        · rename_i hc
          have hover : tail.oversize = last.oversizeLeft := by
            rw [(ht.chained hc.2).1]
            rcases ht.rest with hall | hzero
            · rw [List.drop_of_length_le (by omega)] at hq
              unfold newSegs at hq
              split at hq <;> cases hq
            · exact hzero
          rw [hover]
        · rfl
      rw [hsame, hunsent, List.dropLast_concat] at h
      rw [writeMemErr_eq h, ← hunsent]
      exact .mem
    · rename_i q hq
      obtain rfl := Option.some.inj (Option.ite_none_right_eq_some.mp h).2
      have hl : ∃ l, Pushed (commitTail last tail place data copy :: q.queue) l ∧
          (if more = true ∨ q.queue = [] ∧ decide (0 < pcb.unsentOversize ∨ 0 < tail.concat) = false then
            pcb.unsent.dropLast ++ commitTail last tail place data copy :: q.queue
          else pcb.unsent.dropLast ++ setPsh (commitTail last tail place data copy :: q.queue)) = kept ++ l := by
        rw [hunsent, List.dropLast_concat]
        split
        · exact ⟨_, Or.inl rfl, rfl⟩
        · exact ⟨_, Or.inr rfl, rfl⟩
      obtain ⟨l, hpushed, hl⟩ := hl
      rw [hl]
      exact .behind kept last tail q l hunsent hbuf hext ht (newSegs_ok hpos hmss _ hq) hpushed

end Cases

end TcpWriteAux

open TcpWriteAux in
/-- A write either changes nothing in the queues, or it puts the data behind what is there. -/
theorem tcpWrite_cases {pcb : TcpPcb} {place : Nat → Nat} {budget : Nat} {data : List UInt8} {copy more : Bool} {r : LwipErr × TcpPcb}
    (hpos : 0 < pcb.mss) (hmss : pcb.mss ≤ tcpOversize) (hroom : ∀ seg ∈ pcb.unsent, RoomOk pcb.mss seg)
    (h : tcpWrite pcb place budget data copy more = some r) : WriteCase pcb place budget data copy more r.1 r.2 := by
  unfold tcpWrite at h
  cases hchecks : tcpWriteChecks pcb data.length with
  | error e =>
    rw [hchecks] at h
    cases e with
    | assertion => cases h
    | mem =>
      obtain rfl := Option.some.inj h
      exact .mem
  | ok u =>
    rw [hchecks] at h
    have hbuf := tcpWriteChecks_ok hchecks
    rcases pcb.unsent.eq_nil_or_concat with hnil | ⟨kept, last, hlast⟩
    · rw [hnil] at h
      exact writeNew_cases hpos hmss hnil hbuf h
    · rw [List.concat_eq_append] at hlast
      rw [hlast, List.getLast?_concat] at h
      exact writeBehind_cases hpos hmss hlast (hroom last (by simp [hlast])) hbuf h

/-- The room at the end of the last segment. -/
def endRoom (l : List TcpSeg) : Nat := (l.getLast?.map TcpSeg.oversizeLeft).getD 0

/-- What a write does to the stream when `d` is what it takes: `old`, the last unsent segment if there is one, gives way to `new`. -/
structure Wrote (pcb : TcpPcb) (d : List UInt8) (pcb' : TcpPcb) (kept old new : List TcpSeg) : Prop where
  before : pcb.unsent = kept ++ old
  after : pcb'.unsent = kept ++ new
  shape : pcb.unsent = [] ∧ kept = [] ∧ old = [] ∨ ∃ last, old = [last]
  bytes : segBytes new = segBytes old ++ d
  tiled : ∀ p, pcb.sndLbb = num (p + (segBytes old).length) → Tiled p old → Tiled p new
  grows : ∀ last, old = [last] → ∃ seg l, new = seg :: l ∧ last.len ≤ seg.len
  room : ∀ seg ∈ new, RoomOk pcb.mss seg
  clens : pcb'.sndQueuelen + segClens old = pcb.sndQueuelen + segClens new
  lbb : ∀ p, pcb.sndLbb = num p → pcb'.sndLbb = num (p + d.length)
  buf : pcb'.sndBuf + d.length = pcb.sndBuf
  same : pcb'.mss = pcb.mss ∧ pcb'.sndNxt = pcb.sndNxt ∧ pcb'.lastack = pcb.lastack ∧ pcb'.unacked = pcb.unacked
  oversize : pcb.unsentOversize = endRoom pcb.unsent → pcb'.unsentOversize = endRoom pcb'.unsent

namespace TcpWriteAux

variable {pcb : TcpPcb} {place : Nat → Nat} {copy : Bool} {l l' : List TcpSeg}

/-- The push flag on the last segment changes nothing else. -/
theorem map_core_pushed (h : Pushed l l') : l'.map TcpSeg.core = l.map TcpSeg.core := by
  rcases h with rfl | rfl
  · rfl
  · exact map_core_setPsh l

/-- It goes on the last segment. -/
theorem setPsh_concat (l : List TcpSeg) (seg : TcpSeg) : setPsh (l ++ [seg]) = l ++ [{ seg with psh := true }] := by
  induction l with
  | nil => rfl
  | cons a l ih =>
    cases l with
    | nil => rfl
    | cons b l => exact congrArg (a :: ·) ih

/-- The room at the end of a queue is that of its last segment. -/
theorem endRoom_concat (l : List TcpSeg) (seg : TcpSeg) : endRoom (l ++ [seg]) = seg.oversizeLeft := by
  rw [endRoom, List.getLast?_concat]
  rfl

/-- The flag changes nothing that a segment's room or its checksum says. -/
theorem forall_pushed {P : TcpSeg → Prop} (h : Pushed l l') (hpsh : ∀ seg, P seg → P { seg with psh := true })
    (hl : ∀ seg ∈ l, P seg) : ∀ seg ∈ l', P seg := by
  rcases h with rfl | rfl
  · exact hl
  · intro seg hseg
    rcases l.eq_nil_or_concat with rfl | ⟨init, last, rfl⟩
    · cases hseg
    · rw [List.concat_eq_append] at hseg hl
      rw [setPsh_concat] at hseg
      rcases List.mem_append.mp hseg with hinit | hlast
      · exact hl seg (List.mem_append_left _ hinit)
      · rw [List.mem_singleton.mp hlast]
        exact hpsh last (hl last (by simp))

/-- The push flag leaves it. -/
theorem endRoom_pushed (h : Pushed l l') : endRoom l' = endRoom l := by
  rcases h with rfl | rfl
  · rfl
  · rcases l.eq_nil_or_concat with rfl | ⟨init, last, rfl⟩
    · rfl
    · rw [List.concat_eq_append, setPsh_concat, endRoom_concat, endRoom_concat]

/-- It is that of the second part, if there is one. -/
theorem endRoom_append_of_ne_nil (hne : l' ≠ []) : endRoom (l ++ l') = endRoom l' := by
  rw [endRoom, List.getLast?_append_of_ne_nil _ hne, endRoom]

section Spec

variable {pcb' : TcpPcb} {data : List UInt8} {q : WriteQueue} {last : TcpSeg} {tail : WriteTail} {kept : List TcpSeg}

/-- A write that finds no memory has written nothing. -/
theorem wrote_mem (hroom : ∀ seg ∈ pcb.unsent, RoomOk pcb.mss seg) :
    ∃ kept old new, Wrote pcb [] { pcb with nagleMemErr := true } kept old new := by
  have hsplit : ∃ kept old, pcb.unsent = kept ++ old ∧ (pcb.unsent = [] ∧ kept = [] ∧ old = [] ∨ ∃ last, old = [last]) := by
    rcases pcb.unsent.eq_nil_or_concat with hnil | ⟨kept, last, hlast⟩
    · exact ⟨[], [], hnil, Or.inl ⟨hnil, rfl, rfl⟩⟩
    · exact ⟨kept, [last], by rw [hlast, List.concat_eq_append], Or.inr ⟨last, rfl⟩⟩
  obtain ⟨kept, old, hunsent, hshape⟩ := hsplit
  exact ⟨kept, old, old, hunsent, hunsent, hshape, (List.append_nil _).symm, fun _ _ ht => ht, fun last h => ⟨last, [], h, Nat.le_refl _⟩,
    fun seg hseg => hroom seg (hunsent ▸ List.mem_append_right _ hseg), rfl, fun _ hp => hp, rfl, ⟨rfl, rfl, rfl, rfl⟩, fun h => h⟩

/-- The push flag takes no room. -/
theorem roomOk_psh {mss : Nat} (seg : TcpSeg) (h : RoomOk mss seg) : RoomOk mss { seg with psh := true } :=
  ⟨h.len, h.room, h.pbufs⟩

/-- A write to an empty queue. -/
theorem wrote_fresh (hnil : pcb.unsent = []) (hbuf : pcb.sndBuf < 65536) (hlen : data.length ≤ pcb.sndBuf)
    (hq : NewSegs pcb copy 0 0 pcb.sndQueuelen data q) (hl : Pushed q.queue l) :
    Wrote pcb data (commitWrite pcb l data.length q.oversize q.queuelen) [] [] l := by
  have hcore := map_core_pushed hl
  refine ⟨hnil, rfl, Or.inl ⟨hnil, rfl, rfl⟩, ?_, ?_, nofun, forall_pushed hl roomOk_psh hq.room, ?_, ?_, ?_, ⟨rfl, rfl, rfl, rfl⟩, ?_⟩
  · rw [segBytes_congr hcore, hq.bytes]
    rfl
  · intro p hp _
    exact tiled_congr hcore.symm (hq.tiled p hp)
  · rw [segClens_congr hcore, segClens_nil, Nat.add_zero]
    exact hq.clens
  · intro p hp
    rw [← num_add, ← hp]
    rfl
  · unfold commitWrite
    rw [sub16_eq hlen hbuf, Nat.sub_add_cancel hlen]
  · intro _
    change q.oversize = endRoom l
    rw [endRoom_pushed hl]
    rcases hq.last with ⟨hempty, hover⟩ | ⟨init, seg, hseg, hover⟩
    · rw [hempty, hover]
      rfl
    · rw [hseg, hover, endRoom_concat]

/-- The new segments start where the longer last one ends. -/
theorem tiled_commitTail {p : Nat} (hlbb : pcb.sndLbb = num (p + (segBytes [last]).length)) (ht : Tiled p [last])
    (hext : Extends pcb last data.length copy tail)
    (htiled : ∀ p, pcb.sndLbb = num p → Tiled (p + (tail.used + tail.concat)) q.queue) :
    Tiled p (commitTail last tail place data copy :: q.queue) := by
  have hlen : (commitTail last tail place data copy).len = last.len + (tail.used + tail.concat) := by
    rw [TcpSeg.len, commitTail_data, List.length_append, List.length_take_of_le hext.total, TcpSeg.len]
  have hpos := ht.2.1
  rw [segBytes_cons, segBytes_nil, List.append_nil] at hlbb
  refine ⟨ht.1, by omega, ?_⟩
  rw [hlen, ← Nat.add_assoc]
  exact htiled _ hlbb

/-- A write behind an unsent segment. -/
theorem wrote_behind (hunsent : pcb.unsent = kept ++ [last]) (hroom : ∀ seg ∈ pcb.unsent, RoomOk pcb.mss seg) (hmss : pcb.mss ≤ tcpOversize)
    (hbuf : pcb.sndBuf < 65536) (hlen : data.length ≤ pcb.sndBuf) (hext : Extends pcb last data.length copy tail)
    (hq : NewSegs pcb copy (tail.used + tail.concat) tail.oversize
      (if 0 < tail.concat then pcb.sndQueuelen + 1 else pcb.sndQueuelen) (data.drop (tail.used + tail.concat)) q)
    (hl : Pushed (commitTail last tail place data copy :: q.queue) l) :
    Wrote pcb data (commitWrite pcb (kept ++ l) data.length q.oversize q.queuelen) kept [last] l := by
  have hcore := map_core_pushed hl
  have hne : l ≠ [] := by
    rintro rfl
    cases hcore
  refine ⟨hunsent, rfl, Or.inr ⟨last, rfl⟩, ?_, ?_, ?_, ?_, ?_, ?_, ?_, ⟨rfl, rfl, rfl, rfl⟩, ?_⟩
  · rw [segBytes_congr hcore, segBytes_cons, commitTail_data, hq.bytes, List.append_assoc, List.take_append_drop, segBytes_cons,
      segBytes_nil, List.append_nil]
  · intro p hp ht
    exact tiled_congr hcore.symm (tiled_commitTail hp ht hext hq.tiled)
  · intro last' hlast
    obtain rfl := List.singleton_inj.mp hlast
    cases l with
    | nil => exact absurd rfl hne
    | cons seg l =>
      rw [List.map_cons, List.map_cons, List.cons.injEq] at hcore
      refine ⟨seg, l, rfl, ?_⟩
      rw [TcpSeg.len, TcpSeg.len, (core_eq_iff.mp hcore.1).2.1, commitTail_data, List.length_append]
      exact Nat.le_add_right _ _
  · refine forall_pushed hl roomOk_psh ?_
    intro seg hseg
    rcases List.mem_cons.mp hseg with rfl | hseg
    · exact commitTail_room hext hmss (hroom last (by simp [hunsent])).pbufs
    · exact hq.room seg hseg
  · have hclen : (commitTail last tail place data copy).clen = if 0 < tail.concat then last.clen + 1 else last.clen := rfl
    have hqlen := hq.clens
    rw [segClens_congr hcore, segClens_cons, segClens_cons, segClens_nil, hclen]
    change q.queuelen + (last.clen + 0) = _
    split at hqlen <;> rename_i hc
    · rw [if_pos hc]
      omega
    · rw [if_neg hc]
      omega
  · intro p hp
    rw [← num_add, ← hp]
    rfl
  · unfold commitWrite
    rw [sub16_eq hlen hbuf, Nat.sub_add_cancel hlen]
  · intro _
    change q.oversize = endRoom (kept ++ l)
    rw [endRoom_append_of_ne_nil hne, endRoom_pushed hl]
    rcases hq.last with ⟨hempty, hover⟩ | ⟨init, seg, hseg, hover⟩
    · rw [hempty, hover]
      exact (commitTail_oversizeLeft hext hmss).symm
    · rw [hseg, hover, ← List.cons_append, endRoom_concat]

end Spec

end TcpWriteAux

open TcpWriteAux in
/-- A write of `data` that succeeds puts `data` at the end of the stream; one that fails leaves the stream alone. -/
theorem tcpWrite_spec {pcb pcb' : TcpPcb} {place : Nat → Nat} {budget : Nat} {data : List UInt8} {copy more : Bool} {err : LwipErr}
    (hpos : 0 < pcb.mss) (hmss : pcb.mss ≤ tcpOversize) (hbuf : pcb.sndBuf < 65536) (hroom : ∀ seg ∈ pcb.unsent, RoomOk pcb.mss seg)
    (h : tcpWrite pcb place budget data copy more = some (err, pcb')) :
    ∃ kept old new, Wrote pcb (if err = .ok then data else []) pcb' kept old new := by
  cases tcpWrite_cases hpos hmss hroom h with
  | mem => exact wrote_mem hroom
  | fresh q l hnil hlen hq hl => exact ⟨[], [], l, wrote_fresh hnil hbuf hlen hq hl⟩
  | behind kept last tail q l hunsent hlen _ hext hq hl =>
    exact ⟨kept, [last], l, wrote_behind hunsent hroom hmss hbuf hlen hext hq hl⟩

end SaymaFirmware
