import SaymaFirmware.Lemmas.Checksum
import SaymaFirmware.Lemmas.TcpWrite

/-!
# The checksums kept with segments

The sum that is kept with a segment is that of its data (`SumOf`), with its bytes exchanged when it says so. Data can be added to a
segment of odd length only while they are exchanged; and a chained pbuf of odd length is added with its bytes exchanged once too often.
A write that avoids both is `ChksumAligned`; then the sums are right in every state of a connection.
-/

namespace SaymaFirmware

open Ones

/-- What a write adds to the last unsent segment, if anything, is added in step with the bytes of its sum. -/
def chksumAligned (last : TcpSeg) (tail : WriteTail) : Bool :=
  tail.used + tail.concat = 0 || last.sum.2 == isOdd last.data && tail.concat % 2 = 0

/-- The same of a whole write, whatever it comes to when memory runs out. -/
def ChksumAligned (pcb : TcpPcb) (budget : Nat) (data : List UInt8) (copy more : Bool) : Prop :=
  ∀ last ∈ pcb.unsent.getLast?, ∀ tail ∈ (extendLast pcb last budget data.length copy more).toOption, chksumAligned last tail = true

namespace TcpSumsAux

section Sums

variable {l piece : List UInt8} {acc : Nat × Bool} {copy : Bool}

/-- Copied and chained data are summed alike, wherever they lie. -/
theorem pieceChksum_eq (copy : Bool) (addr : Nat) (h : piece.length < 65536) : pieceChksum copy addr piece = canon (weigh false piece) := by
  unfold pieceChksum
  split
  · exact lwipStandardChksum_eq addr h
  · have hle := canon_le (weigh false piece)
    rw [inetChksum_eq addr h, not16, Nat.mod_eq_of_lt (by omega)]
    omega

/-- Data behind an even or an odd number of bytes. -/
theorem tcpSegAddChksum_sumOf (h : SumOf acc l) (hodd : acc.2 = isOdd l) (piece : List UInt8) :
    SumOf (tcpSegAddChksum (canon (weigh false piece)) piece.length acc) (l ++ piece) ∧
      (tcpSegAddChksum (canon (weigh false piece)) piece.length acc).2 = isOdd (l ++ piece) := by
  obtain ⟨sum, odd⟩ := acc
  obtain rfl : sum = canon (weigh odd l) := h
  obtain rfl : odd = isOdd l := hodd
  have hsum : foldU32T (add32 (canon (weigh false piece)) (canon (weigh (isOdd l) l))) % 65536 = canon (weigh (isOdd l) (l ++ piece)) := by
    have h1 := canon_le (weigh (isOdd l) l)
    have h2 := canon_le (weigh false piece)
    have h3 := canon_le (weigh (isOdd l) (l ++ piece))
    rw [add32_eq (by omega), foldU32T, fold_eq (by omega), canon_canon_add, canon_add_canon, Nat.add_comm]
    rw [weigh_append, Bool.xor_self] at h3 ⊢
    exact Nat.mod_eq_of_lt (by omega)
  simp only [tcpSegAddChksum, hsum, decide_length_odd, isOdd_append]
  cases isOdd piece with
  | false =>
    simp only [Bool.false_eq_true, if_false, Bool.xor_false]
    exact ⟨rfl, trivial⟩
  | true =>
    simp only [if_true, Bool.xor_true]
    refine ⟨?_, trivial⟩
    rw [SumOf, swapBytesInWord, swap_eq (canon_le _), canon_mul_canon, canon_mul_weigh]

/-- A new segment starts with the sum of its data. -/
theorem startChksum_sumOf (copy : Bool) (addr : Nat) (h : piece.length < 65536) : SumOf (startChksum copy addr piece) piece := by
  unfold startChksum
  rw [pieceChksum_eq copy addr h]
  split
  · exact (tcpSegAddChksum_sumOf sumOf_nil rfl piece).1
  · rfl

/-- Data copied into the room at the end of a segment. -/
theorem tailChksum_sumOf (addr : Nat) (h : piece.length < 65536) (hacc : SumOf acc l) (hodd : acc.2 = isOdd l) :
    SumOf (tailChksum addr piece acc) (l ++ piece) := by
  unfold tailChksum
  rw [pieceChksum_eq true addr h]
  exact (tcpSegAddChksum_sumOf hacc hodd piece).1

/-- Data chained behind a segment, an even number of bytes: the sum is exchanged neither once nor twice. -/
theorem concatChksum_sumOf (copy : Bool) (addr : Nat) (h : piece.length < 65536) (heven : piece.length % 2 = 0) (hacc : SumOf acc l)
    (hodd : acc.2 = isOdd l) : SumOf (concatChksum copy addr piece acc) (l ++ piece) := by
  have hle := canon_le (weigh false piece)
  have hstart : (tcpSegAddChksum (canon (weigh false piece)) piece.length (0, false)).1 = canon (weigh false piece) := by
    unfold tcpSegAddChksum
    rw [Nat.mod_eq_of_lt (by rw [add32_eq (by omega), foldU32T, fold_eq (by omega), Nat.add_zero, canon_of_le hle]; omega),
      add32_eq (by omega), foldU32T, fold_eq (by omega), Nat.add_zero, canon_of_le hle]
    dsimp only
    rw [if_neg (by omega)]
  unfold concatChksum
  rw [pieceChksum_eq copy addr h, hstart]
  exact (tcpSegAddChksum_sumOf hacc hodd piece).1

end Sums

section Tail

open TcpWriteAux

variable {pcb : TcpPcb} {last : TcpSeg} {tail : WriteTail} {data : List UInt8} {copy : Bool}

/-- The last unsent segment keeps its sum right when a write that is in step adds to it. -/
theorem commitTail_sumOf (place : Nat → Nat) (h : Extends pcb last data.length copy tail) (hmss : pcb.mss ≤ tcpOversize)
    (halign : chksumAligned last tail = true) (hsum : SumOf last.sum last.data) :
    SumOf (commitTail last tail place data copy).sum (commitTail last tail place data copy).data := by
  have htotal := h.total
  have hfits := h.fits
  rw [tcpOversize] at hmss
  unfold chksumAligned at halign
  rw [Bool.or_eq_true, decide_eq_true_eq, Bool.and_eq_true, beq_iff_eq, decide_eq_true_eq] at halign
  have hlen : (data.take tail.concat).length = tail.concat := List.length_take_of_le (by omega)
  unfold commitTail
  dsimp only
  by_cases hconcat : 0 < tail.concat
  · obtain ⟨_, hused, _⟩ := h.chained hconcat
    have hodd := halign.resolve_left (by omega)
    rw [if_pos hconcat, if_neg (by omega), hused, List.take_zero, List.drop_zero, List.append_nil]
    exact concatChksum_sumOf copy _ (by omega) (by omega) hsum hodd.1
  · rw [if_neg hconcat, show tail.concat = 0 by omega, List.take_zero, List.append_nil]
    by_cases hused : 0 < tail.used
    · have hodd := halign.resolve_left (by omega)
      have hulen : (data.take tail.used).length = tail.used := List.length_take_of_le (by omega)
      rw [if_pos hused]
      exact tailChksum_sumOf _ (by omega) hsum hodd.1
    · rw [if_neg hused, show tail.used = 0 by omega, List.take_zero, List.append_nil]
      exact hsum

end Tail

section Queues

variable {seg : TcpSeg} {l : List TcpSeg}

/-- Putting a segment in its place brings no other segment in. -/
theorem mem_insertSeg {s : TcpSeg} (h : s ∈ insertSeg seg l) : s = seg ∨ s ∈ l := by
  induction l with
  | nil => exact Or.inl (List.mem_singleton.mp h)
  | cons a l ih =>
    unfold insertSeg at h
    split at h
    · rcases List.mem_cons.mp h with rfl | h
      · exact Or.inr List.mem_cons_self
      · exact (ih h).imp_right (List.mem_cons_of_mem a)
    · exact List.mem_cons.mp h

/-- Nor does putting it on `unacked`. -/
theorem mem_addUnacked {s : TcpSeg} (h : s ∈ addUnacked seg l) : s = seg ∨ s ∈ l := by
  unfold addUnacked at h
  split at h
  · exact Or.inl (List.mem_singleton.mp h)
  · split at h
    · exact mem_insertSeg h
    · rcases List.mem_append.mp h with h | h
      · exact Or.inr h
      · exact Or.inl (List.mem_singleton.mp h)

/-- Acknowledged segments go from the front. -/
theorem removeAcked_suffix {acked : TcpSeg → Bool} {other : List TcpSeg} {queuelen : Nat} {q : Nat × List TcpSeg}
    (h : removeAcked acked other queuelen l = some q) : q.2 <:+ l := by
  induction l generalizing queuelen with
  | nil =>
    obtain rfl := Option.some.inj h
    exact List.suffix_refl _
  | cons a l ih =>
    unfold removeAcked at h
    split at h
    · split at h
      · split at h
        · cases h
        · exact (ih h).trans (List.suffix_cons a l)
      · cases h
    · obtain rfl := Option.some.inj h
      exact List.suffix_refl _

end Queues

end TcpSumsAux

/-- Every segment has the sum of its data. -/
structure Summed (pcb : TcpPcb) : Prop where
  mss : 0 < pcb.mss ∧ pcb.mss ≤ tcpOversize
  room : ∀ seg ∈ pcb.unacked ++ pcb.unsent, RoomOk pcb.mss seg
  sums : ∀ seg ∈ pcb.unacked ++ pcb.unsent, SumOf seg.sum seg.data

namespace TcpSumsAux

section Steps

open TcpWriteAux

variable {pcb pcb' : TcpPcb}

/-- Queues of the same segments. -/
theorem summed_of_mem (h : Summed pcb) (hmss : pcb'.mss = pcb.mss)
    (hmem : ∀ seg ∈ pcb'.unacked ++ pcb'.unsent, RoomOk pcb.mss seg ∧ SumOf seg.sum seg.data ∨ seg ∈ pcb.unacked ++ pcb.unsent) :
    Summed pcb' := by
  refine ⟨hmss ▸ h.mss, ?_, ?_⟩
  · intro seg hseg
    rcases hmem seg hseg with hnew | hold
    · exact hmss ▸ hnew.1
    · exact hmss ▸ h.room seg hold
  · intro seg hseg
    rcases hmem seg hseg with hnew | hold
    · exact hnew.2
    · exact h.sums seg hold

/-- A write that is in step keeps all sums right. -/
theorem summed_write {place : Nat → Nat} {budget : Nat} {data : List UInt8} {copy more : Bool} {err : LwipErr} (h : Summed pcb)
    (halign : ChksumAligned pcb budget data copy more) (hs : tcpWrite pcb place budget data copy more = some (err, pcb')) :
    Summed pcb' := by
  have hmss := h.mss.2
  have hroom : ∀ seg ∈ pcb.unsent, RoomOk pcb.mss seg := fun seg hseg => h.room seg (List.mem_append_right _ hseg)
  have hnew : ∀ {pos spare qlen : Nat} {d : List UInt8} {q : WriteQueue}, NewSegs pcb copy pos spare qlen d q →
      ∀ seg ∈ q.queue, RoomOk pcb.mss seg ∧ SumOf seg.sum seg.data := by
    intro pos spare qlen d q hq seg hseg
    obtain ⟨addr, hsum⟩ := hq.sums seg hseg
    have hlen := (hq.room seg hseg).len
    rw [TcpSeg.len] at hlen
    rw [tcpOversize] at hmss
    exact ⟨hq.room seg hseg, hsum ▸ startChksum_sumOf copy addr (by omega)⟩
  have hpsh : ∀ seg : TcpSeg, RoomOk pcb.mss seg ∧ SumOf seg.sum seg.data →
      RoomOk pcb.mss { seg with psh := true } ∧ SumOf { seg with psh := true }.sum { seg with psh := true }.data :=
    fun seg hseg => ⟨roomOk_psh seg hseg.1, hseg.2⟩
  cases tcpWrite_cases h.mss.1 hmss hroom hs with
  | mem => exact ⟨h.mss, h.room, h.sums⟩
  | fresh q l hnil hlen hq hl =>
    refine summed_of_mem h rfl ?_
    intro seg hseg
    rcases List.mem_append.mp hseg with hseg | hseg
    · exact Or.inr (List.mem_append_left _ hseg)
    · exact Or.inl (forall_pushed hl hpsh (hnew hq) seg hseg)
  | behind kept last tail q l hunsent hlen hext ht hq hl =>
    have hlast : last ∈ pcb.unsent := by simp [hunsent]
    have haligned : chksumAligned last tail = true := by
      refine halign last (by rw [hunsent, List.getLast?_concat]; rfl) tail ?_
      rw [hext]
      rfl
    refine summed_of_mem h rfl ?_
    intro seg hseg
    rcases List.mem_append.mp hseg with hseg | hseg
    · exact Or.inr (List.mem_append_left _ hseg)
    · rcases List.mem_append.mp hseg with hkept | hseg
      · refine Or.inr (List.mem_append_right _ ?_)
        rw [hunsent]
        exact List.mem_append_left _ hkept
      · refine Or.inl (forall_pushed hl hpsh ?_ seg hseg)
        intro s hs
        rcases List.mem_cons.mp hs with rfl | hs
        · exact ⟨commitTail_room ht hmss (hroom last hlast).pbufs,
            commitTail_sumOf place ht hmss haligned (h.sums last (List.mem_append_right _ hlast))⟩
        · exact hnew hq s hs

/-- Sending moves segments from one queue to the other. -/
theorem summed_outputLoop (wnd : Nat) (infr fin : Bool) (n : Nat) :
    ∀ {pcb : TcpPcb}, Summed pcb → Summed (tcpOutputLoop wnd infr fin n pcb) := by
  induction n with
  | zero =>
    intro pcb h
    exact h
  | succ n ih =>
    intro pcb h
    unfold tcpOutputLoop
    cases hunsent : pcb.unsent with
    | nil => exact h
    | cons seg rest =>
      dsimp only
      split
      · refine ih (summed_of_mem h rfl ?_)
        intro s hs
        have hseg : seg ∈ pcb.unacked ++ pcb.unsent := by simp [hunsent]
        have hsent : RoomOk pcb.mss (tcpOutputSegment seg) ∧ SumOf (tcpOutputSegment seg).sum (tcpOutputSegment seg).data := by
          have hroom := h.room seg hseg
          exact ⟨⟨hroom.len, hroom.room, hroom.pbufs⟩, unswap_eq (h.sums seg hseg)⟩
        rcases List.mem_append.mp hs with hs | hs
        · unfold sendFirst at hs
          dsimp only at hs
          split at hs
          · rcases mem_addUnacked hs with rfl | hs
            · exact Or.inl hsent
            · exact Or.inr (List.mem_append_left _ hs)
          · exact Or.inr (List.mem_append_left _ hs)
        · refine Or.inr (List.mem_append_right _ ?_)
          rw [hunsent]
          exact List.mem_cons_of_mem seg hs
      · exact h

/-- So does `tcp_output`, which may also send nothing. -/
theorem summed_output (wnd : Nat) (ackNow infr fin : Bool) (h : Summed pcb) : Summed (tcpOutput wnd ackNow infr fin pcb) := by
  unfold tcpOutput
  split
  · exact h
  · have h' := summed_outputLoop wnd infr fin pcb.unsent.length h
    exact ⟨h'.mss, h'.room, h'.sums⟩

/-- An acknowledgement removes segments from `unsent`, after a retransmission. -/
theorem summed_ackUnsent {ackno : Nat} (h : Summed pcb) (hs : ackUnsent pcb ackno = some pcb') : Summed pcb' := by
  obtain ⟨q, hq, rfl⟩ := Option.map_eq_some_iff.mp hs
  refine summed_of_mem h rfl fun seg hseg => Or.inr ?_
  rcases List.mem_append.mp hseg with hseg | hseg
  · exact List.mem_append_left _ hseg
  · exact List.mem_append_right _ ((removeAcked_suffix hq).subset hseg)

/-- And from `unacked`. -/
theorem summed_ackNew {ackno : Nat} (h : Summed pcb) (hs : ackNew pcb ackno = some pcb') : Summed pcb' := by
  obtain ⟨q, hq, rfl⟩ := Option.map_eq_some_iff.mp hs
  refine summed_of_mem h rfl fun seg hseg => Or.inr ?_
  rcases List.mem_append.mp hseg with hseg | hseg
  · exact List.mem_append_left _ ((removeAcked_suffix hq).subset hseg)
  · exact List.mem_append_right _ hseg

/-- Whatever the number is, no sum changes. -/
theorem summed_ack {ackno : Nat} (h : Summed pcb) (hs : tcpReceiveAck pcb ackno = some pcb') : Summed pcb' := by
  unfold tcpReceiveAck at hs
  split at hs
  · exact summed_ackUnsent h hs
  · split at hs
    · obtain ⟨pcb₁, h₁, h₂⟩ := Option.bind_eq_some_iff.mp hs
      exact summed_ackUnsent (summed_ackNew h h₁) h₂
    · exact summed_ackUnsent h hs

/-- A fast retransmission takes one segment back. -/
theorem summed_rexmit (h : Summed pcb) : Summed (tcpRexmit pcb) := by
  unfold tcpRexmit
  cases hunacked : pcb.unacked with
  | nil => exact h
  | cons seg rest =>
    refine summed_of_mem h rfl fun s hs => Or.inr ?_
    rw [hunacked]
    rcases List.mem_append.mp hs with hs | hs
    · exact List.mem_append_left _ (List.mem_cons_of_mem seg hs)
    · rcases mem_insertSeg hs with rfl | hs
      · exact List.mem_append_left _ List.mem_cons_self
      · exact List.mem_append_right _ hs

/-- A timeout takes all of them back and sends again. -/
theorem summed_rto (wnd : Nat) (ackNow infr fin : Bool) (h : Summed pcb) : Summed (tcpRexmitRto wnd ackNow infr fin pcb) := by
  unfold tcpRexmitRto
  split
  · exact h
  · exact summed_output wnd ackNow infr fin (summed_of_mem h rfl fun s hs => Or.inr hs)

end Steps

end TcpSumsAux

/-- Writes that keep the sums. -/
def TcpAct.Aligned (s : TcpConn) : TcpAct → Prop
  | .write _ budget data copy more => ChksumAligned s.pcb budget data copy more
  | .output .. => True
  | .ack .. => True
  | .rto .. => True
  | .rexmit => True

instance (pcb : TcpPcb) (budget : Nat) (data : List UInt8) (copy more : Bool) : Decidable (ChksumAligned pcb budget data copy more) :=
  inferInstanceAs (Decidable (∀ last ∈ pcb.unsent.getLast?, ∀ tail ∈ (extendLast pcb last budget data.length copy more).toOption, _))

instance (s : TcpConn) : DecidablePred (TcpAct.Aligned s)
  | .write _ budget data copy more => inferInstanceAs (Decidable (ChksumAligned s.pcb budget data copy more))
  | .output .. => inferInstanceAs (Decidable True)
  | .ack .. => inferInstanceAs (Decidable True)
  | .rto .. => inferInstanceAs (Decidable True)
  | .rexmit => inferInstanceAs (Decidable True)

open TcpSumsAux in
/-- Every step that is in step keeps the sums right. -/
theorem summed_step {s s' : TcpConn} {a : TcpAct} (h : Summed s.pcb) (ha : a.Aligned s) (hs : tcpStep s a = some s') : Summed s'.pcb := by
  cases a with
  | write place budget data copy more =>
    obtain ⟨⟨err, pcb'⟩, hwrite, rfl⟩ := Option.map_eq_some_iff.mp hs
    exact summed_write h ha hwrite
  | output wnd ackNow infr fin =>
    obtain rfl := Option.some.inj hs
    exact summed_output wnd ackNow infr fin h
  | ack ackno =>
    obtain ⟨p, hp, rfl⟩ := Option.map_eq_some_iff.mp hs
    exact summed_ack h hp
  | rto wnd ackNow infr fin =>
    obtain rfl := Option.some.inj hs
    exact summed_rto wnd ackNow infr fin h
  | rexmit =>
    obtain rfl := Option.some.inj hs
    exact summed_rexmit h

/-- In every state of such a run, the sum kept with a segment is that of its data. -/
theorem summed_of_reaches {mss iss : Nat} {nodelay : Bool} {s : TcpConn} (hmss : 0 < mss ∧ mss ≤ tcpOversize)
    (h : Reaches tcpStep (fun s a => a.Aligned s) (TcpConn.init mss iss nodelay) s) : Summed s.pcb :=
  h.invariant (fun s => Summed s.pcb) ⟨hmss, nofun, nofun⟩ fun _ _ _ => summed_step

end SaymaFirmware
