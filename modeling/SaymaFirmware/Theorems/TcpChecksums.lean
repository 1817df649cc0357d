import SaymaFirmware.Lemmas.TcpSums

/-!
# Checksums built while copying

The checksum of a segment is put together from the sums of the pieces it was written in, some copied into its spare room, some chained to
it, some in segments of their own; and the header is added when it is sent, and again when it is sent again. While writes extend a segment
in step with its sum, every receiver accepts every segment in the queues.
-/

namespace SaymaFirmware

open Ones

namespace TcpChecksumsAux

/-- The two complements make up what the sums lack. -/
theorem canon_complements {head : Nat} (data : Nat) (h : 0 < head) :
    canon (canon (65535 - canon head + (65535 - canon data)) + (head + data)) = 65535 := by
  have hmax := canon_eq_max (n := canon (65535 - canon head + (65535 - canon data)) + (head + data))
  have hmod := canon_mod (65535 - canon head + (65535 - canon data))
  have h1 := canon_mod head
  have h2 := canon_mod data
  have h3 := canon_le head
  have h4 := canon_le data
  omega

theorem pseudoSum_pos {h : PseudoHdr} (hproto : h.proto = 6) : 0 < pseudoSum h := by
  rw [pseudoSum, hproto, swapBytesInWord, swap]
  omega

end TcpChecksumsAux

open TcpChecksumsAux in
/-- The checksum with which a segment in the queues is sent is accepted by every receiver, in whatever pbufs it arrives. `pre` and `post`
are the header before and behind the checksum field, and `p` is what is sent, with zero in the field. -/
theorem tcp_checksums_accepted (mss iss : Nat) (nodelay : Bool) (hmss : 0 < mss ∧ mss ≤ tcpOversize) (s : TcpConn)
    (h : Reaches tcpStep (fun s a => a.Aligned s) (TcpConn.init mss iss nodelay) s) (seg : TcpSeg)
    (hseg : seg ∈ s.pcb.unacked ++ s.pcb.unsent) (hdr : PseudoHdr) (hproto : hdr.proto = 6) (pre post : List UInt8)
    (heven : pre.length % 2 = 0 ∧ post.length % 2 = 0) (hlen : pre.length + 2 + post.length ≤ 60) (p : List PbufSeg) (hp : ChainOk p)
    (hsent : chainBytes p = pre ++ wordBytes 0 ++ post ++ seg.data) :
    ∃ d, d < 65536 ∧ tcpOutputChksum seg p hdr (pre.length + 2 + post.length) = some d ∧
      ∀ q, ChainOk q → chainBytes q = pre ++ wordBytes d ++ post ++ seg.data → inetChksumPseudo q hdr = 0 := by
  have hsum := (summed_of_reaches hmss h).sums seg hseg
  have hword : ∀ d, (pre ++ wordBytes d ++ post).length = pre.length + 2 + post.length := by
    intro d
    rw [List.length_append, List.length_append]
    rfl
  have hodd : ∀ d, isOdd (pre ++ wordBytes d ++ post) = false := by
    intro d
    rw [isOdd, hword, decide_eq_false_iff_not]
    omega
  have hle := canon_le (65535 - canon (weigh false (pre ++ post) + pseudoSum hdr) + (65535 - canon (weigh false seg.data)))
  refine ⟨canon (65535 - canon (weigh false (pre ++ post) + pseudoSum hdr) + (65535 - canon (weigh false seg.data))), by omega, ?_, ?_⟩
  · rw [tcpOutputChksum, inetChksumPseudoPartial_eq hp hdr (by omega), hsent, ← hword 0, List.take_left,
      weigh_word heven.1 (by omega), Nat.zero_add, Option.map_some, unswap_eq hsum, not16_canon, add32_eq (by omega), foldU32T,
      fold_eq (by omega), Nat.mod_eq_of_lt (by omega)]
  · intro q hq hreceived
    have hpos := pseudoSum_pos hproto
    rw [inetChksumPseudo_eq hq, hreceived, weigh_append, hodd, Bool.xor_false, weigh_word heven.1 (by omega)]
    have hcanon := canon_complements (weigh false seg.data) (show 0 < weigh false (pre ++ post) + pseudoSum hdr by omega)
    rw [Nat.add_right_comm, Nat.add_assoc, Nat.add_assoc, ← Nat.add_assoc (weigh false (pre ++ post)), hcanon]

/-- Three bytes and then two more in the room behind them. -/
theorem tcp_checksums_accepted_extended :
    ∃ s, Reaches tcpStep (fun s a => a.Aligned s) (TcpConn.init 536 0 false) s ∧
      ∃ seg ∈ s.pcb.unacked ++ s.pcb.unsent, seg.data = [1, 2, 3, 4, 5] ∧
        ∃ d, tcpOutputChksum seg [⟨4, List.replicate 20 0 ++ [1, 2]⟩, ⟨7, [3, 4, 5]⟩] ⟨0x0a00a8c0, 0x0100a8c0, 6, 25⟩ 20 = some d ∧
          inetChksumPseudo [⟨8, List.replicate 16 0 ++ wordBytes d ++ [0, 0] ++ [1, 2, 3, 4, 5]⟩] ⟨0x0a00a8c0, 0x0100a8c0, 6, 25⟩ = 0 := by
  obtain ⟨s, hs, hp⟩ := exists_reaches_of_exec tcpStep (fun s a => decide (a.Aligned s)) (TcpConn.init 536 0 false)
    [.write id 9 [9] true false, .output 1000 false false false, .write id 9 [1, 2, 3] true true, .write id 9 [4, 5] true false]
    (fun s => decide (∃ seg ∈ s.pcb.unacked ++ s.pcb.unsent, seg.data = [1, 2, 3, 4, 5])) (by decide +kernel)
  have hr : Reaches tcpStep (fun s a => a.Aligned s) (TcpConn.init 536 0 false) s := hs.mono fun s a ha => of_decide_eq_true ha
  obtain ⟨seg, hseg, hdata⟩ := of_decide_eq_true hp
  obtain ⟨d, _, hd, hall⟩ := tcp_checksums_accepted 536 0 false (by simp [tcpOversize]) s hr seg hseg ⟨0x0a00a8c0, 0x0100a8c0, 6, 25⟩ rfl
    (List.replicate 16 0) [0, 0] (by simp) (by simp) [⟨4, List.replicate 20 0 ++ [1, 2]⟩, ⟨7, [3, 4, 5]⟩]
    (by simp [ChainOk]) (by rw [hdata]; rfl)
  exact ⟨s, hr, seg, hseg, hdata, d, hd, hall _ (by simp [ChainOk, wordBytes]) (by rw [hdata, chainBytes]; simp)⟩

end SaymaFirmware
