import SaymaFirmware.Lemmas.Checksum

/-!
# Checksums agree and verify

The three versions of the checksum routine agree on all data at every address, and a chain of pbufs has the checksum of its bytes in one
piece. A receiver, whose pbufs are cut in other places, accepts a segment exactly when the word in the checksum field is the one the
sender computed, or `0xffff` for `0`. The checksum of an echo reply, which is corrected and not computed, is accepted unless the reply
is all zeros.
-/

namespace SaymaFirmware

open Ones

namespace ChecksumAgreeAux

/-- The sum of a message with the checksum in it. -/
theorem weigh_icmp (type : UInt8) (m : IcmpEcho) :
    weigh false (m.bytes type) = type.toNat + 256 * m.code.toNat + m.chksum.toNat + weigh false m.rest := by
  have hlow : m.chksum.toUInt8.toNat = m.chksum.toNat % 256 := UInt16.toNat_toUInt8 m.chksum
  have hhigh : (m.chksum >>> 8).toUInt8.toNat = m.chksum.toNat / 256 % 256 := by
    rw [UInt16.toNat_toUInt8, UInt16.toNat_shiftRight, Nat.shiftRight_eq_div_pow]
    rfl
  have hlt := m.chksum.toNat_lt
  rw [IcmpEcho.bytes, weigh_false_cons, weigh_false_cons, word16, word16, hlow, hhigh]
  omega

theorem toNat_icmpReplyChksum (c : UInt16) :
    (icmpReplyChksum c).toNat = if 65527 ≤ c.toNat then c.toNat + 9 - 65536 else c.toNat + 8 := by
  have hlt := c.toNat_lt
  have hge : c ≥ 0xfff7 ↔ 65527 ≤ c.toNat := UInt16.le_iff_toNat_le
  rw [icmpReplyChksum]
  by_cases h : 65527 ≤ c.toNat
  · rw [if_pos (hge.mpr h), if_pos h, UInt16.toNat_add]
    have : (0x0008 + 1 : UInt16).toNat = 9 := rfl
    omega
  · rw [if_neg (hge.not.mpr h), if_neg h, UInt16.toNat_add]
    have : (0x0008 : UInt16).toNat = 8 := rfl
    omega

theorem weigh_eq_zero (odd : Bool) (l : List UInt8) : weigh odd l = 0 ↔ ∀ b ∈ l, b = 0 := by
  induction l generalizing odd with
  | nil => exact ⟨fun _ b hb => absurd hb List.not_mem_nil, fun _ => rfl⟩
  | cons b l ih =>
    have hb : b = 0 ↔ b.toNat = 0 := UInt8.toNat_inj.symm
    rw [weigh, List.forall_mem_cons, ← ih (!odd), hb]
    cases odd <;> simp only [if_true, Bool.false_eq_true, if_false] <;> omega

end ChecksumAgreeAux

/-- The three versions of the routine agree at every address, and a chain has the checksum of its bytes. -/
theorem chksum_versions_agree (p : List PbufSeg) (hp : ChainOk p) (hlen : (chainBytes p).length < 65536) (addr : Nat) :
    lwipStandardChksum1 (chainBytes p) = lwipStandardChksum addr (chainBytes p) ∧
      lwipStandardChksum3 addr (chainBytes p) = lwipStandardChksum addr (chainBytes p) ∧
      inetChksumPbuf p = inetChksum addr (chainBytes p) := by
  rw [lwipStandardChksum1_eq hlen, lwipStandardChksum3_eq addr hlen, lwipStandardChksum_eq addr hlen, inetChksumPbuf_eq hp,
    inetChksum_eq addr hlen]
  exact ⟨rfl, rfl, rfl⟩

/-- Three pbufs of odd length, against the same bytes at an odd address. -/
theorem chksum_versions_agree_three :
    inetChksumPbuf [⟨0, [1, 2, 3]⟩, ⟨5, [4]⟩, ⟨6, [5, 6, 7, 8, 9]⟩] = inetChksum 3 [1, 2, 3, 4, 5, 6, 7, 8, 9] :=
  (chksum_versions_agree [⟨0, [1, 2, 3]⟩, ⟨5, [4]⟩, ⟨6, [5, 6, 7, 8, 9]⟩] (by unfold ChainOk; decide) (by decide) 3).2.2

open ChecksumAgreeAux in
/-- With a word at an even place of a segment, a receiver accepts the segment exactly when that word is the checksum that the sender
computed with zero in its place, or `0xffff` for `0`, whatever pbufs the two have it in. -/
theorem pseudo_checksum_accepted_iff (h : PseudoHdr) (p q : List PbufSeg) (hp : ChainOk p) (hq : ChainOk q) (pre post : List UInt8)
    (heven : pre.length % 2 = 0) (d : Nat) (hd : d < 65536) (hsent : chainBytes p = pre ++ wordBytes 0 ++ post)
    (hreceived : chainBytes q = pre ++ wordBytes d ++ post) :
    inetChksumPseudo q h = 0 ↔ d = inetChksumPseudo p h ∨ inetChksumPseudo p h = 0 ∧ d = 0xffff := by
  rw [inetChksumPseudo_eq hp, inetChksumPseudo_eq hq, hsent, hreceived, weigh_word heven (by omega : 0 < 65536), weigh_word heven hd,
    Nat.zero_add, Nat.add_assoc d]
  generalize weigh false (pre ++ post) + pseudoSum h = w
  have hmax := canon_eq_max (n := d + w)
  have hle := canon_le (d + w)
  have hwle := canon_le w
  have hwmod := canon_mod w
  have hwzero := canon_eq_zero (n := w)
  omega

/-- The checksum of a segment of five bytes, whose field is the second word, is accepted from pbufs that are cut inside of it. -/
theorem pseudo_checksum_accepted_five :
    inetChksumPseudo [⟨4, [1, 2, 0x78]⟩, ⟨7, [0x96, 5]⟩] ⟨0x0a00a8c0, 0x0100a8c0, 6, 5⟩ = 0 := by
  refine (pseudo_checksum_accepted_iff ⟨0x0a00a8c0, 0x0100a8c0, 6, 5⟩ [⟨1, [1, 2, 0, 0, 5]⟩] [⟨4, [1, 2, 0x78]⟩, ⟨7, [0x96, 5]⟩]
    (by unfold ChainOk; decide) (by unfold ChainOk; decide) [1, 2] [5] rfl 0x9678 (by decide) rfl rfl).mpr (Or.inl ?_)
  decide +kernel

open ChecksumAgreeAux in
/-- The reply to an echo request that passed its check passes it too, unless it is zero from end to end. -/
theorem icmp_reply_accepted_iff (m : IcmpEcho) (p q : List PbufSeg) (hp : ChainOk p) (hq : ChainOk q)
    (hrequest : chainBytes p = m.bytes icmpEcho) (haccepted : inetChksumPbuf p = 0) (hreply : chainBytes q = (icmpReply m).bytes icmpEr) :
    inetChksumPbuf q = 0 ↔ ¬(m.code = 0 ∧ ∀ b ∈ m.rest, b = 0) := by
  have hcode : m.code = 0 ↔ m.code.toNat = 0 := UInt8.toNat_inj.symm
  have hsum : weigh false ((icmpReply m).bytes icmpEr) =
      256 * m.code.toNat + (icmpReplyChksum m.chksum).toNat + weigh false m.rest := by
    rw [weigh_icmp, show icmpEr.toNat = 0 from rfl, Nat.zero_add]
    rfl
  rw [inetChksumPbuf_eq hp, hrequest, weigh_icmp, show icmpEcho.toNat = 8 from rfl] at haccepted
  rw [inetChksumPbuf_eq hq, hreply, hsum, toNat_icmpReplyChksum, ← weigh_eq_zero false, hcode]
  have hlt := m.chksum.toNat_lt
  have hmax := canon_eq_max (n := 8 + 256 * m.code.toNat + m.chksum.toNat + weigh false m.rest)
  have hle := canon_le (8 + 256 * m.code.toNat + m.chksum.toNat + weigh false m.rest)
  split
  · have hmax' := canon_eq_max (n := 256 * m.code.toNat + (m.chksum.toNat + 9 - 65536) + weigh false m.rest)
    have hle' := canon_le (256 * m.code.toNat + (m.chksum.toNat + 9 - 65536) + weigh false m.rest)
    omega
  · have hmax' := canon_eq_max (n := 256 * m.code.toNat + (m.chksum.toNat + 8) + weigh false m.rest)
    have hle' := canon_le (256 * m.code.toNat + (m.chksum.toNat + 8) + weigh false m.rest)
    omega

/-- A ping with a sequence number is answered so that the answer is accepted; one of all zeros is not. -/
theorem icmp_reply_accepted_two :
    inetChksumPbuf [⟨0, (icmpReply ⟨0, 0xfef7, [0, 0, 0, 1]⟩).bytes icmpEr⟩] = 0 ∧
      inetChksumPbuf [⟨0, (icmpReply ⟨0, 0xfff7, [0, 0, 0, 0]⟩).bytes icmpEr⟩] ≠ 0 := by
  constructor
  · refine (icmp_reply_accepted_iff ⟨0, 0xfef7, [0, 0, 0, 1]⟩ [⟨0, IcmpEcho.bytes icmpEcho ⟨0, 0xfef7, [0, 0, 0, 1]⟩⟩] _
      (by simp [ChainOk, IcmpEcho.bytes]) (by simp [ChainOk, IcmpEcho.bytes, icmpReply]) (by simp [chainBytes]) (by decide +kernel)
      (by simp [chainBytes])).mpr ?_
    simp
  · intro h
    refine (icmp_reply_accepted_iff ⟨0, 0xfff7, [0, 0, 0, 0]⟩ [⟨0, IcmpEcho.bytes icmpEcho ⟨0, 0xfff7, [0, 0, 0, 0]⟩⟩] _
      (by simp [ChainOk, IcmpEcho.bytes]) (by simp [ChainOk, IcmpEcho.bytes, icmpReply]) (by simp [chainBytes]) (by decide +kernel)
      (by simp [chainBytes])).mp h ?_
    simp

end SaymaFirmware
