import Mathlib.Data.List.GetD
import SaymaFirmware.RxPath

/-!
# One frame through `prvLowLevelInput`

The length it computes, what the chain holds after the copy, and which bytes the handler reads the EtherType from.
-/

namespace SaymaFirmware

/-! ## The length -/

/-- The length of the frame at `RxConsumeIndex`, with its CRC: the size field plus one. -/
def frameLength (h : RxHw) : Nat := h.emacGetReceiveDataSize.toNat + 1

theorem frameLength_le (h : RxHw) : frameLength h ≤ 2048 := by
  have : h.emacGetReceiveDataSize.toNat ≤ 2047 := by
    unfold RxHw.emacGetReceiveDataSize emacRinfoSize
    rw [UInt32.toNat_and]
    exact Nat.and_le_right
  unfold frameLength
  omega

/-- The subtraction wraps below a frame length of four. -/
theorem ulDataLength_toNat (h : RxHw) :
    (ulDataLength h).toNat = if 4 ≤ frameLength h then frameLength h - 4 else frameLength h + 4294967292 := by
  have hle := frameLength_le h
  unfold ulDataLength
  rw [UInt32.toNat_sub]
  unfold frameLength at *
  have h3 : (4 - 1 : UInt32).toNat = 3 := rfl
  rw [h3]
  split <;> omega

/-- The 16-bit parameter of `pbuf_alloc` holds the length of every frame longer than its CRC. -/
theorem request_eq {h : RxHw} (hlen : 4 ≤ frameLength h) :
    (ulDataLength h).toUInt16 = UInt16.ofNat (frameLength h - 4) ∧ (ulDataLength h).toUInt16.toNat = frameLength h - 4 := by
  have hn := ulDataLength_toNat h
  rw [if_pos hlen] at hn
  have hle := frameLength_le h
  have hnat : (ulDataLength h).toUInt16.toNat = frameLength h - 4 := by
    rw [UInt32.toNat_toUInt16, hn, Nat.mod_eq_of_lt (by omega)]
  refine ⟨?_, hnat⟩
  rw [← UInt16.toNat_inj, hnat, UInt16.toNat_ofNat', Nat.mod_eq_of_lt (by omega)]

theorem ulDataLength_pos_iff {h : RxHw} (hlen : 4 ≤ frameLength h) : ulDataLength h > 0 ↔ 4 < frameLength h := by
  have hn := ulDataLength_toNat h
  rw [if_pos hlen] at hn
  rw [gt_iff_lt, UInt32.lt_iff_toNat_lt, hn]
  show 0 < frameLength h - 4 ↔ _
  omega

/-! ## The copy -/

/-- The used part of a filled pbuf is the source from the offset on. -/
theorem Pbuf.payload_fill (src : Nat → Cell) (off : Nat) (q : Pbuf) :
    (q.fill src off).payload = (List.range' off q.len).map fun i => (src i).byte := by
  have htake : (q.fill src off).mem.take (q.fill src off).len = (List.range q.len).map fun i => src (off + i) := by
    simp only [Pbuf.fill]
    exact List.take_left' (by simp)
  rw [Pbuf.payload, htake, List.range'_eq_map_range, List.map_map, List.map_map]
  rfl

/-- A filled chain holds the source, from the offset on, without a gap. -/
theorem fillChain_payload (src : Nat → Cell) (qs : List Pbuf) :
    ∀ off, (fillChain src off qs).flatMap Pbuf.payload =
      (List.range' off (qs.map Pbuf.len).sum).map fun i => (src i).byte := by
  induction qs with
  | nil => intro off; rfl
  | cons q qs ih =>
    intro off
    rw [fillChain, List.flatMap_cons, ih, Pbuf.payload_fill, List.map_cons, List.sum_cons, ← List.map_append,
      List.range'_append_1]

/-- The chain after the copy. -/
def PbufChain.filled {n : Nat} (c : PbufChain n) (src : Nat → Cell) : Packet :=
  ⟨c.first.fill src 0, fillChain src c.first.len c.rest⟩

/-- It holds as many bytes as were asked for, the first ones of the source. -/
theorem PbufChain.filled_payload {n : Nat} (c : PbufChain n) (src : Nat → Cell) :
    (c.filled src).payload = (List.range n).map fun i => (src i).byte := by
  have hn : List.range n = List.range' 0 c.first.len ++ List.range' c.first.len (c.rest.map Pbuf.len).sum :=
    calc List.range n = List.range' 0 (c.first.len + (c.rest.map Pbuf.len).sum) := by
          rw [c.total, List.range_eq_range']
      _ = List.range' 0 c.first.len ++ List.range' (0 + c.first.len) (c.rest.map Pbuf.len).sum :=
          List.range'_append_1.symm
      _ = _ := by rw [Nat.zero_add]
  rw [Packet.payload, PbufChain.filled, Pbuf.payload_fill, fillChain_payload, hn, List.map_append]

/-- A byte of the header is one that was copied or, past the end of the first pbuf, an old one. -/
theorem PbufChain.headerCell_filled {n : Nat} (c : PbufChain n) (src : Nat → Cell) {i : Nat} (hi : i < 14) :
    (i < c.first.len → (c.filled src).headerCell i = src i) ∧
    (c.first.len ≤ i → ((c.filled src).headerCell i).ofFrame = false) := by
  have hroom := c.room
  have hmem : (c.filled src).first.mem = (List.range c.first.len).map (fun i => src (0 + i)) ++ c.first.mem.drop c.first.len :=
    rfl
  constructor
  · intro h
    rw [Packet.headerCell, hmem, List.getD_append _ _ _ _ (by simpa using h)]
    simp [List.getD, h]
  · intro h
    rw [Packet.headerCell, hmem, List.getD_append_right _ _ _ _ (by simpa using h)]
    have hlt : i - c.first.len < (c.first.mem.drop c.first.len).length := by rw [List.length_drop]; omega
    simp only [List.length_map, List.length_range]
    rw [List.getD_eq_getElem _ _ hlt]
    exact c.old _ (List.mem_of_mem_drop (List.getElem_mem hlt))

end SaymaFirmware
