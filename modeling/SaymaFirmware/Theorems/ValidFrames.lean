import SaymaFirmware.Lemmas.RxFrame

/-!
# Which frames go up

`ENET_IRQHandler` tests the LAST flag of the status word and none of its error bits, and `prvLowLevelInput` subtracts the CRC from any
length. For an arbitrary status word and buffer, `onlyValidFrames_iff` says when the handler still keeps to whole, valid frames.
-/

namespace SaymaFirmware

/-- What the handler should keep to on the descriptor at `RxConsumeIndex`: a pbuf goes up only for a whole frame of at least 18 bytes
without an error; the length computed, and asked for, is the frame's less its CRC; the EtherType is read from the frame. -/
structure OnlyValidFrames (h : RxHw) (o : RxOracle) (p : Nat) : Prop where
  input : ∀ q bytes ok, .input q bytes ok ∈ serviceFrame h o p →
    h.emacCheckReceiveDataStatus emacRinfoLastFlag = true ∧ h.current.info &&& emacRinfoErrMask = 0 ∧ 18 ≤ frameLength h
  computed : h.emacCheckReceiveDataStatus emacRinfoLastFlag = true → (ulDataLength h).toNat + 4 = frameLength h
  asked : ∀ n length q, .alloc n length q ∈ serviceFrame h o p → length.toNat + 4 = frameLength h
  type : ∀ hi lo, .readType hi lo ∈ serviceFrame h o p → hi.ofFrame = true ∧ lo.ofFrame = true

/-- The EtherType of the frame at `RxConsumeIndex`, if it is long enough to have one. -/
def frameType (h : RxHw) : UInt16 := etherType (h.current.mem 12) (h.current.mem 13)

namespace ValidFramesAux

variable {h : RxHw} {o : RxOracle} {p : Nat}

theorem service_fragment (hlast : h.emacCheckReceiveDataStatus emacRinfoLastFlag = false) : serviceFrame h o p = [] := by
  simp [serviceFrame, hlast]

theorem service_refused (hlast : h.emacCheckReceiveDataStatus emacRinfoLastFlag = true) (hlen : ulDataLength h > 0)
    (halloc : o.alloc (ulDataLength h).toUInt16 = none) :
    serviceFrame h o p = [.alloc (ulDataLength h) (ulDataLength h).toUInt16 none] := by
  simp [serviceFrame, hlast, prvLowLevelInput, hlen, halloc]

theorem service_allocated (hlast : h.emacCheckReceiveDataStatus emacRinfoLastFlag = true) (hlen : ulDataLength h > 0)
    {c : PbufChain (ulDataLength h).toUInt16.toNat} (halloc : o.alloc (ulDataLength h).toUInt16 = some c) :
    serviceFrame h o p = .alloc (ulDataLength h) (ulDataLength h).toUInt16 (some p) ::
      deliver o p (c.filled h.emacNextPacketToRead) := by
  simp [serviceFrame, hlast, prvLowLevelInput, hlen, halloc, PbufChain.filled]

/-- The first pbuf of the chain for a whole frame has the header, copied from the frame. -/
theorem header_of_long (hlen : 18 ≤ frameLength h) (c : PbufChain (ulDataLength h).toUInt16.toNat) {i : Nat} (hi : i < 14) :
    (c.filled h.emacNextPacketToRead).headerCell i = ⟨h.current.mem i, true⟩ := by
  have hhead := c.header
  have hreq := (request_eq (by omega : 4 ≤ frameLength h)).2
  rw [(c.headerCell_filled _ hi).1 (by omega), RxHw.emacNextPacketToRead]
  have : i < h.emacGetReceiveDataSize.toNat + 1 := by unfold frameLength at hlen; omega
  simp [this]

/-- A shorter frame leaves the second byte of the type old. -/
theorem header_of_short (h4 : 4 ≤ frameLength h) (hlen : frameLength h < 18)
    (c : PbufChain (ulDataLength h).toUInt16.toNat) :
    ((c.filled h.emacNextPacketToRead).headerCell 13).ofFrame = false := by
  have htotal := c.total
  have hreq := (request_eq h4).2
  exact (c.headerCell_filled _ (by decide)).2 (by omega)

theorem input_mem_deliver {pkt : Packet} {q : Nat} {bytes : List UInt8} {ok : Bool} (hm : .input q bytes ok ∈ deliver o p pkt) :
    ipOrArp (etherType (pkt.headerCell 12).byte (pkt.headerCell 13).byte) = true := by
  unfold deliver at hm
  split at hm
  · assumption
  · simp at hm

theorem exists_input_mem_deliver {pkt : Packet}
    (htype : ipOrArp (etherType (pkt.headerCell 12).byte (pkt.headerCell 13).byte) = true) :
    .input p pkt.payload o.accepts ∈ deliver o p pkt := by
  simp [deliver, htype]

theorem alloc_mem_deliver {pkt : Packet} {n : UInt32} {length : UInt16} {q : Option Nat} :
    .alloc n length q ∉ deliver o p pkt := by
  unfold deliver
  split
  · split <;> simp
  · simp

theorem readType_mem_deliver {pkt : Packet} {hi lo : Cell} (hm : .readType hi lo ∈ deliver o p pkt) :
    hi = pkt.headerCell 12 ∧ lo = pkt.headerCell 13 := by
  unfold deliver at hm
  split at hm
  · split at hm <;> simpa using hm
  · simpa using hm

/-- With a chain for it, a frame shorter than 18 bytes has its type read from old memory. -/
theorem not_valid_of_short (hlast : h.emacCheckReceiveDataStatus emacRinfoLastFlag = true) (h4 : 4 < frameLength h)
    (hlen : frameLength h < 18) {c : PbufChain (ulDataLength h).toUInt16.toNat}
    (halloc : o.alloc (ulDataLength h).toUInt16 = some c) : ¬ OnlyValidFrames h o p := by
  intro hv
  have hpos := (ulDataLength_pos_iff (Nat.le_of_lt h4)).mpr h4
  have hm := hv.type ((c.filled h.emacNextPacketToRead).headerCell 12) ((c.filled h.emacNextPacketToRead).headerCell 13)
    (by rw [service_allocated hlast hpos halloc]; simp [deliver])
  rw [header_of_short (Nat.le_of_lt h4) hlen c] at hm
  exact absurd hm.2 (by decide)

/-- With a chain for it, a whole frame with an error goes up all the same if its type does. -/
theorem valid_iff_of_long (hlast : h.emacCheckReceiveDataStatus emacRinfoLastFlag = true) (hlen : 18 ≤ frameLength h)
    {c : PbufChain (ulDataLength h).toUInt16.toNat} (halloc : o.alloc (ulDataLength h).toUInt16 = some c) :
    OnlyValidFrames h o p ↔ h.current.info &&& emacRinfoErrMask = 0 ∨ ipOrArp (frameType h) = false := by
  have h4 : 4 ≤ frameLength h := by omega
  have hpos := (ulDataLength_pos_iff h4).mpr (by omega)
  have hn := ulDataLength_toNat h
  rw [if_pos h4] at hn
  have hreq := (request_eq h4).2
  have hev := service_allocated (p := p) hlast hpos halloc
  have h12 := header_of_long hlen c (by decide : 12 < 14)
  have h13 := header_of_long hlen c (by decide : 13 < 14)
  have htype : etherType ((c.filled h.emacNextPacketToRead).headerCell 12).byte
      ((c.filled h.emacNextPacketToRead).headerCell 13).byte = frameType h := by rw [h12, h13]; rfl
  constructor
  · intro hv
    cases ht : ipOrArp (frameType h) with
    | false => exact Or.inr rfl
    | true =>
      refine Or.inl (hv.input p (c.filled h.emacNextPacketToRead).payload o.accepts ?_).2.1
      rw [hev]
      exact List.mem_cons_of_mem _ (exists_input_mem_deliver (by rw [htype]; exact ht))
  · intro hcond
    refine ⟨?_, fun _ => by omega, ?_, ?_⟩
    · intro q bytes ok hm
      rw [hev] at hm
      have ht := input_mem_deliver (List.mem_of_ne_of_mem (by simp) hm)
      rw [htype] at ht
      exact ⟨hlast, hcond.resolve_right (by simp [ht]), hlen⟩
    · intro n length q hm
      rw [hev] at hm
      rcases List.mem_cons.mp hm with he | hm
      · obtain ⟨-, rfl, -⟩ := RxEvent.alloc.inj he
        omega
      · exact absurd hm alloc_mem_deliver
    · intro hi lo hm
      rw [hev] at hm
      obtain ⟨rfl, rfl⟩ := readType_mem_deliver (List.mem_of_ne_of_mem (by simp) hm)
      rw [h12, h13]
      exact ⟨rfl, rfl⟩

/-- A frame longer than its CRC and a pool that has no chain for it. -/
theorem valid_of_refused (hlast : h.emacCheckReceiveDataStatus emacRinfoLastFlag = true) (hlen : 4 < frameLength h)
    (halloc : o.alloc (ulDataLength h).toUInt16 = none) : OnlyValidFrames h o p := by
  have hev := service_refused (p := p) hlast ((ulDataLength_pos_iff (Nat.le_of_lt hlen)).mpr hlen) halloc
  have hn := ulDataLength_toNat h
  rw [if_pos (Nat.le_of_lt hlen)] at hn
  have hreq := (request_eq (Nat.le_of_lt hlen)).2
  refine ⟨?_, fun _ => by omega, ?_, ?_⟩
  · intro q bytes ok hm
    simp [hev] at hm
  · intro n length q hm
    rw [hev, List.mem_singleton] at hm
    obtain ⟨-, rfl, -⟩ := RxEvent.alloc.inj hm
    omega
  · intro hi lo hm
    simp [hev] at hm

/-- A frame that is only a CRC asks for nothing. -/
theorem valid_of_crc (hlen : frameLength h = 4) : OnlyValidFrames h o p := by
  have hn := ulDataLength_toNat h
  rw [if_pos (by omega)] at hn
  have hzero : ¬ ulDataLength h > 0 := by
    rw [ulDataLength_pos_iff (by omega)]; omega
  have hev : serviceFrame h o p = [] := by
    simp only [serviceFrame, prvLowLevelInput, if_neg hzero, ite_self]
  exact ⟨by simp [hev], fun _ => by omega, by simp [hev], by simp [hev]⟩

end ValidFramesAux

open ValidFramesAux in
/-- The handler keeps to whole, valid frames on a descriptor exactly when the descriptor is a fragment, or its frame is only a CRC, or
the pool has no chain for it, or it has at least 18 bytes and either no error bit or a type that does not go up. -/
theorem onlyValidFrames_iff (h : RxHw) (o : RxOracle) (p : Nat) :
    OnlyValidFrames h o p ↔
      h.emacCheckReceiveDataStatus emacRinfoLastFlag = false ∨ frameLength h = 4 ∨
      (4 < frameLength h ∧ o.alloc (UInt16.ofNat (frameLength h - 4)) = none) ∨
      (18 ≤ frameLength h ∧ (h.current.info &&& emacRinfoErrMask = 0 ∨ ipOrArp (frameType h) = false)) := by
  cases hlast : h.emacCheckReceiveDataStatus emacRinfoLastFlag with
  | false =>
    have hev := service_fragment (o := o) (p := p) hlast
    exact iff_of_true ⟨by simp [hev], fun h => by simp [hlast] at h, by simp [hev], by simp [hev]⟩ (Or.inl rfl)
  | true =>
    rcases Nat.lt_trichotomy (frameLength h) 4 with hlt | heq | hgt
    · -- the subtraction wraps
      refine iff_of_false ?_ ?_
      · intro hv
        have hc := hv.computed hlast
        rw [ulDataLength_toNat, if_neg (by omega)] at hc
        omega
      · simp only [Bool.true_eq_false, false_or, not_or]
        omega
    · exact iff_of_true (valid_of_crc heq) (Or.inr (Or.inl heq))
    · rw [← (request_eq (Nat.le_of_lt hgt)).1]
      cases halloc : o.alloc (ulDataLength h).toUInt16 with
      | none => exact iff_of_true (valid_of_refused hlast hgt halloc) (Or.inr (Or.inr (Or.inl ⟨hgt, rfl⟩)))
      | some c =>
        by_cases hlen : 18 ≤ frameLength h
        · rw [valid_iff_of_long hlast hlen halloc]
          simp only [Bool.true_eq_false, reduceCtorEq, and_false, false_or, hlen, true_and]
          exact (or_iff_right (by omega)).symm
        · refine iff_of_false (not_valid_of_short hlast hgt (by omega) halloc) ?_
          simp only [Bool.true_eq_false, reduceCtorEq, and_false, false_or, hlen, false_and, or_false]
          omega

/-- A pool that answers with one pbuf of the length asked for. -/
def onePbuf : RxOracle where
  alloc length := some
    { first := ⟨List.replicate (max 14 length.toNat) ⟨0, false⟩, length.toNat, by rw [List.length_replicate]; omega⟩
      rest := []
      total := by simp
      room := by rw [List.length_replicate]; omega
      header := Nat.min_le_right _ _
      old := fun c hc => by rw [List.eq_of_mem_replicate hc] }
  accepts := true

/-- An IP frame of 64 bytes whose CRC is wrong. -/
def crcErrorFrame : RxHw where
  rxProduceIndex := 1
  rxConsumeIndex := 0
  intStatus := emacIntRxDone
  command := 0
  slots := fun _ => ⟨emacRinfoLastFlag ||| emacRinfoCrcErr ||| 63, fun i => if i = 12 then 8 else 0⟩

/-- It goes up. -/
theorem crcErrorFrame_not_valid : ¬ OnlyValidFrames crcErrorFrame onePbuf 0 := by
  intro h
  have hm := (h.input 0 (List.range 60 |>.map fun i => if i = 12 then 8 else 0) true (by decide +kernel)).2.1
  exact absurd hm (by decide)

end SaymaFirmware
