import Mathlib.Data.List.GetD
import SaymaFirmware.Lib.Flags
import SaymaFirmware.TxPath

/-!
# The transmit ring over whole runs

`TxStep` is every step the transmit half can make. `TxRing` is the invariant: the indices are two counters modulo the number of
descriptors, the frames sent are the first packets accepted, each packet accepted and not yet sent stands in its descriptor, the DMA
has a prefix of the next one, and the thread is where it may be.
-/

namespace SaymaFirmware

/-! ## What a step can be -/

/-- The steps of the transmit half. -/
inductive TxStep (s : TxState) : TxState → Prop where
  | call (p : TxPacket) (hpc : s.pc = .idle) : TxStep s { s with pc := .readIndex p 0, entry := s.hw, reads := [] }
  | read (p : TxPacket) (x : Nat) (hpc : s.pc = .readIndex p x) :
    TxStep s { s with pc := .test p x s.hw.txConsumeIndex, reads := s.reads ++ [(s.accepted.length, s.sent.length)] }
  | free (p : TxPacket) (x : Nat) (tmp : UInt32) (hpc : s.pc = .test p x tmp)
    (hfree : emacCheckTransmitIndex s.hw tmp = true) (hlen : p.totLen.toNat < emacEthMaxFlen.toNat) :
    TxStep s { s with pc := .copy p p.pbufs 0 }
  | tooLong (p : TxPacket) (x : Nat) (tmp : UInt32) (hpc : s.pc = .test p x tmp)
    (hlen : emacEthMaxFlen.toNat ≤ p.totLen.toNat) : TxStep s { s with pc := .ret p x .buf }
  | full (p : TxPacket) (x : Nat) (tmp : UInt32) (hpc : s.pc = .test p x tmp) (hfull : emacCheckTransmitIndex s.hw tmp = false) :
    TxStep s { s with pc := .delay p x }
  | again (p : TxPacket) (x : Nat) (hpc : s.pc = .delay p x) (hx : x + 1 < netifMaxTxAttempts) :
    TxStep s { s with pc := .readIndex p (x + 1) }
  | giveUp (p : TxPacket) (x : Nat) (hpc : s.pc = .delay p x) (hx : ¬ x + 1 < netifMaxTxAttempts) :
    TxStep s { s with pc := .ret p (x + 1) .buf }
  | copied (p : TxPacket) (off : Nat) (hpc : s.pc = .copy p [] off) : TxStep s { s with pc := .control p }
  | nextPbuf (p : TxPacket) (qs : List (List UInt8)) (off : Nat) (hpc : s.pc = .copy p ([] :: qs) off) :
    TxStep s { s with pc := .copy p qs off }
  | byte (p : TxPacket) (b : UInt8) (bs : List UInt8) (qs : List (List UInt8)) (off : Nat)
    (hpc : s.pc = .copy p ((b :: bs) :: qs) off) :
    TxStep s { s with hw := s.hw.store s.hw.txProduceIndex.toNat off b, pc := .copy p (bs :: qs) (off + 1) }
  | control (p : TxPacket) (hpc : s.pc = .control p) :
    TxStep s { s with
      hw := { s.hw with ctrl := Function.update s.hw.ctrl s.hw.txProduceIndex.toNat (txControl p.totLen.toUInt32) }
      pc := .index p }
  | index (p : TxPacket) (hpc : s.pc = .index p) :
    TxStep s { s with hw := { s.hw with txProduceIndex := txNext s.hw.txProduceIndex }, pc := .ret p 0 .ok }
  | retOk (p : TxPacket) (x : Nat) (hpc : s.pc = .ret p x .ok) : TxStep s { s with pc := .idle, returned := s.returned ++ [p] }
  | retBuf (p : TxPacket) (x : Nat) (hpc : s.pc = .ret p x .buf) : TxStep s { s with pc := .idle }
  | take (hf : s.fetch = none) (hne : s.hw.txConsumeIndex ≠ s.hw.txProduceIndex) :
    TxStep s { s with fetch := some ⟨dmaLength (s.hw.ctrl s.hw.txConsumeIndex.toNat), []⟩ }
  | fetch (f : TxFetch) (hf : s.fetch = some f) (hlt : f.bytes.length < f.length) :
    TxStep s { s with fetch := some ⟨f.length, f.bytes ++ [s.hw.buf s.hw.txConsumeIndex.toNat f.bytes.length]⟩ }
  | send (f : TxFetch) (hf : s.fetch = some f) (hge : ¬ f.bytes.length < f.length) :
    TxStep s { s with hw := { s.hw with txConsumeIndex := txNext s.hw.txConsumeIndex }, fetch := none, sent := s.sent ++ [f.bytes] }

/-- Every step of the thread is one of them. -/
theorem txStep_of_cpu {s s' : TxState} (h : s.cpu = some s') : TxStep s s' := by
  unfold TxState.cpu at h
  split at h
  · nomatch h
  · rename_i p x hpc
    obtain rfl := Option.some.inj h
    exact .read p x hpc
  · rename_i p x tmp hpc
    split at h
    · rename_i hfree
      obtain rfl := Option.some.inj h
      split
      · rename_i hlen; exact .free p x tmp hpc hfree hlen
      · rename_i hlen; exact .tooLong p x tmp hpc (Nat.le_of_not_lt hlen)
    · rename_i hfull
      obtain rfl := Option.some.inj h
      exact .full p x tmp hpc (Bool.eq_false_iff.mpr hfull)
  · rename_i p x hpc
    obtain rfl := Option.some.inj h
    split
    · rename_i hx; exact .again p x hpc hx
    · rename_i hx; exact .giveUp p x hpc hx
  · rename_i p off hpc
    obtain rfl := Option.some.inj h
    exact .copied p off hpc
  · rename_i p qs off hpc
    obtain rfl := Option.some.inj h
    exact .nextPbuf p qs off hpc
  · rename_i p b bs qs off hpc
    obtain rfl := Option.some.inj h
    exact .byte p b bs qs off hpc
  · rename_i p hpc
    obtain rfl := Option.some.inj h
    exact .control p hpc
  · rename_i p hpc
    obtain rfl := Option.some.inj h
    exact .index p hpc
  · rename_i p x hpc
    obtain rfl := Option.some.inj h
    exact .retOk p x hpc
  · rename_i p x hpc
    obtain rfl := Option.some.inj h
    exact .retBuf p x hpc

/-- Every step of the DMA is one of them. -/
theorem txStep_of_dma {s s' : TxState} (h : s.dma = some s') : TxStep s s' := by
  unfold TxState.dma at h
  split at h
  · rename_i hf
    split at h
    · nomatch h
    · rename_i hne
      obtain rfl := Option.some.inj h
      exact .take hf hne
  · rename_i f hf
    split at h
    · rename_i hlt
      obtain rfl := Option.some.inj h
      exact .fetch f hf hlt
    · rename_i hge
      obtain rfl := Option.some.inj h
      exact .send f hf hge

theorem txStep_sound {s s' : TxState} {a : TxAct} (h : txStep s a = some s') : TxStep s s' := by
  cases a with
  | call p =>
    simp only [txStep] at h
    split at h
    · rename_i hpc
      obtain rfl := Option.some.inj h
      exact .call p hpc
    · nomatch h
  | cpu => exact txStep_of_cpu h
  | dma => exact txStep_of_dma h

/-! ## Descriptors -/

/-- Descriptor `i` and its buffer hold the packet. -/
def Loaded (h : TxHw) (i : Nat) (p : TxPacket) : Prop :=
  dmaLength (h.ctrl i) = p.bytes.length ∧ ∀ j < p.bytes.length, h.buf i j = p.bytes.getD j 0

theorem TxPacket.bytes_length (p : TxPacket) : p.bytes.length = p.totLen.toNat := by
  rw [TxPacket.bytes, List.length_flatten, p.total]

/-- The control word of a packet that fits gives the DMA its length. -/
theorem dmaLength_txControl (p : TxPacket) (h : p.totLen.toNat < emacEthMaxFlen.toNat) :
    dmaLength (txControl p.totLen.toUInt32) = p.bytes.length := by
  have hpos := p.pos
  have hmax : p.totLen.toNat < 1536 := h
  have hsub : (p.totLen.toUInt32 - 1).toNat = p.totLen.toNat - 1 := by
    rw [UInt32.toNat_sub_of_le _ _ (by rw [UInt32.le_iff_toNat_le, UInt16.toNat_toUInt32]; exact hpos), UInt16.toNat_toUInt32]
    rfl
  have hmask : emacTctrlSize.toNat = 2 ^ 11 - 1 := rfl
  rw [dmaLength, txControl, or_and_of_disjoint _ (by decide), UInt32.toNat_and, hsub, hmask,
    Nat.and_two_pow_sub_one_eq_mod, Nat.mod_eq_of_lt (by omega), p.bytes_length]
  omega

/-- The full test, on an index that held the counter `c` when it was read: it passes when less than a ring is filled. -/
theorem check_iff {h : TxHw} {tmp : UInt32} {c n : Nat} (hp : h.txProduceIndex.toNat = n % 2) (ht : tmp.toNat = c % 2) :
    emacCheckTransmitIndex h tmp = true ↔ (n + 1) % 2 ≠ c % 2 := by
  have hp2 : h.txProduceIndex = 0 ∧ n % 2 = 0 ∨ h.txProduceIndex = 1 ∧ n % 2 = 1 := by
    rcases Nat.mod_two_eq_zero_or_one n with h0 | h1
    · exact Or.inl ⟨UInt32.toNat_inj.mp (hp.trans h0), h0⟩
    · exact Or.inr ⟨UInt32.toNat_inj.mp (hp.trans h1), h1⟩
  have ht2 : tmp = 0 ∧ c % 2 = 0 ∨ tmp = 1 ∧ c % 2 = 1 := by
    rcases Nat.mod_two_eq_zero_or_one c with h0 | h1
    · exact Or.inl ⟨UInt32.toNat_inj.mp (ht.trans h0), h0⟩
    · exact Or.inr ⟨UInt32.toNat_inj.mp (ht.trans h1), h1⟩
  unfold emacCheckTransmitIndex
  rcases hp2 with ⟨hp2, hn⟩ | ⟨hp2, hn⟩ <;> rcases ht2 with ⟨ht2, hc⟩ | ⟨ht2, hc⟩ <;> rw [hp2, ht2]
  · exact iff_of_true (by decide) (by omega)
  · exact iff_of_false (by decide) (by omega)
  · exact iff_of_false (by decide) (by omega)
  · exact iff_of_true (by decide) (by omega)

/-! ## The invariant -/

/-- Buffers, descriptors and `TxProduceIndex` are as they were at the entry of the call. -/
def Untouched (s : TxState) : Prop :=
  s.hw.buf = s.entry.buf ∧ s.hw.ctrl = s.entry.ctrl ∧ s.hw.txProduceIndex = s.entry.txProduceIndex

/-- A reading of `TxConsumeIndex` found the ring full: every descriptor but the one that stays empty held a packet not yet sent. -/
def FoundFull (r : Nat × Nat) : Prop := r.1 + 1 = r.2 + emacNumTxFrag.toNat

/-- The call has read the index `n` times, and found the ring full each time. -/
def AlwaysFull (s : TxState) (n : Nat) : Prop := s.reads.length = n ∧ ∀ r ∈ s.reads, FoundFull r

/-- The packet `p` fits, a descriptor is free for it, and the first `off` bytes of it are in that descriptor's buffer. -/
structure Copying (s : TxState) (p : TxPacket) (off : Nat) : Prop where
  fits : p.totLen.toNat < emacEthMaxFlen.toNat
  room : s.accepted.length + 1 < s.sent.length + 2
  bytes : ∀ j < off, s.hw.buf (s.accepted.length % 2) j = p.bytes.getD j 0

/-- Where the thread may be. -/
def ThreadOk (s : TxState) : Prop :=
  match s.pc with
  | .idle => True
  | .readIndex _ x => Untouched s ∧ x < netifMaxTxAttempts ∧ AlwaysFull s x
  | .test _ x tmp => Untouched s ∧ x < netifMaxTxAttempts ∧
      -- the value read is that of a counter which the DMA may have moved since
      ∃ c ≤ s.sent.length, tmp.toNat = c % 2 ∧ c ≤ s.accepted.length ∧ s.accepted.length < c + 2 ∧
        ∃ before, s.reads = before ++ [(s.accepted.length, c)] ∧ before.length = x ∧ ∀ r ∈ before, FoundFull r
  | .delay _ x => Untouched s ∧ x < netifMaxTxAttempts ∧ AlwaysFull s (x + 1)
  | .copy p qs off => Copying s p off ∧ off ≤ p.bytes.length ∧ p.bytes.drop off = qs.flatten
  | .control p => Copying s p p.bytes.length
  | .index p => Copying s p p.bytes.length ∧ dmaLength (s.hw.ctrl (s.accepted.length % 2)) = p.bytes.length
  | .ret _ _ .ok => True
  | .ret p x .buf => Untouched s ∧
      (x = netifMaxTxAttempts ∧ AlwaysFull s netifMaxTxAttempts ∨ emacEthMaxFlen.toNat ≤ p.totLen.toNat)

/-- The invariant of the transmit half. -/
structure TxRing (s : TxState) : Prop where
  produce : s.hw.txProduceIndex.toNat = s.accepted.length % 2
  consume : s.hw.txConsumeIndex.toNat = s.sent.length % 2
  le : s.sent.length ≤ s.accepted.length
  room : s.accepted.length < s.sent.length + 2
  sent : s.sent = (s.accepted.take s.sent.length).map TxPacket.bytes
  slots : ∀ k p, s.sent.length ≤ k → s.accepted[k]? = some p → Loaded s.hw (k % 2) p
  fetch : ∀ f, s.fetch = some f → ∃ p, s.accepted[s.sent.length]? = some p ∧ f.length = p.bytes.length ∧
    f.bytes.length ≤ f.length ∧ f.bytes = p.bytes.take f.bytes.length
  thread : ThreadOk s

theorem txNext_toNat {idx : UInt32} {k : Nat} (h : idx.toNat = k % 2) : (txNext idx).toNat = (k + 1) % 2 :=
  Ring.nextWord_toNat (by decide) h

namespace TxRing

variable {s s' : TxState}

theorem init (mem : Nat → Nat → UInt8) : TxRing (txInit mem) :=
  ⟨rfl, rfl, Nat.le_refl _, by simp [txInit, TxState.accepted], rfl, by simp [txInit, TxState.accepted], by simp [txInit], trivial⟩

/-- The indices agree exactly when everything accepted has been sent. -/
theorem index_eq_iff (h : TxRing s) :
    s.hw.txConsumeIndex = s.hw.txProduceIndex ↔ s.accepted.length = s.sent.length := by
  rw [← UInt32.toNat_inj, h.consume, h.produce, eq_comm]
  exact Ring.mod_eq_iff h.le h.room

/-- A step of the thread that leaves the registers, the memory and the packets accepted. -/
theorem of_pc (h : TxRing s) {pc : TxPc} {entry : TxHw} {reads : List (Nat × Nat)} {returned : List TxPacket}
    (hacc : (⟨s.hw, pc, s.fetch, entry, reads, returned, s.sent⟩ : TxState).accepted = s.accepted)
    (hthread : ThreadOk ⟨s.hw, pc, s.fetch, entry, reads, returned, s.sent⟩) :
    TxRing ⟨s.hw, pc, s.fetch, entry, reads, returned, s.sent⟩ :=
  ⟨by rw [hacc]; exact h.produce, h.consume, by rw [hacc]; exact h.le, by rw [hacc]; exact h.room,
    by rw [hacc]; exact h.sent, by rw [hacc]; exact h.slots, by rw [hacc]; exact h.fetch, hthread⟩

/-- The descriptor at `TxProduceIndex`, when one is free, is none of those that hold a packet. -/
theorem slot_ne (h : TxRing s) {k : Nat} {p : TxPacket} (hk : s.sent.length ≤ k) (hp : s.accepted[k]? = some p)
    (hroom : s.accepted.length + 1 < s.sent.length + 2) : k % 2 ≠ s.hw.txProduceIndex.toNat := by
  have hlt := (List.getElem?_eq_some_iff.mp hp).1
  rw [h.produce]
  exact Ring.mod_ne_of_lt hlt (by omega)

/-- A step of the thread that writes to the free descriptor. -/
theorem of_write (h : TxRing s) {hw : TxHw} {pc : TxPc} (hroom : s.accepted.length + 1 < s.sent.length + 2)
    (hp : hw.txProduceIndex = s.hw.txProduceIndex) (hc : hw.txConsumeIndex = s.hw.txConsumeIndex)
    (hother : ∀ i ≠ s.hw.txProduceIndex.toNat, hw.ctrl i = s.hw.ctrl i ∧ hw.buf i = s.hw.buf i)
    (hacc : (⟨hw, pc, s.fetch, s.entry, s.reads, s.returned, s.sent⟩ : TxState).accepted = s.accepted)
    (hthread : ThreadOk ⟨hw, pc, s.fetch, s.entry, s.reads, s.returned, s.sent⟩) :
    TxRing ⟨hw, pc, s.fetch, s.entry, s.reads, s.returned, s.sent⟩ := by
  refine ⟨by rw [hacc, hp]; exact h.produce, by rw [hc]; exact h.consume, by rw [hacc]; exact h.le, by rw [hacc]; exact h.room,
    by rw [hacc]; exact h.sent, ?_, by rw [hacc]; exact h.fetch, hthread⟩
  rw [hacc]
  intro k p hk hkp
  obtain ⟨hctrl, hbuf⟩ := hother _ (h.slot_ne hk hkp hroom)
  obtain ⟨hl, hb⟩ := h.slots k p hk hkp
  exact ⟨by rw [hctrl]; exact hl, by rw [hbuf]; exact hb⟩

/-- What the DMA does leaves the thread where it is: it can only have more room. -/
theorem threadOk_dma (h : ThreadOk s) (c : UInt32) (fetch : Option TxFetch) {frames : List (List UInt8)}
    (hlen : s.sent.length ≤ frames.length) :
    ThreadOk { s with hw := { s.hw with txConsumeIndex := c }, fetch := fetch, sent := frames } := by
  have hcopy : ∀ p off, Copying s p off →
      Copying { s with hw := { s.hw with txConsumeIndex := c }, fetch := fetch, sent := frames } p off := by
    intro p off hc
    exact ⟨hc.fits, Nat.lt_of_lt_of_le hc.room (Nat.add_le_add_right hlen 2), hc.bytes⟩
  obtain ⟨hw, pc, old, entry, reads, returned, sent⟩ := s
  cases pc with
  | idle => trivial
  | readIndex p x => exact h
  | test p x tmp =>
    obtain ⟨hu, hx, k, hk, hread⟩ := h
    exact ⟨hu, hx, k, Nat.le_trans hk hlen, hread⟩
  | delay p x => exact h
  | copy p qs off => exact ⟨hcopy p off h.1, h.2⟩
  | control p => exact hcopy p _ h
  | index p => exact ⟨hcopy p _ h.1, h.2⟩
  | ret p x r =>
    cases r with
    | ok => trivial
    | buf => exact h

/-- The test passes on an index that was read earlier: what was free then is free now. -/
theorem start_copy (h : TxRing s) {p : TxPacket} {x : Nat} {tmp : UInt32} (hpc : s.pc = .test p x tmp)
    (hfree : emacCheckTransmitIndex s.hw tmp = true) (hlen : p.totLen.toNat < emacEthMaxFlen.toNat) :
    TxRing { s with pc := .copy p p.pbufs 0 } := by
  have ht := h.thread
  simp only [ThreadOk, hpc] at ht
  obtain ⟨-, -, c, hc, htmp, hle, hlt, -⟩ := ht
  have hne := (check_iff h.produce htmp).mp hfree
  have hfull : s.accepted.length ≠ c + 1 := by
    rintro he
    rw [he] at hne
    omega
  have hacc : ({ s with pc := .copy p p.pbufs 0 } : TxState).accepted = s.accepted := by simp [TxState.accepted, hpc]
  have hroom : s.accepted.length + 1 < s.sent.length + 2 := by omega
  refine h.of_pc hacc ⟨⟨hlen, by rw [hacc]; exact hroom, ?_⟩, Nat.zero_le _, rfl⟩
  intro j hj
  exact absurd hj (Nat.not_lt_zero j)

/-- The test fails on an index that was read earlier: at that reading the ring was full. -/
theorem wait_delay (h : TxRing s) {p : TxPacket} {x : Nat} {tmp : UInt32} (hpc : s.pc = .test p x tmp)
    (hfull : emacCheckTransmitIndex s.hw tmp = false) : TxRing { s with pc := .delay p x } := by
  have ht := h.thread
  simp only [ThreadOk, hpc] at ht
  obtain ⟨hu, hx, c, -, htmp, hle, hlt, before, hreads, hlen, hbefore⟩ := ht
  have heq : (s.accepted.length + 1) % 2 = c % 2 := by
    by_contra hne
    rw [(check_iff h.produce htmp).mpr hne] at hfull
    cases hfull
  have hfound : FoundFull (s.accepted.length, c) := by
    change s.accepted.length + 1 = c + 2
    omega
  refine h.of_pc (by simp [TxState.accepted, hpc]) ⟨hu, hx, ?_, ?_⟩
  · change s.reads.length = x + 1
    rw [hreads, List.length_append, hlen, List.length_singleton]
  · intro r hr
    rw [hreads] at hr
    rcases List.mem_append.mp hr with hr | hr
    · exact hbefore r hr
    · rw [List.mem_singleton.mp hr]
      exact hfound

/-- The next byte of the packet goes to its place in the free buffer. -/
theorem copy_byte (h : TxRing s) {p : TxPacket} {b : UInt8} {bs : List UInt8} {qs : List (List UInt8)} {off : Nat}
    (hpc : s.pc = .copy p ((b :: bs) :: qs) off) :
    TxRing { s with hw := s.hw.store s.hw.txProduceIndex.toNat off b, pc := .copy p (bs :: qs) (off + 1) } := by
  have ht := h.thread
  simp only [ThreadOk, hpc] at ht
  obtain ⟨hc, -, hdrop⟩ := ht
  have hdrop' : p.bytes.drop off = b :: (bs ++ qs.flatten) := hdrop
  have hlt : off < p.bytes.length := by
    by_contra hge
    rw [List.drop_eq_nil_of_le (by omega)] at hdrop'
    nomatch hdrop'
  rw [List.drop_eq_getElem_cons hlt] at hdrop'
  obtain ⟨hb, hrest⟩ := List.cons.inj hdrop'
  have hacc : ({ s with hw := s.hw.store s.hw.txProduceIndex.toNat off b, pc := .copy p (bs :: qs) (off + 1) } :
      TxState).accepted = s.accepted := by simp [TxState.accepted, hpc]
  refine h.of_write hc.room rfl rfl (fun i hi => ⟨rfl, Function.update_of_ne hi _ _⟩) hacc
    ⟨⟨hc.fits, by rw [hacc]; exact hc.room, ?_⟩, hlt, hrest⟩
  intro j hj
  rw [hacc, TxHw.store, h.produce]
  dsimp only
  rw [Function.update_self]
  rcases Nat.lt_or_eq_of_le (Nat.le_of_lt_succ hj) with hj' | rfl
  · rw [Function.update_of_ne (by omega)]
    exact hc.bytes j hj'
  · rw [Function.update_self, List.getD_eq_getElem _ _ hlt, hb]

/-- The control word of the free descriptor. -/
theorem set_control (h : TxRing s) {p : TxPacket} (hpc : s.pc = .control p) :
    TxRing { s with
      hw := { s.hw with ctrl := Function.update s.hw.ctrl s.hw.txProduceIndex.toNat (txControl p.totLen.toUInt32) }
      pc := .index p } := by
  have ht := h.thread
  simp only [ThreadOk, hpc] at ht
  have hacc : ({ s with
      hw := { s.hw with ctrl := Function.update s.hw.ctrl s.hw.txProduceIndex.toNat (txControl p.totLen.toUInt32) }
      pc := .index p } : TxState).accepted = s.accepted := by simp [TxState.accepted, hpc]
  refine h.of_write ht.room rfl rfl (fun i hi => ⟨Function.update_of_ne hi _ _, rfl⟩) hacc
    ⟨⟨ht.fits, by rw [hacc]; exact ht.room, by rw [hacc]; exact ht.bytes⟩, ?_⟩
  rw [hacc, h.produce]
  dsimp only
  rw [Function.update_self]
  exact dmaLength_txControl p ht.fits

/-- A packet that is enabled: its descriptor is loaded, and it is accepted. -/
theorem commit (h : TxRing s) {p : TxPacket} (hpc : s.pc = .index p) :
    TxRing { s with hw := { s.hw with txProduceIndex := txNext s.hw.txProduceIndex }, pc := .ret p 0 .ok } := by
  have ht := h.thread
  simp only [ThreadOk, hpc] at ht
  obtain ⟨hc, hl⟩ := ht
  have hle := h.le
  have hroom := hc.room
  have hacc : ({ s with hw := { s.hw with txProduceIndex := txNext s.hw.txProduceIndex }, pc := .ret p 0 .ok } : TxState).accepted
      = s.accepted ++ [p] := by simp [TxState.accepted, hpc]
  constructor
  · rw [hacc, List.length_append]; exact txNext_toNat h.produce
  · exact h.consume
  · rw [hacc, List.length_append]; exact Nat.le_succ_of_le hle
  · rw [hacc, List.length_append]; exact hroom
  · rw [hacc, List.take_append_of_le_length hle]; exact h.sent
  · rw [hacc]
    intro k q hk hq
    rcases Nat.lt_or_ge k s.accepted.length with hlt | hge
    · rw [List.getElem?_append_left hlt] at hq
      exact h.slots k q hk hq
    · have hlt := (List.getElem?_eq_some_iff.mp hq).1
      obtain rfl : k = s.accepted.length := by simp at hlt; omega
      obtain rfl : p = q := by simpa using hq
      exact ⟨hl, hc.bytes⟩
  · rw [hacc]
    intro f hf
    obtain ⟨q, hq, hrest⟩ := h.fetch f hf
    have hlt := (List.getElem?_eq_some_iff.mp hq).1
    exact ⟨q, by rw [List.getElem?_append_left hlt]; exact hq, hrest⟩
  · trivial

/-- A frame that the DMA has whole: it is the next packet. -/
theorem send_frame (h : TxRing s) {f : TxFetch} (hf : s.fetch = some f) (hge : ¬ f.bytes.length < f.length) :
    TxRing { s with hw := { s.hw with txConsumeIndex := txNext s.hw.txConsumeIndex }, fetch := none, sent := s.sent ++ [f.bytes] } := by
  obtain ⟨p, hp, hlen, hle, hbytes⟩ := h.fetch f hf
  have hlt := (List.getElem?_eq_some_iff.mp hp).1
  have hroom := h.room
  have hfull : f.bytes = p.bytes := by
    rw [hbytes, List.take_of_length_le (by omega)]
  have hlen' : (s.sent ++ [f.bytes]).length = s.sent.length + 1 := by simp
  refine ⟨h.produce, ?_, ?_, ?_, ?_, ?_, by simp, threadOk_dma h.thread _ _ (by simp)⟩
  · rw [hlen']; exact txNext_toNat h.consume
  · rw [hlen']; exact hlt
  · rw [hlen']; exact Nat.lt_succ_of_lt hroom
  · rw [hlen', List.take_add_one, List.map_append]
    show s.sent ++ [f.bytes] = (s.accepted.take s.sent.length).map TxPacket.bytes ++
      s.accepted[s.sent.length]?.toList.map TxPacket.bytes
    rw [← h.sent, hp, hfull]
    rfl
  · intro k q hk hq
    exact h.slots k q (by rw [hlen'] at hk; omega) hq

/-- The DMA's byte is the packet's. -/
theorem fetch_byte (h : TxRing s) {f : TxFetch} (hf : s.fetch = some f) (hlt : f.bytes.length < f.length) :
    ∃ p, s.accepted[s.sent.length]? = some p ∧ f.length = p.bytes.length ∧
      f.bytes ++ [s.hw.buf s.hw.txConsumeIndex.toNat f.bytes.length] = p.bytes.take (f.bytes.length + 1) := by
  obtain ⟨p, hp, hlen, -, hbytes⟩ := h.fetch f hf
  refine ⟨p, hp, hlen, ?_⟩
  obtain ⟨-, hmem⟩ := h.slots _ p (Nat.le_refl _) hp
  rw [h.consume, hmem _ (by omega), List.take_add_one, List.getElem?_eq_getElem (by omega : f.bytes.length < p.bytes.length),
    List.getD_eq_getElem _ _ (by omega), ← hbytes]
  rfl

theorem step (h : TxRing s) (hs : TxStep s s') : TxRing s' := by
  have ht := h.thread
  have hroom := h.room
  cases hs with
  | call p hpc =>
    exact h.of_pc (by simp [TxState.accepted, hpc]) ⟨⟨rfl, rfl, rfl⟩, by decide, rfl, nofun⟩
  | read p x hpc =>
    simp only [ThreadOk, hpc] at ht
    obtain ⟨hu, hx, hlen, hfull⟩ := ht
    have hacc : s.accepted = s.returned := by simp [TxState.accepted, hpc]
    refine h.of_pc (by simp [TxState.accepted, hpc]) ⟨hu, hx, s.sent.length, Nat.le_refl _, h.consume, ?_, ?_, s.reads, ?_, hlen, hfull⟩
    · have := h.le; simpa [TxState.accepted, hpc] using this
    · simpa [TxState.accepted, hpc] using hroom
    · change s.reads ++ [(s.accepted.length, s.sent.length)] = s.reads ++ [(s.returned.length, s.sent.length)]
      rw [hacc]
  | free p x tmp hpc hfree hlen => exact h.start_copy hpc hfree hlen
  | tooLong p x tmp hpc hlen =>
    simp only [ThreadOk, hpc] at ht
    exact h.of_pc (by simp [TxState.accepted, hpc]) ⟨ht.1, Or.inr hlen⟩
  | full p x tmp hpc hfull => exact h.wait_delay hpc hfull
  | again p x hpc hx =>
    simp only [ThreadOk, hpc] at ht
    exact h.of_pc (by simp [TxState.accepted, hpc]) ⟨ht.1, hx, ht.2.2⟩
  | giveUp p x hpc hx =>
    simp only [ThreadOk, hpc] at ht
    have hlast : x + 1 = netifMaxTxAttempts := by omega
    exact h.of_pc (by simp [TxState.accepted, hpc]) ⟨ht.1, Or.inl ⟨hlast, hlast ▸ ht.2.2⟩⟩
  | copied p off hpc =>
    simp only [ThreadOk, hpc] at ht
    have hacc : ({ s with pc := .control p } : TxState).accepted = s.accepted := by simp [TxState.accepted, hpc]
    obtain ⟨hc, hle, hdrop⟩ := ht
    have hoff : off = p.bytes.length := by
      have := List.drop_eq_nil_iff.mp hdrop
      omega
    subst hoff
    exact h.of_pc hacc ⟨hc.fits, by rw [hacc]; exact hc.room, by rw [hacc]; exact hc.bytes⟩
  | nextPbuf p qs off hpc =>
    simp only [ThreadOk, hpc] at ht
    have hacc : ({ s with pc := .copy p qs off } : TxState).accepted = s.accepted := by simp [TxState.accepted, hpc]
    obtain ⟨hc, hle, hdrop⟩ := ht
    exact h.of_pc hacc ⟨⟨hc.fits, by rw [hacc]; exact hc.room, by rw [hacc]; exact hc.bytes⟩, hle, hdrop⟩
  | byte p b bs qs off hpc => exact h.copy_byte hpc
  | control p hpc => exact h.set_control hpc
  | index p hpc => exact h.commit hpc
  | retOk p x hpc =>
    exact h.of_pc (by simp [TxState.accepted, hpc]) trivial
  | retBuf p x hpc =>
    exact h.of_pc (by simp [TxState.accepted, hpc]) trivial
  | take hf hne =>
    have hlt : s.sent.length < s.accepted.length := by
      have hne' := mt h.index_eq_iff.mpr hne
      have hle := h.le
      omega
    obtain ⟨hl, -⟩ := h.slots _ _ (Nat.le_refl _) (List.getElem?_eq_getElem hlt)
    refine ⟨h.produce, h.consume, h.le, h.room, h.sent, h.slots, ?_, threadOk_dma ht _ _ (Nat.le_refl _)⟩
    intro f hf
    obtain rfl := Option.some.inj hf
    exact ⟨_, List.getElem?_eq_getElem hlt, by rw [h.consume, hl], Nat.zero_le _, rfl⟩
  | fetch f hf hlt =>
    obtain ⟨p, hp, hlen, hbytes⟩ := h.fetch_byte hf hlt
    refine ⟨h.produce, h.consume, h.le, h.room, h.sent, h.slots, ?_, threadOk_dma ht _ _ (Nat.le_refl _)⟩
    intro f' hf'
    obtain rfl := Option.some.inj hf'
    rw [List.length_append]
    refine ⟨p, hp, hlen, hlt, ?_⟩
    exact hbytes
  | send f hf hge => exact h.send_frame hf hge

end TxRing

end SaymaFirmware
