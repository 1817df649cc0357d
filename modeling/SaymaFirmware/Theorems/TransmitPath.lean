import SaymaFirmware.Lemmas.TxRing

/-!
# The transmit path is a lossless queue

For every sequence of packets and every interleaving of `prvLowLevelOutput` with the DMA.
-/

namespace SaymaFirmware

namespace TransmitAux

/-- The descriptors from one index up to another are those of the counters between. -/
theorem ringSlots_counter (n : Nat) : ∀ (c p : UInt32) (a b : Nat), c.toNat = a % 2 → p.toNat = b % 2 → a ≤ b → b < a + 2 →
    ∀ i ∈ ringSlots c p n, ∃ k, a ≤ k ∧ k < b ∧ i = k % 2 := by
  induction n with
  | zero => intro c p a b _ _ _ _ i hi; nomatch hi
  | succ n ih =>
    intro c p a b hc hp hle hlt i hi
    rw [ringSlots] at hi
    split at hi
    · nomatch hi
    · rename_i hne
      have hab : a < b := by
        have hne' : ¬ b = a := by
          rw [← Ring.mod_eq_iff hle hlt, ← hc, ← hp, UInt32.toNat_inj]
          exact fun h => hne h.symm
        omega
      rcases List.mem_cons.mp hi with rfl | hi
      · exact ⟨a, Nat.le_refl a, hab, hc⟩
      · obtain ⟨k, h1, h2, h3⟩ := ih (txNext c) p (a + 1) b (txNext_toNat hc) hp hab (by omega) i hi
        exact ⟨k, by omega, h2, h3⟩

variable {s : TxState}

/-- What the DMA may read is not what the thread writes. -/
theorem writes_not_owned (h : TxRing s) {i : Nat} (hi : s.writes = some i) : i ∉ s.hw.owned := by
  have ht := h.thread
  have hfree : i = s.hw.txProduceIndex.toNat ∧ s.accepted.length + 1 < s.sent.length + 2 := by
    unfold TxState.writes at hi
    split at hi
    · rename_i hpc
      simp only [ThreadOk, hpc] at ht
      exact ⟨(Option.some.inj hi).symm, ht.1.room⟩
    · rename_i hpc
      simp only [ThreadOk, hpc] at ht
      exact ⟨(Option.some.inj hi).symm, ht.room⟩
    · cases hi
  obtain ⟨rfl, hroom⟩ := hfree
  intro hmem
  obtain ⟨k, h1, h2, h3⟩ := ringSlots_counter _ _ _ _ _ h.consume h.produce h.le h.room _ hmem
  rw [h.produce] at h3
  exact Ring.mod_ne_of_lt h2 (by omega) h3.symm

/-- The thread's step writes to no other buffer or descriptor than `writes` says. -/
theorem cpu_writes {s' : TxState} (hs : s.cpu = some s') {i : Nat} (hi : s.writes ≠ some i) :
    s'.hw.ctrl i = s.hw.ctrl i ∧ s'.hw.buf i = s.hw.buf i := by
  unfold TxState.cpu at hs
  unfold TxState.writes at hi
  split at hs
  · nomatch hs
  · obtain rfl := Option.some.inj hs; exact ⟨rfl, rfl⟩
  · split at hs <;> obtain rfl := Option.some.inj hs <;> exact ⟨rfl, rfl⟩
  · obtain rfl := Option.some.inj hs; exact ⟨rfl, rfl⟩
  · obtain rfl := Option.some.inj hs; exact ⟨rfl, rfl⟩
  · obtain rfl := Option.some.inj hs; exact ⟨rfl, rfl⟩
  · rename_i hpc
    obtain rfl := Option.some.inj hs
    simp only [hpc, ne_eq, Option.some.injEq] at hi
    exact ⟨rfl, Function.update_of_ne (fun h => hi h.symm) _ _⟩
  · rename_i hpc
    obtain rfl := Option.some.inj hs
    simp only [hpc, ne_eq, Option.some.injEq] at hi
    exact ⟨Function.update_of_ne (fun h => hi h.symm) _ _, rfl⟩
  all_goals obtain rfl := Option.some.inj hs; exact ⟨rfl, rfl⟩

end TransmitAux

open TransmitAux in
/-- In every state reached: the thread's next step writes no buffer or descriptor that the DMA may read; `TxProduceIndex` is in the
ring; the frames sent are a prefix of the packets for which `ERR_OK` is returned, and all of them when the ring is empty; and a call
that returns `ERR_BUF` leaves everything as it was, and did so because each of its five readings of `TxConsumeIndex` found the ring full,
with all but one of the descriptors holding a packet accepted and not yet sent, or because the packet is too long. -/
theorem transmit_path_fifo (mem : Nat → Nat → UInt8) (s : TxState) (hrun : Reaches txStep (AnyStep _ _) (txInit mem) s) :
    (∀ i, s.writes = some i → i ∉ s.hw.owned) ∧
    (∀ s', s.cpu = some s' → ∀ i ∈ s.hw.owned, s'.hw.ctrl i = s.hw.ctrl i ∧ s'.hw.buf i = s.hw.buf i) ∧
    s.hw.txProduceIndex < emacNumTxFrag ∧
    s.sent <+: s.accepted.map TxPacket.bytes ∧
    (s.hw.txConsumeIndex = s.hw.txProduceIndex → s.sent = s.accepted.map TxPacket.bytes) ∧
    (∀ p x, s.pc = .ret p x .buf →
      ((x = netifMaxTxAttempts ∧ s.reads.length = netifMaxTxAttempts ∧ ∀ r ∈ s.reads, r.1 + 1 = r.2 + emacNumTxFrag.toNat) ∨
        emacEthMaxFlen.toNat ≤ p.totLen.toNat) ∧
      s.hw.buf = s.entry.buf ∧ s.hw.ctrl = s.entry.ctrl ∧ s.hw.txProduceIndex = s.entry.txProduceIndex) := by
  have h : TxRing s := hrun.invariant TxRing (TxRing.init mem) fun s a s' h _ hs => h.step (txStep_sound hs)
  refine ⟨fun i hi => writes_not_owned h hi, ?_, ?_, ?_, ?_, ?_⟩
  · intro s' hs i hi
    exact cpu_writes hs fun hw => writes_not_owned h hw hi
  · rw [UInt32.lt_iff_toNat_lt, h.produce]
    exact Nat.mod_lt _ (by decide)
  · rw [h.sent]
    exact (List.take_prefix _ _).map _
  · intro he
    have hall := h.index_eq_iff.mp he
    have hsent := h.sent
    rwa [← hall, List.take_length] at hsent
  · intro p x hpc
    have ht := h.thread
    simp only [ThreadOk, hpc] at ht
    exact ⟨ht.2, ht.1⟩

/-- A packet of two pbufs. -/
def threeBytes : TxPacket := ⟨[[1, 2], [3]], 3, by decide, by decide⟩

/-- The packet goes out while the thread is still in the call; a second one fills the ring, and a third call finds it full in all its
attempts. -/
def txRun : List TxAct :=
  List.flatten [.call threeBytes :: List.replicate 10 .cpu, List.replicate 5 .dma, [.cpu],
    .call threeBytes :: List.replicate 11 .cpu, .call threeBytes :: List.replicate 15 .cpu]

/-- The theorem at the end of it, at the return of `ERR_BUF`. -/
theorem transmit_path_txRun :
    ∃ s p, Reaches txStep (AnyStep _ _) (txInit fun _ _ => 0) s ∧ s.pc = .ret p 5 .buf ∧ s.sent = [[1, 2, 3]] ∧
      s.reads = [(2, 1), (2, 1), (2, 1), (2, 1), (2, 1)] ∧ s.sent <+: s.accepted.map TxPacket.bytes ∧
      (∀ r ∈ s.reads, r.1 + 1 = r.2 + emacNumTxFrag.toNat) ∧ s.hw.buf = s.entry.buf := by
  obtain ⟨s, hs, hp⟩ := exists_reaches_of_exec txStep (fun _ _ => true) (txInit fun _ _ => 0) txRun
    (fun s => decide (s.pc = .ret threeBytes 5 .buf ∧ s.sent = [[1, 2, 3]] ∧ s.reads = [(2, 1), (2, 1), (2, 1), (2, 1), (2, 1)]))
    (by decide +kernel)
  obtain ⟨hpc, hsent, hreads⟩ := of_decide_eq_true hp
  have hreach := hs.mono (fun _ _ _ => trivial : ∀ s a, _ → AnyStep _ _ s a)
  obtain ⟨-, -, -, hprefix, -, hret⟩ := transmit_path_fifo _ s hreach
  obtain ⟨hwhy, hbuf, -⟩ := hret threeBytes 5 hpc
  refine ⟨s, threeBytes, hreach, hpc, hsent, hreads, hprefix, ?_, hbuf⟩
  rcases hwhy with ⟨-, -, hfull⟩ | hlong
  · exact hfull
  · exact absurd hlong (by decide)

end SaymaFirmware
