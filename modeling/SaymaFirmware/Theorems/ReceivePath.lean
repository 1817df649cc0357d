import SaymaFirmware.Lemmas.RxContent

/-!
# The receive path keeps order, content and ownership

For whole frames, over any number of runs of `ENET_IRQHandler` and whatever the pool and the stack answer.
-/

namespace SaymaFirmware

/-- Only whole frames are received. -/
def onlyWhole (_ : RxState) : RxAct → Bool
  | .frame f => f.whole
  | _ => true

/-- Whenever the handler has returned, every frame it handled was asked a chain for; what it passed to `netif->input` is, in the order of
arrival, the frames for which the pool had one and that are of type IP or ARP, without their CRC and each with the answer of the stack;
the frames handled are as many as the descriptors released; and every chain allocated was accepted or freed, once. At any moment
`RxConsumeIndex` is in the ring and not past `RxProduceIndex`. -/
theorem receive_path_order_content_ownership (mem : Nat → Nat → UInt8) (s : RxState)
    (hrun : Reaches rxStep (fun s a => onlyWhole s a = true) (rxInit mem) s) :
    (s.pc.isIdle = true →
      s.asked.length = releases s.trace ∧
      allocResults s.trace = (s.arrived.zip s.asked).map (fun x => hasChain x.1 x.2) ∧
      s.offered.length = (carried s.arrived s.asked).length ∧
      inputs s.trace = handedUp (carried s.arrived s.asked) s.offered ∧
      (allocated s.trace).length = (carried s.arrived s.asked).length ∧
      (allocated s.trace).Nodup ∧
      (∀ p ∈ allocated s.trace, (accepted s.trace).count p + (freed s.trace).count p = 1) ∧
      (∀ p, p ∈ accepted s.trace ∨ p ∈ freed s.trace → p ∈ allocated s.trace)) ∧
    s.hw.rxConsumeIndex < emacNumRxFrag ∧ s.hw.rxConsumeIndex.toNat = releases s.trace % 3 ∧
    s.hw.rxProduceIndex.toNat = s.arrived.length % 3 ∧
    releases s.trace ≤ s.arrived.length ∧ s.arrived.length < releases s.trace + 3 := by
  obtain ⟨hring, hcontent⟩ := hrun.invariant (fun s => RxRing s ∧ RxContent s) ⟨RxRing.init mem, RxContent.init mem⟩
    fun s a s' h hok hs => ⟨h.1.step (rxStep_sound hs),
      h.2.step h.1 (fun f hf => by subst hf; exact hok) (rxStep_sound hs)⟩
  refine ⟨?_, ?_, hring.consume, hring.produce, hring.le, hring.room⟩
  · intro hidle
    have hdone : Handled s.arrived s.asked s.offered s.pbufs (releases s.trace) s.trace := by
      have ht := hcontent.trace
      cases hpc : s.pc with
      | idle => simpa only [TraceOk, hpc] using ht
      | _ => simp [hpc, RxPc.isIdle] at hidle
    refine ⟨hdone.turns, hdone.results, hdone.offers, hdone.up, ?_, by rw [hdone.chains]; exact List.nodup_range, ?_,
      ?_⟩
    · rw [hdone.chains, List.length_range, hdone.count]
    · intro p hp
      rw [hdone.chains, List.mem_range] at hp
      rw [hdone.owned, if_pos hp]
    · -- a chain that is in one of the two lists counts, so it was allocated
      intro p hp
      rw [hdone.chains, List.mem_range]
      have hcount := hdone.owned p
      by_contra hge
      rw [if_neg hge] at hcount
      rcases hp with hp | hp
      · have := List.count_pos_iff.mpr hp; omega
      · have := List.count_pos_iff.mpr hp; omega
  · rw [UInt32.lt_iff_toNat_lt, hring.consume]
    exact Nat.mod_lt _ (by decide)

/-- The three parts of a chain: the Ethernet header, up to eight bytes, and what is behind them. -/
theorem split_total (n : Nat) : min 14 n + (min 8 (n - 14) + (n - 14 - 8 + 0)) = n := by omega

/-- A pool that splits every chain in three, and a stack that takes what it gets or not. -/
def splitPool (accepts : Bool) : RxOracle where
  alloc length := some
    { first := ⟨List.replicate 14 ⟨0, false⟩, min 14 length.toNat, by rw [List.length_replicate]; exact Nat.min_le_left _ _⟩
      rest := [⟨List.replicate 8 ⟨0, false⟩, min 8 (length.toNat - 14), by rw [List.length_replicate]; exact Nat.min_le_left _ _⟩,
        ⟨List.replicate (length.toNat - 14 - 8) ⟨0, false⟩, length.toNat - 14 - 8, by simp⟩]
      total := by
        simp only [List.map_cons, List.map_nil, List.sum_cons, List.sum_nil]
        exact split_total _
      room := by simp
      header := Nat.le_refl _
      old := fun c hc => by rw [List.eq_of_mem_replicate hc] }
  accepts := accepts

/-- A pool that has nothing left. -/
def exhaustedPool : RxOracle := ⟨fun _ => none, true⟩

/-- A frame of the given type with these bytes behind its header. -/
def frameOf (type : UInt8) (body : List UInt8) : RxFrame :=
  ⟨emacRinfoLastFlag ||| UInt32.ofNat (body.length + 17),
    [1, 2, 3, 4, 5, 6, 7, 8, 9, 10, 11, 12, 8, type] ++ body ++ [0xAA, 0xBB, 0xCC, 0xDD]⟩

/-- The handler on one frame, in `n` steps. -/
def handlerRunOn (n : Nat) (o : RxOracle) : List RxAct := .enter :: List.replicate n (.cpu o)

/-- Twelve bytes that the split puts into two pbufs. -/
def twelveBytes : List UInt8 := [20, 21, 22, 23, 24, 25, 26, 27, 28, 29, 30, 31]

/-- An IP frame that goes up from a chain of three pbufs, an ARP frame that the stack does not take, one of another type, and an IP frame
for which the pool has no chain. -/
theorem receive_path_four_frames :
    ∃ s, Reaches rxStep (fun s a => onlyWhole s a = true) (rxInit fun _ _ => 0) s ∧
      s.arrived = [frameOf 0 twelveBytes, frameOf 6 [], frameOf 9 twelveBytes, frameOf 0 twelveBytes] ∧
      s.asked.length = 4 ∧ allocResults s.trace = [true, true, true, false] ∧
      inputs s.trace = [([1, 2, 3, 4, 5, 6, 7, 8, 9, 10, 11, 12, 8, 0] ++ twelveBytes, true),
        ([1, 2, 3, 4, 5, 6, 7, 8, 9, 10, 11, 12, 8, 6], false)] ∧
      inputs s.trace = handedUp (carried s.arrived s.asked) s.offered ∧
      accepted s.trace = [0] ∧ freed s.trace = [1, 2] ∧ releases s.trace = 4 := by
  obtain ⟨s, hs, hp⟩ := exists_reaches_of_exec rxStep onlyWhole (rxInit fun _ _ => 0)
    (.frame (frameOf 0 twelveBytes) :: handlerRunOn 9 (splitPool true) ++ .frame (frameOf 6 []) :: handlerRunOn 9 (splitPool false) ++
      .frame (frameOf 9 twelveBytes) :: handlerRunOn 9 (splitPool true) ++
      .frame (frameOf 0 twelveBytes) :: handlerRunOn 8 exhaustedPool)
    (fun s => s.pc.isIdle && decide (s.arrived = [frameOf 0 twelveBytes, frameOf 6 [], frameOf 9 twelveBytes, frameOf 0 twelveBytes] ∧
      allocResults s.trace = [true, true, true, false] ∧
      inputs s.trace = [([1, 2, 3, 4, 5, 6, 7, 8, 9, 10, 11, 12, 8, 0] ++ twelveBytes, true),
        ([1, 2, 3, 4, 5, 6, 7, 8, 9, 10, 11, 12, 8, 6], false)] ∧
      accepted s.trace = [0] ∧ freed s.trace = [1, 2] ∧ releases s.trace = 4)) (by decide +kernel)
  simp only [Bool.and_eq_true, decide_eq_true_eq] at hp
  obtain ⟨hidle, harr, hres, hin, hacc, hfree, hrel⟩ := hp
  obtain ⟨hasked, -, -, hup, -⟩ := (receive_path_order_content_ownership _ s hs).1 hidle
  exact ⟨s, hs, harr, hasked.trans hrel, hres, hin, hup, hacc, hfree, hrel⟩

end SaymaFirmware
