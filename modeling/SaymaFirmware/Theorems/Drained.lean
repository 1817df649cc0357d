import SaymaFirmware.Lemmas.RxRing

/-!
# When the receive ring is drained

`ENET_IRQHandler` releases one descriptor for each time it finds RxDone set, and RxDone is one bit for any number of frames. A frame
that takes a descriptor while the bit is set already is never counted. As long as none does, the bit and the handler's cause
account for every frame in the ring.
-/

namespace SaymaFirmware

/-- No frame takes a descriptor while RxDone is set. -/
def frameAnnounced (s : RxState) : RxAct → Bool
  | .frame _ => !s.hw.rxDone || s.hw.full
  | _ => true

namespace DrainedAux

/-- The frames the handler has taken note of and not yet released. -/
def held : RxPc → Nat
  | .underrun cause | .check cause => (cause &&& emacIntRxDone != 0).toNat
  | .status | .lowLevelInput | .deliver _ _ | .release => 1
  | _ => 0

/-- Every frame in the ring is announced by RxDone or held by the handler. -/
structure Accounted (s : RxState) : Prop where
  count : s.arrived.length = releases s.trace + s.hw.rxDone.toNat + held s.pc
  cause : ∀ c, s.pc = .clear c → c &&& emacIntRxDone ≠ 0 → s.hw.rxDone = true

theorem isFlag_rxDone : IsFlag emacIntRxDone := ⟨3, by decide, by decide⟩

/-- The frames accounted for are at most two. -/
theorem held_le_one (pc : RxPc) : held pc ≤ 1 := by
  cases pc <;> simp [held, Bool.toNat_le]

variable {s s' : RxState} {a : RxAct}

/-- A step that leaves the frames, the descriptors and RxDone as they are. -/
theorem Accounted.of_eq (h : Accounted s) (hframes : s'.arrived = s.arrived)
    (hreleased : releases s'.trace = releases s.trace) (hdone : s'.hw.rxDone = s.hw.rxDone) (hheld : held s'.pc = held s.pc)
    (hpc : ∀ c, s'.pc = .clear c → s.pc = .clear c) : Accounted s' :=
  ⟨by rw [hframes, hreleased, hdone, hheld, h.count], fun c hc hb => by rw [hdone]; exact h.cause c (hpc c hc) hb⟩

theorem accounted_init (mem : Nat → Nat → UInt8) : Accounted (rxInit mem) :=
  ⟨by simp [rxInit, RxHw.rxDone, held, releases], fun c hc => by simp [rxInit] at hc⟩

/-- A frame that finds the ring full: two frames wait, so one of them is announced. -/
theorem Accounted.rxDone_of_full (hring : RxRing s) (h : Accounted s) (hfull : s.hw.full = true) : s.hw.rxDone = true := by
  have hcount := h.count
  have htwo := hring.full_iff.mp hfull
  have hle := held_le_one s.pc
  by_contra hd
  rw [Bool.not_eq_true] at hd
  rw [hd, Bool.toNat_false] at hcount
  omega

/-- RxDone after the DMA has set it. -/
theorem rxDone_set {hw : RxHw} {before : UInt32} (h : hw.intStatus = before ||| emacIntRxDone) : hw.rxDone = true := by
  rw [RxHw.rxDone, h, or_flag_and]
  decide

/-- A frame that takes a descriptor is announced. -/
theorem Accounted.stored (h : Accounted s) (hdone : s.hw.rxDone = false) {hw : RxHw} (hset : hw.rxDone = true) (f : RxFrame) :
    Accounted { s with hw := hw, arrived := s.arrived ++ [f] } := by
  have hcount := h.count
  rw [hdone, Bool.toNat_false] at hcount
  refine ⟨?_, fun c _ _ => hset⟩
  simp only [hset, List.length_append, List.length_singleton, hcount, Bool.toNat_true]
  omega

/-- Clearing the cause hands the announced frame over to the handler. -/
theorem Accounted.clear (h : Accounted s) {cause : UInt32} (hpc : s.pc = .clear cause) :
    Accounted { s with hw := { s.hw with intStatus := s.hw.intStatus &&& ~~~cause }, pc := .underrun cause } := by
  have hcount := h.count
  rw [hpc] at hcount
  refine ⟨?_, fun c hc => by simp at hc⟩
  by_cases hc : cause &&& emacIntRxDone = 0
  · -- the cause has no frame: a bit set since it was read stays
    simp only [RxHw.rxDone, clear_and_of_disjoint _ hc, held, hc, hcount]
    rfl
  · have hdone := h.cause cause hpc hc
    have hb : (cause &&& emacIntRxDone != 0) = true := by simpa using hc
    rw [hdone] at hcount
    simp only [RxHw.rxDone, isFlag_rxDone.clear_self hc, held, hcount, hb]
    rfl

/-- A handler that finds nothing to read holds no frame: a cause with RxDone and an empty ring do not go together. -/
theorem Accounted.held_eq_zero (hring : RxRing s) (h : Accounted s) {cause : UInt32} (hpc : s.pc = .check cause)
    (hno : cause &&& emacIntRxDone = 0 ∨ s.hw.emacCheckReceiveIndex = false) : held s.pc = 0 := by
  rcases hno with hz | hidx
  · rw [hpc]
    simp [held, hz]
  · have hcount := h.count
    have hempty : s.arrived.length = releases s.trace := by
      rw [← hring.index_eq_iff]
      simpa [RxHw.emacCheckReceiveIndex] using hidx
    omega

/-- Releasing the descriptor. -/
theorem Accounted.released (h : Accounted s) (hpc : s.pc = .release) :
    Accounted { s with hw := s.hw.emacUpdateRxConsumeIndex, pc := .test, trace := s.trace ++ [.release] } := by
  have hcount := h.count
  rw [hpc] at hcount
  refine ⟨?_, fun c hc => by simp at hc⟩
  simp only [releases_append, releases_release, hcount]
  show releases s.trace + s.hw.rxDone.toNat + 1 = releases s.trace + 1 + s.hw.rxDone.toNat + 0
  omega

theorem accounted_step (hring : RxRing s) (h : Accounted s) (hok : frameAnnounced s a = true) (hs : RxStep s a s') :
    Accounted s' := by
  cases hs with
  | lost f hfull =>
    exact h.of_eq rfl rfl ((rxDone_set rfl).trans (h.rxDone_of_full hring hfull).symm) rfl fun c hc => hc
  | stored f hfull =>
    have hdone : s.hw.rxDone = false := by simpa [frameAnnounced, hfull] using hok
    exact h.stored hdone (rxDone_set rfl) f
  | event bits hbits =>
    refine h.of_eq rfl rfl ?_ rfl fun c hc => hc
    simp only [RxHw.rxDone, or_and_of_disjoint _ hbits]
  | clear o cause hpc => exact h.clear hpc
  | pending o hpc =>
    have hcount := h.count
    refine ⟨by rw [hpc] at hcount; exact hcount, ?_⟩
    intro c hc hb
    obtain rfl := RxPc.clear.inj hc
    simpa [RxHw.rxDone] using hb
  | found o cause hpc hcause hindex =>
    have hb : (cause &&& emacIntRxDone != 0) = true := by simpa using hcause
    exact h.of_eq rfl rfl rfl (by rw [hpc]; simp only [held, hb]; rfl) fun c hc => by simp at hc
  | nothing o cause hpc hno =>
    have hheld := h.held_eq_zero hring hpc hno
    exact h.of_eq rfl rfl rfl (by rw [hheld]; rfl) fun c hc => by simp at hc
  | allocated o ev pkt hpc he =>
    exact h.of_eq rfl (by simp [releases_prvLowLevelInput he]) rfl (by rw [hpc]; rfl) fun c hc => by simp at hc
  | refused o ev hpc he =>
    exact h.of_eq rfl (by simp [releases_prvLowLevelInput he]) rfl (by rw [hpc]; rfl) fun c hc => by simp at hc
  | delivered o p pkt hpc =>
    exact h.of_eq rfl (by simp) rfl (by rw [hpc]; rfl) fun c hc => by simp at hc
  | released o hpc => exact h.released hpc
  | mask b => exact h.of_eq rfl rfl rfl rfl fun c hc => hc
  | enter hpc | leave o hpc | underrun o cause command hpc | last o hpc hlast | fragment o hpc hlast =>
    exact h.of_eq rfl rfl rfl (by rw [hpc]; rfl) fun c hc => by simp at hc

end DrainedAux

open DrainedAux in
/-- In every run in which no frame takes a descriptor while RxDone is set, the ring is empty whenever the handler has returned and
RxDone is clear. -/
theorem rx_ring_drained (mem : Nat → Nat → UInt8) (s : RxState)
    (hrun : Reaches rxStep (fun s a => frameAnnounced s a = true) (rxInit mem) s) (hidle : s.pc.isIdle = true)
    (hdone : s.hw.rxDone = false) : s.hw.rxConsumeIndex = s.hw.rxProduceIndex := by
  have hinv : RxRing s ∧ Accounted s :=
    hrun.invariant (fun s => RxRing s ∧ Accounted s) ⟨RxRing.init mem, accounted_init mem⟩
      fun s a s' h hok hs => ⟨h.1.step (rxStep_sound hs), accounted_step h.1 h.2 hok (rxStep_sound hs)⟩
  obtain ⟨hring, hacc⟩ := hinv
  have hcount := hacc.count
  have hheld : held s.pc = 0 := by
    cases hpc : s.pc with
    | idle => rfl
    | _ => simp [hpc, RxPc.isIdle] at hidle
  rw [hdone, hheld] at hcount
  exact hring.index_eq_iff.mpr hcount

/-- A frame of 64 bytes as it stands in memory, and a pool without memory for it. -/
def someFrame : RxFrame := ⟨emacRinfoLastFlag ||| 63, List.replicate 64 0⟩
def emptyPool : RxOracle := ⟨fun _ => none, false⟩

/-- The handler from its entry to its return, when it finds one frame. -/
def handlerRun : List RxAct := .enter :: List.replicate 8 (.cpu emptyPool)

/-- A run that meets the condition: a frame, the handler, another frame while it runs, and the handler's second turn. -/
def quietRun : List RxAct :=
  .frame someFrame :: .enter :: .cpu emptyPool :: .cpu emptyPool :: .frame someFrame :: List.replicate 13 (.cpu emptyPool)

/-- The theorem at this run. -/
theorem rx_ring_drained_quietRun :
    ∃ s, Reaches rxStep (fun s a => frameAnnounced s a = true) (rxInit fun _ _ => 0) s ∧
      s.arrived = [someFrame, someFrame] ∧ s.hw.rxConsumeIndex = s.hw.rxProduceIndex := by
  obtain ⟨s, hs, hp⟩ := exists_reaches_of_exec rxStep frameAnnounced (rxInit fun _ _ => 0) quietRun
    (fun s => s.pc.isIdle && !s.hw.rxDone && decide (s.arrived = [someFrame, someFrame]))
    (by decide +kernel)
  simp only [Bool.and_eq_true, Bool.not_eq_true', decide_eq_true_eq] at hp
  exact ⟨s, hs, hp.2, rx_ring_drained _ s hs hp.1.1 hp.1.2⟩

/-- Two frames that are completed before the interrupt is taken: the handler releases one, returns, and leaves the other with no
interrupt for it. -/
theorem rx_frame_left_behind :
    ¬ ∀ (mem : Nat → Nat → UInt8) (s : RxState), Reaches rxStep (AnyStep _ _) (rxInit mem) s → s.pc.isIdle = true →
      s.hw.rxDone = false → s.hw.rxConsumeIndex = s.hw.rxProduceIndex := by
  intro h
  obtain ⟨s, hs, hp⟩ := exists_reaches_of_exec rxStep (fun _ _ => true) (rxInit fun _ _ => 0)
    (.frame someFrame :: .frame someFrame :: handlerRun)
    (fun s => s.pc.isIdle && !s.hw.rxDone && s.hw.rxConsumeIndex != s.hw.rxProduceIndex) (by decide +kernel)
  simp only [Bool.and_eq_true, Bool.not_eq_true', bne_iff_ne] at hp
  exact hp.2 (h _ s (hs.mono fun _ _ _ => trivial) hp.1.1 hp.1.2)

end SaymaFirmware
