import SaymaFirmware.Lib.Flags
import SaymaFirmware.RxPath

/-!
# The receive ring over whole runs

`RxStep` is every step the receive half can make, with what is known when it is made. `RxRing` relates the two indices to how many
frames have got a descriptor and how many descriptors have been released; every run keeps it.
-/

namespace SaymaFirmware

/-! ## What a step can be -/

/-- The steps of the receive half. -/
inductive RxStep (s : RxState) : RxAct → RxState → Prop where
  | lost (f : RxFrame) (hfull : s.hw.full = true) :
    RxStep s (.frame f) { s with hw := { s.hw with intStatus := s.hw.intStatus ||| emacIntRxDone } }
  | stored (f : RxFrame) (hfull : s.hw.full = false) :
    RxStep s (.frame f) { s with
      hw := { s.hw with
        intStatus := s.hw.intStatus ||| emacIntRxDone
        rxProduceIndex := rxNext s.hw.rxProduceIndex
        slots := Function.update s.hw.slots s.hw.rxProduceIndex.toNat
          ((s.hw.slots s.hw.rxProduceIndex.toNat).store f) }
      arrived := s.arrived ++ [f] }
  | event (bits : UInt32) (hbits : bits &&& emacIntRxDone = 0) :
    RxStep s (.event bits) { s with hw := { s.hw with intStatus := s.hw.intStatus ||| bits } }
  | mask (b : Bool) : RxStep s (.mask b) { s with masked := b }
  | enter (hpc : s.pc = .idle) : RxStep s .enter { s with pc := .test }
  | pending (o : RxOracle) (hpc : s.pc = .test) : RxStep s (.cpu o) { s with pc := .clear s.hw.intStatus }
  | leave (o : RxOracle) (hpc : s.pc = .test) : RxStep s (.cpu o) { s with pc := .idle }
  | clear (o : RxOracle) (cause : UInt32) (hpc : s.pc = .clear cause) :
    RxStep s (.cpu o) { s with hw := { s.hw with intStatus := s.hw.intStatus &&& ~~~cause }, pc := .underrun cause }
  | underrun (o : RxOracle) (cause command : UInt32) (hpc : s.pc = .underrun cause) :
    RxStep s (.cpu o) { s with hw := { s.hw with command := command }, pc := .check cause }
  | found (o : RxOracle) (cause : UInt32) (hpc : s.pc = .check cause) (hcause : cause &&& emacIntRxDone ≠ 0)
    (hindex : s.hw.emacCheckReceiveIndex = true) : RxStep s (.cpu o) { s with pc := .status }
  | nothing (o : RxOracle) (cause : UInt32) (hpc : s.pc = .check cause)
    (h : cause &&& emacIntRxDone = 0 ∨ s.hw.emacCheckReceiveIndex = false) : RxStep s (.cpu o) { s with pc := .test }
  | last (o : RxOracle) (hpc : s.pc = .status) (hlast : s.hw.emacCheckReceiveDataStatus emacRinfoLastFlag = true) :
    RxStep s (.cpu o) { s with pc := .lowLevelInput }
  | fragment (o : RxOracle) (hpc : s.pc = .status)
    (hlast : s.hw.emacCheckReceiveDataStatus emacRinfoLastFlag = false) : RxStep s (.cpu o) { s with pc := .release }
  | allocated (o : RxOracle) (ev : List RxEvent) (pkt : Packet) (hpc : s.pc = .lowLevelInput)
    (h : prvLowLevelInput s.hw o s.pbufs = (ev, some pkt)) :
    RxStep s (.cpu o)
      { s with pc := .deliver s.pbufs pkt, asked := s.asked ++ [o], pbufs := s.pbufs + 1, trace := s.trace ++ ev }
  | refused (o : RxOracle) (ev : List RxEvent) (hpc : s.pc = .lowLevelInput)
    (h : prvLowLevelInput s.hw o s.pbufs = (ev, none)) :
    RxStep s (.cpu o) { s with pc := .release, asked := s.asked ++ [o], trace := s.trace ++ ev }
  | delivered (o : RxOracle) (p : Nat) (pkt : Packet) (hpc : s.pc = .deliver p pkt) :
    RxStep s (.cpu o) { s with pc := .release, offered := s.offered ++ [o], trace := s.trace ++ deliver o p pkt }
  | released (o : RxOracle) (hpc : s.pc = .release) :
    RxStep s (.cpu o) { s with hw := s.hw.emacUpdateRxConsumeIndex, pc := .test, trace := s.trace ++ [.release] }

/-- Every step of the handler is one of them. -/
theorem rxStep_of_cpu {s s' : RxState} {o : RxOracle} (h : s.cpu o = some s') : RxStep s (.cpu o) s' := by
  cases hpc : s.pc with
  | idle => simp [RxState.cpu, hpc] at h
  | test =>
    simp only [RxState.cpu, hpc] at h
    obtain rfl := Option.some.inj h
    split
    · exact .pending o hpc
    · exact .leave o hpc
  | clear cause =>
    simp only [RxState.cpu, hpc] at h
    obtain rfl := Option.some.inj h
    exact .clear o cause hpc
  | underrun cause =>
    simp only [RxState.cpu, hpc] at h
    obtain rfl := Option.some.inj h
    exact .underrun o cause _ hpc
  | check cause =>
    simp only [RxState.cpu, hpc] at h
    obtain rfl := Option.some.inj h
    split
    · rename_i hc; exact .found o cause hpc hc.1 hc.2
    · rename_i hc
      refine .nothing o cause hpc ?_
      by_cases hz : cause &&& emacIntRxDone = 0
      · exact Or.inl hz
      · exact Or.inr (by simpa [hz] using hc)
  | status =>
    simp only [RxState.cpu, hpc] at h
    obtain rfl := Option.some.inj h
    split
    · rename_i hl; exact .last o hpc hl
    · rename_i hl; exact .fragment o hpc (by simpa using hl)
  | lowLevelInput =>
    simp only [RxState.cpu, hpc] at h
    split at h
    · rename_i ev pkt he
      obtain rfl := Option.some.inj h
      exact .allocated o ev pkt hpc he
    · rename_i ev he
      obtain rfl := Option.some.inj h
      exact .refused o ev hpc he
  | deliver p pkt =>
    simp only [RxState.cpu, hpc] at h
    obtain rfl := Option.some.inj h
    exact .delivered o p pkt hpc
  | release =>
    simp only [RxState.cpu, hpc] at h
    obtain rfl := Option.some.inj h
    exact .released o hpc

/-- Every step is one of them. -/
theorem rxStep_sound {s s' : RxState} {a : RxAct} (h : rxStep s a = some s') : RxStep s a s' := by
  cases a with
  | frame f =>
    obtain rfl := Option.some.inj h
    unfold RxState.complete
    cases hf : s.hw.full with
    | true => exact .lost f hf
    | false => exact .stored f hf
  | event bits =>
    simp only [rxStep] at h
    split at h
    · rename_i hb; obtain rfl := Option.some.inj h; exact .event bits hb
    · nomatch h
  | mask b =>
    simp only [rxStep] at h
    split at h
    · obtain rfl := Option.some.inj h; exact .mask b
    · nomatch h
  | enter =>
    simp only [rxStep] at h
    split at h
    · rename_i hpc
      split at h
      · obtain rfl := Option.some.inj h; exact .enter hpc
      · nomatch h
    · nomatch h
  | cpu o => exact rxStep_of_cpu h

/-- The handler's steps from the test of the LAST flag to the release of the descriptor add the events of `serviceFrame`. -/
theorem exec_serviceFrame (s : RxState) (o : RxOracle) (hpc : s.pc = .status) :
    ∃ n s', exec rxStep (fun _ _ => true) s (List.replicate n (.cpu o)) = some s' ∧ s'.pc = .release ∧ s'.hw = s.hw ∧
      s'.trace = s.trace ++ serviceFrame s.hw o s.pbufs := by
  unfold serviceFrame
  cases hlast : s.hw.emacCheckReceiveDataStatus emacRinfoLastFlag with
  | false =>
    refine ⟨1, { s with pc := .release }, ?_, rfl, rfl, (List.append_nil _).symm⟩
    simp [exec, rxStep, RxState.cpu, hpc, hlast]
  | true =>
    rcases hin : prvLowLevelInput s.hw o s.pbufs with ⟨ev, _ | pkt⟩
    · refine ⟨2, { s with pc := .release, asked := s.asked ++ [o], trace := s.trace ++ ev }, ?_, rfl, rfl, rfl⟩
      simp [exec, rxStep, RxState.cpu, hpc, hlast, hin]
    · refine ⟨3, { s with
          pc := .release
          asked := s.asked ++ [o]
          offered := s.offered ++ [o]
          pbufs := s.pbufs + 1
          trace := s.trace ++ ev ++ deliver o s.pbufs pkt }, ?_, rfl, rfl, by simp⟩
      simp [exec, rxStep, RxState.cpu, hpc, hlast, hin]

/-! ## The ring -/

/-- How many descriptors have been released. -/
def releases (tr : List RxEvent) : Nat := tr.countP fun | .release => true | _ => false

@[simp] theorem releases_append (tr tr' : List RxEvent) : releases (tr ++ tr') = releases tr + releases tr' :=
  List.countP_append

@[simp] theorem releases_alloc (m : UInt32) (length : UInt16) (p : Option Nat) : releases [.alloc m length p] = 0 := rfl

@[simp] theorem releases_release : releases [.release] = 1 := rfl

theorem releases_prvLowLevelInput {h : RxHw} {o : RxOracle} {p : Nat} {ev : List RxEvent} {pkt : Option Packet}
    (he : prvLowLevelInput h o p = (ev, pkt)) : releases ev = 0 := by
  have hz : releases (prvLowLevelInput h o p).1 = 0 := by
    unfold prvLowLevelInput
    split
    · split <;> rfl
    · rfl
  rwa [he] at hz

@[simp] theorem releases_deliver (o : RxOracle) (p : Nat) (pkt : Packet) : releases (deliver o p pkt) = 0 := by
  unfold deliver
  split
  · split <;> rfl
  · rfl

/-- The handler is at work on the frame at `RxConsumeIndex`. -/
def RxPc.inService : RxPc → Bool
  | .status | .lowLevelInput | .deliver _ _ | .release => true
  | _ => false

/-- The handler has returned. -/
def RxPc.isIdle : RxPc → Bool
  | .idle => true
  | _ => false

/-- The indices are the two counters modulo the number of descriptors, and the counters are less than a ring apart. While the
handler is at work on a frame there is one. -/
structure RxRing (s : RxState) : Prop where
  produce : s.hw.rxProduceIndex.toNat = s.arrived.length % 3
  consume : s.hw.rxConsumeIndex.toNat = releases s.trace % 3
  le : releases s.trace ≤ s.arrived.length
  room : s.arrived.length < releases s.trace + 3
  busy : s.pc.inService = true → releases s.trace < s.arrived.length

/-- `++idx` with its wrap counts one more. -/
theorem rxNext_toNat {idx : UInt32} {k : Nat} (h : idx.toNat = k % 3) : (rxNext idx).toNat = (k + 1) % 3 :=
  Ring.nextWord_toNat (by decide) h

namespace RxRing

variable {s s' : RxState} {a : RxAct}

/-- The indices agree exactly when every frame has been released. -/
theorem index_eq_iff (h : RxRing s) :
    s.hw.rxConsumeIndex = s.hw.rxProduceIndex ↔ s.arrived.length = releases s.trace := by
  rw [← UInt32.toNat_inj, h.consume, h.produce, eq_comm]
  exact Ring.mod_eq_iff h.le h.room

/-- The ring is full exactly when two frames wait in it. -/
theorem full_iff (h : RxRing s) : s.hw.full = true ↔ s.arrived.length = releases s.trace + 2 := by
  rw [RxHw.full, beq_iff_eq, ← UInt32.toNat_inj, rxNext_toNat h.produce, h.consume, ← Ring.next_mod (by decide : 0 < 3),
    Ring.next_eq_iff (by decide) h.le h.room]
  omega

theorem init (mem : Nat → Nat → UInt8) : RxRing (rxInit mem) :=
  ⟨rfl, rfl, Nat.le_refl _, by simp [rxInit], by simp [rxInit, RxPc.inService]⟩

theorem step (h : RxRing s) (hs : RxStep s a s') : RxRing s' := by
  cases hs with
  | stored f hfull =>
    have hnf : s.arrived.length ≠ releases s.trace + 2 := fun he => by simp [h.full_iff.mpr he] at hfull
    have hroom := h.room
    have hle := h.le
    refine ⟨?_, h.consume, ?_, ?_, ?_⟩
    · simpa using rxNext_toNat h.produce
    · simp only [List.length_append, List.length_singleton]; omega
    · simp only [List.length_append, List.length_singleton]; omega
    · intro hpc
      have := h.busy hpc
      simp only [List.length_append, List.length_singleton]; omega
  | released o hpc =>
    have hb := h.busy (by rw [hpc]; rfl)
    have hroom := h.room
    refine ⟨h.produce, ?_, ?_, ?_, fun hpc => by simp [RxPc.inService] at hpc⟩
    · simpa [RxHw.emacUpdateRxConsumeIndex] using rxNext_toNat h.consume
    · simp only [releases_append, releases_release]; omega
    · simp only [releases_append, releases_release]; omega
  | found o cause hpc hcause hindex =>
    refine ⟨h.produce, h.consume, h.le, h.room, ?_⟩
    intro _
    have hne : s.hw.rxConsumeIndex ≠ s.hw.rxProduceIndex := by simpa [RxHw.emacCheckReceiveIndex] using hindex
    have hne' := mt h.index_eq_iff.mpr hne
    have hle := h.le
    show releases s.trace < s.arrived.length
    omega
  | allocated o ev pkt hpc he =>
    have hev := releases_prvLowLevelInput he
    have hb := h.busy (by rw [hpc]; rfl)
    exact ⟨h.produce, by simpa [hev] using h.consume, by simpa [hev] using h.le, by simpa [hev] using h.room,
      fun _ => by simpa [hev] using hb⟩
  | refused o ev hpc he =>
    have hev := releases_prvLowLevelInput he
    have hb := h.busy (by rw [hpc]; rfl)
    exact ⟨h.produce, by simpa [hev] using h.consume, by simpa [hev] using h.le, by simpa [hev] using h.room,
      fun _ => by simpa [hev] using hb⟩
  | delivered o p pkt hpc =>
    have hb := h.busy (by rw [hpc]; rfl)
    exact ⟨h.produce, by simpa using h.consume, by simpa using h.le, by simpa using h.room, fun _ => by simpa using hb⟩
  | lost f hfull => exact ⟨h.produce, h.consume, h.le, h.room, h.busy⟩
  | event bits hbits => exact ⟨h.produce, h.consume, h.le, h.room, h.busy⟩
  | mask b => exact ⟨h.produce, h.consume, h.le, h.room, h.busy⟩
  | last o hpc hlast => exact ⟨h.produce, h.consume, h.le, h.room, fun _ => h.busy (by rw [hpc]; rfl)⟩
  | fragment o hpc hlast => exact ⟨h.produce, h.consume, h.le, h.room, fun _ => h.busy (by rw [hpc]; rfl)⟩
  | enter | pending | leave | clear | underrun | nothing =>
    exact ⟨h.produce, h.consume, h.le, h.room, fun hpc => by simp [RxPc.inService] at hpc⟩

end RxRing

end SaymaFirmware
