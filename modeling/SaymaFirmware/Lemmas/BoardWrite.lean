import SaymaFirmware.Board
import SaymaFirmware.Lemmas.Transfer

/-!
# What one call of `i2c_write` does to the devices

`Devices.attempts` says it without the driver: up to ten attempts, each latching the data bytes its fault lets through, until one
is acknowledged to the end. `board_write_dev` is the simulation: the driver of `I2c.lean`, run on the bus of `Board.lean`, does
exactly that. The later lemmas read it for the addresses that are written: a switch or the expander holds the byte as soon as one
attempt latches it, and a clock chip latches its table entry some number of times.
-/

namespace SaymaFirmware

/-! ## Faults -/

/-- An attempt acknowledged to the end latched every byte. -/
theorem Fault.latches_of_acks {f : Fault} {k : Nat} (h : f.acks (k + 1) = true) : f.latches k = true := by
  cases f with
  | data j l => simp only [Fault.acks, decide_eq_true_eq] at h; simp [Fault.latches]; omega
  | _ => simp_all [Fault.acks, Fault.latches]

/-- What is acknowledged up to a byte is acknowledged up to any earlier one. -/
theorem Fault.acks_mono {f : Fault} {m n : Nat} (hmn : m ≤ n) (h : f.acks n = true) : f.acks m = true := by
  cases f with
  | data j l => simp only [Fault.acks, decide_eq_true_eq] at h ⊢; omega
  | _ => simp_all [Fault.acks]

/-- Some of the first ten attempts latch the first data byte. A call makes attempts until one is acknowledged, and that one
latches it, so these are the calls whose byte arrives. -/
def latchedBy (faults : Nat → Fault) : Prop := ∃ a < i2cRetryCount, (faults a).latches 0 = true

instance (faults : Nat → Fault) : Decidable (latchedBy faults) := inferInstanceAs (Decidable (∃ a < _, _))

/-! ## A call without the driver -/

/-- The data bytes of one attempt, from byte `k` on, at the devices addressed: latched up to the fault. -/
def Devices.latchBytes (f : Fault) (ds : List Device) : Nat → List UInt8 → Devices → Devices
  | _, [], d => d
  | k, x :: xs, d =>
    if f.acks (k + 1) then Devices.latchBytes f ds (k + 1) xs (d.latchAll ds k x true)
    else if f.latches k then d.latchAll ds k x false else d

/-- The attempts of a call, `n` of them left and the next one number `a`. -/
def Devices.attempts (faults : Nat → Fault) (addr : UInt8) (buff : List UInt8) : Nat → Nat → Devices → Devices
  | 0, _, d => d
  | n + 1, a, d =>
    let d' := Devices.latchBytes (faults a) (d.reached addr) 0 buff d
    if d.reached addr ≠ [] ∧ (faults a).acks buff.length = true then d'
    else Devices.attempts faults addr buff n (a + 1) d'

/-- No device on the bus, nothing latched. -/
theorem latchBytes_nil (f : Fault) (k : Nat) (xs : List UInt8) (d : Devices) :
    Devices.latchBytes f [] k xs d = d := by
  induction xs generalizing k with
  | nil => rfl
  | cons x xs ih => simp only [Devices.latchBytes, Devices.latchAll, List.foldl_nil, ih, ite_self]

/-- An attempt that fails before its data bytes latches none. -/
theorem latchBytes_of_not (f : Fault) (ds : List Device) (xs : List UInt8) (d : Devices) (h : f.latches 0 = false) :
    Devices.latchBytes f ds 0 xs d = d := by
  cases xs with
  | nil => rfl
  | cons x xs =>
    have ha : f.acks 1 ≠ true := fun ha => by simp [Fault.latches_of_acks ha] at h
    simp [Devices.latchBytes, ha, h]

/-! ## The driver on the board -/

/-- Two boards that differ at most in their devices and in the phase of the bus. -/
def Board.SameCall (b b' : Board) : Prop := b'.attempt = b.attempt ∧ b'.call = b.call ∧ b'.issued = b.issued

theorem dataByte_of_acks {f : Fault} {k : Nat} (h : f.acks (k + 1) = true) (ds : List Device) (x : UInt8) (b : Board) :
    b.dataByte f ds k x =
      (i2statTxDatAck, { b with dev := b.dev.latchAll ds k x true, phase := .addressed ds (k + 1) }) := by
  simp [Board.dataByte, h]

theorem dataByte_of_not {f : Fault} {k : Nat} (h : f.acks (k + 1) = false) (ds : List Device) (x : UInt8) (b : Board) :
    b.dataByte f ds k x =
      (i2statTxDatNack, { b with dev := if f.latches k then b.dev.latchAll ds k x false else b.dev }) := by
  by_cases hl : f.latches k = true <;> simp [Board.dataByte, h, hl]

/-- The loop over the data bytes, on a bus that has addressed `ds` and acknowledged `k` bytes. -/
theorem sendLoop_board (faults : Nat → Fault) (ds : List Device) (xs : List UInt8) :
    ∀ (k : Nat) (b : Board), b.phase = .addressed ds k → (faults b.attempt).acks k = true →
      ∃ n r b', i2cSendLoop (boardPeripheral faults) xs b = (n, r, b') ∧ b.SameCall b' ∧
        r.isNone = (faults b.attempt).acks (k + xs.length) ∧
        b'.dev = Devices.latchBytes (faults b.attempt) ds k xs b.dev := by
  induction xs with
  | nil => intro k b _ hk; exact ⟨0, none, b, rfl, ⟨rfl, rfl, rfl⟩, by simp [hk], rfl⟩
  | cons x xs ih =>
    intro k b hb hk
    have hs : (boardPeripheral faults).sendByte x b = b.dataByte (faults b.attempt) ds k x := by
      simp only [boardPeripheral, hb]
    cases hack : (faults b.attempt).acks (k + 1) with
    | true =>
      obtain ⟨n, r, b', he, hsame, hr, hd⟩ :=
        ih (k + 1) { b with dev := b.dev.latchAll ds k x true, phase := .addressed ds (k + 1) } rfl hack
      refine ⟨n + 1, r, b', ?_, hsame, ?_, ?_⟩
      · simp only [i2cSendLoop, i2cSendByte, hs, dataByte_of_acks hack]
        rw [if_neg (by decide), he]
      · rw [hr, List.length_cons, Nat.add_right_comm, Nat.add_assoc]
      · rw [hd, Devices.latchBytes, if_pos hack]
    | false =>
      have hlen : (faults b.attempt).acks (k + (x :: xs).length) = false := by
        rw [Bool.eq_false_iff]
        intro h
        have := Fault.acks_mono (m := k + 1) (by simp only [List.length_cons]; omega) h
        simp [hack] at this
      refine ⟨0, some i2statTxDatNack,
        { b with dev := if (faults b.attempt).latches k then b.dev.latchAll ds k x false else b.dev },
        ?_, ⟨rfl, rfl, rfl⟩, by rw [hlen]; rfl, ?_⟩
      · simp only [i2cSendLoop, i2cSendByte, hs, dataByte_of_not hack]
        rw [if_pos (by decide)]
        rfl
      · simp [Devices.latchBytes, hack]

/-- The setup of `i2c_write`, at any attempt: it sends `buff` to `addr`, receives nothing, and may not retransmit. -/
def I2cSetup.Sends (x : I2cSetup) (addr : UInt8) (buff : List UInt8) : Prop :=
  x.slAddr7bit = addr ∧ x.txData = some buff ∧ x.txLength = buff.length ∧ x.rxData = none ∧ x.rxLength = 0 ∧
    x.retransmissionsMax = 0

/-- An attempt that meets a fault before its first data byte, or no device, latches nothing and is not acknowledged. -/
theorem attempt_refused {f : Fault} {ds : List Device} (h : f = .start ∨ f = .address ∨ ds = []) (buff : List UInt8)
    (d : Devices) : ¬ (ds ≠ [] ∧ f.acks buff.length = true) ∧ d = Devices.latchBytes f ds 0 buff d := by
  rcases h with rfl | rfl | rfl
  · exact ⟨by simp [Fault.acks], (latchBytes_of_not _ _ _ _ rfl).symm⟩
  · exact ⟨by simp [Fault.acks], (latchBytes_of_not _ _ _ _ rfl).symm⟩
  · exact ⟨by simp, (latchBytes_nil _ _ _ _).symm⟩

/-- One attempt of a write on the board: it succeeds when a device is on the bus and the fault lets every byte through, and it
latches the bytes the fault lets through. -/
theorem pass_board (faults : Nat → Fault) {addr : UInt8} {buff : List UInt8} (haddr : (addr <<< 1) >>> 1 = addr)
    (hne : buff ≠ []) {x : I2cSetup} (hx : x.Sends addr buff) (b : Board) :
    ∃ r x' b', i2cPass (boardPeripheral faults) x b = (r, x', b') ∧ x'.Sends addr buff ∧ b.SameCall b' ∧
      (r = none ↔ b.dev.reached addr ≠ [] ∧ (faults b.attempt).acks buff.length = true) ∧
      b'.dev = Devices.latchBytes (faults b.attempt) (b.dev.reached addr) 0 buff b.dev := by
  obtain ⟨h1, h2, h3, h4, h5, h6⟩ := hx
  have hlen : buff.length ≠ 0 := by simpa using hne
  rw [pass_of_sends _ h4, startPhase_andThen]
  by_cases hstart : faults b.attempt = .start
  · -- no START: nothing is sent
    obtain ⟨hno, hd⟩ := attempt_refused (Or.inl hstart : _ ∨ _ ∨ b.dev.reached addr = []) buff b.dev
    have hs : i2cStart (boardPeripheral faults) b = (i2statArbLost, { b with phase := .idle }) := by
      simp only [i2cStart, boardPeripheral, if_pos hstart]
      rfl
    rw [hs]
    dsimp only
    rw [if_pos (by decide)]
    exact ⟨_, _, _, rfl, ⟨h1, h2, h3, h4, h5, h6⟩, ⟨rfl, rfl, rfl⟩, by simp only [reduceCtorEq, hno], hd⟩
  · have hs : i2cStart (boardPeripheral faults) b = (i2statStart, { b with phase := .started }) := by
      simp only [i2cStart, boardPeripheral, if_neg hstart]
      rfl
    have hsend : (boardPeripheral faults).sendByte (addr <<< 1) { b with phase := .started } =
        ({ b with phase := .started } : Board).addressByte (faults b.attempt) (addr <<< 1) := rfl
    rw [hs]
    dsimp only
    rw [if_neg (by decide)]
    simp only [i2cTxPhase, h2, h3, h1, if_neg hlen, i2cSendByte, hsend, Board.addressByte, haddr, List.take_length]
    by_cases hadr : faults b.attempt = .address ∨ b.dev.reached addr = []
    · -- the address is not acknowledged
      obtain ⟨hno, hd⟩ := attempt_refused (Or.inr hadr) buff b.dev
      rw [if_pos hadr]
      dsimp only
      rw [if_pos (by decide)]
      exact ⟨_, _, _, rfl, ⟨rfl, rfl, rfl, h4, h5, h6⟩, ⟨rfl, rfl, rfl⟩, by simp only [reduceCtorEq, hno], hd⟩
    · rw [if_neg hadr]
      dsimp only
      rw [if_neg (by decide)]
      obtain ⟨m, r, b', he, hsame, hr, hd⟩ := sendLoop_board faults (b.dev.reached addr) buff 0
        { b with phase := .addressed (b.dev.reached addr) 0 } rfl (by
          cases hf : faults b.attempt <;> simp_all [Fault.acks])
      rw [he]
      refine ⟨_, _, _, rfl, ⟨rfl, rfl, rfl, h4, h5, h6⟩, hsame, ?_, hd⟩
      rw [Nat.zero_add] at hr
      rw [not_or] at hadr
      cases r <;> simp_all

/-- So does `I2C_MasterTransferData`, which makes one pass and no retransmission, and then a STOP. -/
theorem transfer_board (faults : Nat → Fault) {addr : UInt8} {buff : List UInt8} (haddr : (addr <<< 1) >>> 1 = addr)
    (hne : buff ≠ []) {x : I2cSetup} (hx : x.Sends addr buff) (b : Board) :
    ∃ ok x' b', i2cMasterTransferData (boardPeripheral faults) x b = (ok, x', b') ∧ x'.Sends addr buff ∧
      (ok = true ↔ b.dev.reached addr ≠ [] ∧ (faults b.attempt).acks buff.length = true) ∧
      b'.dev = Devices.latchBytes (faults b.attempt) (b.dev.reached addr) 0 buff b.dev ∧
      b'.attempt = b.attempt + 1 ∧ b'.call = b.call ∧ b'.issued = b.issued := by
  obtain ⟨r, x', b', he, hx', ⟨ha, hc, hi⟩, hr, hd⟩ := pass_board faults haddr hne
    (x := { x with txCount := 0, rxCount := 0, status := 0, retransmissionsCount := 0 }) hx b
  obtain ⟨n, st, ht⟩ := transfer_of_pass (boardPeripheral faults) hx.2.2.2.2.2 he hx'.2.2.2.2.2
  rw [ht]
  refine ⟨_, _, _, rfl, hx', ?_, hd, congrArg (· + 1) ha, hc, hi⟩
  rw [← hr, Option.isNone_iff_eq_none]

/-- The loop of attempts on the board. -/
theorem attempts_board (faults : Nat → Fault) {addr : UInt8} {buff : List UInt8} (haddr : (addr <<< 1) >>> 1 = addr)
    (hne : buff ≠ []) (n : Nat) :
    ∀ {x : I2cSetup}, x.Sends addr buff → ∀ b : Board,
      (i2cAttempts (boardPeripheral faults) n x b).2.dev = Devices.attempts faults addr buff n b.attempt b.dev ∧
      (i2cAttempts (boardPeripheral faults) n x b).2.call = b.call ∧
      (i2cAttempts (boardPeripheral faults) n x b).2.issued = b.issued := by
  induction n with
  | zero => intro x _ b; exact ⟨rfl, rfl, rfl⟩
  | succ n ih =>
    intro x hx b
    obtain ⟨ok, x', b', he, hx', hok, hd, ha, hc, hi⟩ := transfer_board faults haddr hne hx b
    simp only [i2cAttempts, he, Devices.attempts]
    cases ok with
    | true =>
      rw [if_pos (hok.mp rfl)]
      exact ⟨hd, hc, hi⟩
    | false =>
      rw [if_neg (fun h => by simpa using hok.mpr h), ← hd, ← ha, ← hc, ← hi]
      exact ih hx' b'

/-- A call of `i2c_write` on the board: the devices see its attempts, and the call is counted with the masks it was issued at. -/
theorem board_write (bus : BusBehaviour) (addr : UInt8) (buff : List UInt8) (haddr : (addr <<< 1) >>> 1 = addr)
    (hne : buff ≠ []) (hlen : buff.length < 256) (b : Board) :
    (Board.write bus addr buff b).dev = Devices.attempts (bus b.call) addr buff i2cRetryCount 0 b.dev ∧
    (Board.write bus addr buff b).call = b.call + 1 ∧
    (Board.write bus addr buff b).issued = b.issued ++ [⟨addr, b.dev.tca, b.dev.tcaRtm⟩] := by
  have hl : (UInt8.ofNat buff.length).toNat = buff.length := by
    rw [UInt8.toNat_ofNat', Nat.mod_eq_of_lt hlen]
  obtain ⟨hd, -, hi⟩ := attempts_board (bus b.call) haddr hne i2cRetryCount
    (x := { slAddr7bit := addr, txData := some buff, txLength := (UInt8.ofNat buff.length).toNat, rxLength := 0 })
    ⟨rfl, rfl, hl, rfl, rfl, rfl⟩
    { b with attempt := 0, issued := b.issued ++ [⟨addr, b.dev.tca, b.dev.tcaRtm⟩] }
  exact ⟨hd, rfl, hi⟩

/-! ## Devices that hold one byte -/

/-- Attempts to write a byte that the devices hold already change nothing. -/
theorem attempts_fixed (faults : Nat → Fault) {addr x : UInt8} {d : Devices}
    (hfix : ∀ acked, d.latchAll (d.reached addr) 0 x acked = d) (n : Nat) :
    ∀ a, Devices.attempts faults addr [x] n a d = d := by
  have hone : ∀ f, Devices.latchBytes f (d.reached addr) 0 [x] d = d := by
    intro f
    simp only [Devices.latchBytes, hfix, ite_self]
  induction n with
  | zero => intro a; rfl
  | succ n ih =>
    intro a
    simp only [Devices.attempts, hone, ih, ite_self]

/-- A write of one byte to devices that latch it and stay on the bus: they hold it when some attempt latches it, else nothing
has changed. -/
theorem attempts_byte (faults : Nat → Fault) {addr x : UInt8} {d : Devices} (d' : Devices)
    (hset : ∀ acked, d.latchAll (d.reached addr) 0 x acked = d')
    (hfix : ∀ acked, d'.latchAll (d'.reached addr) 0 x acked = d') (n : Nat) :
    ∀ a, Devices.attempts faults addr [x] n a d =
      if ∃ i < n, (faults (a + i)).latches 0 = true then d' else d := by
  induction n with
  | zero => intro a; simp [Devices.attempts]
  | succ n ih =>
    intro a
    have hsplit : (∃ i < n + 1, (faults (a + i)).latches 0 = true) ↔
        (faults a).latches 0 = true ∨ ∃ i < n, (faults (a + 1 + i)).latches 0 = true := by
      rw [Nat.exists_lt_succ_left]
      simp only [Nat.add_zero, Nat.add_assoc, Nat.add_comm 1]
    cases hl : (faults a).latches 0 with
    | true =>
      have hd : Devices.latchBytes (faults a) (d.reached addr) 0 [x] d = d' := by
        simp only [Devices.latchBytes, hset, hl, if_true, ite_self]
      rw [if_pos (hsplit.mpr (Or.inl hl))]
      simp only [Devices.attempts, hd, attempts_fixed faults hfix, ite_self]
    | false =>
      have hna : ¬ (d.reached addr ≠ [] ∧ (faults a).acks [x].length = true) := by
        rintro ⟨-, h⟩
        simp [Fault.latches_of_acks (k := 0) h] at hl
      simp only [Devices.attempts, latchBytes_of_not _ _ _ _ hl, if_neg hna, ih]
      simp only [hsplit, hl, Bool.false_eq_true, false_or]

/-- A write to an address that no device on the bus has changes nothing. -/
theorem attempts_unreached (faults : Nat → Fault) {addr : UInt8} {buff : List UInt8} {d : Devices}
    (hoff : d.reached addr = []) (n : Nat) : ∀ a, Devices.attempts faults addr buff n a d = d := by
  induction n with
  | zero => intro a; rfl
  | succ n ih =>
    intro a
    simp only [Devices.attempts, hoff, latchBytes_nil, ne_eq, not_true_eq_false, false_and, if_false, ih]

theorem reached_tca (d : Devices) : d.reached tcaAddr = [.tca] := by
  simp [Devices.reached, tcaAddr, tcaRtmAddr, iicSlaveAddr, ioExpanderAddr]

theorem reached_tcaRtm (d : Devices) : d.reached tcaRtmAddr = if d.rtmOn then [.tcaRtm] else [] := by
  simp [Devices.reached, tcaAddr, tcaRtmAddr, iicSlaveAddr, ioExpanderAddr]

theorem reached_clock (d : Devices) : d.reached iicSlaveAddr =
    (if d.amcOn then [.amcClock] else []) ++ (if d.rtmOn ∧ connects d.tcaRtm 5 then [.rtmClock] else []) := by
  simp [Devices.reached, tcaAddr, tcaRtmAddr, iicSlaveAddr, ioExpanderAddr]

theorem reached_ioExpander (d : Devices) : d.reached ioExpanderAddr = if d.rtmOn then [.ioExpander] else [] := by
  simp [Devices.reached, tcaAddr, tcaRtmAddr, iicSlaveAddr, ioExpanderAddr]

/-- The AMC's switch takes a mask when some attempt latches it. -/
theorem tca_attempts (faults : Nat → Fault) (x : UInt8) (d : Devices) :
    Devices.attempts faults tcaAddr [x] i2cRetryCount 0 d = if latchedBy faults then { d with tca := x } else d := by
  rw [attempts_byte faults { d with tca := x } (by simp [reached_tca, Devices.latchAll, Devices.latch])
    (by simp [reached_tca, Devices.latchAll, Devices.latch])]
  exact if_congr (by simp only [latchedBy, Nat.zero_add]) rfl rfl

/-- So does the RTM's switch, when the RTM segment is on the bus. -/
theorem tcaRtm_attempts (faults : Nat → Fault) (x : UInt8) (d : Devices) :
    Devices.attempts faults tcaRtmAddr [x] i2cRetryCount 0 d =
      if d.rtmOn = true ∧ latchedBy faults then { d with tcaRtm := x } else d := by
  cases hon : d.rtmOn with
  | false => rw [attempts_unreached faults (by rw [reached_tcaRtm, hon]; rfl)]; simp
  | true =>
    have hon' : ({ d with tcaRtm := x } : Devices).rtmOn = true := hon
    rw [attempts_byte faults { d with tcaRtm := x }
      (by simp [reached_tcaRtm, hon, Devices.latchAll, Devices.latch])
      (by simp [reached_tcaRtm, hon', Devices.latchAll, Devices.latch])]
    exact if_congr (by simp only [latchedBy, Nat.zero_add, true_and]) rfl rfl

/-- And the IO expander. -/
theorem ioExpander_attempts (faults : Nat → Fault) (x : UInt8) (d : Devices) :
    Devices.attempts faults ioExpanderAddr [x] i2cRetryCount 0 d =
      if d.rtmOn = true ∧ latchedBy faults then { d with expander := some x } else d := by
  cases hon : d.rtmOn with
  | false => rw [attempts_unreached faults (by rw [reached_ioExpander, hon]; rfl)]; simp
  | true =>
    have hon' : ({ d with expander := some x } : Devices).rtmOn = true := hon
    rw [attempts_byte faults { d with expander := some x }
      (by simp [reached_ioExpander, hon, Devices.latchAll, Devices.latch])
      (by simp [reached_ioExpander, hon', Devices.latchAll, Devices.latch])]
    exact if_congr (by simp only [latchedBy, Nat.zero_add, true_and]) rfl rfl

/-! ## The clock chips -/

/-- The register writes a clock chip has latched. -/
def ClockChip.entries (c : ClockChip) : List SI324Info := c.writes.map RegWrite.entry

/-- The RTM's clock chip is on the bus. -/
def Devices.rtmClockOn (d : Devices) : Bool := d.rtmOn && connects d.tcaRtm 5

/-- From `d` to `d'` every clock chip on the bus latches the register writes `m`, and no other device changes. -/
structure ClockWrites (m : List SI324Info) (d d' : Devices) : Prop where
  tca : d'.tca = d.tca
  tcaRtm : d'.tcaRtm = d.tcaRtm
  expander : d'.expander = d.expander
  amc : d'.amc.entries = d.amc.entries ++ (if d.amcOn then m else [])
  rtm : d'.rtm.entries = d.rtm.entries ++ (if d.rtmClockOn then m else [])

namespace ClockWrites

theorem refl (d : Devices) : ClockWrites [] d d := ⟨rfl, rfl, rfl, by simp, by simp⟩

variable {m m' : List SI324Info} {d d' d'' : Devices}

/-- The switches are left alone, so the same devices stay on the bus. -/
theorem amcOn (h : ClockWrites m d d') : d'.amcOn = d.amcOn := by
  simp only [Devices.amcOn, h.tca]

theorem rtmClockOn (h : ClockWrites m d d') : d'.rtmClockOn = d.rtmClockOn := by
  simp only [Devices.rtmClockOn, Devices.rtmOn, h.tca, h.tcaRtm]

theorem trans (h : ClockWrites m d d') (h' : ClockWrites m' d' d'') : ClockWrites (m ++ m') d d'' where
  tca := h'.tca.trans h.tca
  tcaRtm := h'.tcaRtm.trans h.tcaRtm
  expander := h'.expander.trans h.expander
  amc := by
    rw [h'.amc, h.amc, h.amcOn]
    cases d.amcOn <;> simp
  rtm := by
    rw [h'.rtm, h.rtm, h.rtmClockOn]
    cases d.rtmClockOn <;> simp

end ClockWrites

/-- From `d` to `d'` every clock chip on the bus latches the register writes `ws`, acknowledged as they say, and no other device
changes. -/
structure ClockLatches (ws : List RegWrite) (d d' : Devices) : Prop extends ClockWrites (ws.map RegWrite.entry) d d' where
  amcWrites : d'.amc.writes = d.amc.writes ++ (if d.amcOn then ws else [])
  rtmWrites : d'.rtm.writes = d.rtm.writes ++ (if d.rtmClockOn then ws else [])

namespace ClockLatches

theorem refl (d : Devices) : ClockLatches [] d d := ⟨ClockWrites.refl d, by simp, by simp⟩

theorem trans {ws ws' : List RegWrite} {d d' d'' : Devices} (h : ClockLatches ws d d') (h' : ClockLatches ws' d' d'') :
    ClockLatches (ws ++ ws') d d'' where
  toClockWrites := by
    rw [List.map_append]
    exact h.toClockWrites.trans h'.toClockWrites
  amcWrites := by
    rw [h'.amcWrites, h.amcWrites, h.toClockWrites.amcOn]
    cases d.amcOn <;> simp
  rtmWrites := by
    rw [h'.rtmWrites, h.rtmWrites, h.toClockWrites.rtmClockOn]
    cases d.rtmClockOn <;> simp

end ClockLatches

/-- One attempt to write a table entry latches both bytes, only the register number, or nothing. -/
theorem latchBytes_entry (f : Fault) (ds : List Device) (e : SI324Info) (d : Devices) :
    (Devices.latchBytes f ds 0 e.bytes d = (d.latchAll ds 0 e.regIndex true).latchAll ds 1 e.value (f.acks 2)) ∨
    (f.acks 2 = false ∧ ∃ acked, Devices.latchBytes f ds 0 e.bytes d = d.latchAll ds 0 e.regIndex acked) ∨
    (f.acks 2 = false ∧ Devices.latchBytes f ds 0 e.bytes d = d) := by
  cases h1 : f.acks 1 with
  | true =>
    cases h2 : f.acks 2 with
    | true => exact Or.inl (by simp [Devices.latchBytes, SI324Info.bytes, h1, h2])
    | false =>
      cases hl : f.latches 1 with
      | true => exact Or.inl (by simp [Devices.latchBytes, SI324Info.bytes, h1, h2, hl])
      | false => exact Or.inr (Or.inl ⟨rfl, true, by simp [Devices.latchBytes, SI324Info.bytes, h1, h2, hl]⟩)
  | false =>
    have h2 : f.acks 2 = false := by
      cases h2 : f.acks 2 with
      | false => rfl
      | true => rw [Fault.acks_mono (by decide : 1 ≤ 2) h2] at h1; exact h1
    cases hl : f.latches 0 with
    | true => exact Or.inr (Or.inl ⟨h2, false, by simp [Devices.latchBytes, SI324Info.bytes, h1, hl]⟩)
    | false => exact Or.inr (Or.inr ⟨h2, by simp [Devices.latchBytes, SI324Info.bytes, h1, hl]⟩)

/-- A register number alone is no register write. -/
theorem clockLatches_register (r : UInt8) (acked : Bool) (d : Devices) :
    ClockLatches [] d (d.latchAll (d.reached iicSlaveAddr) 0 r acked) := by
  rw [reached_clock]
  refine ⟨⟨?_, ?_, ?_, ?_, ?_⟩, ?_, ?_⟩ <;> cases d.amcOn <;> by_cases hr : d.rtmOn = true ∧ connects d.tcaRtm 5 = true <;>
    simp [hr, Devices.latchAll, Devices.latch, ClockChip.latch, ClockChip.entries]

/-- A register number and a value are. -/
theorem clockLatches_entry (e : SI324Info) (acked : Bool) (d : Devices) :
    ClockLatches [⟨e, acked⟩] d ((d.latchAll (d.reached iicSlaveAddr) 0 e.regIndex true).latchAll (d.reached iicSlaveAddr) 1
      e.value acked) := by
  rw [reached_clock]
  refine ⟨⟨?_, ?_, ?_, ?_, ?_⟩, ?_, ?_⟩ <;> cases d.amcOn <;> by_cases hr : d.rtmOn = true ∧ connects d.tcaRtm 5 = true <;>
    simp [hr, Devices.latchAll, Devices.latch, ClockChip.latch, ClockChip.entries, Devices.rtmClockOn]

/-- Register writes of one entry, and one of them acknowledged exactly when `acked`. -/
structure WritesOf (e : SI324Info) (acked : Prop) (ws : List RegWrite) : Prop where
  entry : ∀ w ∈ ws, w.entry = e
  acked : ⟨e, true⟩ ∈ ws ↔ acked

/-- One attempt to write a table entry: the chips on the bus latch it once or not at all, and an acknowledged write when the attempt
is acknowledged. -/
theorem clock_latchBytes (f : Fault) (e : SI324Info) (d : Devices) :
    ∃ ws, ClockLatches ws d (Devices.latchBytes f (d.reached iicSlaveAddr) 0 e.bytes d) ∧ WritesOf e (f.acks 2 = true) ws := by
  rcases latchBytes_entry f (d.reached iicSlaveAddr) e d with h | ⟨hf, acked, h⟩ | ⟨hf, h⟩
  · refine ⟨[⟨e, f.acks 2⟩], by rw [h]; exact clockLatches_entry e _ d, by simp, ?_⟩
    cases f.acks 2 <;> simp
  · exact ⟨[], by rw [h]; exact clockLatches_register e.regIndex acked d, by simp, by simp [hf]⟩
  · exact ⟨[], by rw [h]; exact ClockLatches.refl d, by simp, by simp [hf]⟩

/-- A call that writes a table entry: the chips on the bus latch it some number of times, and an acknowledged write when some attempt
is acknowledged. -/
theorem clock_attempts (faults : Nat → Fault) (e : SI324Info) (n : Nat) :
    ∀ (a : Nat) (d : Devices), ∃ ws,
      ClockLatches ws d (Devices.attempts faults iicSlaveAddr e.bytes n a d) ∧
      WritesOf e (∃ i < n, (faults (a + i)).acks 2 = true) ws := by
  induction n with
  | zero => intro a d; exact ⟨[], ClockLatches.refl d, by simp, by simp⟩
  | succ n ih =>
    intro a d
    obtain ⟨ws, hws, hof⟩ := clock_latchBytes (faults a) e d
    have hsplit : (∃ i < n + 1, (faults (a + i)).acks 2 = true) ↔
        (faults a).acks 2 = true ∨ ∃ i < n, (faults (a + 1 + i)).acks 2 = true := by
      rw [Nat.exists_lt_succ_left]
      simp only [Nat.add_zero, Nat.add_assoc, Nat.add_comm 1]
    simp only [Devices.attempts]
    split
    · rename_i h
      exact ⟨ws, hws, hof.entry, hof.acked.trans ⟨fun ha => hsplit.mpr (Or.inl ha), fun _ => h.2⟩⟩
    · obtain ⟨ws', hws', hof'⟩ := ih (a + 1) (Devices.latchBytes (faults a) (d.reached iicSlaveAddr) 0 e.bytes d)
      refine ⟨ws ++ ws', hws.trans hws', ?_, ?_⟩
      · intro w hw
        exact (List.mem_append.mp hw).elim (hof.entry w) (hof'.entry w)
      · rw [List.mem_append, hof.acked, hof'.acked, hsplit]

end SaymaFirmware
