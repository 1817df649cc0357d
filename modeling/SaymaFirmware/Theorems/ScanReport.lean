import SaymaFirmware.MuxScan
import SaymaFirmware.Lemmas.Transfer
import SaymaFirmware.Lib.Flags

/-!
# What the scan reports

`i2c_tcaselect` writes the number of the port to the switch, where the configuration routines write a mask with one bit
(`WrBuffer[0] = 16` for "channel 4 only"). So under port `t` the scan reaches the branches whose bits are set in the number `t`.
-/

namespace SaymaFirmware

namespace ScanAux

variable {σ : Type} {p : Placement} (bus : MuxBus p σ)

/-- The switch holds the number of the port. -/
theorem mask_tcaselect (t : UInt8) (w : σ) : bus.mask (i2cTcaselect bus.peripheral t w) = t := by
  obtain ⟨xfer, w', h, hmask⟩ := bus.select t w
  have hattempts : i2cAttempts bus.peripheral i2cRetryCount
      { slAddr7bit := tcaAddr, txData := some [t], txLength := (1 : UInt8).toNat, rxLength := 0 } w = (xfer, w') := by
    rw [i2cRetryCount, i2cAttempts, show (1 : UInt8).toNat = 1 from rfl, h]
  rw [i2cTcaselect, i2cWrite, hattempts]
  exact hmask

/-- The lines for the addresses found while the switch holds a mask. -/
def foundLines (p : Placement) (mask : UInt8) (addrs : List UInt8) : List ScanLine :=
  (addrs.filter fun a => decide (a ≠ tcaAddr) && p.reachable mask a).map .found

/-- One address. -/
theorem probe_spec (s : Scan σ) {addr : UInt8} (haddr : addr < 128) :
    (s.probe bus.peripheral addr).out = s.out ++ foundLines p (bus.mask s.bus) [addr] ∧
      bus.mask (s.probe bus.peripheral addr).bus = bus.mask s.bus := by
  unfold Scan.probe
  by_cases htca : addr = tcaAddr
  · simp [htca, foundLines]
  · obtain ⟨hok, hmask⟩ := bus.read addr s.ch s.bus haddr htca
    have hcount := transfer_one bus.peripheral (x := oneByteRead addr s.ch) rfl rfl rfl rfl s.bus
    rw [hok] at hcount
    rw [if_neg htca]
    refine ⟨?_, hmask⟩
    cases hr : p.reachable (bus.mask s.bus) addr
    · have hnot : ¬ (i2cMasterTransferData bus.peripheral (oneByteRead addr s.ch) s.bus).2.1.rxCount > 0 := by
        rw [gt_iff_lt, hcount, hr]
        exact Bool.false_ne_true
      simp [foundLines, hr, if_neg hnot]
    · have hpos : (i2cMasterTransferData bus.peripheral (oneByteRead addr s.ch) s.bus).2.1.rxCount > 0 := hcount.mpr hr
      simp [foundLines, hr, if_pos hpos, htca]

/-- A list of addresses. -/
theorem foldl_probe_spec (addrs : List UInt8) (haddrs : ∀ a ∈ addrs, a < 128) (s : Scan σ) :
    (addrs.foldl (Scan.probe bus.peripheral) s).out = s.out ++ foundLines p (bus.mask s.bus) addrs := by
  induction addrs generalizing s with
  | nil => exact (List.append_nil _).symm
  | cons a addrs ih =>
    obtain ⟨hout, hmask⟩ := probe_spec bus s (haddrs a List.mem_cons_self)
    rw [List.foldl_cons, ih (fun b hb => haddrs b (List.mem_cons_of_mem a hb)), hout, hmask, List.append_assoc, foundLines,
      foundLines, foundLines, ← List.map_append, ← List.filter_append]
    rfl

/-- The addresses of the scan. -/
def scanned : List UInt8 := (List.range 128).map UInt8.ofNat

theorem mem_scanned {a : UInt8} : a ∈ scanned ↔ a < 128 := by
  rw [scanned, List.mem_map, UInt8.lt_iff_toNat_lt]
  constructor
  · rintro ⟨n, hn, rfl⟩
    rw [UInt8.toNat_ofNat']
    exact Nat.lt_of_le_of_lt (Nat.mod_le _ _) (List.mem_range.mp hn)
  · exact fun h => ⟨a.toNat, List.mem_range.mpr h, UInt8.ofNat_toNat⟩

/-- One port. -/
theorem port_spec (s : Scan σ) (t : UInt8) :
    (s.port bus.peripheral t).out = s.out ++ .port t :: foundLines p t scanned := by
  have h := foldl_probe_spec bus scanned (fun a ha => mem_scanned.mp ha)
    { s with bus := i2cTcaselect bus.peripheral t s.bus, out := s.out ++ [.port t] }
  rw [mask_tcaselect, List.append_assoc] at h
  exact h

/-- A list of ports. -/
theorem foldl_port_spec (ts : List UInt8) (s : Scan σ) :
    (ts.foldl (Scan.port bus.peripheral) s).out = s.out ++ ts.flatMap fun t => .port t :: foundLines p t scanned := by
  induction ts generalizing s with
  | nil => exact (List.append_nil _).symm
  | cons t ts ih =>
    rw [List.foldl_cons, ih, port_spec, List.append_assoc, List.flatMap_cons]

/-- The lines found belong to the port before them. -/
theorem reportedUnder_found (t : UInt8) (under : Option UInt8) (addrs : List UInt8) (out : List ScanLine) :
    reportedUnder t under (addrs.map .found ++ out) = (if under = some t then addrs else []) ++ reportedUnder t under out := by
  induction addrs with
  | nil => simp
  | cons a addrs ih =>
    rw [List.map_cons, List.cons_append, reportedUnder, ih]
    split <;> simp

/-- What is reported under a port is what was found while the switch held its number. -/
theorem mem_reportedUnder (t : UInt8) (under : Option UInt8) (ts : List UInt8) (f : UInt8 → List UInt8) {a : UInt8} :
    a ∈ reportedUnder t under (ts.flatMap fun t' => .port t' :: (f t').map .found) ↔ t ∈ ts ∧ a ∈ f t := by
  induction ts generalizing under with
  | nil => simp [reportedUnder]
  | cons t' ts ih =>
    rw [List.flatMap_cons, List.cons_append, reportedUnder, reportedUnder_found, List.mem_append, ih, List.mem_cons]
    by_cases h : t = t'
    · simp [h]
    · simp [h, Ne.symm h]

/-- The scan reports under a port the addresses that are reachable when the switch holds the port's number. -/
theorem mem_reported (ch : List UInt8) (w : σ) (t : Fin 8) {a : UInt8} :
    a ∈ reportedUnder (branchNumber t) none (i2cProbeSlaves2 bus.peripheral ch w).out ↔
      p.root a = true ∨ ∃ n, connects (branchNumber t) (branchNumber n) = true ∧ p.branch n a = true := by
  have ht : branchNumber t ∈ (List.range 8).map UInt8.ofNat := List.mem_map.mpr ⟨t, List.mem_range.mpr t.isLt, rfl⟩
  have hreach : p.reachable (branchNumber t) a = true ↔
      p.root a = true ∨ ∃ n, connects (branchNumber t) (branchNumber n) = true ∧ p.branch n a = true := by
    simp [Placement.reachable]
  have haddr : p.reachable (branchNumber t) a = true → a < 128 ∧ a ≠ tcaAddr := by
    rw [hreach]
    rintro (hroot | ⟨n, -, hbranch⟩)
    · exact p.root_addr a hroot
    · exact p.branch_addr n a hbranch
  rw [i2cProbeSlaves2, foldl_port_spec, List.singleton_append, reportedUnder, ← hreach]
  unfold foundLines
  rw [mem_reportedUnder, and_iff_right ht, List.mem_filter, mem_scanned, Bool.and_eq_true, decide_eq_true_eq]
  exact ⟨fun h => h.2.2, fun h => ⟨(haddr h).1, (haddr h).2, h⟩⟩

/-- A number has bits only below itself. -/
theorem lt_of_connects : ∀ t n : Fin 8, connects (branchNumber t) (branchNumber n) = true → n < t := by decide

end ScanAux

open ScanAux in
/-- The scan is right on a bus exactly when every address on a branch is an address on the root segment too. -/
theorem scanRight_iff {σ : Type} {p : Placement} (bus : MuxBus p σ) (ch : List UInt8) (w : σ) :
    ScanRight bus ch w ↔ ∀ n a, p.branch n a = true → p.root a = true := by
  unfold ScanRight
  simp only [mem_reported bus ch w]
  constructor
  · -- by induction on the port: the branches with a smaller number add nothing to it
    intro h t
    induction hk : t.val using Nat.strongRecOn generalizing t with
    | _ k ih =>
      intro a hbranch
      rcases (h t a).mpr (Or.inr hbranch) with hroot | ⟨n, hn, hlower⟩
      · exact hroot
      · exact ih n.val (hk ▸ lt_of_connects t n hn) n rfl a hlower
  · intro h t a
    constructor
    · rintro (hroot | ⟨n, -, hbranch⟩)
      · exact Or.inl hroot
      · exact Or.inl (h n a hbranch)
    · rintro (hroot | hbranch)
      · exact Or.inl hroot
      · exact Or.inl (h t a hbranch)

namespace ScanAux

/-- START on the bus. -/
theorem start_mux (p : Placement) (w : MuxState) : i2cStart (muxPeripheral p) w = (i2statStart, { w with phase := .started }) := by
  simp only [i2cStart, muxPeripheral]
  rfl

/-- A write to the switch. -/
theorem pass_select (p : Placement) (x : UInt8) (w : MuxState) :
    i2cPass (muxPeripheral p) { slAddr7bit := tcaAddr, txData := some [x], txLength := 1, rxLength := 0 } w =
      (none, { slAddr7bit := tcaAddr, txData := some [x], txLength := 1, rxLength := 0, txCount := 1 }, ⟨x, .writing⟩) := by
  have haddr : i2cSendByte (muxPeripheral p) (tcaAddr <<< 1) { w with phase := .started } =
      (i2statSlawAck, { w with phase := .writing }) := by
    simp only [i2cSendByte, muxPeripheral, MuxState.addressByte, if_true]
    rfl
  have hdata : i2cSendByte (muxPeripheral p) x { w with phase := .writing } = (i2statTxDatAck, ⟨x, .writing⟩) := by
    simp only [i2cSendByte, muxPeripheral]
    rfl
  rw [pass_of_sends _ rfl, startPhase_andThen, start_mux]
  simp [i2cTxPhase, haddr, hdata, i2cSendLoop]

/-- The address byte of a read holds the address and the read bit, and is not the switch's write address. -/
theorem readByte_parts {addr : UInt8} (haddr : addr < 128) :
    (addr <<< 1 ||| 1) >>> 1 = addr ∧ (addr <<< 1 ||| 1) &&& 1 = 1 ∧
      (addr <<< 1 ||| 1 : UInt8) ≠ (tcaAddr <<< 1 : UInt8) := by
  revert haddr
  refine forall_byte (P := fun addr => addr < 128 → (addr <<< 1 ||| 1) >>> 1 = addr ∧ (addr <<< 1 ||| 1) &&& 1 = 1 ∧
    (addr <<< 1 ||| 1 : UInt8) ≠ (tcaAddr <<< 1 : UInt8)) ?_ addr
  decide +kernel

/-- A read of one byte. -/
theorem pass_oneByte (p : Placement) {addr : UInt8} (haddr : addr < 128) (ch : List UInt8) (w : MuxState) :
    ∃ r c w', i2cPass (muxPeripheral p) (oneByteRead addr ch) w = (r, c, w') ∧ w'.mask = w.mask ∧
      r.isNone = p.reachable w.mask addr ∧ c.retransmissionsMax = 0 := by
  obtain ⟨haddr', hbit, hne⟩ := readByte_parts haddr
  rw [pass_of_receives _ rfl, startPhase_andThen, start_mux]
  cases hr : p.reachable w.mask addr with
  | true =>
    have hsend : i2cSendByte (muxPeripheral p) (addr <<< 1 ||| 1) { w with phase := .started } =
        (i2statSlarAck, { w with phase := .reading }) := by
      simp only [i2cSendByte, muxPeripheral, MuxState.addressByte, if_neg hne, haddr', hbit, hr, and_self, if_true]
      rfl
    have hget : i2cGetByte (muxPeripheral p) false { w with phase := .reading } =
        (0, i2statRxDatNack, { w with phase := .reading }) := by
      simp only [i2cGetByte, muxPeripheral]
      rfl
    simp [i2cRxPhase, oneByteRead, hsend, i2cGetLoop, hget]
  | false =>
    have hsend : i2cSendByte (muxPeripheral p) (addr <<< 1 ||| 1) { w with phase := .started } =
        (i2statSlawNack, { w with phase := .started }) := by
      simp only [i2cSendByte, muxPeripheral, MuxState.addressByte, if_neg hne, haddr', hr, Bool.false_eq_true, and_false, if_false]
      rfl
    have hcode : i2statSlawNack ≠ i2statSlarAck := by decide
    simp [i2cRxPhase, oneByteRead, hsend, hcode]

end ScanAux

open ScanAux in
/-- The peripheral on a bus with the placement keeps the assumptions. -/
def muxBus (p : Placement) : MuxBus p MuxState where
  peripheral := muxPeripheral p
  mask := MuxState.mask
  select x w := by
    obtain ⟨n, st, h⟩ := transfer_of_pass (muxPeripheral p) (w := w)
      (x := { slAddr7bit := tcaAddr, txData := some [x], txLength := 1, rxLength := 0 }) rfl (pass_select p x w) rfl
    exact ⟨_, _, h, rfl⟩
  read addr ch w haddr _ := by
    obtain ⟨r, c, w', hpass, hmask, hr, hc⟩ := pass_oneByte p haddr ch w
    obtain ⟨n, st, h⟩ := transfer_of_pass (muxPeripheral p) (x := oneByteRead addr ch) rfl hpass hc
    rw [h]
    exact ⟨hr, hmask⟩

/-- One device, at address 0x50 on branch 0. -/
def oneOnBranchZero : Placement where
  root _ := false
  branch n a := decide (n = 0 ∧ a = 0x50)
  root_addr _ h := nomatch h
  branch_addr n a h := by
    obtain ⟨-, rfl⟩ := of_decide_eq_true h
    decide

open ScanAux in
/-- It is not reported under port 0, for which the switch is written a 0 and connects nothing. -/
theorem scan_misses_oneOnBranchZero : ¬ ScanRight (muxBus oneOnBranchZero) [0, 0] {} := by
  intro h
  rcases (mem_reported (muxBus oneOnBranchZero) [0, 0] {} 0).mp ((h 0 0x50).mpr (Or.inr (by decide))) with hroot | ⟨n, hn, -⟩
  · exact nomatch hroot
  · exact absurd (lt_of_connects 0 n hn) (Nat.not_lt_zero _)

end SaymaFirmware
