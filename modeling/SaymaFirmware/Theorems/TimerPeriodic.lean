import SaymaFirmware.Lemmas.TimerList

/-!
# The stack's own timers are never lost

The cyclic timers set themselves again in their handlers, and the TCP timer only as long as there are connections. Whatever happens
in between, each is pending once or running, and the pool never runs out under them.
-/

namespace SaymaFirmware

open Delta

/-- The timers that always run. -/
def cyclicTimers : List StackTimer := [.ipReassTimer, .arpTimer, .dhcpTimerCoarse, .dhcpTimerFine]

/-- How often a timer is pending or running. -/
def TimerThread.armed (s : TimerThread) (h : StackTimer) : Nat := s.calls.count h + s.running.toList.count h

namespace PeriodicAux

variable {s s' : TimerThread} {h : StackTimer}

/-- What holds between the actions of the thread. -/
structure Armed (s : TimerThread) : Prop where
  fits : Fits (deltas s.nextTimeout)
  cyclic : ∀ h ∈ cyclicTimers, s.armed h = 1
  tcp : s.armed .tcpipTcpTimer = s.tcpipTcpTimerActive.toNat
  needed : s.pcbs ≠ 0 → s.tcpipTcpTimerActive = true
  clients : s.calls.countP StackTimer.isClient + 5 ≤ mempNumSysTimeout

/-- Every pending entry is one of the five, or another's. -/
theorem length_calls (l : List StackTimer) : l.length = l.countP StackTimer.isClient + l.count .tcpipTcpTimer + l.count .ipReassTimer +
    l.count .arpTimer + l.count .dhcpTimerCoarse + l.count .dhcpTimerFine := by
  induction l with
  | nil => rfl
  | cons h l ih =>
    rw [List.length_cons, ih]
    cases h <;> simp [List.countP_cons, StackTimer.isClient] <;> omega

/-- Setting a timeout while the pool has one left. -/
theorem sysTimeout_calls {l : List (SysTimeo StackTimer)} {msecs : Nat} (h : StackTimer) (hf : Fits (deltas l)) (hm : msecs < 2 ^ 32)
    (hlen : l.length < mempNumSysTimeout) :
    ∃ l', sysTimeout msecs h l = some l' ∧ (l'.map SysTimeo.call).Perm (h :: l.map SysTimeo.call) ∧ Fits (deltas l') := by
  rcases sysTimeout_spec h hf hm with ⟨h1, -⟩ | ⟨-, l', h2, h3⟩
  · omega
  · refine ⟨l', h2, ?_, by rw [h3]; exact hf.set hm⟩
    rw [← map_snd_deltas, h3, ← map_snd_deltas]
    exact map_snd_set_perm _ _ _

/-- If one of the five is not pending, the pool has a timeout left. -/
theorem Armed.room (ha : Armed s) (hc : h.isClient = false) (h0 : s.calls.count h = 0) : s.nextTimeout.length < mempNumSysTimeout := by
  have hlen := length_calls s.calls
  rw [TimerThread.calls, List.length_map] at hlen
  have h1 := ha.cyclic .ipReassTimer (by decide)
  have h2 := ha.cyclic .arpTimer (by decide)
  have h3 := ha.cyclic .dhcpTimerCoarse (by decide)
  have h4 := ha.cyclic .dhcpTimerFine (by decide)
  have h5 := ha.tcp
  have h6 := ha.clients
  have h7 := Bool.toNat_le s.tcpipTcpTimerActive
  simp only [TimerThread.armed, TimerThread.calls] at h0 h1 h2 h3 h4 h5 h6
  cases h <;> first | omega | cases hc

theorem armed_fetch (ha : Armed s) {e : FetchEnd} (hs : threadStep s (.fetch e) = some s') : Armed s' := by
  obtain ⟨l, active, pcbs, running⟩ := s
  simp only [threadStep] at hs
  cases running with
  | some h => cases hs
  | none =>
    obtain ⟨⟨l', c, ticks⟩, hr, rfl⟩ := Option.map_eq_some_iff.mp hs
    obtain ⟨hcalls, hfits⟩ := fetch_spec ha.fits hr
    have harmed : ∀ h, TimerThread.armed ⟨l', active, pcbs, c⟩ h = TimerThread.armed ⟨l, active, pcbs, none⟩ h := by
      intro h
      simp only [TimerThread.armed, TimerThread.calls, hcalls, List.count_append, Option.toList_none, List.count_nil]
      omega
    refine ⟨hfits, fun h hm => (harmed h).trans (ha.cyclic h hm), (harmed _).trans ha.tcp, ha.needed, ?_⟩
    have hcl := ha.clients
    simp only [TimerThread.calls, hcalls, List.countP_append] at hcl
    simp only [TimerThread.calls]
    omega

/-- None of the five is armed twice. -/
theorem Armed.le_one (ha : Armed s) (hc : h.isClient = false) : s.armed h ≤ 1 := by
  have h5 := ha.tcp
  have h7 := Bool.toNat_le s.tcpipTcpTimerActive
  cases h with
  | client n => cases hc
  | tcpipTcpTimer => omega
  | ipReassTimer => exact Nat.le_of_eq (ha.cyclic _ (by decide))
  | arpTimer => exact Nat.le_of_eq (ha.cyclic _ (by decide))
  | dhcpTimerCoarse => exact Nat.le_of_eq (ha.cyclic _ (by decide))
  | dhcpTimerFine => exact Nat.le_of_eq (ha.cyclic _ (by decide))

theorem interval_lt (h : StackTimer) : h.interval < 2 ^ 32 := by
  cases h <;> simp [StackTimer.interval]

section

variable {l : List (SysTimeo StackTimer)} {active : Bool} {pcbs : Nat}

/-- A handler that sets itself again as its last act. -/
theorem armed_again (ha : Armed ⟨l, active, pcbs, some h⟩) (hc : h.isClient = false) :
    ∃ l', sysTimeout h.interval h l = some l' ∧ Armed ⟨l', active, pcbs, none⟩ := by
  have hle := ha.le_one hc
  simp only [TimerThread.armed, Option.toList_some, List.count_singleton_self] at hle
  obtain ⟨l', hl', hperm, hfits⟩ := sysTimeout_calls h ha.fits (interval_lt h) (ha.room hc (by omega))
  have harmed : ∀ k, TimerThread.armed ⟨l', active, pcbs, none⟩ k = TimerThread.armed ⟨l, active, pcbs, some h⟩ k := by
    intro k
    simp only [TimerThread.armed, TimerThread.calls, hperm.count_eq, List.count_cons, Option.toList_none, Option.toList_some,
      List.count_nil]
    omega
  refine ⟨l', hl', hfits, fun k hk => (harmed k).trans (ha.cyclic k hk), (harmed _).trans ha.tcp, ha.needed, ?_⟩
  have hcl := ha.clients
  simp only [TimerThread.calls] at hcl ⊢
  rw [hperm.countP_eq, List.countP_cons, hc]
  simpa using hcl

/-- The TCP timer's handler when there is no connection left. -/
theorem armed_off (ha : Armed ⟨l, active, 0, some .tcpipTcpTimer⟩) : Armed ⟨l, false, 0, none⟩ := by
  have hle := ha.le_one (h := .tcpipTcpTimer) rfl
  simp only [TimerThread.armed, Option.toList_some, List.count_singleton_self] at hle
  refine ⟨ha.fits, ?_, ?_, fun h0 => absurd rfl h0, ha.clients⟩
  · intro k hk
    have hkc := ha.cyclic k hk
    simp only [TimerThread.armed, TimerThread.calls, Option.toList_some, Option.toList_none, List.count_nil] at hkc ⊢
    rw [List.count_singleton, if_neg (by intro he; rw [← eq_of_beq he] at hk; revert hk; decide)] at hkc
    exact hkc
  · simp only [TimerThread.armed, TimerThread.calls, Option.toList_none, List.count_nil, Bool.toNat_false] at hle ⊢
    omega

/-- A handler of other code. -/
theorem armed_client {n : Nat} (ha : Armed ⟨l, active, pcbs, some (.client n)⟩) : Armed ⟨l, active, pcbs, none⟩ := by
  have harmed : ∀ k, k.isClient = false →
      TimerThread.armed ⟨l, active, pcbs, none⟩ k = TimerThread.armed ⟨l, active, pcbs, some (.client n)⟩ k := by
    intro k hk
    simp only [TimerThread.armed, TimerThread.calls, Option.toList_some, Option.toList_none, List.count_nil]
    rw [List.count_singleton, if_neg]
    intro he
    rw [← eq_of_beq he] at hk
    cases hk
  refine ⟨ha.fits, ?_, (harmed _ rfl).trans ha.tcp, ha.needed, ha.clients⟩
  intro k hk
  exact (harmed k (by revert hk; revert k; decide)).trans (ha.cyclic k hk)

end

theorem armed_handlerReturns (ha : Armed s) (hr : s.running.isSome) :
    ∃ s', threadStep s .handlerReturns = some s' ∧ Armed s' := by
  obtain ⟨l, active, pcbs, running⟩ := s
  cases running with
  | none => cases hr
  | some h =>
    have hcyclic : h.isClient = false → handlerEnd ⟨l, active, pcbs, some h⟩ h =
        (sysTimeout h.interval h l).map (fun l => ⟨l, active, pcbs, some h⟩) →
        ∃ s', threadStep ⟨l, active, pcbs, some h⟩ .handlerReturns = some s' ∧ Armed s' := by
      intro hc he
      obtain ⟨l', hl', ha'⟩ := armed_again ha hc
      refine ⟨_, ?_, ha'⟩
      simp only [threadStep, Option.bind_some, he, hl', Option.map_some]
    cases h with
    | tcpipTcpTimer =>
      by_cases hp : pcbs = 0
      · subst hp
        exact ⟨_, rfl, armed_off ha⟩
      · exact hcyclic rfl (if_pos hp)
    | client n => exact ⟨_, rfl, armed_client ha⟩
    | ipReassTimer => exact hcyclic rfl rfl
    | arpTimer => exact hcyclic rfl rfl
    | dhcpTimerCoarse => exact hcyclic rfl rfl
    | dhcpTimerFine => exact hcyclic rfl rfl

theorem armed_tcpReg (ha : Armed s) : ∃ s', threadStep s .tcpReg = some s' ∧ Armed s' := by
  obtain ⟨l, active, pcbs, running⟩ := s
  simp only [threadStep, tcpTimerNeeded]
  cases active with
  | true => exact ⟨_, rfl, ha.fits, ha.cyclic, ha.tcp, fun _ => rfl, ha.clients⟩
  | false =>
    have htcp := ha.tcp
    simp only [TimerThread.armed, Bool.toNat_false] at htcp
    obtain ⟨l', hl', hperm, hfits⟩ := sysTimeout_calls .tcpipTcpTimer ha.fits (interval_lt .tcpipTcpTimer)
      (ha.room (h := .tcpipTcpTimer) rfl (by omega))
    refine ⟨⟨l', true, pcbs + 1, running⟩, by simp [hl'], hfits, ?_, ?_, fun _ => rfl, ?_⟩
    · intro k hk
      have hkc := ha.cyclic k hk
      simp only [TimerThread.armed, TimerThread.calls, hperm.count_eq] at hkc ⊢
      rw [List.count_cons, if_neg (by intro he; rw [← eq_of_beq he] at hk; revert hk; decide), Nat.add_zero]
      exact hkc
    · simp only [TimerThread.armed, TimerThread.calls, hperm.count_eq, List.count_cons_self, Bool.toNat_true] at htcp ⊢
      omega
    · have hcl := ha.clients
      simp only [TimerThread.calls] at hcl ⊢
      rw [hperm.countP_eq, List.countP_cons]
      simpa [StackTimer.isClient] using hcl

theorem armed_set (ha : Armed s) {msecs n : Nat} (hok : threadOk s (.set msecs n) = true) :
    ∃ s', threadStep s (.set msecs n) = some s' ∧ Armed s' := by
  rw [threadOk, Bool.and_eq_true, decide_eq_true_eq, decide_eq_true_eq] at hok
  have hlen : s.nextTimeout.length < mempNumSysTimeout := by
    have hl := length_calls s.calls
    rw [TimerThread.calls, List.length_map] at hl
    have h1 := ha.le_one (h := .ipReassTimer) rfl
    have h2 := ha.le_one (h := .arpTimer) rfl
    have h3 := ha.le_one (h := .dhcpTimerCoarse) rfl
    have h4 := ha.le_one (h := .dhcpTimerFine) rfl
    have h5 := ha.le_one (h := .tcpipTcpTimer) rfl
    have h6 := hok.2
    simp only [TimerThread.armed, TimerThread.calls] at h1 h2 h3 h4 h5 h6
    omega
  obtain ⟨l', hl', hperm, hfits⟩ := sysTimeout_calls (.client n) ha.fits hok.1 hlen
  have harmed : ∀ k, k.isClient = false → TimerThread.armed { s with nextTimeout := l' } k = s.armed k := by
    intro k hk
    simp only [TimerThread.armed, TimerThread.calls, hperm.count_eq]
    rw [List.count_cons, if_neg, Nat.add_zero]
    intro he
    rw [← eq_of_beq he] at hk
    cases hk
  refine ⟨{ s with nextTimeout := l' }, by rw [threadStep, hl']; rfl, hfits, ?_, (harmed _ rfl).trans ha.tcp, ha.needed, ?_⟩
  · intro k hk
    exact (harmed k (by revert hk; revert k; decide)).trans (ha.cyclic k hk)
  · have hcl := hok.2
    simp only [TimerThread.calls] at hcl ⊢
    rw [hperm.countP_eq, List.countP_cons_of_pos (by rfl)]
    omega

/-- Taking one entry out does not concern the others. -/
theorem count_eraseP {l : List StackTimer} {p : StackTimer → Bool} (hp : p h = false) : (l.eraseP p).count h = l.count h := by
  rcases List.exists_or_eq_self_of_eraseP p l with he | ⟨a, l₁, l₂, -, ha, rfl, he⟩
  · rw [he]
  · have hne : a ≠ h := by
      rintro rfl
      rw [hp] at ha
      cases ha
    rw [he, List.count_append, List.count_append, List.count_cons_of_ne hne]

theorem armed_unset (ha : Armed s) (n : Nat) : Armed { s with nextTimeout := sysUntimeout (· == .client n) s.nextTimeout } := by
  have hd := deltas_sysUntimeout (· == StackTimer.client n) s.nextTimeout ha.fits
  have hcalls : (sysUntimeout (· == StackTimer.client n) s.nextTimeout).map SysTimeo.call =
      (s.nextTimeout.map SysTimeo.call).eraseP (· == .client n) := by
    rw [← map_snd_deltas, hd, map_snd_remove, map_snd_deltas]
  have harmed : ∀ k, k.isClient = false →
      TimerThread.armed { s with nextTimeout := sysUntimeout (· == .client n) s.nextTimeout } k = s.armed k := by
    intro k hk
    simp only [TimerThread.armed, TimerThread.calls, hcalls]
    rw [count_eraseP]
    cases k <;> first | rfl | cases hk
  refine ⟨by simp only [hd]; exact ha.fits.remove _, ?_, (harmed _ rfl).trans ha.tcp, ha.needed, ?_⟩
  · intro k hk
    exact (harmed k (by revert hk; revert k; decide)).trans (ha.cyclic k hk)
  · refine Nat.le_trans (Nat.add_le_add_right ?_ 5) ha.clients
    simp only [TimerThread.calls, hcalls]
    exact (List.eraseP_sublist).countP_le

theorem armed_init : Armed TimerThread.init := by
  have hl : TimerThread.init.nextTimeout =
      [⟨500, .dhcpTimerFine⟩, ⟨500, .ipReassTimer⟩, ⟨4000, .arpTimer⟩, ⟨55000, .dhcpTimerCoarse⟩] := by decide +kernel
  have hcalls : TimerThread.init.calls = [.dhcpTimerFine, .ipReassTimer, .arpTimer, .dhcpTimerCoarse] := by
    rw [TimerThread.calls, hl]
    rfl
  have hrun : TimerThread.init.running = none := rfl
  refine ⟨?_, ?_, ?_, fun h => absurd rfl h, ?_⟩
  · rw [hl, Fits]
    simp [deltas, due]
  · intro h hh
    rw [TimerThread.armed, hcalls, hrun]
    revert hh
    revert h
    decide
  · rw [TimerThread.armed, hcalls, hrun]
    rfl
  · rw [hcalls]
    decide

theorem armed_step {a : ThreadAct} (ha : Armed s) (hok : threadOk s a = true) (hs : threadStep s a = some s') : Armed s' := by
  have hdet : (∃ s₁, threadStep s a = some s₁ ∧ Armed s₁) → Armed s' := by
    rintro ⟨s₁, h1, h2⟩
    rwa [Option.some.inj (h1.symm.trans hs)] at h2
  cases a with
  | fetch e => exact armed_fetch ha hs
  | handlerReturns =>
    refine hdet (armed_handlerReturns ha ?_)
    cases hr : s.running with
    | none => rw [threadStep, hr] at hs; cases hs
    | some h => rfl
  | tcpReg => exact hdet (armed_tcpReg ha)
  | tcpRmv =>
    rw [threadStep] at hs
    split at hs
    · cases hs
    · rename_i h0
      obtain rfl := Option.some.inj hs
      exact ⟨ha.fits, ha.cyclic, ha.tcp, fun _ => ha.needed h0, ha.clients⟩
  | set msecs n => exact hdet (armed_set ha hok)
  | unset n =>
    obtain rfl := Option.some.inj hs
    exact armed_unset ha n

end PeriodicAux

open PeriodicAux in
/-- In every run in which other code leaves the stack its five timeouts, each cyclic timer is pending once or its handler is running,
never both and never twice; the same holds of the TCP timer exactly as long as it is marked active, and it is marked active whenever a
connection is registered. And `sys_timeout` never finds the pool empty. -/
theorem stack_timers_armed (s : TimerThread) (hrun : Reaches threadStep (fun s a => threadOk s a = true) TimerThread.init s) :
    (∀ h ∈ cyclicTimers, s.armed h = 1) ∧ s.armed .tcpipTcpTimer = s.tcpipTcpTimerActive.toNat ∧
    (s.pcbs ≠ 0 → s.tcpipTcpTimerActive = true) ∧
    (s.running.isSome → (threadStep s .handlerReturns).isSome) ∧ (threadStep s .tcpReg).isSome ∧
    ∀ msecs n, threadOk s (.set msecs n) = true → (threadStep s (.set msecs n)).isSome := by
  have ha := hrun.invariant Armed armed_init fun s a s' h hok hs => armed_step h hok hs
  refine ⟨ha.cyclic, ha.tcp, ha.needed, ?_, ?_, ?_⟩
  · intro hr
    obtain ⟨s', hs, -⟩ := armed_handlerReturns ha hr
    rw [hs]; rfl
  · obtain ⟨s', hs, -⟩ := armed_tcpReg ha
    rw [hs]; rfl
  · intro msecs n hok
    obtain ⟨s', hs, -⟩ := armed_set ha hok
    rw [hs]; rfl

/-- A connection is registered, its timer fires, and a second one is registered while the handler runs. -/
theorem stack_timers_armed_connection : ∃ s, Reaches threadStep (fun s a => threadOk s a = true) TimerThread.init s ∧
    s.running = some .tcpipTcpTimer ∧ s.pcbs = 2 ∧ s.armed .tcpipTcpTimer = 1 := by
  obtain ⟨s, hs, hp⟩ := exists_reaches_of_exec threadStep threadOk TimerThread.init
    [.tcpReg, .fetch (.message 100), .fetch (.timeout 150), .tcpReg]
    (fun s => decide (s.running = some .tcpipTcpTimer ∧ s.pcbs = 2 ∧ s.tcpipTcpTimerActive = true)) (by decide +kernel)
  obtain ⟨h1, h2, h3⟩ := of_decide_eq_true hp
  refine ⟨s, hs, h1, h2, ?_⟩
  rw [(stack_timers_armed s hs).2.1, h3]
  rfl

end SaymaFirmware
