import SaymaFirmware.Lib.Log
import SaymaFirmware.Startup

/-!
# The start-up handshake

`network_init` sets `tcpipdone` in its first statement, before it brings up the interface, and it blocks several times on the way. So
the flag orders the two threads only as long as `vSetupIFTask` does not look at it in between. And `network_init` goes on when there is
no memory for the interface, and drops what `dhcp_start` returns, so when it has returned the interface has come up only if neither failed.
-/

namespace SaymaFirmware

/-- `vSetupIFTask` starts the server and reads the PHY only after `network_init` has returned, with the interface added to lwIP's list and
made its default and with `dhcp_start` successful (`ERR_OK` is 0), and no such read falls between two PHY accesses of `network_init`. -/
structure StartedInOrder (log : List StartEvent) : Prop where
  initFirst : EachEntry (fun pre e => e.afterInit = true → .initReturned ∈ pre) log
  interfaceFirst : EachEntry (fun pre e => e.afterInit = true →
    (∃ r, .init .netifListAdd r ∈ pre) ∧ (∃ r, .init (.netifSetDefault true) r ∈ pre) ∧ .init .dhcpStart 0 ∈ pre) log
  phyUndisturbed : ∀ a o r b o' r' c, log = a ++ StartEvent.init o r :: b ++ StartEvent.init o' r' :: c → o.isPhy = true →
    o'.isPhy = true → .checkPhyStatus ∉ b

/-- The TCP/IP thread has left `network_init`. -/
def TcpipPc.isLoop : TcpipPc → Bool
  | .loop => true
  | _ => false

/-- `vSetupIFTask` does not test `tcpipdone` while `network_init` has set it and not yet returned. -/
def flagNotEarly (s : StartState) : StartAct → Bool
  | .setup _ => match s.setup with
    | .wait => !s.tcpipdone || s.tcpip.isLoop
    | _ => true
  | .tcpip _ => true

/-- The answer does not say that there is no memory for the interface, or that `dhcp_start` failed. -/
def InitOp.succeeds : InitOp → UInt32 → Bool
  | .memMalloc, r => r != 0
  | .dhcpStart, r => r == 0
  | _, _ => true

/-- No operation of `network_init` fails on which the interface depends. -/
def interfaceComesUp (s : StartState) : StartAct → Bool
  | .setup _ => true
  | .tcpip r => match s.tcpip with
    | .init (.perform o _) => o.succeeds r
    | _ => true

/-- The condition on each step. -/
def startsWell (s : StartState) (a : StartAct) : Bool := flagNotEarly s a && interfaceComesUp s a

namespace StartAux

/-- `vSetupIFTask` has left its waiting loop. -/
def past : SetupPc → Bool
  | .start | .wait | .waitDelay => false
  | _ => true

/-- The answers with which the interface comes up. -/
abbrev Up (o : InitOp) (r : UInt32) : Prop := o.succeeds r = true

/-- What is left of `network_init` still does what has not been done. -/
def Pending (P : InitOp → UInt32 → Prop) (s : StartState) : Prop :=
  (∃ o r, P o r ∧ .init o r ∈ s.log) ∨ s.tcpip = .notStarted ∨ ∃ p, s.tcpip = .init p ∧ p.Performs Up P

/-- The invariant of the start-up. -/
structure Ordered (s : StartState) : Prop where
  initFirst : EachEntry (fun pre e => e.afterInit = true → .initReturned ∈ pre) s.log
  initLast : EachEntry (fun pre e => ∀ o r, e = .init o r → .initReturned ∉ pre) s.log
  interfaceFirst : EachEntry (fun pre e => e.afterInit = true →
    (∃ r, .init .netifListAdd r ∈ pre) ∧ (∃ r, .init (.netifSetDefault true) r ∈ pre) ∧ .init .dhcpStart 0 ∈ pre) s.log
  returned : .initReturned ∈ s.log ↔ s.tcpip = .loop
  past : past s.setup = true → s.tcpip = .loop
  fresh : s.setup = .start → s.tcpip = .notStarted ∧ s.log = []
  added : Pending (fun o _ => o = .netifListAdd) s
  default : Pending (fun o _ => o = .netifSetDefault true) s
  started : Pending (fun o r => o = .dhcpStart ∧ r = 0) s

/-- `ethernetif_init` returns `ERR_OK` when there is memory for it. -/
theorem ethernetifInit_yields : ethernetifInit.Yields Up fun r => r = true := by
  intro p hp
  have hne : p ≠ 0 := by simpa [Up, InitOp.succeeds] using hp
  change Prog.Yields Up _ (if p = 0 then _ else _)
  rw [if_neg hne]
  exact Prog.Yields.bind (Prog.yields_true _) fun _ _ => Prog.Yields.bind (Prog.yields_true _) fun _ _ => rfl

/-- Then `netif_add` adds the interface. -/
theorem netifAdd_yields : netifAdd.Yields Up fun r => r = true := by
  refine Prog.Yields.bind (Prog.yields_true _) fun _ _ => Prog.Yields.bind ethernetifInit_yields ?_
  intro r hr
  subst hr
  exact Prog.Yields.bind (Prog.yields_true _) fun _ _ => rfl

theorem netifAdd_performs : netifAdd.Performs Up fun o _ => o = .netifListAdd := by
  refine Prog.Performs.bind (Prog.yields_true _) fun _ _ => Prog.Performs.bind ethernetifInit_yields ?_
  intro r hr
  subst hr
  exact Prog.Performs.bind_left (Prog.Performs.op_ fun _ _ => rfl)

theorem networkInit_adds : networkInit.Performs Up fun o _ => o = .netifListAdd :=
  Prog.Performs.bind (Prog.yields_true _) fun _ _ => Prog.Performs.bind_left netifAdd_performs

theorem networkInit_default : networkInit.Performs Up fun o _ => o = .netifSetDefault true :=
  Prog.Performs.bind (Prog.yields_true _) fun _ _ => Prog.Performs.bind netifAdd_yields fun _ hadded =>
    Prog.Performs.bind_left (Prog.Performs.op_ fun _ _ => hadded ▸ rfl)

theorem networkInit_starts : networkInit.Performs Up fun o r => o = .dhcpStart ∧ r = 0 :=
  Prog.Performs.bind (Prog.yields_true _) fun _ _ => Prog.Performs.bind (Prog.yields_true _) fun _ _ =>
    Prog.Performs.bind (Prog.yields_true _) fun _ _ => Prog.Performs.bind (Prog.yields_true _) fun _ _ =>
      Prog.Performs.op_ fun _ hr => ⟨rfl, by simpa [Up, InitOp.succeeds] using hr⟩

theorem init : Ordered startInit :=
  ⟨EachEntry.nil, EachEntry.nil, EachEntry.nil, by simp [startInit], by simp [startInit, StartAux.past], fun _ => ⟨rfl, rfl⟩,
    Or.inr (Or.inl rfl), Or.inr (Or.inl rfl), Or.inr (Or.inl rfl)⟩

variable {s s' : StartState} {a : StartAct} {P : InitOp → UInt32 → Prop}

/-- Once `network_init` has returned, what it performs in any case has been performed. -/
theorem Pending.done (h : Pending P s) (hloop : s.tcpip = .loop) : ∃ o r, P o r ∧ .init o r ∈ s.log := by
  rcases h with h | h | ⟨p, h, -⟩
  · exact h
  · rw [hloop] at h; nomatch h
  · rw [hloop] at h; nomatch h

/-- More entries keep what has been performed. -/
theorem Pending.log (h : Pending P s) (setup : SetupPc) (prev : Int) (e : StartEvent) :
    Pending P { s with setup := setup, phystsprev := prev, log := s.log ++ [e] } := by
  rcases h with ⟨o, r, ho, hm⟩ | h
  · exact Or.inl ⟨o, r, ho, List.mem_append_left _ hm⟩
  · exact Or.inr h

/-- A step of `vSetupIFTask` that nobody notices. -/
theorem Ordered.move (h : Ordered s) (setup : SetupPc) (prev : Int) (hpast : StartAux.past setup = true → s.tcpip = .loop)
    (hstart : setup ≠ .start) : Ordered { s with setup := setup, phystsprev := prev } :=
  ⟨h.initFirst, h.initLast, h.interfaceFirst, h.returned, hpast, fun hs => absurd hs hstart, h.added, h.default, h.started⟩

/-- A step of `vSetupIFTask` after its waiting loop that is logged. -/
theorem Ordered.event (h : Ordered s) (setup : SetupPc) (prev : Int) (e : StartEvent) (hloop : s.tcpip = .loop)
    (hinit : ∀ o r, e ≠ .init o r) (hstart : setup ≠ .start) :
    Ordered { s with setup := setup, phystsprev := prev, log := s.log ++ [e] } := by
  have hin := h.returned.mpr hloop
  obtain ⟨_, r, rfl, hadd⟩ := h.added.done hloop
  obtain ⟨_, r', rfl, hdef⟩ := h.default.done hloop
  obtain ⟨_, _, ⟨rfl, rfl⟩, hdhcp⟩ := h.started.done hloop
  refine ⟨h.initFirst.snoc fun _ => hin, h.initLast.snoc fun o r ho => absurd ho (hinit o r),
    h.interfaceFirst.snoc fun _ => ⟨⟨r, hadd⟩, ⟨r', hdef⟩, hdhcp⟩, ?_, fun _ => hloop, fun hs => absurd hs hstart,
    h.added.log setup prev e, h.default.log setup prev e, h.started.log setup prev e⟩
  rw [List.mem_append]
  exact ⟨fun _ => hloop, fun _ => Or.inl hin⟩

/-- The steps of `vSetupIFTask`. -/
theorem ordered_setup (h : Ordered s) (r : UInt32) (hok : flagNotEarly s (.setup r) = true) : Ordered (s.stepSetup r) := by
  unfold StartState.stepSetup
  cases hpc : s.setup with
  | start =>
    have hlog := (h.fresh hpc).2
    refine ⟨h.initFirst, h.initLast, h.interfaceFirst, ?_, by simp [StartAux.past], by simp, ?_, ?_, ?_⟩
    · simp [hlog]
    · exact Or.inr (Or.inr ⟨networkInit, rfl, networkInit_adds⟩)
    · exact Or.inr (Or.inr ⟨networkInit, rfl, networkInit_default⟩)
    · exact Or.inr (Or.inr ⟨networkInit, rfl, networkInit_starts⟩)
  | wait =>
    refine h.move _ s.phystsprev ?_ ?_
    · intro hp
      have hdone : s.tcpipdone = true := by
        by_contra hdone
        simp [hdone, StartAux.past] at hp
      simp only [flagNotEarly, hpc, hdone, Bool.not_true, Bool.false_or] at hok
      cases ht : s.tcpip with
      | loop => rfl
      | _ => simp [ht, TcpipPc.isLoop] at hok
    · split <;> simp
  | waitDelay => exact h.move _ s.phystsprev (by simp [StartAux.past]) (by simp)
  | http => exact h.event _ 0 _ (h.past (by rw [hpc]; rfl)) (by simp) (by simp)
  | check => exact h.event _ s.phystsprev _ (h.past (by rw [hpc]; rfl)) (by simp) (by simp)
  | compare physts =>
    refine h.move _ _ (fun _ => h.past (by rw [hpc]; rfl)) ?_
    split <;> simp
  | post cb => exact h.event _ s.phystsprev _ (h.past (by rw [hpc]; rfl)) (by simp) (by simp)
  | delay => exact h.move _ s.phystsprev (fun _ => h.past (by rw [hpc]; rfl)) (by simp)

/-- An operation of `network_init`: what it performs in any case, it has performed or still performs. -/
theorem Pending.perform {o : InitOp} {k : UInt32 → Init Unit} (h : Pending P s) (htcp : s.tcpip = .init (.perform o k)) {r : UInt32}
    (hr : o.succeeds r = true) (done : Bool) :
    Pending P { s with tcpip := .init (k r), tcpipdone := done, log := s.log ++ [.init o r] } := by
  rcases h with ⟨o', r', ho, hm⟩ | h | ⟨p, h, hp⟩
  · exact Or.inl ⟨o', r', ho, List.mem_append_left _ hm⟩
  · rw [htcp] at h; nomatch h
  · rw [htcp] at h
    obtain rfl := TcpipPc.init.inj h
    rcases hp r hr with ho | hk
    · exact Or.inl ⟨o, r, ho, by simp⟩
    · exact Or.inr (Or.inr ⟨k r, rfl, hk⟩)

/-- The TCP/IP thread is started by `vSetupIFTask`. -/
theorem Ordered.setup_ne_start (h : Ordered s) {p : Init Unit} (htcp : s.tcpip = .init p) : s.setup ≠ .start := by
  intro hst
  have hnot := (h.fresh hst).1
  rw [htcp] at hnot
  nomatch hnot

/-- The steps of the TCP/IP thread. -/
theorem ordered_tcpip (h : Ordered s) {r : UInt32} (hok : interfaceComesUp s (.tcpip r) = true) (hs : s.stepTcpip r = some s') :
    Ordered s' := by
  unfold StartState.stepTcpip at hs
  split at hs
  · nomatch hs
  · rename_i u htcp
    obtain rfl := Option.some.inj hs
    have hdone : ∀ {P : InitOp → UInt32 → Prop}, Pending P s → ∃ o r, P o r ∧ .init o r ∈ s.log := by
      rintro P (h | h | ⟨p, h, hp⟩)
      · exact h
      · rw [htcp] at h; nomatch h
      · rw [htcp] at h
        obtain rfl := TcpipPc.init.inj h
        exact hp.elim
    have hlog : ∀ {P : InitOp → UInt32 → Prop}, (∃ o r, P o r ∧ .init o r ∈ s.log) → Pending P
        { s with tcpip := .loop, log := s.log ++ [.initReturned] } := by
      rintro P ⟨o, r, ho, hm⟩
      exact Or.inl ⟨o, r, ho, List.mem_append_left _ hm⟩
    refine ⟨h.initFirst.snoc (by simp [StartEvent.afterInit]), h.initLast.snoc (by simp),
      h.interfaceFirst.snoc (by simp [StartEvent.afterInit]), by simp, fun _ => rfl, ?_, hlog (hdone h.added),
      hlog (hdone h.default), hlog (hdone h.started)⟩
    exact fun hst => absurd hst (h.setup_ne_start htcp)
  · rename_i o k htcp
    obtain rfl := Option.some.inj hs
    have hr : o.succeeds r = true := by simpa only [interfaceComesUp, htcp] using hok
    have hno : .initReturned ∉ s.log := by rw [h.returned, htcp]; simp
    have hnp : StartAux.past s.setup ≠ true := fun hp => by
      have := h.past hp
      rw [htcp] at this
      nomatch this
    refine ⟨h.initFirst.snoc (by simp [StartEvent.afterInit]), h.initLast.snoc fun _ _ _ => hno,
      h.interfaceFirst.snoc (by simp [StartEvent.afterInit]), ?_, fun hp => absurd hp hnp, ?_,
      h.added.perform htcp hr _, h.default.perform htcp hr _, h.started.perform htcp hr _⟩
    · simp [hno]
    · exact fun hst => absurd hst (h.setup_ne_start htcp)
  · nomatch hs

theorem Ordered.step (h : Ordered s) (hok : startsWell s a = true) (hs : startStep s a = some s') : Ordered s' := by
  obtain ⟨hflag, hup⟩ := Bool.and_eq_true_iff.mp hok
  cases a with
  | setup r =>
    obtain rfl := Option.some.inj hs
    exact ordered_setup h r hflag
  | tcpip r => exact ordered_tcpip h hup hs

/-- A read of the PHY follows the return of `network_init`, and nothing of `network_init` follows its return. -/
theorem Ordered.phyUndisturbed (h : Ordered s) {pre b c : List StartEvent} {o' : InitOp} {r' : UInt32}
    (hlog : s.log = pre ++ b ++ .init o' r' :: c) : .checkPhyStatus ∉ b := by
  intro hb
  obtain ⟨b₁, b₂, rfl⟩ := List.append_of_mem hb
  have hret : .initReturned ∈ pre ++ b₁ := h.initFirst (pre ++ b₁) .checkPhyStatus (b₂ ++ .init o' r' :: c) (by simp [hlog]) rfl
  refine h.initLast (pre ++ (b₁ ++ StartEvent.checkPhyStatus :: b₂)) (.init o' r') c hlog o' r' rfl ?_
  rw [← List.append_assoc]
  exact List.mem_append_left _ hret

end StartAux

open StartAux in
/-- In every run in which the flag is not tested between the first statement of `network_init` and its return, and in which there is memory
for the interface and `dhcp_start` does not fail, the threads start in order. -/
theorem start_up_in_order (s : StartState) (hrun : Reaches startStep (fun s a => startsWell s a = true) startInit s) :
    StartedInOrder s.log := by
  have h : Ordered s := hrun.invariant Ordered StartAux.init fun _ _ _ h hok hs => h.step hok hs
  refine ⟨h.initFirst, h.interfaceFirst, ?_⟩
  intro a o r b o' r' c hlog _ _
  have hsplit : s.log = (a ++ [.init o r]) ++ b ++ .init o' r' :: c := by simp [hlog]
  exact h.phyUndisturbed hsplit

/-- `network_init` runs to its return, with a PHY that is ready and has a link; then `vSetupIFTask` goes on to its first reading. -/
def patientRun : List StartAct :=
  List.flatten [[.setup 0], List.replicate 53 (.tcpip 0x24), List.replicate 2 (.tcpip 0), List.replicate 3 (.setup 0x24)]

/-- The theorem at this run. -/
theorem start_up_patientRun :
    ∃ s, Reaches startStep (fun s a => startsWell s a = true) startInit s ∧ .checkPhyStatus ∈ s.log ∧ StartedInOrder s.log := by
  obtain ⟨s, hs, hp⟩ := exists_reaches_of_exec startStep startsWell startInit patientRun
    (fun s => decide (.checkPhyStatus ∈ s.log)) (by decide +kernel)
  exact ⟨s, hs, of_decide_eq_true hp, start_up_in_order s hs⟩

/-- `network_init` up to the first delay of its wait for the end of the PHY's reset; there `vSetupIFTask` finds the flag set. -/
def resetRun : List StartAct :=
  List.flatten [[.setup 0, .tcpip 0, .tcpip 0, .tcpip 0x2007C000], List.replicate 20 (.tcpip 0), [.tcpip 120000000],
    List.replicate 8 (.tcpip 0), [.tcpip 0x8000, .tcpip 0], List.replicate 3 (.setup 0), [.tcpip 0x8000]]

/-- The monitor's first reading falls between two readings of `BMCR` by `EMAC_Init`, before the interface is added. -/
theorem resetRun_out_of_order :
    ¬ ∀ s, Reaches startStep (AnyStep _ _) startInit s → StartedInOrder s.log := by
  intro h
  obtain ⟨s, hs, hp⟩ := exists_reaches_of_exec startStep (fun _ _ => true) startInit resetRun
    (fun s => s.log.drop 32 = [.init (.readPhy 0) 0x8000, .init (.taskDelay 2) 0, .httpServerNetconnInit, .checkPhyStatus,
      .init (.readPhy 0) 0x8000]) (by decide +kernel)
  have hlog : s.log = s.log.take 32 ++ StartEvent.init (.readPhy 0) 0x8000 ::
      [.init (.taskDelay 2) 0, .httpServerNetconnInit, .checkPhyStatus] ++ StartEvent.init (.readPhy 0) 0x8000 :: [] := by
    rw [List.append_assoc]
    conv_lhs => rw [← List.take_append_drop 32 s.log, of_decide_eq_true hp]
    rfl
  have horder := h s (hs.mono fun _ _ _ => trivial)
  exact horder.phyUndisturbed _ _ _ _ _ _ _ hlog rfl rfl (by simp)

end SaymaFirmware
