import Mathlib.Data.List.Basic
import SaymaFirmware.LinkMonitor

/-!
# The link state and the PHY's readings

What `net_iface` will show once the pending callbacks have run depends on the readings and the posting errors only, not on the order
of the two threads' steps. So the flag agrees with the last reading in every interleaving or fails to in a run that lets the queue drain
at the end of an iteration.
-/

namespace SaymaFirmware

/-- The PHY's link status in an iteration. -/
def LinkInput.reading (i : LinkInput) : Int := emacCheckPhyStatusLink i.regv

/-- At the end of every iteration with no callback pending, the flag is set if and only if the reading was 1. -/
def LinkAgrees (input : Nat → LinkInput) : Prop :=
  ∀ s, Reaches (linkStep input) (AnyStep _ _) linkInit s → ∀ physts, s.pc = .delay physts → s.settled → (s.linkUp ↔ physts = 1)

/-- The first reading is 1, and no post fails in an iteration whose reading differs from the one before. -/
def LinkTracked (input : Nat → LinkInput) : Prop :=
  (input 0).reading = 1 ∧ ∀ i, (input (i + 1)).reading ≠ (input i).reading → (input (i + 1)).posts = true

namespace LinkAux

/-! ### Callbacks -/

/-- The flag after the pending callbacks. -/
def linkAfter (flags : UInt8) (pending : List LinkCallback) : Bool :=
  pending.foldl (fun flags cb => cb.run flags) flags &&& netifFlagLinkUp ≠ 0

/-- The callback the TCP/IP thread runs, and the ones after it. -/
def pending (s : LinkState) : List LinkCallback := s.running.toList ++ s.posted

theorem pending_eq_nil (s : LinkState) : pending s = [] ↔ s.settled := by
  unfold pending LinkState.settled
  rw [List.append_eq_nil_iff, Option.toList_eq_nil_iff]
  exact and_comm

/-- The last callback decides. -/
theorem run_linkUp (cb : LinkCallback) (flags : UInt8) :
    cb.run flags &&& netifFlagLinkUp ≠ 0 ↔ cb = .netifSetLinkUp := by
  have hset : (flags ||| netifFlagLinkUp) &&& netifFlagLinkUp = netifFlagLinkUp := by
    apply UInt8.toBitVec_inj.mp
    ext i hi
    simp only [UInt8.toBitVec_and, UInt8.toBitVec_or, BitVec.getElem_and, BitVec.getElem_or]
    cases flags.toBitVec[i] <;> cases netifFlagLinkUp.toBitVec[i] <;> rfl
  have hclear : (flags &&& ~~~netifFlagLinkUp) &&& netifFlagLinkUp = 0 := by
    rw [UInt8.and_assoc]
    simp
  cases cb with
  | netifSetLinkUp =>
    simp only [LinkCallback.run]
    split
    · rw [hset]
      exact iff_of_true (by decide) trivial
    · rename_i h
      exact iff_of_true h trivial
  | netifSetLinkDown =>
    simp only [LinkCallback.run]
    split
    · rw [hclear]
      exact iff_of_false (fun h => h rfl) (by simp)
    · rename_i h
      exact iff_of_false h (by simp)

theorem linkAfter_snoc (flags : UInt8) (cbs : List LinkCallback) (cb : LinkCallback) :
    linkAfter flags (cbs ++ [cb]) = decide (cb = .netifSetLinkUp) := by
  unfold linkAfter
  rw [List.foldl_append]
  exact decide_eq_decide.mpr (run_linkUp cb _)

/-- The TCP/IP thread's steps leave what the flag will be. -/
theorem linkAfter_tcpip {s s' : LinkState} (h : s.tcpip = some s') :
    linkAfter s'.flags (pending s') = linkAfter s.flags (pending s) := by
  unfold LinkState.tcpip at h
  unfold pending
  split at h
  · rename_i cb hrun
    obtain rfl := Option.some.inj h
    rw [hrun]
    rfl
  · rename_i cb rest hrun hposted
    obtain rfl := Option.some.inj h
    rw [hrun, hposted]
    rfl
  · nomatch h

/-! ### The loop -/

section

variable (input : Nat → LinkInput)

/-- The value remembered after `n` iterations. -/
def remembered : Nat → Int
  | 0 => 0
  | n + 1 => (input n).reading

/-- The flag that the callbacks posted in the first `n` iterations lead to. -/
def told : Nat → Bool
  | 0 => true
  | n + 1 => if (input n).reading ≠ remembered input n ∧ (input n).posts = true then (input n).reading = 1 else told n

/-- Where the loop is, it knows the readings, and the pending callbacks lead to what has been told. -/
def Told (s : LinkState) : Prop :=
  let reading := (input s.iteration).reading
  let after := linkAfter s.flags (pending s)
  match s.pc with
  | .check => s.phystsprev = remembered input s.iteration ∧ after = told input s.iteration
  | .compare physts => physts = reading ∧ s.phystsprev = remembered input s.iteration ∧ after = told input s.iteration
  | .post physts cb =>
    physts = reading ∧ s.phystsprev = reading ∧ reading ≠ remembered input s.iteration ∧ after = told input s.iteration ∧
      cb = if physts = 1 then .netifSetLinkUp else .netifSetLinkDown
  | .delay physts => physts = reading ∧ s.phystsprev = reading ∧ after = told input (s.iteration + 1)

theorem told_init : Told input linkInit := ⟨rfl, rfl⟩

variable {input} {s s' : LinkState}

theorem told_monitor (h : Told input s) : Told input (s.monitor input) := by
  obtain ⟨pc, iteration, phystsprev, posted, running, flags⟩ := s
  cases pc with
  | check => exact ⟨rfl, h⟩
  | compare physts =>
    simp only [Told] at h
    obtain ⟨rfl, rfl, hafter⟩ := h
    by_cases hchange : (input iteration).reading = remembered input iteration
    · simp [Told, LinkState.monitor, linkChange, hchange, told]
      exact hafter
    · simp [Told, LinkState.monitor, linkChange, hchange]
      exact hafter
  | post physts cb =>
    simp only [Told] at h
    obtain ⟨rfl, rfl, hne, hafter, rfl⟩ := h
    refine ⟨rfl, rfl, ?_⟩
    show linkAfter flags (running.toList ++ if (input iteration).posts then posted ++ [_] else posted) = told input (iteration + 1)
    by_cases hposts : (input iteration).posts = true
    · rw [if_pos hposts, ← List.append_assoc, linkAfter_snoc]
      simp [told, hne, hposts]
    · rw [if_neg hposts]
      rw [told, if_neg fun h => hposts h.2]
      exact hafter
  | delay physts => exact ⟨h.2.1, h.2.2⟩

theorem told_tcpip (h : Told input s) (hs : s.tcpip = some s') : Told input s' := by
  have hafter := linkAfter_tcpip hs
  have hloop : s'.pc = s.pc ∧ s'.iteration = s.iteration ∧ s'.phystsprev = s.phystsprev := by
    unfold LinkState.tcpip at hs
    split at hs
    · obtain rfl := Option.some.inj hs
      exact ⟨rfl, rfl, rfl⟩
    · obtain rfl := Option.some.inj hs
      exact ⟨rfl, rfl, rfl⟩
    · nomatch hs
  unfold Told
  rw [hafter, hloop.1, hloop.2.1, hloop.2.2]
  exact h

theorem told_reaches (h : Reaches (linkStep input) (AnyStep _ _) linkInit s) : Told input s := by
  refine h.invariant (Told input) (told_init input) ?_
  intro s a s' h _ hs
  cases a with
  | monitor =>
    obtain rfl := Option.some.inj hs
    exact told_monitor h
  | tcpip => exact told_tcpip h hs

/-! ### Runs that drain the queue -/

/-- The TCP/IP thread may run until nothing is pending. -/
theorem exists_settled (n : Nat) : ∀ {s : LinkState}, Reaches (linkStep input) (AnyStep _ _) linkInit s →
    2 * s.posted.length + s.running.toList.length = n →
    ∃ s', Reaches (linkStep input) (AnyStep _ _) linkInit s' ∧ s'.pc = s.pc ∧ s'.iteration = s.iteration ∧ s'.settled := by
  induction n with
  | zero =>
    intro s hs hn
    rw [Nat.add_eq_zero_iff] at hn
    refine ⟨s, hs, rfl, rfl, List.length_eq_zero_iff.mp (by omega), ?_⟩
    simpa using hn.2
  | succ n ih =>
    intro s hs hn
    cases hrun : s.running with
    | some cb =>
      have hstep : linkStep input s .tcpip = some { s with running := none, flags := cb.run s.flags } := by
        simp [linkStep, LinkState.tcpip, hrun]
      have hn' : 2 * s.posted.length = n := by simpa [hrun] using hn
      exact (ih (hs.next .tcpip trivial hstep) hn' :)
    | none =>
      cases hposted : s.posted with
      | nil => simp [hrun, hposted] at hn
      | cons cb rest =>
        have hstep : linkStep input s .tcpip = some { s with running := some cb, posted := rest } := by
          simp [linkStep, LinkState.tcpip, hrun, hposted]
        have hn' : 2 * rest.length + 1 = n := by
          simp only [hposted, hrun, List.length_cons, Option.toList_none, List.length_nil] at hn
          omega
        exact (ih (hs.next .tcpip trivial hstep) hn' :)

/-- From the start of an iteration the loop reaches its end. -/
theorem exists_delay_of_check (hs : Reaches (linkStep input) (AnyStep _ _) linkInit s) (hpc : s.pc = .check) :
    ∃ s' physts, Reaches (linkStep input) (AnyStep _ _) linkInit s' ∧ s'.pc = .delay physts ∧ s'.iteration = s.iteration := by
  obtain ⟨pc, iteration, phystsprev, posted, running, flags⟩ := s
  obtain rfl : pc = .check := hpc
  have hcompare := (hs.next .monitor trivial rfl).next .monitor trivial rfl
  cases hcb : (linkChange phystsprev (input iteration).reading).2 with
  | none =>
    refine ⟨_, (input iteration).reading, hcompare, ?_, rfl⟩
    simp only [LinkState.monitor, LinkInput.reading] at hcb ⊢
    rw [hcb]
  | some cb =>
    refine ⟨_, (input iteration).reading, hcompare.next .monitor trivial rfl, ?_, ?_⟩
    · simp only [LinkState.monitor, LinkInput.reading] at hcb ⊢
      rw [hcb]
    · simp only [LinkState.monitor, LinkInput.reading] at hcb ⊢
      rw [hcb]

/-- The loop reaches the end of each iteration. -/
theorem exists_delay (n : Nat) :
    ∃ s physts, Reaches (linkStep input) (AnyStep _ _) linkInit s ∧ s.pc = .delay physts ∧ s.iteration = n := by
  induction n with
  | zero => exact exists_delay_of_check Reaches.start rfl
  | succ n ih =>
    obtain ⟨s, physts, hs, hpc, rfl⟩ := ih
    have hcheck : linkStep input s .monitor = some { s with iteration := s.iteration + 1, pc := .check } := by
      simp [linkStep, LinkState.monitor, hpc]
    exact exists_delay_of_check (hs.next .monitor trivial hcheck) rfl

/-! ### Agreement -/

theorem reading_cases (i : LinkInput) : i.reading = 0 ∨ i.reading = 1 := by
  unfold LinkInput.reading emacCheckPhyStatusLink
  split
  · exact Or.inr rfl
  · exact Or.inl rfl

/-- A reading that differs from the one before turns the link. -/
theorem reading_eq_one_of_ne {i j : LinkInput} (h : i.reading ≠ j.reading) : i.reading = 1 ↔ ¬ j.reading = 1 := by
  rcases reading_cases i with hi | hi <;> rcases reading_cases j with hj | hj <;> simp_all

/-- One iteration keeps the agreement unless a post is lost. -/
theorem told_succ_iff {n : Nat} (h : told input (n + 1) = decide ((input n).reading = 1)) :
    told input (n + 2) = decide ((input (n + 1)).reading = 1) ↔
      ((input (n + 1)).reading ≠ (input n).reading → (input (n + 1)).posts = true) := by
  rw [told]
  by_cases hchange : (input (n + 1)).reading = remembered input (n + 1)
  · rw [if_neg fun hc => hc.1 hchange, h, hchange]
    exact iff_of_true rfl fun hne => absurd rfl hne
  · by_cases hposts : (input (n + 1)).posts = true
    · rw [if_pos ⟨hchange, hposts⟩]
      exact iff_of_true rfl fun _ => hposts
    · rw [if_neg fun hc => hposts hc.2, h]
      refine iff_of_false ?_ fun hp => hposts (hp hchange)
      rw [decide_eq_decide, reading_eq_one_of_ne hchange]
      exact iff_not_self

/-- What the callbacks lead to agrees with every reading exactly if the readings are tracked. -/
theorem told_iff_tracked : (∀ n, told input (n + 1) = decide ((input n).reading = 1)) ↔ LinkTracked input := by
  have hfirst : told input 1 = decide ((input 0).reading = 1) ↔ (input 0).reading = 1 := by
    rcases reading_cases (input 0) with h | h <;> simp [told, remembered, h]
  constructor
  · intro h
    exact ⟨hfirst.mp (h 0), fun i => (told_succ_iff (h i)).mp (h (i + 1))⟩
  · rintro ⟨h₀, hposts⟩ n
    induction n with
    | zero => exact hfirst.mpr h₀
    | succ n ih => exact (told_succ_iff ih).mpr (hposts n)

/-- At the end of an iteration with nothing pending, the flag is what has been told. -/
theorem linkUp_iff_told (hs : Reaches (linkStep input) (AnyStep _ _) linkInit s) {physts : Int} (hpc : s.pc = .delay physts)
    (hset : s.settled) : physts = (input s.iteration).reading ∧ (s.linkUp ↔ told input (s.iteration + 1) = true) := by
  have htold := told_reaches hs
  simp only [Told, hpc, (pending_eq_nil s).mpr hset] at htold
  refine ⟨htold.1, ?_⟩
  rw [← htold.2.2]
  exact decide_eq_true_iff.symm

end

end LinkAux

open LinkAux in
/-- For every sequence of readings and posting errors: the flag agrees with the last reading in every interleaving exactly if the first
reading is 1 and no change of the reading is lost. -/
theorem linkAgrees_iff (input : Nat → LinkInput) : LinkAgrees input ↔ LinkTracked input := by
  rw [← told_iff_tracked]
  constructor
  · intro h n
    obtain ⟨s, physts, hs, hpc, rfl⟩ := @exists_delay input n
    obtain ⟨s', hs', hpc', hit, hset⟩ := exists_settled _ hs rfl
    rw [hpc] at hpc'
    obtain ⟨hread, hup⟩ := linkUp_iff_told hs' hpc' hset
    rw [hit] at hread hup
    rw [← hread, Bool.eq_iff_iff, ← hup, decide_eq_true_iff]
    exact h s' hs' physts hpc' hset
  · intro h s hs physts hpc hset
    obtain ⟨rfl, hup⟩ := linkUp_iff_told hs hpc hset
    rw [hup, h, decide_eq_true_iff]

/-- The cable is out at start-up: the first reading is 0, the value the loop starts with, and the flag stays set. -/
theorem linkDown_at_start_missed : ¬ ∀ input : Nat → LinkInput, LinkAgrees input := by
  intro h
  obtain ⟨s, hs, hp⟩ := exists_reaches_of_exec (linkStep fun _ => ⟨0, true⟩) (fun _ _ => true) linkInit [.monitor, .monitor]
    (fun s => decide (s = { linkInit with pc := .delay 0 })) (by decide)
  obtain rfl := of_decide_eq_true hp
  have hup := h _ _ (hs.mono fun _ _ _ => trivial) 0 rfl ⟨rfl, rfl⟩
  exact absurd (hup.mp (by decide)) (by decide)

end SaymaFirmware
