import SaymaFirmware.Lemmas.PhyRun

/-!
# `EMAC_Init` and a PHY that does not come up

A loop that runs out is left like one that ended with a `break`, and a read that times out passes both tests of `BMSR`, so `EMAC_Init`
succeeds whenever the identifier is not zero. Whether the PHY was shown to be up, and whether a loop ran out, is then read off the reads
of the three loops.
-/

namespace SaymaFirmware

namespace PhyAux

variable {mii : MiiOutcomes} {other : InitOp → UInt32}

/-! ## What the reads show -/

theorem miiWord_eq {o : Option UInt16} {v : UInt16} : miiWord o = v.toUInt32 ↔ o = some v := by
  cases o with
  | none =>
    have hne : (0xFFFFFFFF : UInt32) ≠ v.toUInt32 := by
      intro h
      have hv := v.toNat_lt
      rw [← UInt32.toNat_inj, UInt16.toNat_toUInt32] at h
      simp at h
      omega
    simp [miiWord, hne]
  | some u => simp [miiWord, UInt16.toUInt32_inj]

/-- A read in a row of reads. -/
theorem mem_readsAt {reg : UInt32} {n k : Nat} {v : UInt16} :
    completedRead reg v ∈ readsAt mii reg n k ↔ ∃ i < k, mii (n + i) = some v := by
  simp only [readsAt, List.mem_map, List.mem_range'_1, completedRead, Prod.mk.injEq, true_and, miiWord_eq]
  constructor
  · rintro ⟨m, ⟨hn, hk⟩, hm⟩
    exact ⟨m - n, by omega, by rwa [Nat.add_sub_cancel' hn]⟩
  · rintro ⟨i, hi, hm⟩
    exact ⟨n + i, ⟨by omega, by omega⟩, hm⟩

/-- Two reads, one after the other, in a row of reads. -/
theorem pair_sublist_readsAt {reg : UInt32} {k : Nat} {u v : UInt16} (n : Nat) :
    [completedRead reg u, completedRead reg v].Sublist (readsAt mii reg n k) ↔
      ∃ i j, i < j ∧ j < k ∧ mii (n + i) = some u ∧ mii (n + j) = some v := by
  induction k generalizing n with
  | zero => simp [readsAt]
  | succ k ih =>
    have hcons : readsAt mii reg n (k + 1) = (.readPhy reg, miiWord (mii n)) :: readsAt mii reg (n + 1) k := by
      rw [readsAt, List.range'_succ, List.map_cons]
      rfl
    have hhead : completedRead reg u = (.readPhy reg, miiWord (mii n)) ↔ mii n = some u := by
      rw [completedRead, Prod.mk.injEq, eq_comm (b := miiWord (mii n)), miiWord_eq]
      exact and_iff_right rfl
    rw [hcons, List.cons_sublist_cons', ih, hhead, List.singleton_sublist, mem_readsAt]
    constructor
    · rintro (⟨i, j, hij, hj, hu, hv⟩ | ⟨hu, j, hj, hv⟩)
      · exact ⟨i + 1, j + 1, by omega, by omega, by rwa [← Nat.add_assoc, Nat.add_right_comm],
          by rwa [← Nat.add_assoc, Nat.add_right_comm]⟩
      · exact ⟨0, j + 1, by omega, by omega, hu, by rwa [← Nat.add_assoc, Nat.add_right_comm]⟩
    · rintro ⟨i, j, hij, hj, hu, hv⟩
      obtain ⟨j, rfl⟩ : ∃ j', j = j' + 1 := ⟨j - 1, by omega⟩
      rw [← Nat.add_assoc, Nat.add_right_comm] at hv
      cases i with
      | zero => exact Or.inr ⟨hu, j, by omega, hv⟩
      | succ i =>
        rw [← Nat.add_assoc, Nat.add_right_comm] at hu
        exact Or.inl ⟨i, j, by omega, by omega, hu, hv⟩

/-- Reads in a trace are reads among its reads. -/
theorem sublist_reads_iff {l trace : List (InitOp × UInt32)} (hl : ∀ x ∈ l, isRead x.1 = true) :
    l.Sublist trace ↔ l.Sublist (reads trace) := by
  constructor
  · intro h
    have := h.filter fun x => isRead x.1
    rwa [List.filter_eq_self.mpr hl] at this
  · exact fun h => h.trans List.filter_sublist

/-- A read of this register. -/
def isReadOf (reg : UInt32) (x : InitOp × UInt32) : Bool := decide (x.1 = .readPhy reg)

/-- A row of reads of one register, and the reads of a register in it. -/
theorem filter_readsAt (reg reg' : UInt32) (n k : Nat) :
    (readsAt mii reg' n k).filter (isReadOf reg) = if reg' = reg then readsAt mii reg' n k else [] := by
  have hop : ∀ x ∈ readsAt mii reg' n k, x.1 = .readPhy reg' := by
    intro x hx
    obtain ⟨i, -, rfl⟩ := List.mem_map.mp hx
    rfl
  split
  · rename_i h
    exact List.filter_eq_self.mpr fun x hx => decide_eq_true (h ▸ hop x hx)
  · rename_i h
    refine List.filter_eq_nil_iff.mpr ?_
    intro x hx
    rw [isReadOf, decide_eq_true_eq, hop x hx, InitOp.readPhy.injEq]
    exact h

/-- `BMCR` is read only before the identifier, and `BMSR` only after it. -/
theorem filter_bmcr_headReads : (headReads mii).filter (isReadOf emacPhyRegBmcr) =
    readsAt mii emacPhyRegBmcr 0 (idOutcome mii) := by
  simp only [headReads, List.filter_append, filter_readsAt]
  rw [if_pos trivial, if_neg (by decide), if_neg (by decide), List.append_nil, List.append_nil]

theorem filter_bmsr_headReads : (headReads mii).filter (isReadOf emacPhyRegBmsr) = [] := by
  simp only [headReads, List.filter_append, filter_readsAt]
  rw [if_neg (by decide), if_neg (by decide), if_neg (by decide), List.append_nil, List.append_nil]

/-- Three reads in this order: the first before the identifier, the other two after it. -/
theorem sublist_iff {k t : Nat} (v₁ v₂ v₃ : UInt16) :
    [completedRead emacPhyRegBmcr v₁, completedRead emacPhyRegBmsr v₂, completedRead emacPhyRegBmsr v₃].Sublist
        (headReads mii ++ (readsAt mii emacPhyRegBmsr (autoOutcome mii) k ++ readsAt mii 0x1f t 1)) ↔
      completedRead emacPhyRegBmcr v₁ ∈ readsAt mii emacPhyRegBmcr 0 (idOutcome mii) ∧
      [completedRead emacPhyRegBmsr v₂, completedRead emacPhyRegBmsr v₃].Sublist
        (readsAt mii emacPhyRegBmsr (autoOutcome mii) k) := by
  have hbmcr : [completedRead emacPhyRegBmcr v₁, completedRead emacPhyRegBmsr v₂, completedRead emacPhyRegBmsr v₃].filter
      (isReadOf emacPhyRegBmcr) = [completedRead emacPhyRegBmcr v₁] := by
    simp [isReadOf, completedRead, emacPhyRegBmcr, emacPhyRegBmsr]
  have hbmsr : [completedRead emacPhyRegBmcr v₁, completedRead emacPhyRegBmsr v₂, completedRead emacPhyRegBmsr v₃].filter
      (isReadOf emacPhyRegBmsr) = [completedRead emacPhyRegBmsr v₂, completedRead emacPhyRegBmsr v₃] := by
    simp [isReadOf, completedRead, emacPhyRegBmcr, emacPhyRegBmsr]
  constructor
  · intro h
    have h₁ := h.filter (isReadOf emacPhyRegBmcr)
    have h₂ := h.filter (isReadOf emacPhyRegBmsr)
    rw [hbmcr, List.filter_append, filter_bmcr_headReads, List.filter_append, filter_readsAt, filter_readsAt,
      if_neg (by decide), if_neg (by decide), List.append_nil, List.append_nil] at h₁
    rw [hbmsr, List.filter_append, filter_bmsr_headReads, List.filter_append, filter_readsAt, filter_readsAt,
      if_pos rfl, if_neg (by decide), List.append_nil, List.nil_append] at h₂
    exact ⟨List.singleton_sublist.mp h₁, h₂⟩
  · rintro ⟨h₁, h₂⟩
    exact ((List.singleton_sublist.mpr h₁).trans (List.sublist_append_left _ _)).append
      (h₂.trans (List.sublist_append_left _ _))

/-- What is shown, by the outcomes. -/
theorem phyShown_iff (h : ¬ IdZero mii) :
    PhyShown (emacInitTrace mii other) ↔
      (∃ i < idOutcome mii, CompletedWith bmcrClear mii i) ∧
      ∃ i j, i < j ∧ j < autoReads mii + linkReads mii ∧ CompletedWith bmsrAutoDone mii (autoOutcome mii + i) ∧
        CompletedWith bmsrLink mii (autoOutcome mii + j) := by
  unfold PhyShown
  have hreads : ∀ v₁ v₂ v₃,
      [completedRead emacPhyRegBmcr v₁, completedRead emacPhyRegBmsr v₂, completedRead emacPhyRegBmsr v₃].Sublist
          (emacInitTrace mii other) ↔
        [completedRead emacPhyRegBmcr v₁, completedRead emacPhyRegBmsr v₂, completedRead emacPhyRegBmsr v₃].Sublist
          (reads (emacInitTrace mii other)) :=
    fun v₁ v₂ v₃ => sublist_reads_iff (by simp [completedRead, isRead])
  simp only [hreads, (emacInit_nonzero other h).2, sublist_iff, mem_readsAt, pair_sublist_readsAt, Nat.zero_add]
  constructor
  · rintro ⟨v₁, v₂, v₃, h₁, h₂, h₃, ⟨m, hm, hv₁⟩, i, j, hij, hj, hv₂, hv₃⟩
    exact ⟨⟨m, hm, v₁, hv₁, h₁⟩, i, j, hij, hj, ⟨v₂, hv₂, h₂⟩, ⟨v₃, hv₃, h₃⟩⟩
  · rintro ⟨⟨m, hm, v₁, hv₁, h₁⟩, i, j, hij, hj, ⟨v₂, hv₂, h₂⟩, ⟨v₃, hv₃, h₃⟩⟩
    exact ⟨v₁, v₂, v₃, h₁, h₂, h₃, ⟨m, hm, hv₁⟩, i, j, hij, hj, hv₂, hv₃⟩

/-! ## Where the loops end -/

theorem pollReads_le (stop : UInt32 → Bool) (tout n : Nat) : pollReads stop mii tout n ≤ tout := by
  induction tout generalizing n with
  | zero => exact Nat.le_refl 0
  | succ tout ih =>
    simp only [pollReads]
    split
    · omega
    · exact Nat.succ_le_succ (ih (n + 1))

theorem pollReads_pos (stop : UInt32 → Bool) (tout n : Nat) : 0 < pollReads stop mii (tout + 1) n := by
  simp only [pollReads]
  split <;> omega

/-- Only the last read of a loop can pass its test. -/
theorem eq_last_of_stop {stop : UInt32 → Bool} {tout n i : Nat} (hi : i < pollReads stop mii tout n)
    (h : stop (miiWord (mii (n + i))) = true) : i = pollReads stop mii tout n - 1 := by
  induction tout generalizing n i with
  | zero => exact absurd hi (Nat.not_lt_zero _)
  | succ tout ih =>
    simp only [pollReads] at hi ⊢
    cases hs : stop (miiWord (mii n)) with
    | true => rw [hs] at hi; simp at hi ⊢; exact hi
    | false =>
      simp only [hs, Bool.false_eq_true, if_false] at hi ⊢
      cases i with
      | zero =>
        rw [Nat.add_zero, hs] at h
        cases h
      | succ i =>
        have := ih (n := n + 1) (i := i) (by omega) (by rwa [Nat.add_right_comm, Nat.add_assoc])
        omega

/-- A loop that reads fewer outcomes than it may has found one that passes. -/
theorem stop_of_lt {stop : UInt32 → Bool} {tout : Nat} (n : Nat) (h : pollReads stop mii tout n < tout) :
    ∃ i < pollReads stop mii tout n, stop (miiWord (mii (n + i))) = true := by
  induction tout generalizing n with
  | zero => exact absurd h (Nat.not_lt_zero _)
  | succ tout ih =>
    simp only [pollReads] at h ⊢
    cases hs : stop (miiWord (mii n)) with
    | true => exact ⟨0, by simp, hs⟩
    | false =>
      simp only [hs, Bool.false_eq_true, if_false] at h ⊢
      obtain ⟨i, hi, hstop⟩ := ih (n + 1) (by omega)
      exact ⟨i + 1, by omega, by rwa [Nat.add_right_comm, Nat.add_assoc] at hstop⟩

theorem stop_of_completed {p : UInt32 → Bool} {n : Nat} (h : CompletedWith p mii n) : p (miiWord (mii n)) = true := by
  obtain ⟨v, hv, hp⟩ := h
  rw [hv]
  exact hp

/-- The reset loop reads a completed value with the reset over when there is one among the outcomes it may read: a time-out does not end
it. -/
theorem clear_read_iff :
    (∃ i < idOutcome mii, CompletedWith bmcrClear mii i) ↔ ∃ i < emacPhyRespTout, CompletedWith bmcrClear mii i := by
  have hle : idOutcome mii ≤ emacPhyRespTout := pollReads_le _ _ _
  constructor
  · rintro ⟨i, hi, h⟩
    exact ⟨i, Nat.lt_of_lt_of_le hi hle, h⟩
  · rintro ⟨i, hi, h⟩
    by_cases hlt : i < idOutcome mii
    · exact ⟨i, hlt, h⟩
    · have hless : pollReads bmcrClear mii emacPhyRespTout 0 < emacPhyRespTout := Nat.lt_of_le_of_lt (Nat.le_of_not_lt hlt) hi
      obtain ⟨m, hm, hstop⟩ := stop_of_lt 0 hless
      rw [Nat.zero_add] at hstop
      refine ⟨m, hm, ?_⟩
      cases hv : mii m with
      | none => rw [hv] at hstop; exact absurd hstop (by decide)
      | some v => rw [hv] at hstop; exact ⟨v, hv, hstop⟩

/-- Auto-negotiation done and then the link up, among the reads of the two loops: the link is up at the last of them only. -/
theorem bmsr_reads_iff :
    (∃ i j, i < j ∧ j < autoReads mii + linkReads mii ∧ CompletedWith bmsrAutoDone mii (autoOutcome mii + i) ∧
        CompletedWith bmsrLink mii (autoOutcome mii + j)) ↔
      CompletedWith bmsrLink mii (linkOutcome mii + (linkReads mii - 1)) ∧
      ∃ i, i + 1 < autoReads mii + linkReads mii ∧ CompletedWith bmsrAutoDone mii (autoOutcome mii + i) := by
  have hlink : 0 < linkReads mii := pollReads_pos _ _ _
  have hout : ∀ m, linkOutcome mii + m = autoOutcome mii + (autoReads mii + m) := fun m => Nat.add_assoc _ _ _
  constructor
  · rintro ⟨i, j, hij, hj, hdone, hup⟩
    -- auto-negotiation is not done at an earlier read of its own loop than the last
    have hbehind : autoReads mii ≤ j := by
      by_cases hi : i < autoReads mii
      · have hlast : i = autoReads mii - 1 := eq_last_of_stop hi (stop_of_completed hdone)
        omega
      · omega
    obtain ⟨m, rfl⟩ : ∃ m, j = autoReads mii + m := ⟨j - autoReads mii, by omega⟩
    rw [← hout] at hup
    have hm : m < linkReads mii := by omega
    obtain rfl : m = linkReads mii - 1 := eq_last_of_stop hm (stop_of_completed hup)
    exact ⟨hup, i, by omega, hdone⟩
  · rintro ⟨hup, i, hi, hdone⟩
    exact ⟨i, autoReads mii + (linkReads mii - 1), by omega, by omega, hdone, hout _ ▸ hup⟩

/-- A loop runs out unless one of its reads passes its test. -/
theorem not_runsOut_iff {stop : UInt32 → Bool} {n : Nat} :
    ¬ RunsOut stop mii n ↔ ∃ i < emacPhyRespTout, stop (miiWord (mii (n + i))) = true := by
  simp only [RunsOut, not_forall, Bool.not_eq_false, exists_prop]

/-- No loop runs out and the PHY was shown to be up exactly when the loops end as they should. -/
theorem shown_in_time_iff (other : InitOp → UInt32) (h : ¬ IdZero mii) :
    PhyShown (emacInitTrace mii other) ∧ ¬ SomeLoopRunsOut mii ↔ LoopsEndCompleted mii := by
  have hlink : 0 < linkReads mii := pollReads_pos _ _ _
  have hlinkLe : linkReads mii ≤ emacPhyRespTout := pollReads_le _ _ _
  rw [phyShown_iff h, clear_read_iff, bmsr_reads_iff, SomeLoopRunsOut, LoopsEndCompleted, not_or, not_and, not_or, not_runsOut_iff,
    not_runsOut_iff, not_runsOut_iff]
  constructor
  · rintro ⟨⟨hclear, hup, hdone⟩, -, hends⟩
    exact ⟨hclear, (hends h).1, hup, hdone⟩
  · rintro ⟨hclear, hauto, hup, hdone⟩
    obtain ⟨i, hi, hc⟩ := hclear
    refine ⟨⟨⟨i, hi, hc⟩, hup, hdone⟩, ⟨i, hi, ?_⟩, fun _ => ⟨hauto, linkReads mii - 1, by omega, stop_of_completed hup⟩⟩
    rw [Nat.zero_add]
    exact stop_of_completed hc

end PhyAux

open PhyAux in
/-- `EMAC_Init` reports every failure of the PHY exactly when the identifier is zero, or every loop ends in time and the reads show that the
PHY is up. -/
theorem reportsFailure_iff (mii : MiiOutcomes) (other : InitOp → UInt32) :
    ReportsFailure mii other ↔ IdZero mii ∨ LoopsEndCompleted mii := by
  unfold ReportsFailure
  by_cases h : IdZero mii
  · obtain ⟨hres, -, henables⟩ := emacInit_zero other h
    rw [hres]
    simp only [h, true_or, iff_true]
    exact And.intro (fun hf => nomatch hf) (fun _ => ⟨trivial, henables⟩)
  · rw [(emacInit_nonzero other h).1, or_iff_right h, ← shown_in_time_iff other h]
    simp only [forall_const, Bool.true_eq_false, false_and, imp_false, not_or, not_not]
    exact ⟨fun hs => hs.2, fun hs => ⟨hs.1, hs⟩⟩

open PhyAux in
/-- With every read timing out, `EMAC_Init` succeeds and enables both paths. -/
theorem dead_mii_not_reported : ¬ ReportsFailure (fun _ => none) (fun _ => 0) := by
  have hid : ¬ IdZero fun _ => none := by
    unfold IdZero
    decide
  rintro ⟨hshown, -⟩
  obtain ⟨⟨i, -, v, hv, -⟩, -⟩ := (phyShown_iff hid).mp (hshown (emacInit_nonzero _ hid).1)
  exact nomatch hv

end SaymaFirmware
