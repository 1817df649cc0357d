import Mathlib.Data.Fintype.Card
import SaymaFirmware.Lemmas.QueueLocks
import SaymaFirmware.Theorems.QueueOrder

/-!
# No lost wake-up

A task that waits in a list of the queue runs again only when somebody takes it out of there. Between finding the queue empty and being
in the list, a task lets interrupts in, and a message that comes then must not be missed. The argument counts: as long as a receiver
waits, or is about to, each message that is there has a receiver on its way to it (`heading`) or is counted in `xTxLock`, so that
unlocking the queue will send one. Free places and senders go the same way (`Headed`).
-/

namespace SaymaFirmware

variable {α τ : Type*} [DecidableEq τ]

namespace QueueSys

/-- The task is on its way to what the side `sd` takes from the queue: nothing that it waits for keeps it from looking there. -/
def heading (s : QueueSys α τ) (sd : QueueSide) (t : τ) : Bool :=
  (s.pc t).looking sd || ((s.pc t).entered sd && !decide (t ∈ s.queue.waiters sd))

variable [Fintype τ]

/-- How many tasks are on their way. -/
def headingCount (s : QueueSys α τ) (sd : QueueSide) : Nat := (Finset.univ.filter fun t => s.heading sd t = true).card

/-- While a task of the side `sd` waits or is about to, everything it could take has a task on its way or is counted. -/
def Headed (s : QueueSys α τ) (sd : QueueSide) : Prop :=
  s.queue.waiters sd ≠ [] ∨ (∃ t, (s.pc t).entering sd = true) →
    s.queue.available sd ≤ s.headingCount sd + (s.queue.lock sd).toNat

end QueueSys

namespace QueueWakeupsAux

open QueueSys QueueMovesAux QueueLocksAux

section Counting

variable [Fintype τ] {s s' : QueueSys α τ} {t : τ} {sd : QueueSide}

theorem headingCount_le (h : ∀ u, s.heading sd u = true → s'.heading sd u = true) : s.headingCount sd ≤ s'.headingCount sd :=
  Finset.card_le_card (Finset.monotone_filter_right _ fun u _ => h u)

/-- One task may turn away. -/
theorem headingCount_le_succ (h : ∀ u, u ≠ t → s.heading sd u = true → s'.heading sd u = true) :
    s.headingCount sd ≤ s'.headingCount sd + 1 := by
  refine (Finset.card_le_card ?_).trans (Finset.card_insert_le t _)
  intro u hu
  rw [Finset.mem_insert, Finset.mem_filter]
  by_cases hut : u = t
  · exact Or.inl hut
  · exact Or.inr ⟨Finset.mem_univ u, h u hut (Finset.mem_filter.mp hu).2⟩

/-- Tasks that are woken set out. -/
theorem headingCount_add_le {l : List τ} (hl : l.Nodup) (hold : ∀ u ∈ l, s.heading sd u = false)
    (hnew : ∀ u ∈ l, s'.heading sd u = true) (h : ∀ u, s.heading sd u = true → s'.heading sd u = true) :
    s.headingCount sd + l.length ≤ s'.headingCount sd := by
  have hdisj : Disjoint (Finset.univ.filter fun u => s.heading sd u = true) l.toFinset := by
    rw [Finset.disjoint_left]
    intro u hu hul
    rw [Finset.mem_filter, hold u (List.mem_toFinset.mp hul)] at hu
    cases hu.2
  rw [headingCount, ← List.toFinset_card_of_nodup hl, ← Finset.card_union_of_disjoint hdisj]
  refine Finset.card_le_card ?_
  intro u hu
  rw [Finset.mem_filter]
  refine ⟨Finset.mem_univ u, ?_⟩
  rcases Finset.mem_union.mp hu with hu | hu
  · exact h u (Finset.mem_filter.mp hu).2
  · exact hnew u (List.mem_toFinset.mp hu)

/-- The rule for a step that takes no more than it sends on its way. -/
theorem headed_of_le (hh : s.Headed sd) (hw : s'.queue.waiters sd ≠ [] → s.queue.waiters sd ≠ [] ∨ ∃ t, (s.pc t).entering sd = true)
    (he : ∀ t, (s'.pc t).entering sd = true → s.queue.waiters sd ≠ [] ∨ ∃ t, (s.pc t).entering sd = true)
    (hle : s'.queue.available sd + s.headingCount sd + (s.queue.lock sd).toNat ≤
      s.queue.available sd + s'.headingCount sd + (s'.queue.lock sd).toNat) : s'.Headed sd := by
  intro h
  have hbefore : s.queue.waiters sd ≠ [] ∨ ∃ t, (s.pc t).entering sd = true := by
    rcases h with h | ⟨t, ht⟩
    · exact hw h
    · exact he t ht
  have := hh hbefore
  omega

/-- The record has no part in it. -/
theorem headed_alike (hh : s.Headed sd) (h : s.Alike s') : s'.Headed sd := by
  obtain ⟨hq, hpc, _⟩ := h
  have hheading : s'.heading sd = s.heading sd := by
    funext u
    rw [heading, heading, hq, hpc]
  have hcount : s'.headingCount sd = s.headingCount sd := by rw [headingCount, headingCount, hheading]
  rw [Headed, hq, hpc, hcount]
  exact hh

theorem headed_of_zero (h : s.queue.available sd = 0) : s.Headed sd := fun _ => h ▸ Nat.zero_le _

end Counting

section Heading

variable {s s' : QueueSys α τ} {t u : τ} {sd : QueueSide} {p : QueuePc α}

/-- A task in a list is on its way nowhere. -/
theorem not_heading_of_mem (ho : s.Orderly) (h : u ∈ s.queue.waiters sd) : s.heading sd u = false := by
  have hent := ho.entered sd u h
  have hlook : (s.pc u).looking sd = false := by
    cases hp : s.pc u with
    | unlockTx j w after | unlockRx j w after | resume j w after =>
      rw [hp] at hent
      cases after <;> first | rfl | cases hent
    | waiting j w => rfl
    | idle | attempt j w | refused j w | locked j w | placing j w =>
      rw [hp] at hent
      cases hent
  rw [heading, hlook, decide_eq_true h, Bool.not_true, Bool.and_false, Bool.or_false]

/-- A task that has been taken out of the list is on its way. -/
theorem heading_of_entered (hent : (s.pc u).entered sd = true) (h : u ∉ s.queue.waiters sd) : s.heading sd u = true := by
  rw [heading, hent, decide_eq_false h, Bool.not_false, Bool.and_true, Bool.or_true]

/-- Every task aims at the same. -/
def Keeps (s s' : QueueSys α τ) (sd : QueueSide) : Prop :=
  ∀ u, (s'.pc u).looking sd = (s.pc u).looking sd ∧ (s'.pc u).entered sd = (s.pc u).entered sd

/-- Whoever is on its way stays so, as long as it aims at the same and is not put into a list. -/
theorem heading_mono (hlook : (s'.pc u).looking sd = (s.pc u).looking sd) (hent : (s'.pc u).entered sd = (s.pc u).entered sd)
    (hmem : u ∈ s'.queue.waiters sd → u ∈ s.queue.waiters sd) (h : s.heading sd u = true) : s'.heading sd u = true := by
  unfold heading at h ⊢
  rw [hlook, hent]
  by_cases hu : u ∈ s'.queue.waiters sd
  · rw [decide_eq_true hu]
    rw [decide_eq_true (hmem hu)] at h
    exact h
  · rw [decide_eq_false hu, Bool.not_false, Bool.and_true]
    rcases (Bool.or_eq_true _ _).mp h with h | h
    · rw [h, Bool.true_or]
    · rw [Bool.and_elim_left h, Bool.or_true]

/-- For a task other than the one that takes the step nothing changes. -/
theorem heading_setPc_ne (hpc : s'.pc = (s.setPc t p).pc) (hu : u ≠ t)
    (hmem : u ∈ s'.queue.waiters sd → u ∈ s.queue.waiters sd) (h : s.heading sd u = true) : s'.heading sd u = true := by
  have hsame : s'.pc u = s.pc u := by rw [hpc, pc_setPc_ne s p hu]
  exact heading_mono (by rw [hsame]) (by rw [hsame]) hmem h

theorem keeps_setPc (hpc : s'.pc = (s.setPc t p).pc) (hlook : p.looking sd = (s.pc t).looking sd)
    (hent : p.entered sd = (s.pc t).entered sd) : Keeps s s' sd := by
  intro u
  rw [hpc]
  by_cases hu : u = t
  · rw [hu, pc_setPc_self]
    exact ⟨hlook, hent⟩
  · rw [pc_setPc_ne s p hu]
    exact ⟨rfl, rfl⟩

end Heading

section Steps

variable [Fintype τ] {prio : τ → Nat} {s s' : QueueSys α τ} {t : τ} {sd : QueueSide} {p : QueuePc α}

/-- A step of a task that leaves its side of the queue as it is. -/
theorem headed_setPc (hh : s.Headed sd) (hpc : s'.pc = (s.setPc t p).pc) (hw : s'.queue.waiters sd = s.queue.waiters sd)
    (ha : s'.queue.available sd = s.queue.available sd) (hl : (s'.queue.lock sd).toNat = (s.queue.lock sd).toNat)
    (hhead : s.heading sd t = true → s'.heading sd t = true) (hent : p.entering sd = true → (s.pc t).entering sd = true) :
    s'.Headed sd := by
  refine headed_of_le hh (fun h => Or.inl (hw ▸ h)) ?_ ?_
  · intro u hu
    refine Or.inr ⟨u, ?_⟩
    rw [hpc] at hu
    by_cases hut : u = t
    · rw [hut, pc_setPc_self] at hu
      exact hut ▸ hent hu
    · rw [pc_setPc_ne s p hut] at hu
      exact hu
  · have hcount : s.headingCount sd ≤ s'.headingCount sd := by
      refine headingCount_le ?_
      intro u hu
      by_cases hut : u = t
      · exact hut ▸ hhead (hut ▸ hu)
      · exact heading_setPc_ne hpc hut (fun h => hw ▸ h) hu
    omega

/-- Tasks are taken out of the list, as many as there is more to take, or the list becomes empty. -/
theorem headed_drop (ho : s.Orderly) (ho' : s'.Orderly) (hh : s.Headed sd) (hkeep : Keeps s s' sd) {k : Nat}
    (hw : s'.queue.waiters sd = (s.queue.waiters sd).drop k) (hl : s'.queue.lock sd = queueUnlocked)
    (ha : s'.queue.available sd + (s.queue.lock sd).toNat ≤ s.queue.available sd + k) : s'.Headed sd := by
  rintro (hne | ⟨u, hu⟩)
  · have hlt : k < (s.queue.waiters sd).length := by
      by_contra hge
      exact hne (hw ▸ List.drop_eq_nil_of_le (Nat.le_of_not_lt hge))
    have hwoken : ∀ u ∈ (s.queue.waiters sd).take k, s'.heading sd u = true := by
      intro u hu
      refine heading_of_entered ?_ ?_
      · rw [(hkeep u).2]
        exact ho.entered sd u (List.mem_of_mem_take hu)
      · intro hu'
        exact List.disjoint_take_drop (ho.nodup sd) (Nat.le_refl k) hu (hw ▸ hu')
    have hcount : s.headingCount sd + ((s.queue.waiters sd).take k).length ≤ s'.headingCount sd :=
      headingCount_add_le ((ho.nodup sd).sublist (List.take_sublist _ _))
        (fun u hu => not_heading_of_mem ho (List.mem_of_mem_take hu)) hwoken
        fun u hu => heading_mono (hkeep u).1 (hkeep u).2 (fun h => List.mem_of_mem_drop (hw ▸ h)) hu
    rw [List.length_take, Nat.min_eq_left hlt.le] at hcount
    have hbefore := hh (Or.inl fun h => by rw [h] at hlt; cases hlt)
    omega
  · exact absurd hu (ho'.not_entering (ho'.held_of_unlocked hl) u)

theorem headed_pcMove (hh : s.Headed sd) (hmove : PcMove s t p) : (s.setPc t p).Headed sd := by
  have hhead : (s.setPc t p).heading sd t = (p.looking sd || (p.entered sd && !decide (t ∈ s.queue.waiters sd))) := by
    rw [heading, pc_setPc_self]
    rfl
  have hsame : (s.heading sd t = true → (p.looking sd || (p.entered sd && !decide (t ∈ s.queue.waiters sd))) = true) →
      (p.entering sd = true → (s.pc t).entering sd = true) → (s.setPc t p).Headed sd :=
    fun h => headed_setPc hh rfl rfl rfl rfl (hhead ▸ h)
  cases hmove with
  | call j w _ hpc => exact hsame (fun h => by rw [heading, hpc] at h; cases h) nofun
  | giveUp j w hpc h0 | refuse j w hpc h0 =>
    by_cases hsd : j.side = sd
    · exact headed_of_zero (hsd ▸ h0)
    · refine hsame ?_ nofun
      intro h
      rw [heading, hpc, QueuePc.looking, decide_eq_false hsd] at h
      cases h
  | timeOut j w hpc | again j w hpc => exact hsame (fun h => by rw [heading, hpc] at h; cases h) nofun
  | placing j w hpc h0 =>
    by_cases hsd : j.side = sd
    · exact headed_of_zero (hsd ▸ h0)
    · refine hsame (fun h => by rw [heading, hpc] at h; cases h) ?_
      intro h
      rw [QueuePc.entering, decide_eq_true_eq] at h
      exact absurd h hsd
  | woken j w hpc hmem =>
    refine hsame ?_ nofun
    intro h
    rw [heading, hpc] at h
    rw [QueuePc.looking, (Bool.and_elim_left h : decide (j.side = sd) = true), Bool.true_or]

theorem headed_serve (ho : s.Orderly) (ho' : s'.Orderly) (hh : s.Headed sd) {j : QueueJob α} {w : QueueWait}
    (hnone : s.suspended = none) (hpc : s.pc t = .attempt j w) (hpc' : s'.pc = (s.setPc t .idle).pc)
    (hserved : s.queue.Served s'.queue j.side) (hwoke : s.queue.Woke s'.queue j.side.other) : s'.Headed sd := by
  rcases other_cases j.side sd with rfl | rfl
  · have hw := hserved.own.1
    refine headed_of_le hh (fun h => Or.inl (hw ▸ h)) ?_ ?_
    · intro u hu
      refine Or.inr ⟨u, ?_⟩
      rw [hpc'] at hu
      by_cases hut : u = t
      · rw [hut, pc_setPc_self] at hu
        cases hu
      · rw [pc_setPc_ne s _ hut] at hu
        exact hu
    · have hcount : s.headingCount j.side ≤ s'.headingCount j.side + 1 :=
        headingCount_le_succ fun u hu => heading_setPc_ne hpc' hu fun h => hw ▸ h
      have htook := hserved.took
      rw [hserved.own.2]
      omega
  · have hunlocked := ho.unlocked j.side.other (held_of_none hnone)
    have hne : j.side ≠ j.side.other := by cases j <;> nofun
    refine headed_drop (k := 1) ho ho' hh (keeps_setPc hpc' ?_ ?_) ?_ (hwoke.2.trans hunlocked) ?_
    · rw [hpc]
      exact (decide_eq_false hne).symm
    · rw [hpc]
      rfl
    · rw [hwoke.1, List.drop_one]
    · rw [hserved.gave, hunlocked]
      exact Nat.le_refl _

theorem headed_isr (ho : s.Orderly) (ho' : s'.Orderly) (hh : s.Headed sd) {sd' : QueueSide} (hpc : s'.pc = s.pc)
    (hserved : s.queue.Served s'.queue sd')
    (hother : s.queue.lock sd'.other = queueUnlocked ∧ s.queue.Woke s'.queue sd'.other ∨ s.queue.Counted s'.queue sd'.other) :
    s'.Headed sd := by
  have hsame : s'.queue.waiters sd = s.queue.waiters sd → s'.queue.available sd + (s.queue.lock sd).toNat ≤
      s.queue.available sd + (s'.queue.lock sd).toNat → s'.Headed sd := by
    intro hw hle
    refine headed_of_le hh (fun h => Or.inl (hw ▸ h)) (fun u hu => Or.inr ⟨u, hpc ▸ hu⟩) ?_
    have hcount : s.headingCount sd ≤ s'.headingCount sd :=
      headingCount_le fun u => heading_mono (by rw [hpc]) (by rw [hpc]) fun h => hw ▸ h
    omega
  rcases other_cases sd' sd with rfl | rfl
  · refine hsame hserved.own.1 ?_
    rw [hserved.own.2]
    have := hserved.took
    omega
  · rcases hother with ⟨hunlocked, hwoke⟩ | ⟨hw, hne, hl⟩
    · refine headed_drop (k := 1) ho ho' hh (fun u => by rw [hpc]; exact ⟨rfl, rfl⟩) ?_ (hwoke.2.trans hunlocked) ?_
      · rw [hwoke.1, List.drop_one]
      · rw [hserved.gave, hunlocked]
        exact Nat.le_refl _
    · refine hsame hw ?_
      have hle : 0 ≤ s.queue.lock sd'.other := by
        refine ho.locked _ ?_
        by_contra hh
        exact hne (ho.unlocked _ (by simpa using hh))
      rw [hserved.gave, hl]
      omega

theorem headed_lock (ho : s.Orderly) (hh : s.Headed sd) {j : QueueJob α} {w : QueueWait} (hnone : s.suspended = none)
    (hpc : s.pc t = .refused j w) (hpc' : s'.pc = (s.setPc t (.locked j w)).pc) (hq : s'.queue = s.queue.prvLockQueue) :
    s'.Headed sd := by
  have hun := ho.unlocked sd (held_of_none hnone)
  refine headed_setPc hh hpc' ?_ ?_ ?_ ?_ nofun
  · rw [hq]
    cases sd <;> rfl
  · rw [hq]
    cases sd <;> rfl
  · rw [hun, hq]
    cases sd <;> simp only [RtosQueue.lock] at hun <;> simp only [RtosQueue.lock, RtosQueue.prvLockQueue, hun, if_true] <;> rfl
  · intro h
    rw [heading, hpc] at h
    cases h

theorem headed_place (hh : s.Headed sd) {j : QueueJob α} {w : QueueWait} (hpc : s.pc t = .placing j w)
    (hpc' : s'.pc = (s.setPc t (.unlockTx j w .block)).pc) (hq : s'.queue = s.place prio t j) : s'.Headed sd := by
  have hlock := hq ▸ place_lock prio s t j sd
  have ha : s'.queue.available sd = s.queue.available sd := by
    rw [hq]
    cases j <;> cases sd <;> rfl
  have hnot : s.heading sd t ≠ true := by
    intro h
    rw [heading, hpc] at h
    cases h
  rcases place_waiters prio s t j sd with ⟨hsd, hw⟩ | ⟨_, hw⟩
  · -- the task itself was about to enter
    have hbefore : s.queue.waiters sd ≠ [] ∨ ∃ u, (s.pc u).entering sd = true := by
      refine Or.inr ⟨t, ?_⟩
      rw [hpc]
      exact decide_eq_true hsd
    refine headed_of_le hh (fun _ => hbefore) (fun _ _ => hbefore) ?_
    have hcount : s.headingCount sd ≤ s'.headingCount sd := by
      refine headingCount_le ?_
      intro u hu
      have hut : u ≠ t := by
        rintro rfl
        exact hnot hu
      refine heading_setPc_ne hpc' hut ?_ hu
      intro h
      rw [hq, hw] at h
      exact (mem_vListInsert.mp h).resolve_left hut
    rw [ha, hlock]
    omega
  · exact headed_setPc hh hpc' (hq ▸ hw) ha (by rw [hlock]) (fun h => absurd h hnot) nofun

/-- A task that unlocks the queue goes on with the same aim. -/
theorem headed_unlock (ho : s.Orderly) (ho' : s'.Orderly) (hh : s.Headed sd) (hpc' : s'.pc = (s.setPc t p).pc)
    (hlook : p.looking sd = (s.pc t).looking sd) (hent : p.entered sd = (s.pc t).entered sd) (hno : p.entering sd ≠ true)
    (hq : s.queue.Unlocked s'.queue sd ∨ s.queue.Still s'.queue sd) : s'.Headed sd := by
  rcases hq with ⟨hw, hl, ha⟩ | ⟨hw, hl, ha⟩
  · refine headed_drop ho ho' hh (keeps_setPc hpc' hlook hent) hw hl ?_
    rw [ha]
  · refine headed_setPc hh hpc' hw ha (by rw [hl]) ?_ fun h => absurd h hno
    intro h
    have hkeep := keeps_setPc hpc' hlook hent t
    exact heading_mono hkeep.1 hkeep.2 (fun h => hw ▸ h) h

theorem headed_tick (hh : s.Headed sd) (t : τ) (j : QueueJob α) : ({ s with queue := s.unwait t j } : QueueSys α τ).Headed sd := by
  have hsub : ∀ u, u ∈ (s.unwait t j).waiters sd → u ∈ s.queue.waiters sd := by
    intro u hu
    rcases unwait_waiters s t j sd with ⟨_, h⟩ | ⟨_, h⟩
    · exact List.mem_of_mem_erase (h ▸ hu)
    · exact h ▸ hu
  refine headed_of_le hh (fun h => Or.inl ?_) (fun u hu => Or.inr ⟨u, hu⟩) ?_
  · intro hnil
    obtain ⟨u, hu⟩ := List.exists_mem_of_ne_nil _ h
    exact absurd (hnil ▸ hsub u hu) List.not_mem_nil
  · have ha : (s.unwait t j).available sd = s.queue.available sd := by cases j <;> cases sd <;> rfl
    have hcount : s.headingCount sd ≤ ({ s with queue := s.unwait t j } : QueueSys α τ).headingCount sd :=
      headingCount_le fun u => heading_mono rfl rfl (hsub u)
    simp only [unwait_lock, ha]
    omega

/-- Every move keeps everything headed for. -/
theorem headed_move (ho : s.Orderly) (hh : s.Headed sd) (h : QueueMove prio s s') : s'.Headed sd := by
  have ho' := orderly_move ho h
  cases h with
  | stay he => exact headed_alike hh he
  | pc t p hmove he => exact headed_alike (headed_pcMove hh hmove) he
  | serve t j w hfree hpc hpc' _ hserved hwoke =>
    exact headed_serve ho ho' hh (ho.suspended_none hpc rfl hfree) hpc hpc' hserved hwoke
  | lock t j w hfree hpc he =>
    subst he
    exact headed_lock ho hh (ho.suspended_none hpc rfl hfree) hpc rfl rfl
  | place t j w hpc he =>
    subst he
    exact headed_place hh hpc rfl rfl
  | unlockTx t j w after hpc he =>
    subst he
    refine headed_unlock ho ho' hh rfl ?_ ?_ nofun ?_
    · rw [hpc]
      cases after <;> rfl
    · rw [hpc]
      cases after <;> rfl
    · cases sd with
      | receivers => exact Or.inl ⟨rfl, rfl, rfl⟩
      | senders => exact Or.inr ⟨rfl, rfl, rfl⟩
  | unlockRx t j w after hpc he =>
    subst he
    refine headed_unlock ho ho' hh rfl ?_ ?_ nofun ?_
    · rw [hpc]
      cases after <;> rfl
    · rw [hpc]
      cases after <;> rfl
    · cases sd with
      | receivers => exact Or.inr ⟨rfl, rfl, rfl⟩
      | senders => exact Or.inl ⟨rfl, rfl, rfl⟩
  | resume t j w after hpc hpc' _ hq =>
    refine headed_unlock ho ho' hh hpc' ?_ ?_ ?_ (Or.inr (hq ▸ ⟨rfl, rfl, rfl⟩))
    · rw [hpc]
      cases after <;> rfl
    · rw [hpc]
      cases after <;> rfl
    · cases after <;> nofun
  | tick t j _ he => exact he ▸ headed_tick hh t j
  | isr sd' hpc _ hserved hother => exact headed_isr ho ho' hh hpc hserved hother

end Steps

section Progress

variable {prio : τ → Nat} {s : QueueSys α τ}

/-- A task that is on its way can go on as soon as the scheduler runs. -/
theorem step_of_heading {sd : QueueSide} {t : τ} (hnone : s.suspended = none) (h : s.heading sd t = true) (timedOut : Bool) :
    queueStep prio s (.step t timedOut) ≠ none := by
  intro hs
  rw [queueStep, hnone] at hs
  simp only [task] at hs
  split at hs
  · rename_i hpc
    rw [heading, hpc] at h
    cases h
  · cases hs
  · cases hs
  · split at hs
    · cases hs
    · split at hs <;> cases hs
  · cases hs
  · cases hs
  · cases hs
  · cases hs
  · cases hs
  · cases hs
  · rename_i j w hpc
    split at hs
    · rename_i hmem
      rw [waitingList_eq] at hmem
      rw [heading, hpc] at h
      obtain ⟨hsd, hnot⟩ := (Bool.and_eq_true _ _).mp h
      obtain rfl : j.side = sd := of_decide_eq_true hsd
      rw [decide_eq_true hmem] at hnot
      cases hnot
    · cases hs

/-- A task that has the scheduler suspended can go on. -/
theorem step_of_suspended (ho : s.Orderly) {t : τ} (hsome : s.suspended = some t) (timedOut : Bool) :
    queueStep prio s (.step t timedOut) ≠ none := by
  intro hs
  have hpc := (ho.suspended t).mpr hsome
  rw [queueStep, hsome] at hs
  simp only [if_true, task] at hs
  split at hs
  · rename_i h
    rw [h] at hpc
    cases hpc
  · cases hs
  · cases hs
  · split at hs
    · cases hs
    · split at hs <;> cases hs
  · cases hs
  · cases hs
  · cases hs
  · cases hs
  · cases hs
  · cases hs
  · rename_i j w h
    rw [h] at hpc
    cases hpc

end Progress

section Runs

variable [Fintype τ] {prio : τ → Nat} {s : QueueSys α τ}

theorem headed_init (storage : Nat → α) (n : Nat) (sd : QueueSide) : (QueueSys.init storage n : QueueSys α τ).Headed sd := by
  rintro (h | ⟨t, ht⟩)
  · cases sd <;> exact absurd rfl h
  · cases ht

theorem headed_of_reaches {storage : Nat → α} {n : Nat} (hn : 0 < n)
    (h : Reaches (queueStep prio) (AnyStep _ _) (QueueSys.init storage n) s) : s.Orderly ∧ ∀ sd, s.Headed sd := by
  have hinv : QueueOrderAux.Delivers n s ∧ s.Orderly ∧ ∀ sd, s.Headed sd := by
    refine h.invariant (fun s => QueueOrderAux.Delivers n s ∧ s.Orderly ∧ ∀ sd, s.Headed sd) ?_ ?_
    · exact ⟨QueueOrderAux.delivers_init storage hn, orderly_init storage n, headed_init storage n⟩
    · intro s a s' hi _ hs
      obtain ⟨hd, ho, hh⟩ := hi
      have hmove := queueStep_move hd.wf.count hs
      exact ⟨QueueOrderAux.delivers_step hd (queueStep_effect hd.patient hs), orderly_move ho hmove,
        fun sd => headed_move ho (hh sd) hmove⟩
  exact hinv.2

theorem headingCount_eq_zero {sd : QueueSide} (h : ∀ t, s.heading sd t ≠ true) : s.headingCount sd = 0 := by
  rw [headingCount, Finset.card_eq_zero, Finset.filter_eq_empty_iff]
  exact fun t _ => h t

end Runs

end QueueWakeupsAux

open QueueSys QueueMovesAux QueueWakeupsAux in
/-- In every interleaving of tasks and interrupt handlers: while the scheduler runs and a receiver waits, there are at least as many
receivers on their way as messages, and so for senders and free places. When no task can go on, a receiver that waits finds no message
to be there, and a sender that waits no free place. -/
theorem queue_no_lost_wakeup [Fintype τ] (prio : τ → Nat) (storage : Nat → α) (n : Nat) (hn : 0 < n) (s : QueueSys α τ)
    (h : Reaches (queueStep prio) (AnyStep _ _) (QueueSys.init storage n) s) :
    (s.suspended = none → ∀ sd, s.queue.waiters sd ≠ [] → s.queue.available sd ≤ s.headingCount sd) ∧
      ((∀ t timedOut, queueStep prio s (.step t timedOut) = none) →
        (s.queue.xTasksWaitingToReceive ≠ [] → s.queue.uxMessagesWaiting = 0) ∧
          (s.queue.xTasksWaitingToSend ≠ [] → s.queue.uxMessagesWaiting = n)) := by
  obtain ⟨ho, hh⟩ := headed_of_reaches hn h
  have hcount : s.suspended = none → ∀ sd, s.queue.waiters sd ≠ [] → s.queue.available sd ≤ s.headingCount sd := by
    intro hnone sd hne
    have := hh sd (Or.inl hne)
    rw [ho.unlocked sd (held_of_none hnone)] at this
    exact this
  refine ⟨hcount, ?_⟩
  intro hstuck
  have hnone : s.suspended = none := by
    cases hs : s.suspended with
    | none => rfl
    | some t => exact absurd (hstuck t false) (step_of_suspended ho hs false)
  have hzero : ∀ sd, s.headingCount sd = 0 :=
    fun sd => headingCount_eq_zero fun t ht => absurd (hstuck t false) (step_of_heading hnone ht false)
  have hd := (QueueOrderAux.reports_of_reaches hn h).1
  constructor
  · intro hne
    have := hcount hnone .receivers hne
    rw [hzero] at this
    exact Nat.le_zero.mp this
  · intro hne
    have hfree : s.queue.uxLength - s.queue.uxMessagesWaiting ≤ 0 := by
      have := hcount hnone .senders hne
      rwa [hzero] at this
    have := hd.wf.count
    have := hd.length
    omega

/-- Two tasks block on an empty queue; a message comes while the second still holds the queue locked. It goes to the first, and the other
one stays in the list of an empty queue. -/
theorem queue_no_lost_wakeup_two :
    ∃ s : QueueSys Nat Bool, Reaches (queueStep fun _ => 0) (AnyStep _ _) (QueueSys.init (fun _ => 0) 2) s ∧
      s.queue.xTasksWaitingToReceive = [false] ∧ s.history = [.put 7 false, .got 7] ∧ s.queue.uxMessagesWaiting = 0 := by
  obtain ⟨s, hs, hp⟩ := exists_reaches_of_exec (queueStep fun _ : Bool => 0) (fun _ _ => true) (QueueSys.init (fun _ => 0) 2)
    (.call true .receive .forever :: List.replicate 7 (.step true false) ++ .call false .receive .forever ::
      List.replicate 3 (.step false false) ++ .sendFromISR 7 false :: List.replicate 4 (.step false false) ++
      List.replicate 2 (.step true false))
    (fun s => s.queue.xTasksWaitingToReceive == [false] && s.history == [.put 7 false, .got 7] &&
      decide (∀ t timedOut, (queueStep (fun _ => 0) s (.step t timedOut)).isNone = true)) (by decide +kernel)
  have hr : Reaches (queueStep fun _ : Bool => 0) (AnyStep _ _) (QueueSys.init (fun _ => 0) 2) s := hs.mono fun _ _ _ => trivial
  simp only [Bool.and_eq_true, beq_iff_eq, decide_eq_true_eq, Option.isNone_iff_eq_none] at hp
  obtain ⟨⟨hlist, hhist⟩, hstuck⟩ := hp
  exact ⟨s, hr, hlist, hhist, ((queue_no_lost_wakeup _ _ 2 Nat.two_pos s hr).2 hstuck).1 (hlist ▸ nofun)⟩

end SaymaFirmware
