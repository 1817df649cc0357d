import SaymaFirmware.Lemmas.QueueMoves

/-!
# Who holds a queue locked

At most one task has the scheduler suspended, and the two counts of the queue are in use exactly while it holds the queue locked. A task
is in a list of waiting tasks at most once, and only between putting itself there and looking at the queue again. Every move keeps this
(`orderly_move`).
-/

namespace SaymaFirmware

variable {α τ : Type*}

namespace QueuePc

/-- The task has the scheduler suspended. -/
def suspends : QueuePc α → Bool
  | .locked _ _ | .placing _ _ | .unlockTx _ _ _ | .unlockRx _ _ _ | .resume _ _ _ => true
  | _ => false

/-- The task holds the lock in which operations for the side `sd` are counted. -/
def holds (sd : QueueSide) : QueuePc α → Bool
  | .locked _ _ | .placing _ _ | .unlockTx _ _ _ => true
  | .unlockRx _ _ _ => sd = .senders
  | _ => false

/-- The task has found nothing and will put itself into the list. -/
def entering (sd : QueueSide) : QueuePc α → Bool
  | .placing j _ => j.side = sd
  | _ => false

/-- The task has put itself into the list, and has not looked at the queue again. -/
def entered (sd : QueueSide) : QueuePc α → Bool
  | .unlockTx j _ .block | .unlockRx j _ .block | .resume j _ .block | .waiting j _ => j.side = sd
  | _ => false

/-- The task will look at the queue without waiting before that. -/
def looking (sd : QueueSide) : QueuePc α → Bool
  | .unlockTx j _ .retry | .unlockRx j _ .retry | .resume j _ .retry | .attempt j _ => j.side = sd
  | _ => false

end QueuePc

namespace QueueSys

/-- The lock for the side `sd` is held. -/
def held (s : QueueSys α τ) (sd : QueueSide) : Bool := s.suspended.any fun t => (s.pc t).holds sd

/-- The lists of waiting tasks and the locks are what the tasks' positions say. -/
structure Orderly (s : QueueSys α τ) : Prop where
  suspended : ∀ t, (s.pc t).suspends = true ↔ s.suspended = some t
  locked : ∀ sd, s.held sd = true → 0 ≤ s.queue.lock sd
  unlocked : ∀ sd, s.held sd = false → s.queue.lock sd = queueUnlocked
  nodup : ∀ sd, (s.queue.waiters sd).Nodup
  entered : ∀ sd, ∀ t ∈ s.queue.waiters sd, (s.pc t).entered sd = true

variable {s s' : QueueSys α τ} {t u : τ} {sd : QueueSide} {p : QueuePc α}

/-- The locks are held by the task that has the scheduler suspended. -/
theorem held_of_some (h : s.suspended = some t) : s.held sd = (s.pc t).holds sd := by
  rw [held, h]
  rfl

/-- While the scheduler runs, no lock is held. -/
theorem held_of_none (h : s.suspended = none) : s.held sd = false := by
  rw [held, h]
  rfl

/-- Who holds a lock has the scheduler suspended. -/
theorem suspends_of_holds (h : p.holds sd = true) : p.suspends = true := by
  cases p <;> first | rfl | cases h

/-- Who is about to enter a list holds its lock. -/
theorem holds_of_entering (h : p.entering sd = true) : p.holds sd = true := by
  cases p <;> first | rfl | cases h

namespace Orderly

/-- A task in the locked part is the one that has the scheduler suspended. -/
theorem suspended_of_pc (ho : s.Orderly) (hpc : s.pc t = p) (hp : p.suspends = true) : s.suspended = some t :=
  (ho.suspended t).mp (hpc ▸ hp)

/-- A task outside of it is not. -/
theorem suspended_ne_of_pc (ho : s.Orderly) (hpc : s.pc t = p) (hp : p.suspends = false) : s.suspended ≠ some t := by
  intro h
  rw [← ho.suspended t, hpc, hp] at h
  cases h

/-- A task outside the locked part that may run finds the scheduler running. -/
theorem suspended_none (ho : s.Orderly) (hpc : s.pc t = p) (hp : p.suspends = false)
    (hfree : s.suspended = none ∨ s.suspended = some t) : s.suspended = none :=
  hfree.resolve_right (ho.suspended_ne_of_pc hpc hp)

/-- While the lock of a side is not held, nobody is about to enter its list. -/
theorem not_entering (ho : s.Orderly) (h : s.held sd = false) (u : τ) : (s.pc u).entering sd ≠ true := by
  intro hu
  have hholds := holds_of_entering hu
  rw [held_of_some ((ho.suspended u).mp (suspends_of_holds hholds)), hholds] at h
  cases h

/-- The record has no part in the order. -/
theorem alike (ho : s.Orderly) (h : s.Alike s') : s'.Orderly := by
  obtain ⟨hq, hpc, hsus⟩ := h
  have hheld : ∀ sd, s'.held sd = s.held sd := fun sd => by rw [held, held, hsus, hpc]
  exact ⟨fun t => by rw [hpc, hsus]; exact ho.suspended t, fun sd hh => by rw [hq]; exact ho.locked sd (hheld sd ▸ hh),
    fun sd hh => by rw [hq]; exact ho.unlocked sd (hheld sd ▸ hh), hq ▸ ho.nodup, by rw [hq, hpc]; exact ho.entered⟩

/-- A count that is not in use says that the lock is not held. -/
theorem held_of_unlocked (ho : s.Orderly) (h : s.queue.lock sd = queueUnlocked) : s.held sd = false := by
  by_contra hh
  have := ho.locked sd (by simpa using hh)
  rw [h, queueUnlocked] at this
  omega

end Orderly

/-- In a new queue nobody waits, and it is not locked. -/
theorem orderly_init (storage : Nat → α) (n : Nat) : (QueueSys.init storage n : QueueSys α τ).Orderly where
  suspended _ := ⟨nofun, nofun⟩
  locked _ h := by cases h
  unlocked sd _ := by cases sd <;> rfl
  nodup sd := by cases sd <;> exact List.nodup_nil
  entered sd t h := by cases sd <;> cases h

variable [DecidableEq τ]

/-- A step of one task keeps who has the scheduler suspended when the task's part in it is as before. -/
theorem Orderly.suspended_setPc (ho : s.Orderly) (hpc : s'.pc = (s.setPc t p).pc) (hsus : s'.suspended = s.suspended)
    (hp : p.suspends = (s.pc t).suspends) (u : τ) : (s'.pc u).suspends = true ↔ s'.suspended = some u := by
  rw [hpc, hsus, ← ho.suspended u]
  by_cases hu : u = t
  · rw [hu, pc_setPc_self, hp]
  · rw [pc_setPc_ne s p hu]

/-- A step of one task keeps the locks held when the task holds what it held before. -/
theorem held_setPc (hpc : s'.pc = (s.setPc t p).pc) (hsus : s'.suspended = s.suspended)
    (hp : p.holds sd = (s.pc t).holds sd) : s'.held sd = s.held sd := by
  rw [held, held, hsus, hpc]
  congr 1
  funext u
  by_cases hu : u = t
  · rw [hu, pc_setPc_self, hp]
  · rw [pc_setPc_ne s p hu]

/-- A step that puts nobody into a list keeps the lists orderly when the task that took it stays entered if it is still there. -/
theorem Orderly.entered_setPc (ho : s.Orderly) (hpc : s'.pc = (s.setPc t p).pc)
    (hsub : ∀ sd, (s'.queue.waiters sd).Sublist (s.queue.waiters sd))
    (hp : ∀ sd, t ∈ s.queue.waiters sd → (s.pc t).entered sd = true → p.entered sd = true) (sd : QueueSide) (u : τ)
    (hu : u ∈ s'.queue.waiters sd) : (s'.pc u).entered sd = true := by
  have hmem := (hsub sd).subset hu
  have hent := ho.entered sd u hmem
  rw [hpc]
  by_cases hut : u = t
  · subst hut
    rw [pc_setPc_self]
    exact hp sd hmem hent
  · rw [pc_setPc_ne s p hut]
    exact hent

/-- The rule for a step of a task that leaves the scheduler and the locks as they are. -/
theorem Orderly.setPc_same (ho : s.Orderly) (hpc : s'.pc = (s.setPc t p).pc) (hsus : s'.suspended = s.suspended)
    (hp : p.suspends = (s.pc t).suspends) (hh : ∀ sd, p.holds sd = (s.pc t).holds sd)
    (hlock : ∀ sd, s'.queue.lock sd = s.queue.lock sd) (hsub : ∀ sd, (s'.queue.waiters sd).Sublist (s.queue.waiters sd))
    (hent : ∀ sd, t ∈ s.queue.waiters sd → (s.pc t).entered sd = true → p.entered sd = true) : s'.Orderly where
  suspended := ho.suspended_setPc hpc hsus hp
  locked sd h := by
    rw [hlock]
    exact ho.locked sd (held_setPc hpc hsus (hh sd) ▸ h)
  unlocked sd h := by
    rw [hlock]
    exact ho.unlocked sd (held_setPc hpc hsus (hh sd) ▸ h)
  nodup sd := (ho.nodup sd).sublist (hsub sd)
  entered := ho.entered_setPc hpc hsub hent

end QueueSys

/-! ## Moves keep the order -/

namespace QueueLocksAux

open QueueSys

variable {prio : τ → Nat} {s s' : QueueSys α τ} {t : τ} {sd : QueueSide} {p : QueuePc α}

/-- A list of waiting tasks, with one more. -/
theorem mem_vListInsert {u : τ} {l : List τ} : u ∈ vListInsert prio t l ↔ u = t ∨ u ∈ l := by
  induction l with
  | nil => rw [vListInsert, List.mem_singleton, or_iff_left List.not_mem_nil]
  | cons v l ih =>
    rw [vListInsert]
    split
    · rw [List.mem_cons, ih, List.mem_cons, or_left_comm]
    · exact List.mem_cons

/-- No task is in it twice. -/
theorem nodup_vListInsert {l : List τ} (hl : l.Nodup) (ht : t ∉ l) : (vListInsert prio t l).Nodup := by
  induction l with
  | nil => exact List.nodup_cons.mpr ⟨List.not_mem_nil, List.nodup_nil⟩
  | cons v l ih =>
    rw [vListInsert]
    split
    · have hcons := List.nodup_cons.mp hl
      refine List.nodup_cons.mpr ⟨?_, ih hcons.2 fun h => ht (List.mem_cons_of_mem v h)⟩
      rw [mem_vListInsert, not_or]
      exact ⟨fun h => ht (h ▸ List.mem_cons_self), hcons.1⟩
    · exact List.nodup_cons.mpr ⟨ht, hl⟩

/-- A task that moves on without touching the queue has the same part in the locks, and is in no list any more. -/
theorem pcMove_same (h : PcMove s t p) :
    p.suspends = (s.pc t).suspends ∧ (∀ sd, p.holds sd = (s.pc t).holds sd) ∧
      ∀ sd, t ∈ s.queue.waiters sd → (s.pc t).entered sd = true → p.entered sd = true := by
  cases h with
  | woken j w hpc hmem =>
    rw [hpc]
    refine ⟨rfl, fun _ => rfl, ?_⟩
    intro sd ht he
    rw [QueuePc.entered, decide_eq_true_eq] at he
    exact absurd (he ▸ ht) hmem
  | call j w _ hpc => exact hpc ▸ ⟨rfl, fun _ => rfl, fun _ _ he => by cases he⟩
  | giveUp j w hpc | refuse j w hpc | placing j w hpc | timeOut j w hpc | again j w hpc =>
    exact hpc ▸ ⟨rfl, fun _ => rfl, fun _ _ he => by cases he⟩

/-- There are two sides. -/
theorem other_cases (sd sd' : QueueSide) : sd' = sd ∨ sd' = sd.other := by cases sd <;> cases sd' <;> simp [QueueSide.other]

/-- An interrupt handler wakes a task, or counts while the lock is held. -/
theorem orderly_isr (ho : s.Orderly) (hpc : s'.pc = s.pc) (hsus : s'.suspended = s.suspended) (hserved : s.queue.Served s'.queue sd)
    (hother : s.queue.lock sd.other = queueUnlocked ∧ s.queue.Woke s'.queue sd.other ∨ s.queue.Counted s'.queue sd.other) :
    s'.Orderly := by
  have hheld : ∀ sd', s'.held sd' = s.held sd' := fun sd' => by rw [held, held, hsus, hpc]
  have hlock : ∀ sd', s'.queue.lock sd' = s.queue.lock sd' ∨ s.held sd' = true ∧ s'.queue.lock sd' = s.queue.lock sd' + 1 := by
    intro sd'
    rcases other_cases sd sd' with rfl | rfl
    · exact Or.inl hserved.own.2
    · rcases hother with ⟨_, hwoke⟩ | ⟨_, hne, hinc⟩
      · exact Or.inl hwoke.2
      · refine Or.inr ⟨?_, hinc⟩
        by_contra hh
        exact hne (ho.unlocked _ (by simpa using hh))
  have hsub : ∀ sd', (s'.queue.waiters sd').Sublist (s.queue.waiters sd') := by
    intro sd'
    rcases other_cases sd sd' with rfl | rfl
    · exact hserved.own.1 ▸ List.Sublist.refl _
    · rcases hother with ⟨_, hwoke⟩ | ⟨hkeep, _⟩
      · exact hwoke.1 ▸ List.tail_sublist _
      · exact hkeep ▸ List.Sublist.refl _
  refine ⟨fun t => by rw [hpc, hsus]; exact ho.suspended t, ?_, ?_, fun sd' => (ho.nodup sd').sublist (hsub sd'),
    fun sd' t ht => hpc ▸ ho.entered sd' t ((hsub sd').subset ht)⟩
  · intro sd' h
    have hle := ho.locked sd' (hheld sd' ▸ h)
    rcases hlock sd' with he | ⟨_, he⟩ <;> rw [he] <;> omega
  · intro sd' h
    rw [hheld] at h
    rcases hlock sd' with he | ⟨hh, _⟩
    · rw [he]
      exact ho.unlocked sd' h
    · rw [hh] at h
      cases h

/-- A task that has suspended the scheduler holds the locks that its position says. -/
theorem lock_of_pc (ho : s.Orderly) (hpc : s.pc t = p) (hp : p.suspends = true) (sd : QueueSide) :
    (p.holds sd = true → 0 ≤ s.queue.lock sd) ∧ (p.holds sd = false → s.queue.lock sd = queueUnlocked) := by
  have hheld : s.held sd = p.holds sd := hpc ▸ held_of_some (ho.suspended_of_pc hpc hp)
  exact ⟨fun h => ho.locked sd (hheld.trans h), fun h => ho.unlocked sd (hheld.trans h)⟩

/-- The task is put into the list of its side. -/
theorem place_waiters (prio : τ → Nat) (s : QueueSys α τ) (t : τ) (j : QueueJob α) (sd : QueueSide) :
    j.side = sd ∧ (s.place prio t j).waiters sd = vListInsert prio t (s.queue.waiters sd) ∨
      j.side ≠ sd ∧ (s.place prio t j).waiters sd = s.queue.waiters sd := by
  cases j <;> cases sd <;> first | exact Or.inl ⟨rfl, rfl⟩ | exact Or.inr ⟨nofun, rfl⟩

/-- Entering a list leaves the counts. -/
theorem place_lock (prio : τ → Nat) (s : QueueSys α τ) (t : τ) (j : QueueJob α) (sd : QueueSide) :
    (s.place prio t j).lock sd = s.queue.lock sd := by
  cases j <;> cases sd <;> rfl

/-- A task that puts itself into a list is in none. -/
theorem not_mem_of_placing (ho : s.Orderly) {j : QueueJob α} {w : QueueWait} (hpc : s.pc t = .placing j w) (sd : QueueSide) :
    t ∉ s.queue.waiters sd := by
  intro ht
  have hent := ho.entered sd t ht
  rw [hpc] at hent
  cases hent

variable [DecidableEq τ]

/-- A task that is served wakes one of the other side. -/
theorem orderly_serve (ho : s.Orderly) {j : QueueJob α} {w : QueueWait} (hpc : s.pc t = .attempt j w)
    (hpc' : s'.pc = (s.setPc t .idle).pc) (hsus : s'.suspended = s.suspended) (hserved : s.queue.Served s'.queue j.side)
    (hwoke : s.queue.Woke s'.queue j.side.other) : s'.Orderly := by
  refine ho.setPc_same hpc' hsus (by rw [hpc]; rfl) (fun sd => by rw [hpc]; rfl) ?_ ?_ ?_
  · intro sd
    rcases other_cases j.side sd with rfl | rfl
    · exact hserved.own.2
    · exact hwoke.2
  · intro sd
    rcases other_cases j.side sd with rfl | rfl
    · exact hserved.own.1 ▸ List.Sublist.refl _
    · exact hwoke.1 ▸ List.tail_sublist _
  · intro sd _ he
    rw [hpc] at he
    cases he

/-- A task that locks the queue finds it unlocked. -/
theorem orderly_lock (ho : s.Orderly) {j : QueueJob α} {w : QueueWait} (hnone : s.suspended = none) (hpc : s.pc t = .refused j w) :
    ({ s.setPc t (.locked j w) with queue := s.queue.prvLockQueue, suspended := some t } : QueueSys α τ).Orderly where
  suspended u := by
    by_cases hu : u = t
    · simp only [hu, pc_setPc_self, QueuePc.suspends]
    · simp only [pc_setPc_ne s _ hu, ho.suspended u, hnone, Option.some.injEq, eq_comm (a := t), hu, reduceCtorEq]
  locked sd _ := by
    have := ho.unlocked sd (held_of_none hnone)
    cases sd <;> simp only [RtosQueue.lock] at this <;>
      simp only [RtosQueue.lock, RtosQueue.prvLockQueue, this, if_true, queueLockedUnmodified, Int.le_refl]
  unlocked sd h := by
    rw [held_of_some rfl, pc_setPc_self] at h
    cases h
  nodup := ho.nodup
  entered sd u hu := by
    have hent := ho.entered sd u hu
    by_cases hut : u = t
    · rw [hut, hpc] at hent
      cases hent
    · exact (pc_setPc_ne s _ hut).symm ▸ hent

/-- A task that enters a list was in none. -/
theorem orderly_place (ho : s.Orderly) {j : QueueJob α} {w : QueueWait} (hpc : s.pc t = .placing j w)
    (hpc' : s'.pc = (s.setPc t (.unlockTx j w .block)).pc) (hsus : s'.suspended = s.suspended) (hq : s'.queue = s.place prio t j) :
    s'.Orderly := by
  have hsome := ho.suspended_of_pc hpc rfl
  refine ⟨ho.suspended_setPc hpc' hsus (by rw [hpc]; rfl), ?_, ?_, ?_, ?_⟩
  · intro sd _
    rw [hq, place_lock]
    exact (lock_of_pc ho hpc rfl sd).1 rfl
  · intro sd h
    rw [held_of_some (hsus.trans hsome), hpc', pc_setPc_self] at h
    cases h
  · intro sd
    rw [hq]
    rcases place_waiters prio s t j sd with ⟨_, h⟩ | ⟨_, h⟩ <;> rw [h]
    · exact nodup_vListInsert (ho.nodup sd) (not_mem_of_placing ho hpc sd)
    · exact ho.nodup sd
  · intro sd u hu
    rw [hq] at hu
    rw [hpc']
    by_cases hut : u = t
    · subst hut
      rw [pc_setPc_self, QueuePc.entered, decide_eq_true_eq]
      rcases place_waiters prio s u j sd with ⟨hsd, _⟩ | ⟨_, h⟩
      · exact hsd
      · exact absurd (h ▸ hu) (not_mem_of_placing ho hpc sd)
    · rw [pc_setPc_ne s _ hut]
      rcases place_waiters prio s t j sd with ⟨_, h⟩ | ⟨_, h⟩ <;> rw [h] at hu
      · exact ho.entered sd u ((mem_vListInsert.mp hu).resolve_left hut)
      · exact ho.entered sd u hu

/-- The rule for a step of the task that has the scheduler suspended. -/
theorem orderly_unlock (ho : s.Orderly) (hsome : s.suspended = some t) (hpc' : s'.pc = (s.setPc t p).pc)
    (hsus : s'.suspended = s.suspended) (hp : p.suspends = true)
    (hlock : ∀ sd, (p.holds sd = true → 0 ≤ s'.queue.lock sd) ∧ (p.holds sd = false → s'.queue.lock sd = queueUnlocked))
    (hsub : ∀ sd, (s'.queue.waiters sd).Sublist (s.queue.waiters sd))
    (hent : ∀ sd, (s.pc t).entered sd = true → p.entered sd = true) : s'.Orderly := by
  have hheld : ∀ sd, s'.held sd = p.holds sd := by
    intro sd
    rw [held_of_some (hsus.trans hsome), hpc', pc_setPc_self]
  have hsuspends := (ho.suspended t).mpr hsome
  exact ⟨ho.suspended_setPc hpc' hsus (hp.trans hsuspends.symm), fun sd h => (hlock sd).1 (hheld sd ▸ h),
    fun sd h => (hlock sd).2 (hheld sd ▸ h), fun sd => (ho.nodup sd).sublist (hsub sd),
    ho.entered_setPc hpc' hsub fun sd _ => hent sd⟩

/-- The first half of unlocking gives up the lock for receivers. -/
theorem orderly_unlockTx (ho : s.Orderly) {j : QueueJob α} {w : QueueWait} {after : QueueAfter} (hpc : s.pc t = .unlockTx j w after)
    (hpc' : s'.pc = (s.setPc t (.unlockRx j w after)).pc) (hsus : s'.suspended = s.suspended) (hq : s'.queue = s.queue.unlockTx) :
    s'.Orderly := by
  refine orderly_unlock ho (ho.suspended_of_pc hpc rfl) hpc' hsus rfl ?_ ?_ ?_
  · intro sd
    have hlock := (lock_of_pc ho hpc rfl sd).1 rfl
    cases sd with
    | receivers => exact ⟨fun h => (by cases h), fun _ => hq ▸ rfl⟩
    | senders => exact ⟨fun _ => hq ▸ hlock, fun h => (by cases h)⟩
  · intro sd
    rw [hq]
    cases sd with
    | receivers => exact List.drop_sublist _ _
    | senders => exact List.Sublist.refl _
  · intro sd he
    rw [hpc] at he
    cases after <;> exact he

/-- The second half gives up the lock for senders. -/
theorem orderly_unlockRx (ho : s.Orderly) {j : QueueJob α} {w : QueueWait} {after : QueueAfter} (hpc : s.pc t = .unlockRx j w after)
    (hpc' : s'.pc = (s.setPc t (.resume j w after)).pc) (hsus : s'.suspended = s.suspended) (hq : s'.queue = s.queue.unlockRx) :
    s'.Orderly := by
  refine orderly_unlock ho (ho.suspended_of_pc hpc rfl) hpc' hsus rfl ?_ ?_ ?_
  · intro sd
    refine ⟨fun h => (by cases h), fun _ => ?_⟩
    cases sd with
    | receivers => exact hq ▸ (lock_of_pc ho hpc rfl .receivers).2 rfl
    | senders => exact hq ▸ rfl
  · intro sd
    rw [hq]
    cases sd with
    | receivers => exact List.Sublist.refl _
    | senders => exact List.drop_sublist _ _
  · intro sd he
    rw [hpc] at he
    cases after <;> exact he

/-- Then the scheduler runs, and no lock is held. -/
theorem orderly_resume (ho : s.Orderly) {j : QueueJob α} {w : QueueWait} {after : QueueAfter} (hpc : s.pc t = .resume j w after)
    (hpc' : s'.pc = (s.setPc t (after.pc j w)).pc) (hsus : s'.suspended = none) (hq : s'.queue = s.queue) : s'.Orderly := by
  have hsome := ho.suspended_of_pc hpc rfl
  refine ⟨?_, ?_, ?_, hq ▸ ho.nodup, ?_⟩
  · intro u
    rw [hsus, hpc']
    by_cases hu : u = t
    · rw [hu, pc_setPc_self]
      cases after <;> exact ⟨nofun, nofun⟩
    · rw [pc_setPc_ne s _ hu, ho.suspended u, hsome, Option.some.injEq, eq_comm (a := t), iff_false_left hu]
      exact nofun
  · intro sd h
    rw [held_of_none hsus] at h
    cases h
  · intro sd _
    rw [hq]
    exact (lock_of_pc ho hpc rfl sd).2 rfl
  · refine ho.entered_setPc hpc' (fun sd => hq ▸ List.Sublist.refl _) ?_
    intro sd _ he
    rw [hpc] at he
    cases after <;> exact he

/-- The tick interrupt takes the task out of the list of its side. -/
theorem unwait_waiters (s : QueueSys α τ) (t : τ) (j : QueueJob α) (sd : QueueSide) :
    j.side = sd ∧ (s.unwait t j).waiters sd = (s.queue.waiters sd).erase t ∨
      j.side ≠ sd ∧ (s.unwait t j).waiters sd = s.queue.waiters sd := by
  cases j <;> cases sd <;> first | exact Or.inl ⟨rfl, rfl⟩ | exact Or.inr ⟨nofun, rfl⟩

/-- Leaving a list leaves the counts. -/
theorem unwait_lock (s : QueueSys α τ) (t : τ) (j : QueueJob α) (sd : QueueSide) : (s.unwait t j).lock sd = s.queue.lock sd := by
  cases j <;> cases sd <;> rfl

/-- A task that has waited too long leaves its list. -/
theorem orderly_tick (ho : s.Orderly) (t : τ) (j : QueueJob α) : ({ s with queue := s.unwait t j } : QueueSys α τ).Orderly := by
  have hsub : ∀ sd, ((s.unwait t j).waiters sd).Sublist (s.queue.waiters sd) := by
    intro sd
    rcases unwait_waiters s t j sd with ⟨_, h⟩ | ⟨_, h⟩
    · exact h ▸ List.erase_sublist
    · exact h ▸ List.Sublist.refl _
  exact ⟨ho.suspended, fun sd h => unwait_lock s t j sd ▸ ho.locked sd h, fun sd h => unwait_lock s t j sd ▸ ho.unlocked sd h,
    fun sd => (ho.nodup sd).sublist (hsub sd), fun sd u hu => ho.entered sd u ((hsub sd).subset hu)⟩

end QueueLocksAux

open QueueSys QueueLocksAux in
/-- Every move keeps the lists and the locks in order. -/
theorem orderly_move [DecidableEq τ] {prio : τ → Nat} {s s' : QueueSys α τ} (ho : s.Orderly) (h : QueueMove prio s s') : s'.Orderly := by
  cases h with
  | stay he => exact ho.alike he
  | pc t p hmove he =>
    obtain ⟨hsus, hholds, hent⟩ := pcMove_same hmove
    have hset : (s.setPc t p).Orderly := ho.setPc_same rfl rfl hsus hholds (fun _ => rfl) (fun _ => List.Sublist.refl _) hent
    exact hset.alike he
  | serve t j w _ hpc hpc' hsus hserved hwoke => exact orderly_serve ho hpc hpc' hsus hserved hwoke
  | lock t j w hfree hpc he => exact he ▸ orderly_lock ho (ho.suspended_none hpc rfl hfree) hpc
  | place t j w hpc he => subst he; exact orderly_place ho hpc rfl rfl rfl
  | unlockTx t j w after hpc he => subst he; exact orderly_unlockTx ho hpc rfl rfl rfl
  | unlockRx t j w after hpc he => subst he; exact orderly_unlockRx ho hpc rfl rfl rfl
  | resume t j w after hpc hpc' hsus hq => exact orderly_resume ho hpc hpc' hsus hq
  | tick t j _ he => exact he ▸ orderly_tick ho t j
  | isr sd hpc hsus hserved hother => exact orderly_isr ho hpc hsus hserved hother

end SaymaFirmware
