import SaymaFirmware.RtosQueue

/-!
# Calls of a queue and what they return

Each step of the system leaves the storage alone, or a call takes effect and returns in it (`queueStep_effect`). The record of what was
called and returned is kept apart for each task (`callsOf`, `returnsOf`), so that a call can be followed from its start to its result.
-/

namespace SaymaFirmware

variable {α τ : Type*}

namespace QueueReturn

/-- What was called. -/
def job : QueueReturn α → QueueJob α
  | .sent item toFront | .errQueueFull item toFront => .send item toFront
  | .received _ | .errQueueEmpty => .receive

/-- What a call with this result has done to the queue. -/
def event : QueueReturn α → Option (Deque.Event α)
  | .sent item toFront => some (.put item toFront)
  | .received item => some (.got item)
  | .errQueueFull _ _ | .errQueueEmpty => none

/-- The error is true of a queue for `n` items that holds `l`. -/
def ErrorAt (n : Nat) (l : List α) : QueueReturn α → Prop
  | .errQueueFull _ _ => l.length = n
  | .errQueueEmpty => l = []
  | .sent _ _ | .received _ => True

end QueueReturn

namespace QueuePc

/-- The call that a task is in. -/
def inCall : QueuePc α → Option (QueueJob α × QueueWait)
  | .idle => none
  | .attempt j w | .refused j w | .locked j w | .placing j w | .waiting j w => some (j, w)
  | .unlockTx j w _ | .unlockRx j w _ | .resume j w _ => some (j, w)

/-- A task that has not returned at once may wait, and it is about to return an error only after it has waited for some ticks. -/
def Patient : QueuePc α → Prop
  | .idle | .attempt _ _ => True
  | .unlockTx _ w .fail | .unlockRx _ w .fail | .resume _ w .fail => w = .ticks
  | .refused _ w | .locked _ w | .placing _ w | .unlockTx _ w _ | .unlockRx _ w _ | .resume _ w _ | .waiting _ w => w ≠ .no

end QueuePc

/-- What the returned calls have done to the queue, in this order. -/
def eventsOf (l : List (QueueDone α τ)) : List (Deque.Event α) := l.filterMap fun r => r.value.event

/-- One more call has returned. -/
theorem eventsOf_snoc (l : List (QueueDone α τ)) (r : QueueDone α τ) : eventsOf (l ++ [r]) = eventsOf l ++ r.value.event.toList := by
  rw [eventsOf, List.filterMap_append, List.filterMap_cons, List.filterMap_nil]
  cases r.value.event <;> rfl

namespace QueueSys

variable [DecidableEq τ]

/-- The calls that a task has made, in this order. -/
def callsOf (s : QueueSys α τ) (t : τ) : List (QueueJob α × QueueWait) :=
  s.called.filterMap fun c => if c.1 = t then some c.2 else none

/-- The calls of a task that have returned, in this order. -/
def returnsOf (s : QueueSys α τ) (t : τ) : List (QueueJob α × QueueWait) :=
  s.returned.filterMap fun r => if r.caller = some t then some (r.value.job, r.wait) else none

end QueueSys

namespace QueueCallsAux

/-- What a call that returns `value` does to the storage, and what it has found there if it was not to wait. -/
def Acts (q q' : QueueData α) (w : QueueWait) : QueueReturn α → Prop
  | .sent item toFront => q.uxMessagesWaiting < q.uxLength ∧ q' = q.prvCopyDataToQueue item toFront
  | .received item => 0 < q.uxMessagesWaiting ∧ item = q.prvCopyDataFromQueue.1 ∧ q' = q.prvCopyDataFromQueue.2
  | .errQueueFull _ _ => q' = q ∧ (w = .no → q.uxLength ≤ q.uxMessagesWaiting)
  | .errQueueEmpty => q' = q ∧ (w = .no → q.uxMessagesWaiting = 0)

/-- A call returns. -/
structure Returns (s s' : QueueSys α τ) (r : QueueDone α τ) : Prop where
  acts : Acts s.queue.toQueueData s'.queue.toQueueData r.wait r.value
  history : s'.history = s.history ++ r.value.event.toList
  called : s'.called = s.called
  returned : s'.returned = s.returned ++ [r]
  own : ∀ t, r.caller = some t → (s.pc t).inCall = some (r.value.job, r.wait) ∧ s'.pc t = .idle
  others : ∀ t, r.caller ≠ some t → s'.pc t = s.pc t
  forever : r.wait = .forever → r.value.event ≠ none

/-- Nothing is done that anybody but the tasks can see. -/
structure Silent (s s' : QueueSys α τ) : Prop where
  queue : s'.queue.toQueueData = s.queue.toQueueData
  history : s'.history = s.history
  returned : s'.returned = s.returned

/-- What a step does to the storage and to the record. -/
inductive Effect (s s' : QueueSys α τ) : Prop where
  | call (t : τ) (j : QueueJob α) (w : QueueWait) : Silent s s' → s'.called = s.called ++ [(t, j, w)] → s.pc t = .idle →
      s'.pc t = .attempt j w → (∀ u, u ≠ t → s'.pc u = s.pc u) → Effect s s'
  | goOn (t : τ) : Silent s s' → s'.called = s.called → (s'.pc t).inCall = (s.pc t).inCall → (s'.pc t).Patient →
      (∀ u, u ≠ t → s'.pc u = s.pc u) → Effect s s'
  | returns (r : QueueDone α τ) : Returns s s' r → Effect s s'

variable {prio : τ → Nat} {s s' : QueueSys α τ} {t : τ}

/-- The error is one of the call. -/
theorem job_error (j : QueueJob α) : j.error.job = j := by cases j <;> rfl

/-- A call with an error has done nothing. -/
theorem event_error (j : QueueJob α) : j.error.event = none := by cases j <;> rfl

/-- A call that has waited too long leaves the storage as it is. -/
theorem acts_error (q : QueueData α) (j : QueueJob α) : Acts q q .ticks j.error := by
  cases j <;> exact ⟨rfl, nofun⟩

/-- The rule for the call of an interrupt handler. -/
theorem returns_isr {v : QueueReturn α} (hpc : s'.pc = s.pc) (hret : s'.returned = s.returned ++ [⟨none, .no, v⟩])
    (hcalled : s'.called = s.called) (hacts : Acts s.queue.toQueueData s'.queue.toQueueData .no v)
    (hhist : s'.history = s.history ++ v.event.toList) : Effect s s' :=
  .returns ⟨none, .no, v⟩ ⟨hacts, hhist, hcalled, hret, nofun, fun t _ => by rw [hpc], nofun⟩

variable [DecidableEq τ]

/-- The rule for a task that goes on in its call. -/
theorem goOn_setPc {p : QueuePc α} (hpc : s'.pc = (s.setPc t p).pc) (hin : (s.pc t).inCall = p.inCall) (hpat : p.Patient)
    (hsilent : Silent s s') (hcalled : s'.called = s.called) : Effect s s' := by
  refine .goOn t hsilent hcalled ?_ ?_ fun u hu => ?_ <;> rw [hpc]
  · rw [QueueSys.pc_setPc_self, hin]
  · rw [QueueSys.pc_setPc_self]
    exact hpat
  · exact QueueSys.pc_setPc_ne s p hu

/-- The rule for the call of a task that returns. -/
theorem returns_finish {w : QueueWait} {v : QueueReturn α} (hin : (s.pc t).inCall = some (v.job, w))
    (hpc : s'.pc = (s.finish t w v).pc) (hret : s'.returned = (s.finish t w v).returned) (hcalled : s'.called = s.called)
    (hacts : Acts s.queue.toQueueData s'.queue.toQueueData w v) (hhist : s'.history = s.history ++ v.event.toList)
    (hever : w = .forever → v.event ≠ none) : Effect s s' := by
  refine .returns ⟨some t, w, v⟩ ⟨hacts, hhist, hcalled, hret, ?_, ?_, hever⟩
  · intro u hu
    obtain rfl := Option.some.inj hu
    exact ⟨hin, by rw [hpc]; exact QueueSys.pc_setPc_self s _ _⟩
  · intro u hu
    rw [hpc]
    refine QueueSys.pc_setPc_ne s _ ?_
    rintro rfl
    exact hu rfl

/-- At the top of the loop a call returns, or it may wait. -/
theorem attempt_effect {j : QueueJob α} {w : QueueWait} (hpc : s.pc t = .attempt j w) : Effect s (s.attempt t j w) := by
  have hin : (s.pc t).inCall = some (j, w) := by rw [hpc, QueuePc.inCall]
  have hrefuse : w ≠ .no → Effect s (s.setPc t (.refused j w)) := fun hw => goOn_setPc rfl hin hw ⟨rfl, rfl, rfl⟩ rfl
  cases j with
  | send item toFront =>
    rw [QueueSys.attempt]
    split
    · rename_i hlt
      exact returns_finish (v := .sent item toFront) hin rfl rfl rfl ⟨hlt, rfl⟩ rfl fun _ => nofun
    · rename_i hfull
      split
      · rename_i hno
        subst hno
        exact returns_finish (v := .errQueueFull item toFront) hin rfl rfl rfl ⟨rfl, fun _ => Nat.le_of_not_lt hfull⟩
          (List.append_nil _).symm nofun
      · rename_i hw
        exact hrefuse hw
  | receive =>
    rw [QueueSys.attempt]
    split
    · rename_i hpos
      exact returns_finish (v := .received s.queue.receive.1) hin rfl rfl rfl ⟨hpos, rfl, rfl⟩ rfl fun _ => nofun
    · rename_i hempty
      split
      · rename_i hno
        subst hno
        exact returns_finish (v := .errQueueEmpty) hin rfl rfl rfl ⟨rfl, fun _ => Nat.eq_zero_of_not_pos hempty⟩
          (List.append_nil _).symm nofun
      · rename_i hw
        exact hrefuse hw

/-- Each step of a task goes on in its call or returns from it. -/
theorem task_effect {timedOut : Bool} (hp : (s.pc t).Patient) (h : s.task prio t timedOut = some s') : Effect s s' := by
  unfold QueueSys.task at h
  split at h <;> rename_i hpc
  · cases h
  · obtain rfl := Option.some.inj h
    exact attempt_effect hpc
  · obtain rfl := Option.some.inj h
    rw [hpc] at hp
    exact goOn_setPc rfl (by rw [hpc]; rfl) hp ⟨rfl, rfl, rfl⟩ rfl
  · rename_i j w
    rw [hpc] at hp
    split at h
    · rename_i hout
      obtain rfl := Option.some.inj h
      refine goOn_setPc rfl (by rw [hpc]; rfl) ?_ ⟨rfl, rfl, rfl⟩ rfl
      -- a call that waits at all, but not for ever
      cases w with
      | no => exact absurd rfl hp
      | ticks => exact rfl
      | forever => simp at hout
    · split at h <;> obtain rfl := Option.some.inj h <;> exact goOn_setPc rfl (by rw [hpc]; rfl) hp ⟨rfl, rfl, rfl⟩ rfl
  · rename_i j w
    obtain rfl := Option.some.inj h
    rw [hpc] at hp
    refine goOn_setPc rfl (by rw [hpc]; rfl) hp ⟨?_, rfl, rfl⟩ rfl
    cases j <;> rfl
  · rename_i j w after
    obtain rfl := Option.some.inj h
    rw [hpc] at hp
    refine goOn_setPc rfl (by rw [hpc]; rfl) ?_ ⟨rfl, rfl, rfl⟩ rfl
    cases after <;> exact hp
  · rename_i j w after
    obtain rfl := Option.some.inj h
    rw [hpc] at hp
    refine goOn_setPc rfl (by rw [hpc]; rfl) ?_ ⟨rfl, rfl, rfl⟩ rfl
    cases after <;> exact hp
  · obtain rfl := Option.some.inj h
    rw [hpc] at hp
    exact goOn_setPc rfl (by rw [hpc]; rfl) trivial ⟨rfl, rfl, rfl⟩ rfl
  · obtain rfl := Option.some.inj h
    rw [hpc] at hp
    exact goOn_setPc rfl (by rw [hpc]; rfl) hp ⟨rfl, rfl, rfl⟩ rfl
  · rename_i j w
    obtain rfl := Option.some.inj h
    rw [hpc] at hp
    obtain rfl : w = .ticks := hp
    refine returns_finish (v := j.error) (by rw [hpc, job_error]; rfl) rfl rfl rfl (acts_error _ j) ?_ nofun
    rw [event_error]
    exact (List.append_nil _).symm
  · split at h
    · cases h
    · obtain rfl := Option.some.inj h
      exact goOn_setPc rfl (by rw [hpc]; rfl) trivial ⟨rfl, rfl, rfl⟩ rfl

end QueueCallsAux

open QueueCallsAux in
/-- A step leaves the storage alone, or a call takes effect and returns. -/
theorem queueStep_effect [DecidableEq τ] {prio : τ → Nat} {s s' : QueueSys α τ} {a : QueueAct α τ} (hp : ∀ t, (s.pc t).Patient)
    (h : queueStep prio s a = some s') : Effect s s' := by
  cases a with
  | call t j w =>
    simp only [queueStep] at h
    split at h
    · rename_i hpc
      obtain rfl := Option.some.inj h
      exact .call t j w ⟨rfl, rfl, rfl⟩ rfl hpc (QueueSys.pc_setPc_self s t _) fun u hu => QueueSys.pc_setPc_ne s _ hu
    · cases h
  | step t timedOut =>
    simp only [queueStep] at h
    split at h
    · exact task_effect (hp t) h
    · split at h
      · exact task_effect (hp t) h
      · cases h
  | tick t =>
    simp only [queueStep] at h
    split at h
    · rename_i j _ hpc
      split at h
      · obtain rfl := Option.some.inj h
        refine .goOn t ⟨?_, rfl, rfl⟩ rfl rfl (hp t) fun _ _ => rfl
        cases j <;> rfl
      · cases h
    · cases h
  | sendFromISR item toFront =>
    simp only [queueStep] at h
    split at h
    · rename_i hlt
      obtain rfl := Option.some.inj h
      refine returns_isr (v := .sent item toFront) rfl rfl rfl ⟨hlt, ?_⟩ rfl
      simp only [RtosQueue.sendFromISR]
      split <;> rfl
    · rename_i hfull
      obtain rfl := Option.some.inj h
      exact returns_isr (v := .errQueueFull item toFront) rfl rfl rfl ⟨rfl, fun _ => Nat.le_of_not_lt hfull⟩ (List.append_nil _).symm
  | receiveFromISR =>
    simp only [queueStep] at h
    split at h
    · rename_i hpos
      obtain rfl := Option.some.inj h
      refine returns_isr (v := .received s.queue.receiveFromISR.1) rfl rfl rfl ⟨hpos, rfl, ?_⟩ rfl
      simp only [RtosQueue.receiveFromISR]
      split <;> rfl
    · rename_i hempty
      obtain rfl := Option.some.inj h
      exact returns_isr (v := .errQueueEmpty) rfl rfl rfl ⟨rfl, fun _ => Nat.eq_zero_of_not_pos hempty⟩ (List.append_nil _).symm

end SaymaFirmware
