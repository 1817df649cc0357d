import SaymaFirmware.RtosQueue

/-!
# The two sides of a queue

Receivers and senders do the same on a queue with the roles of messages and free places exchanged. A `QueueSide` names one of them, and
what a step does is said once for both (`QueueMove`): for the tasks that use it, who waits, what they wait for, and the count that
interrupt handlers keep while the queue is locked.
-/

namespace SaymaFirmware

/-- Those who receive and those who send. -/
inductive QueueSide where
  | receivers
  | senders
deriving DecidableEq, Repr

/-- The other side. -/
def QueueSide.other : QueueSide → QueueSide
  | .receivers => .senders
  | .senders => .receivers

variable {α τ : Type*}

/-- The side of a call. -/
def QueueJob.side : QueueJob α → QueueSide
  | .send _ _ => .senders
  | .receive => .receivers

namespace RtosQueue

/-- Who waits on a side. -/
def waiters (q : RtosQueue α τ) : QueueSide → List τ
  | .receivers => q.xTasksWaitingToReceive
  | .senders => q.xTasksWaitingToSend

/-- The count of what was done for a side while the queue was locked. -/
def lock (q : RtosQueue α τ) : QueueSide → Int
  | .receivers => q.xTxLock
  | .senders => q.xRxLock

/-- What a side waits for: messages, or free places. -/
def available (q : RtosQueue α τ) : QueueSide → Nat
  | .receivers => q.uxMessagesWaiting
  | .senders => q.uxLength - q.uxMessagesWaiting

/-- An operation of the side `sd` has taken effect. -/
structure Served (q q' : RtosQueue α τ) (sd : QueueSide) : Prop where
  took : q'.available sd + 1 = q.available sd
  gave : q'.available sd.other = q.available sd.other + 1
  own : q'.waiters sd = q.waiters sd ∧ q'.lock sd = q.lock sd

/-- A task of the other side was woken. -/
def Woke (q q' : RtosQueue α τ) (sd : QueueSide) : Prop := q'.waiters sd = (q.waiters sd).tail ∧ q'.lock sd = q.lock sd

/-- The queue was locked, and the operation was counted. -/
def Counted (q q' : RtosQueue α τ) (sd : QueueSide) : Prop :=
  q'.waiters sd = q.waiters sd ∧ q.lock sd ≠ queueUnlocked ∧ q'.lock sd = q.lock sd + 1

/-- Everything that decides who may go on is as it was. -/
def Still (q q' : RtosQueue α τ) (sd : QueueSide) : Prop :=
  q'.waiters sd = q.waiters sd ∧ q'.lock sd = q.lock sd ∧ q'.available sd = q.available sd

/-- The count of a side is used up. -/
def Unlocked (q q' : RtosQueue α τ) (sd : QueueSide) : Prop :=
  q'.waiters sd = (q.waiters sd).drop (q.lock sd).toNat ∧ q'.lock sd = queueUnlocked ∧ q'.available sd = q.available sd

variable {q : RtosQueue α τ}

theorem served_send (item : α) (toFront : Bool) (hlt : q.uxMessagesWaiting < q.uxLength) :
    Served q (q.send item toFront) .senders ∧ Woke q (q.send item toFront) .receivers := by
  have hcount : (q.prvCopyDataToQueue item toFront).uxMessagesWaiting = q.uxMessagesWaiting + 1 := by cases toFront <;> rfl
  have hlen : (q.prvCopyDataToQueue item toFront).uxLength = q.uxLength := by cases toFront <;> rfl
  refine ⟨⟨?_, ?_, rfl, rfl⟩, rfl, rfl⟩
  · simp only [available, send, wakeReceiver, hcount, hlen]
    omega
  · exact hcount

theorem served_receive (hpos : 0 < q.uxMessagesWaiting) (hle : q.uxMessagesWaiting ≤ q.uxLength) :
    Served q q.receive.2 .receivers ∧ Woke q q.receive.2 .senders := by
  refine ⟨⟨?_, ?_, rfl, rfl⟩, rfl, rfl⟩
  · simp only [available, receive, wakeSender, QueueData.prvCopyDataFromQueue]
    omega
  · simp only [available, receive, wakeSender, QueueData.prvCopyDataFromQueue, QueueSide.other]
    omega

theorem served_sendFromISR (item : α) (toFront : Bool) (hlt : q.uxMessagesWaiting < q.uxLength) :
    Served q (q.sendFromISR item toFront) .senders ∧
      (q.lock .receivers = queueUnlocked ∧ Woke q (q.sendFromISR item toFront) .receivers ∨
        Counted q (q.sendFromISR item toFront) .receivers) := by
  have hcount : (q.prvCopyDataToQueue item toFront).uxMessagesWaiting = q.uxMessagesWaiting + 1 := by cases toFront <;> rfl
  have hlen : (q.prvCopyDataToQueue item toFront).uxLength = q.uxLength := by cases toFront <;> rfl
  unfold sendFromISR
  simp only
  split
  · rename_i hun
    refine ⟨⟨?_, hcount, rfl, rfl⟩, Or.inl ⟨hun, rfl, rfl⟩⟩
    simp only [available, wakeReceiver, hcount, hlen]
    omega
  · rename_i hun
    refine ⟨⟨?_, hcount, rfl, rfl⟩, Or.inr ⟨rfl, hun, rfl⟩⟩
    simp only [available, hcount, hlen]
    omega

theorem served_receiveFromISR (hpos : 0 < q.uxMessagesWaiting) (hle : q.uxMessagesWaiting ≤ q.uxLength) :
    Served q q.receiveFromISR.2 .receivers ∧
      (q.lock .senders = queueUnlocked ∧ Woke q q.receiveFromISR.2 .senders ∨ Counted q q.receiveFromISR.2 .senders) := by
  have htook : q.uxMessagesWaiting - 1 + 1 = q.uxMessagesWaiting := by omega
  have hgave : q.uxLength - (q.uxMessagesWaiting - 1) = q.uxLength - q.uxMessagesWaiting + 1 := by omega
  unfold receiveFromISR
  simp only
  split
  · rename_i hun
    exact ⟨⟨htook, hgave, rfl, rfl⟩, Or.inl ⟨hun, rfl, rfl⟩⟩
  · rename_i hun
    exact ⟨⟨htook, hgave, rfl, rfl⟩, Or.inr ⟨rfl, hun, rfl⟩⟩

end RtosQueue

/-! ## Moves -/

/-- What a task does that leaves the queue alone. -/
inductive PcMove (s : QueueSys α τ) (t : τ) : QueuePc α → Prop where
  | call (j : QueueJob α) (w : QueueWait) : s.suspended = none → s.pc t = .idle → PcMove s t (.attempt j w)
  | giveUp (j : QueueJob α) (w : QueueWait) : s.pc t = .attempt j w → s.queue.available j.side = 0 → PcMove s t .idle
  | refuse (j : QueueJob α) (w : QueueWait) : s.pc t = .attempt j w → s.queue.available j.side = 0 → PcMove s t (.refused j w)
  | timeOut (j : QueueJob α) (w : QueueWait) : s.pc t = .locked j w → PcMove s t (.unlockTx j w .fail)
  | again (j : QueueJob α) (w : QueueWait) : s.pc t = .locked j w → PcMove s t (.unlockTx j w .retry)
  | placing (j : QueueJob α) (w : QueueWait) : s.pc t = .locked j w → s.queue.available j.side = 0 → PcMove s t (.placing j w)
  | woken (j : QueueJob α) (w : QueueWait) : s.pc t = .waiting j w → t ∉ s.queue.waiters j.side → PcMove s t (.attempt j w)

/-- Where a task goes on after `xTaskResumeAll`. -/
def QueueAfter.pc (j : QueueJob α) (w : QueueWait) : QueueAfter → QueuePc α
  | .retry => .attempt j w
  | .block => .waiting j w
  | .fail => .idle

namespace QueueMovesAux

theorem available_of_mustWait {s : QueueSys α τ} (j : QueueJob α) (h : s.mustWait j = true) : s.queue.available j.side = 0 := by
  cases j with
  | send item toFront =>
    rw [QueueSys.mustWait, beq_iff_eq] at h
    exact Nat.sub_eq_zero_of_le (Nat.le_of_eq h.symm)
  | receive =>
    rw [QueueSys.mustWait, beq_iff_eq] at h
    exact h

theorem waitingList_eq (s : QueueSys α τ) (j : QueueJob α) : s.waitingList j = s.queue.waiters j.side := by cases j <;> rfl

end QueueMovesAux

variable [DecidableEq τ]

/-- The two differ in nothing but the record of what was called and returned. -/
structure QueueSys.Alike (s s' : QueueSys α τ) : Prop where
  queue : s'.queue = s.queue
  pc : s'.pc = s.pc
  suspended : s'.suspended = s.suspended

/-- What a step does, apart from the record. -/
inductive QueueMove (prio : τ → Nat) (s s' : QueueSys α τ) : Prop where
  | stay : s.Alike s' → QueueMove prio s s'
  | pc (t : τ) (p : QueuePc α) : PcMove s t p → (s.setPc t p).Alike s' → QueueMove prio s s'
  | serve (t : τ) (j : QueueJob α) (w : QueueWait) : s.suspended = none ∨ s.suspended = some t → s.pc t = .attempt j w →
      s'.pc = (s.setPc t .idle).pc → s'.suspended = s.suspended → s.queue.Served s'.queue j.side → s.queue.Woke s'.queue j.side.other →
      QueueMove prio s s'
  | lock (t : τ) (j : QueueJob α) (w : QueueWait) : s.suspended = none ∨ s.suspended = some t → s.pc t = .refused j w →
      s' = { s.setPc t (.locked j w) with queue := s.queue.prvLockQueue, suspended := some t } → QueueMove prio s s'
  | place (t : τ) (j : QueueJob α) (w : QueueWait) : s.pc t = .placing j w →
      s' = { s.setPc t (.unlockTx j w .block) with queue := s.place prio t j } → QueueMove prio s s'
  | unlockTx (t : τ) (j : QueueJob α) (w : QueueWait) (after : QueueAfter) : s.pc t = .unlockTx j w after →
      s' = { s.setPc t (.unlockRx j w after) with queue := s.queue.unlockTx } → QueueMove prio s s'
  | unlockRx (t : τ) (j : QueueJob α) (w : QueueWait) (after : QueueAfter) : s.pc t = .unlockRx j w after →
      s' = { s.setPc t (.resume j w after) with queue := s.queue.unlockRx } → QueueMove prio s s'
  | resume (t : τ) (j : QueueJob α) (w : QueueWait) (after : QueueAfter) : s.pc t = .resume j w after →
      s'.pc = (s.setPc t (after.pc j w)).pc → s'.suspended = none → s'.queue = s.queue → QueueMove prio s s'
  | tick (t : τ) (j : QueueJob α) : s.pc t = .waiting j .ticks → s' = { s with queue := s.unwait t j } → QueueMove prio s s'
  | isr (sd : QueueSide) : s'.pc = s.pc → s'.suspended = s.suspended → s.queue.Served s'.queue sd →
      s.queue.lock sd.other = queueUnlocked ∧ s.queue.Woke s'.queue sd.other ∨ s.queue.Counted s'.queue sd.other → QueueMove prio s s'

namespace QueueMovesAux

variable {prio : τ → Nat} {s s' : QueueSys α τ} {t : τ}

theorem attempt_move (hle : s.queue.uxMessagesWaiting ≤ s.queue.uxLength) (hfree : s.suspended = none ∨ s.suspended = some t)
    {j : QueueJob α} {w : QueueWait} (hpc : s.pc t = .attempt j w) : QueueMove prio s (s.attempt t j w) := by
  cases j with
  | send item toFront =>
    rw [QueueSys.attempt]
    split
    · rename_i hlt
      have hserved := RtosQueue.served_send item toFront hlt
      exact .serve t _ w hfree hpc rfl rfl hserved.1 hserved.2
    · rename_i hlt
      have h0 : s.queue.available .senders = 0 := Nat.sub_eq_zero_of_le (Nat.le_of_not_lt hlt)
      split
      · exact .pc t _ (.giveUp _ w hpc h0) ⟨rfl, rfl, rfl⟩
      · exact .pc t _ (.refuse _ w hpc h0) ⟨rfl, rfl, rfl⟩
  | receive =>
    rw [QueueSys.attempt]
    split
    · rename_i hpos
      have hserved := RtosQueue.served_receive hpos hle
      exact .serve t _ w hfree hpc rfl rfl hserved.1 hserved.2
    · rename_i hpos
      have h0 : s.queue.available .receivers = 0 := Nat.eq_zero_of_not_pos hpos
      split
      · exact .pc t _ (.giveUp _ w hpc h0) ⟨rfl, rfl, rfl⟩
      · exact .pc t _ (.refuse _ w hpc h0) ⟨rfl, rfl, rfl⟩

theorem task_move {timedOut : Bool} (hle : s.queue.uxMessagesWaiting ≤ s.queue.uxLength)
    (hfree : s.suspended = none ∨ s.suspended = some t) (h : s.task prio t timedOut = some s') : QueueMove prio s s' := by
  unfold QueueSys.task at h
  split at h
  · cases h
  · rename_i j w hpc
    obtain rfl := Option.some.inj h
    exact attempt_move hle hfree hpc
  · rename_i j w hpc
    exact .lock t j w hfree hpc (Option.some.inj h).symm
  · rename_i j w hpc
    split at h
    · obtain rfl := Option.some.inj h
      exact .pc t _ (.timeOut j w hpc) ⟨rfl, rfl, rfl⟩
    · split at h
      · rename_i hwait
        obtain rfl := Option.some.inj h
        exact .pc t _ (.placing j w hpc (available_of_mustWait j hwait)) ⟨rfl, rfl, rfl⟩
      · obtain rfl := Option.some.inj h
        exact .pc t _ (.again j w hpc) ⟨rfl, rfl, rfl⟩
  · rename_i j w hpc
    exact .place t j w hpc (Option.some.inj h).symm
  · rename_i j w after hpc
    exact .unlockTx t j w after hpc (Option.some.inj h).symm
  · rename_i j w after hpc
    exact .unlockRx t j w after hpc (Option.some.inj h).symm
  · rename_i j w hpc
    obtain rfl := Option.some.inj h
    exact .resume t j w .retry hpc rfl rfl rfl
  · rename_i j w hpc
    obtain rfl := Option.some.inj h
    exact .resume t j w .block hpc rfl rfl rfl
  · rename_i j w hpc
    obtain rfl := Option.some.inj h
    exact .resume t j w .fail hpc rfl rfl rfl
  · rename_i j w hpc
    split at h
    · cases h
    · rename_i hmem
      rw [waitingList_eq] at hmem
      obtain rfl := Option.some.inj h
      exact .pc t _ (.woken j w hpc hmem) ⟨rfl, rfl, rfl⟩

end QueueMovesAux

open QueueMovesAux in
/-- Every step is a move. -/
theorem queueStep_move {prio : τ → Nat} {s s' : QueueSys α τ} {a : QueueAct α τ}
    (hle : s.queue.uxMessagesWaiting ≤ s.queue.uxLength) (h : queueStep prio s a = some s') : QueueMove prio s s' := by
  cases a with
  | call t j w =>
    simp only [queueStep] at h
    split at h
    · rename_i hs hpc
      obtain rfl := Option.some.inj h
      exact .pc t _ (.call j w hs hpc) ⟨rfl, rfl, rfl⟩
    · cases h
  | step t timedOut =>
    simp only [queueStep] at h
    split at h
    · rename_i hs
      exact task_move hle (Or.inl hs) h
    · rename_i u hs
      split at h
      · rename_i hu
        exact task_move hle (Or.inr (hu ▸ hs)) h
      · cases h
  | tick t =>
    simp only [queueStep] at h
    split at h
    · rename_i j _ hpc
      split at h
      · exact .tick t j hpc (Option.some.inj h).symm
      · cases h
    · cases h
  | sendFromISR item toFront =>
    simp only [queueStep] at h
    split at h
    · rename_i hlt
      obtain rfl := Option.some.inj h
      have hserved := RtosQueue.served_sendFromISR item toFront hlt
      exact .isr .senders rfl rfl hserved.1 hserved.2
    · obtain rfl := Option.some.inj h
      exact .stay ⟨rfl, rfl, rfl⟩
  | receiveFromISR =>
    simp only [queueStep] at h
    split at h
    · rename_i hpos
      obtain rfl := Option.some.inj h
      have hserved := RtosQueue.served_receiveFromISR hpos hle
      exact .isr .receivers rfl rfl hserved.1 hserved.2
    · obtain rfl := Option.some.inj h
      exact .stay ⟨rfl, rfl, rfl⟩

end SaymaFirmware
