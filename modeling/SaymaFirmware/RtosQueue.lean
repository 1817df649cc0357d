import SaymaFirmware.Lib.Deque
import SaymaFirmware.Lib.Machine

/-!
# The kernel's queues: `queue.c`

Queues carry the messages of the TCP/IP thread (`sys_mbox_…`) and, with nothing stored, are the semaphores (`sys_sem_…`). Any number of
tasks send and receive, with or without waiting, and interrupt handlers do so without waiting. A task's call is cut at its critical
sections: between two of them other tasks run, unless the scheduler is suspended, and interrupts are served at any point.

While a task is about to block, it holds the queue locked: an interrupt then does not touch the lists of waiting tasks but counts what
it has done in `xTxLock` and `xRxLock`, and the task wakes whom it has to when it unlocks the queue.

Positions in the storage are counted in items. A semaphore has no item, so its positions mean nothing. Peeking, mutexes (with their
priority inheritance) and queue sets are left out, and whether a wait has lasted too long is the choice of the step that asks. The two
counts are `signed long` in the source; here they do not wrap, which is right as long as interrupt handlers use the queue less than
`2 ^ 31` times while a task holds it locked.
-/

namespace SaymaFirmware

/-- `queueUNLOCKED` and `queueLOCKED_UNMODIFIED`. -/
def queueUnlocked : Int := -1
def queueLockedUnmodified : Int := 0

/-- The storage of a queue. `pcReadFrom` is where the last item was read from. -/
structure QueueData (α : Type*) where
  storage : Nat → α
  pcWriteTo : Nat
  pcReadFrom : Nat
  uxMessagesWaiting : Nat
  uxLength : Nat

/-- A queue of items `α` on which tasks `τ` wait. A lock that is not `queueUnlocked` counts what interrupt handlers have done. -/
structure RtosQueue (α τ : Type*) extends QueueData α where
  xTasksWaitingToSend : List τ
  xTasksWaitingToReceive : List τ
  xRxLock : Int
  xTxLock : Int

variable {α τ : Type*}

namespace QueueData

def prvCopyDataToBack (q : QueueData α) (item : α) : QueueData α :=
  { q with
    storage := fun i => if i = q.pcWriteTo then item else q.storage i
    pcWriteTo := if q.uxLength ≤ q.pcWriteTo + 1 then 0 else q.pcWriteTo + 1
    uxMessagesWaiting := q.uxMessagesWaiting + 1 }

def prvCopyDataToFront (q : QueueData α) (item : α) : QueueData α :=
  { q with
    storage := fun i => if i = q.pcReadFrom then item else q.storage i
    pcReadFrom := if q.pcReadFrom = 0 then q.uxLength - 1 else q.pcReadFrom - 1
    uxMessagesWaiting := q.uxMessagesWaiting + 1 }

/-- `prvCopyDataToQueue` at the back or at the front. -/
def prvCopyDataToQueue (q : QueueData α) (item : α) (toFront : Bool) : QueueData α :=
  if toFront then q.prvCopyDataToFront item else q.prvCopyDataToBack item

/-- The place behind the one that was read last. -/
def nextRead (q : QueueData α) : Nat := if q.uxLength ≤ q.pcReadFrom + 1 then 0 else q.pcReadFrom + 1

/-- `prvCopyDataFromQueue`, and one message less. -/
def prvCopyDataFromQueue (q : QueueData α) : α × QueueData α :=
  (q.storage q.nextRead, { q with pcReadFrom := q.nextRead, uxMessagesWaiting := q.uxMessagesWaiting - 1 })

/-- `xQueueGenericReset` of a new queue, over any memory. -/
def reset (storage : Nat → α) (uxLength : Nat) : QueueData α := ⟨storage, 0, uxLength - 1, 0, uxLength⟩

end QueueData

namespace RtosQueue

/-- `xTaskRemoveFromEventList` for a receiver, if there is one. -/
def wakeReceiver (q : RtosQueue α τ) : RtosQueue α τ := { q with xTasksWaitingToReceive := q.xTasksWaitingToReceive.tail }

/-- `xTaskRemoveFromEventList` for a sender, if there is one. -/
def wakeSender (q : RtosQueue α τ) : RtosQueue α τ := { q with xTasksWaitingToSend := q.xTasksWaitingToSend.tail }

/-- The first critical section of `xQueueGenericSend`, when there is room. -/
def send (q : RtosQueue α τ) (item : α) (toFront : Bool) : RtosQueue α τ :=
  wakeReceiver { q with toQueueData := q.prvCopyDataToQueue item toFront }

/-- The first critical section of `xQueueGenericReceive`, when there is a message. -/
def receive (q : RtosQueue α τ) : α × RtosQueue α τ :=
  (q.prvCopyDataFromQueue.1, wakeSender { q with toQueueData := q.prvCopyDataFromQueue.2 })

/-- `xQueueGenericSendFromISR`, when there is room. -/
def sendFromISR (q : RtosQueue α τ) (item : α) (toFront : Bool) : RtosQueue α τ :=
  let q := { q with toQueueData := q.prvCopyDataToQueue item toFront }
  if q.xTxLock = queueUnlocked then q.wakeReceiver else { q with xTxLock := q.xTxLock + 1 }

/-- `xQueueReceiveFromISR`, when there is a message. -/
def receiveFromISR (q : RtosQueue α τ) : α × RtosQueue α τ :=
  let item := q.prvCopyDataFromQueue.1
  let q := { q with toQueueData := q.prvCopyDataFromQueue.2 }
  (item, if q.xRxLock = queueUnlocked then q.wakeSender else { q with xRxLock := q.xRxLock + 1 })

def prvLockQueue (q : RtosQueue α τ) : RtosQueue α τ :=
  { q with
    xRxLock := if q.xRxLock = queueUnlocked then queueLockedUnmodified else q.xRxLock
    xTxLock := if q.xTxLock = queueUnlocked then queueLockedUnmodified else q.xTxLock }

/-- A loop of `prvUnlockQueue`: wake a task for each event that was counted, as long as tasks wait. -/
def wakeCounted (lock : Int) (waiting : List τ) : List τ := waiting.drop lock.toNat

/-- The first half of `prvUnlockQueue`. -/
def unlockTx (q : RtosQueue α τ) : RtosQueue α τ :=
  { q with xTasksWaitingToReceive := wakeCounted q.xTxLock q.xTasksWaitingToReceive, xTxLock := queueUnlocked }

/-- The second half of `prvUnlockQueue`. -/
def unlockRx (q : RtosQueue α τ) : RtosQueue α τ :=
  { q with xTasksWaitingToSend := wakeCounted q.xRxLock q.xTasksWaitingToSend, xRxLock := queueUnlocked }

end RtosQueue

/-- `vListInsert` into a list of waiting tasks: behind those of the same or a higher priority. -/
def vListInsert (prio : τ → Nat) (t : τ) : List τ → List τ
  | [] => [t]
  | u :: l => if prio t ≤ prio u then u :: vListInsert prio t l else t :: u :: l

/-! ## Tasks -/

/-- How long a call may wait: not at all, some ticks, or `portMAX_DELAY`. -/
inductive QueueWait where
  | no
  | ticks
  | forever
deriving DecidableEq, Repr

/-- What a task has called. -/
inductive QueueJob (α : Type*) where
  | send (item : α) (toFront : Bool)
  | receive
deriving DecidableEq, Repr

/-- What a call has returned: `pdPASS`, with what a receive has copied into the caller's buffer, or the error (`pdFAIL` for
`xQueueReceiveFromISR`, which is the same number). -/
inductive QueueReturn (α : Type*) where
  | sent (item : α) (toFront : Bool)
  | errQueueFull (item : α) (toFront : Bool)
  | received (item : α)
  | errQueueEmpty
deriving DecidableEq, Repr

/-- What a call that failed returns. -/
def QueueJob.error : QueueJob α → QueueReturn α
  | .send item toFront => .errQueueFull item toFront
  | .receive => .errQueueEmpty

/-- A call that has returned. The caller is a task or, without a name, an interrupt handler. -/
structure QueueDone (α τ : Type*) where
  caller : Option τ
  wait : QueueWait
  value : QueueReturn α
deriving DecidableEq, Repr

/-- What a task does after it has unlocked the queue. -/
inductive QueueAfter where
  | retry
  | block
  | fail
deriving DecidableEq, Repr

/-- Where a task is in its call. -/
inductive QueuePc (α : Type*) where
  /-- Not in a call. -/
  | idle
  /-- At the top of the loop. -/
  | attempt (j : QueueJob α) (w : QueueWait)
  /-- The queue was full or empty; the scheduler is to be suspended and the queue locked. -/
  | refused (j : QueueJob α) (w : QueueWait)
  /-- The scheduler is suspended and the queue locked; the time and the queue are to be looked at again. -/
  | locked (j : QueueJob α) (w : QueueWait)
  /-- The queue was found full or empty again; `vTaskPlaceOnEventList` follows. -/
  | placing (j : QueueJob α) (w : QueueWait)
  /-- The two halves of `prvUnlockQueue`. -/
  | unlockTx (j : QueueJob α) (w : QueueWait) (after : QueueAfter)
  | unlockRx (j : QueueJob α) (w : QueueWait) (after : QueueAfter)
  /-- `xTaskResumeAll` follows. -/
  | resume (j : QueueJob α) (w : QueueWait) (after : QueueAfter)
  /-- Not ready to run, as long as it is in a list of waiting tasks. -/
  | waiting (j : QueueJob α) (w : QueueWait)
deriving DecidableEq, Repr

/-- The queue, its tasks, who has the scheduler suspended, and for the record what was put into the queue and got from it so far, which
calls the tasks have made, and what has been returned, in this order. -/
structure QueueSys (α τ : Type*) where
  queue : RtosQueue α τ
  pc : τ → QueuePc α
  suspended : Option τ
  history : List (Deque.Event α)
  called : List (τ × QueueJob α × QueueWait)
  returned : List (QueueDone α τ)

/-- What happens: a task makes a call or takes its next step, the tick interrupt ends a wait, or an interrupt handler sends or receives. -/
inductive QueueAct (α τ : Type*) where
  | call (t : τ) (j : QueueJob α) (w : QueueWait)
  | step (t : τ) (timedOut : Bool)
  | tick (t : τ)
  | sendFromISR (item : α) (toFront : Bool)
  | receiveFromISR

section

variable [DecidableEq τ]

namespace QueueSys

def setPc (s : QueueSys α τ) (t : τ) (p : QueuePc α) : QueueSys α τ := { s with pc := fun u => if u = t then p else s.pc u }

@[simp] theorem pc_setPc_self (s : QueueSys α τ) (t : τ) (p : QueuePc α) : (s.setPc t p).pc t = p := if_pos rfl

theorem pc_setPc_ne (s : QueueSys α τ) (p : QueuePc α) {t u : τ} (h : u ≠ t) : (s.setPc t p).pc u = s.pc u := if_neg h

/-- The call returns. -/
def finish (s : QueueSys α τ) (t : τ) (w : QueueWait) (value : QueueReturn α) : QueueSys α τ :=
  { s.setPc t .idle with returned := s.returned ++ [⟨some t, w, value⟩] }

/-- A task at the top of its loop. -/
def attempt (s : QueueSys α τ) (t : τ) : QueueJob α → QueueWait → QueueSys α τ
  | .send item toFront, w =>
    if s.queue.uxMessagesWaiting < s.queue.uxLength then
      { s.finish t w (.sent item toFront) with
        queue := s.queue.send item toFront
        history := s.history ++ [.put item toFront] }
    else if w = .no then s.finish t w (.errQueueFull item toFront)
    else s.setPc t (.refused (.send item toFront) w)
  | .receive, w =>
    if 0 < s.queue.uxMessagesWaiting then
      { s.finish t w (.received s.queue.receive.1) with
        queue := s.queue.receive.2
        history := s.history ++ [.got s.queue.receive.1] }
    else if w = .no then s.finish t w .errQueueEmpty
    else s.setPc t (.refused .receive w)

/-- `prvIsQueueFull` for a sender, `prvIsQueueEmpty` for a receiver. -/
def mustWait (s : QueueSys α τ) : QueueJob α → Bool
  | .send _ _ => s.queue.uxMessagesWaiting == s.queue.uxLength
  | .receive => s.queue.uxMessagesWaiting == 0

/-- `vTaskPlaceOnEventList`. -/
def place (s : QueueSys α τ) (prio : τ → Nat) (t : τ) : QueueJob α → RtosQueue α τ
  | .send _ _ => { s.queue with xTasksWaitingToSend := vListInsert prio t s.queue.xTasksWaitingToSend }
  | .receive => { s.queue with xTasksWaitingToReceive := vListInsert prio t s.queue.xTasksWaitingToReceive }

/-- The list a job waits in. -/
def waitingList (s : QueueSys α τ) : QueueJob α → List τ
  | .send _ _ => s.queue.xTasksWaitingToSend
  | .receive => s.queue.xTasksWaitingToReceive

/-- The tick interrupt takes a task out of the list it waits in. -/
def unwait (s : QueueSys α τ) (t : τ) : QueueJob α → RtosQueue α τ
  | .send _ _ => { s.queue with xTasksWaitingToSend := s.queue.xTasksWaitingToSend.erase t }
  | .receive => { s.queue with xTasksWaitingToReceive := s.queue.xTasksWaitingToReceive.erase t }

/-- The next step of a task. -/
def task (prio : τ → Nat) (s : QueueSys α τ) (t : τ) (timedOut : Bool) : Option (QueueSys α τ) :=
  match s.pc t with
  | .idle => none
  | .attempt j w => some (s.attempt t j w)
  | .refused j w => some { s.setPc t (.locked j w) with queue := s.queue.prvLockQueue, suspended := some t }
  | .locked j w =>
    -- `xTaskCheckForTimeOut` never says so to a task that waits for ever
    if timedOut && w != .forever then some (s.setPc t (.unlockTx j w .fail))
    else if s.mustWait j then some (s.setPc t (.placing j w))
    else some (s.setPc t (.unlockTx j w .retry))
  | .placing j w => some { s.setPc t (.unlockTx j w .block) with queue := s.place prio t j }
  | .unlockTx j w after => some { s.setPc t (.unlockRx j w after) with queue := s.queue.unlockTx }
  | .unlockRx j w after => some { s.setPc t (.resume j w after) with queue := s.queue.unlockRx }
  | .resume j w .retry => some { s.setPc t (.attempt j w) with suspended := none }
  | .resume j w .block => some { s.setPc t (.waiting j w) with suspended := none }
  | .resume j w .fail => some { s.finish t w j.error with suspended := none }
  | .waiting j w => if t ∈ s.waitingList j then none else some (s.setPc t (.attempt j w))

end QueueSys

/-- Other tasks run only while the scheduler is not suspended, and the tick interrupt only counts then. -/
def queueStep (prio : τ → Nat) (s : QueueSys α τ) : QueueAct α τ → Option (QueueSys α τ)
  | .call t j w =>
    match s.suspended, s.pc t with
    | none, .idle => some { s.setPc t (.attempt j w) with called := s.called ++ [(t, j, w)] }
    | _, _ => none
  | .step t timedOut =>
    match s.suspended with
    | none => s.task prio t timedOut
    | some u => if u = t then s.task prio t timedOut else none
  | .tick t =>
    match s.suspended, s.pc t with
    | none, .waiting j .ticks => if t ∈ s.waitingList j then some { s with queue := s.unwait t j } else none
    | _, _ => none
  | .sendFromISR item toFront =>
    if s.queue.uxMessagesWaiting < s.queue.uxLength then
      some { s with
        queue := s.queue.sendFromISR item toFront
        history := s.history ++ [.put item toFront]
        returned := s.returned ++ [⟨none, .no, .sent item toFront⟩] }
    else some { s with returned := s.returned ++ [⟨none, .no, .errQueueFull item toFront⟩] }
  | .receiveFromISR =>
    if 0 < s.queue.uxMessagesWaiting then
      some { s with
        queue := s.queue.receiveFromISR.2
        history := s.history ++ [.got s.queue.receiveFromISR.1]
        returned := s.returned ++ [⟨none, .no, .received s.queue.receiveFromISR.1⟩] }
    else some { s with returned := s.returned ++ [⟨none, .no, .errQueueEmpty⟩] }

end

/-- A new queue, and no call. -/
def QueueSys.init (storage : Nat → α) (uxLength : Nat) : QueueSys α τ where
  queue := { QueueData.reset storage uxLength with
    xTasksWaitingToSend := [], xTasksWaitingToReceive := [], xRxLock := queueUnlocked, xTxLock := queueUnlocked }
  pc := fun _ => .idle
  suspended := none
  history := []
  called := []
  returned := []

end SaymaFirmware
