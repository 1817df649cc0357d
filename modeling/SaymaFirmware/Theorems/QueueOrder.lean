import SaymaFirmware.Lemmas.QueueCalls
import SaymaFirmware.Lemmas.QueueRing

/-!
# What a queue delivers

The queue is a bounded queue with two ends, whoever uses it and in whatever order: each step leaves the storage alone, or it is one
operation that takes effect at once (`queueStep_effect`). So in every run the items that were received and those that are still stored
are the ones that were sent, each once, and in the order in which they were sent when none was sent to the front. What the callers are
told agrees with it: `pdPASS` means that the operation took effect, and an error that it did not.
-/

namespace SaymaFirmware
namespace QueueOrderAux

open QueueCallsAux

variable {α τ : Type*} {prio : τ → Nat} {s s' : QueueSys α τ} {n : Nat}

/-- The storage holds what a queue with this history holds. -/
structure Delivers (n : Nat) (s : QueueSys α τ) : Prop where
  wf : s.queue.WF
  length : s.queue.uxLength = n
  serves : Deque.Serves n s.history s.queue.contents
  patient : ∀ t, (s.pc t).Patient

/-- Each task's calls have returned one after the other, and what was returned tells what has happened. -/
structure Reports [DecidableEq τ] (n : Nat) (s : QueueSys α τ) : Prop where
  calls : ∀ t, s.callsOf t = s.returnsOf t ++ (s.pc t).inCall.toList
  history : s.history = eventsOf s.returned
  forever : ∀ r ∈ s.returned, r.wait = .forever → r.value.event ≠ none
  errors : ∀ before r after, s.returned = before ++ r :: after → r.wait = .no →
    ∃ l, Deque.Serves n (eventsOf before) l ∧ r.value.ErrorAt n l

/-- A call that acts on the storage is an operation of a queue with two ends. -/
theorem acts_serves {q q' : QueueData α} {w : QueueWait} {v : QueueReturn α} {history : List (Deque.Event α)} (hwf : q.WF)
    (hserves : Deque.Serves q.uxLength history q.contents) (h : Acts q q' w v) :
    q'.WF ∧ q'.uxLength = q.uxLength ∧ Deque.Serves q.uxLength (history ++ v.event.toList) q'.contents := by
  have hcount := q.length_contents
  cases v with
  | sent item toFront =>
    obtain ⟨hlt, rfl⟩ := h
    cases toFront with
    | false =>
      refine ⟨QueueData.wf_back item hwf hlt, rfl, ?_⟩
      rw [QueueData.prvCopyDataToQueue, if_neg Bool.false_ne_true, QueueData.contents_back item hwf hlt]
      exact hserves.back item (hcount ▸ hlt)
    | true =>
      refine ⟨QueueData.wf_front item hwf hlt, rfl, ?_⟩
      rw [QueueData.prvCopyDataToQueue, if_pos rfl, QueueData.contents_front item hwf hlt]
      exact hserves.front item (hcount ▸ hlt)
  | received item =>
    obtain ⟨hpos, rfl, rfl⟩ := h
    refine ⟨QueueData.wf_receive hwf hpos, rfl, ?_⟩
    rw [QueueData.contents_receive hwf hpos] at hserves
    exact hserves.got _
  | errQueueFull item toFront =>
    obtain ⟨rfl, _⟩ := h
    exact ⟨hwf, rfl, by rw [QueueReturn.event, Option.toList_none, List.append_nil]; exact hserves⟩
  | errQueueEmpty =>
    obtain ⟨rfl, _⟩ := h
    exact ⟨hwf, rfl, by rw [QueueReturn.event, Option.toList_none, List.append_nil]; exact hserves⟩

/-- A step keeps the storage what the history says. -/
theorem delivers_step (hd : Delivers n s) (h : Effect s s') : Delivers n s' := by
  obtain ⟨hwf, hlen, hserves, hpat⟩ := hd
  have hsilent : Silent s s' → s'.queue.WF ∧ s'.queue.uxLength = n ∧ Deque.Serves n s'.history s'.queue.contents := by
    intro ⟨hq, hh, _⟩
    exact ⟨hq ▸ hwf, hq ▸ hlen, by rw [hq, hh]; exact hserves⟩
  cases h with
  | call t j w hsame _ _ hpc hothers =>
    obtain ⟨hwf', hlen', hserves'⟩ := hsilent hsame
    refine ⟨hwf', hlen', hserves', ?_⟩
    intro u
    by_cases hu : u = t
    · rw [hu, hpc]
      trivial
    · exact hothers u hu ▸ hpat u
  | goOn t hsame _ _ hpat' hothers =>
    obtain ⟨hwf', hlen', hserves'⟩ := hsilent hsame
    refine ⟨hwf', hlen', hserves', ?_⟩
    intro u
    by_cases hu : u = t
    · exact hu ▸ hpat'
    · exact hothers u hu ▸ hpat u
  | returns r hr =>
    obtain ⟨hwf', hlen', hserves'⟩ := acts_serves hwf (hlen ▸ hserves) hr.acts
    refine ⟨hwf', hlen'.trans hlen, by rw [hr.history, ← hlen]; exact hserves', ?_⟩
    intro u
    by_cases hu : r.caller = some u
    · rw [(hr.own u hu).2]
      trivial
    · exact hr.others u hu ▸ hpat u

/-- A call that was not to wait is right about what it has found. -/
theorem errorAt_of_acts {q q' : QueueData α} {v : QueueReturn α} (hle : q.uxMessagesWaiting ≤ q.uxLength) (h : Acts q q' .no v) :
    v.ErrorAt q.uxLength q.contents := by
  cases v with
  | sent item toFront => trivial
  | received item => trivial
  | errQueueFull item toFront => exact q.length_contents.trans (Nat.le_antisymm hle (h.2 rfl))
  | errQueueEmpty => exact List.eq_nil_of_length_eq_zero (q.length_contents.trans (h.2 rfl))

/-- A new queue is empty. -/
theorem delivers_init (storage : Nat → α) (hn : 0 < n) : Delivers n (QueueSys.init storage n : QueueSys α τ) :=
  ⟨QueueData.wf_reset storage hn, rfl, Deque.Serves.empty, fun _ => trivial⟩

section

variable [DecidableEq τ]

/-- A step in which nothing returns. -/
theorem reports_silent (hr : Reports n s) (h : Silent s s')
    (hcalls : ∀ t, s'.callsOf t = s'.returnsOf t ++ (s'.pc t).inCall.toList) : Reports n s' where
  calls := hcalls
  history := by rw [h.history, h.returned, hr.history]
  forever := h.returned ▸ hr.forever
  errors := h.returned ▸ hr.errors

/-- A step in which a call returns. -/
theorem reports_returns (hd : Delivers n s) (hr : Reports n s) {r : QueueDone α τ} (h : Returns s s' r) : Reports n s' where
  calls t := by
    have hcalls := hr.calls t
    rw [QueueSys.callsOf, QueueSys.returnsOf] at hcalls
    rw [QueueSys.callsOf, QueueSys.returnsOf, h.called, hcalls, h.returned, List.filterMap_append, List.append_assoc]
    congr 1
    by_cases ht : r.caller = some t
    · obtain ⟨hin, hpc⟩ := h.own t ht
      rw [hin, hpc, List.filterMap_cons, if_pos ht]
      rfl
    · rw [h.others t ht, List.filterMap_cons, if_neg ht]
      rfl
  history := by rw [h.history, h.returned, hr.history, eventsOf_snoc]
  forever := by
    rw [h.returned]
    intro r' hr' hw
    rcases List.mem_append.mp hr' with hold | hnew
    · exact hr.forever r' hold hw
    · obtain rfl := List.mem_singleton.mp hnew
      exact h.forever hw
  errors before r' after he hw := by
    rw [h.returned] at he
    rcases List.eq_nil_or_concat after with rfl | ⟨after, last, rfl⟩
    · obtain ⟨hbefore, hlast⟩ := List.append_inj' he rfl
      obtain rfl := List.singleton_inj.mp hlast
      have hacts := h.acts
      rw [hw] at hacts
      refine ⟨s.queue.contents, by rw [← hbefore, ← hr.history]; exact hd.serves, ?_⟩
      rw [← hd.length]
      exact errorAt_of_acts hd.wf.count hacts
    · rw [List.concat_eq_append, ← List.cons_append, ← List.append_assoc] at he
      exact hr.errors before r' after (List.append_inj' he rfl).1 hw

/-- A step keeps the record of what was called and returned right. -/
theorem reports_step (hd : Delivers n s) (hr : Reports n s) (h : Effect s s') : Reports n s' := by
  cases h with
  | call t j w hsame hcalled hidle hpc hothers =>
    refine reports_silent hr hsame ?_
    intro u
    have hcalls := hr.calls u
    rw [QueueSys.callsOf, QueueSys.returnsOf] at hcalls
    rw [QueueSys.callsOf, QueueSys.returnsOf, hsame.returned, hcalled, List.filterMap_append, hcalls, List.append_assoc]
    congr 1
    by_cases hu : u = t
    · rw [hu, hidle, hpc, List.filterMap_cons, if_pos rfl]
      rfl
    · rw [hothers u hu, List.filterMap_cons, if_neg (Ne.symm hu)]
      exact List.append_nil _
  | goOn t hsame hcalled hin _ hothers =>
    refine reports_silent hr hsame ?_
    intro u
    have hu' : (s'.pc u).inCall = (s.pc u).inCall := by
      by_cases hu : u = t
      · exact hu ▸ hin
      · rw [hothers u hu]
    rw [QueueSys.callsOf, QueueSys.returnsOf, hcalled, hsame.returned, hu']
    exact hr.calls u
  | returns r h => exact reports_returns hd hr h

/-- At first nothing was called. -/
theorem reports_init (storage : Nat → α) : Reports n (QueueSys.init storage n : QueueSys α τ) :=
  ⟨fun _ => rfl, rfl, nofun, fun before r after h => by cases before <;> cases h⟩

/-- In every run, the storage and the record are right. -/
theorem reports_of_reaches {storage : Nat → α} (hn : 0 < n)
    (h : Reaches (queueStep prio) (AnyStep _ _) (QueueSys.init storage n) s) : Delivers n s ∧ Reports n s := by
  refine h.invariant (fun s => Delivers n s ∧ Reports n s) ⟨delivers_init storage hn, reports_init storage⟩ ?_
  intro s a s' hi _ hs
  have heff := queueStep_effect hi.1.patient hs
  exact ⟨delivers_step hi.1 heff, reports_step hi.1 hi.2 heff⟩

end

end QueueOrderAux

variable {α τ : Type*} [DecidableEq τ]

open QueueOrderAux in
/-- In every interleaving of tasks and interrupt handlers, the history of a queue for `n` items is one of a bounded queue with two
ends, which holds what is stored: nothing is lost and nothing received twice, and without front sends items arrive in order. It is the
history of the calls that have returned `pdPASS`, each of which put its item or got what it returned. Each call that a task has made has
returned once, in turn, or is the one it is in; a call that waits for ever returns no error, and one that does not wait returns an error
only if the queue is full or empty at that time. -/
theorem queue_delivers (prio : τ → Nat) (storage : Nat → α) (n : Nat) (hn : 0 < n) (s : QueueSys α τ)
    (h : Reaches (queueStep prio) (AnyStep _ _) (QueueSys.init storage n) s) :
    Deque.Serves n s.history s.queue.contents ∧ s.queue.contents.length = s.queue.uxMessagesWaiting ∧
      s.queue.uxMessagesWaiting ≤ n ∧ (Deque.puts s.history).Perm (Deque.gots s.history ++ s.queue.contents) ∧
      (Deque.BackOnly s.history → Deque.puts s.history = Deque.gots s.history ++ s.queue.contents) ∧
      s.history = eventsOf s.returned ∧ (∀ t, s.callsOf t = s.returnsOf t ++ (s.pc t).inCall.toList) ∧
      (∀ r ∈ s.returned, r.wait = .forever → r.value.event ≠ none) ∧
      ∀ before r after, s.returned = before ++ r :: after → r.wait = .no →
        ∃ l, Deque.Serves n (eventsOf before) l ∧ r.value.ErrorAt n l := by
  obtain ⟨hd, hr⟩ := reports_of_reaches hn h
  have hcount := s.queue.length_contents
  exact ⟨hd.serves, hcount, hcount ▸ hd.serves.length_le, hd.serves.perm, hd.serves.fifo, hr.history, hr.calls, hr.forever, hr.errors⟩

/-- A task waits for ever on an empty mailbox with one place, another one sends it an item and finds the place taken for the next one; the
first sends and waits too long. What is left is received by an interrupt handler, which then finds the mailbox empty. -/
theorem queue_delivers_mailbox :
    ∃ s : QueueSys Nat Bool, Reaches (queueStep fun _ => 0) (AnyStep _ _) (QueueSys.init (fun _ => 0) 1) s ∧
      s.returned = [⟨some false, .forever, .sent 7 false⟩, ⟨some false, .no, .errQueueFull 8 false⟩, ⟨some true, .forever, .received 7⟩,
        ⟨some false, .ticks, .sent 9 false⟩, ⟨some true, .ticks, .errQueueFull 5 false⟩, ⟨none, .no, .received 9⟩,
        ⟨none, .no, .errQueueEmpty⟩] ∧
      s.history = eventsOf s.returned ∧ Deque.puts s.history = Deque.gots s.history ++ s.queue.contents ∧
      s.callsOf true = [(.receive, .forever), (.send 5 false, .ticks)] := by
  obtain ⟨s, hs, hp⟩ := exists_reaches_of_exec (queueStep fun _ : Bool => 0) (fun _ _ => true) (QueueSys.init (fun _ => 0) 1)
    (.call true .receive .forever :: List.replicate 7 (.step true false) ++
      [.call false (.send 7 false) .forever, .step false false, .call false (.send 8 false) .no, .step false false] ++
      [.step true false, .step true false, .call false (.send 9 false) .ticks, .step false false] ++
      [.call true (.send 5 false) .ticks, .step true false, .step true false, .step true true] ++
      List.replicate 3 (.step true false) ++ [.receiveFromISR, .receiveFromISR])
    (fun s => (s.returned == [⟨some false, .forever, .sent 7 false⟩, ⟨some false, .no, .errQueueFull 8 false⟩,
      ⟨some true, .forever, .received 7⟩, ⟨some false, .ticks, .sent 9 false⟩, ⟨some true, .ticks, .errQueueFull 5 false⟩,
      ⟨none, .no, .received 9⟩, ⟨none, .no, .errQueueEmpty⟩]) && (s.pc true).inCall.isNone) (by decide +kernel)
  have hr : Reaches (queueStep fun _ : Bool => 0) (AnyStep _ _) (QueueSys.init (fun _ => 0) 1) s := hs.mono fun _ _ _ => trivial
  rw [Bool.and_eq_true, beq_iff_eq, Option.isNone_iff_eq_none] at hp
  obtain ⟨hret, hidle⟩ := hp
  obtain ⟨_, _, _, _, hfifo, hhist, hcalls, _⟩ := queue_delivers _ _ 1 Nat.one_pos s hr
  have hcall := hcalls true
  rw [QueueSys.returnsOf, hret, hidle] at hcall
  refine ⟨s, hr, hret, hhist, hfifo ?_, hcall⟩
  intro item
  rw [hhist, hret]
  simp [eventsOf, QueueReturn.event]

end SaymaFirmware
