import SaymaFirmware.Lemmas.TimerList

/-!
# The timers keep their deadlines

The list of differences behaves as a queue of deadlines on a clock that counts the waiting: entries fire in the order of their
deadlines, those with the same deadline in the order they were set. And no timeout fires before its time has passed.
-/

namespace SaymaFirmware

open Delta

/-! ## Deadlines -/

/-- A queue of deadlines, the clock they refer to, and what the list has beside: the time and what was called when. -/
structure DeadlineSys where
  clock : Nat
  queue : List (Nat × TimerCall)
  now : Nat
  fired : List (TimerCall × Nat)

def DeadlineSys.init : DeadlineSys := ⟨0, [], 0, []⟩

/-- The first entry `e` is called after `ticks`, with the clock at its deadline. -/
def DeadlineSys.fire (s : DeadlineSys) (e : Nat × TimerCall) (rest : List (Nat × TimerCall)) (ticks : Nat) : DeadlineSys :=
  ⟨e.1, rest, s.now + ticks, s.fired ++ [(e.2, s.now + ticks)]⟩

/-- The clock moves with the time spent waiting, but never past the first deadline. -/
def deadlineStep (s : DeadlineSys) : TimerAct → Option DeadlineSys
  | .set msecs handler arg =>
    if mempNumSysTimeout ≤ s.queue.length then none
    else some { s with queue := place (s.clock + msecs) ⟨handler, arg, s.now, msecs⟩ s.queue }
  | .unset handler arg => some { s with queue := s.queue.eraseP fun e => callIs handler arg e.2 }
  | .fetch (.message ticks) =>
    match s.queue with
    | [] => some { s with now := s.now + ticks }
    | e :: rest =>
      if e.1 = s.clock then none
      else if ticks % 2 ^ 32 = sysArchTimeout then some (s.fire e rest ticks)
      else some { s with clock := min (s.clock + ticks % 2 ^ 32) e.1, now := s.now + ticks }
  | .fetch (.timeout ticks) =>
    match s.queue with
    | [] => none
    | e :: rest => if e.1 ≤ s.clock + ticks then some (s.fire e rest ticks) else none
  | .work ticks => some { s with now := s.now + ticks }

namespace TimerAux

/-- The list is the queue, seen from the clock. -/
structure Shows (s : TimerSys) (d : DeadlineSys) : Prop where
  queue : d.queue = due d.clock (deltas s.nextTimeout)
  fits : Fits (deltas s.nextTimeout)
  now : d.now = s.now
  fired : d.fired = s.fired

theorem shows_set {s : TimerSys} {d : DeadlineSys} (h : Shows s d) {msecs handler arg : Nat} (hm : msecs < 2 ^ 32) :
    Option.Rel Shows (timerStep s (.set msecs handler arg)) (deadlineStep d (.set msecs handler arg)) := by
  have hlen : d.queue.length = s.nextTimeout.length := by rw [h.queue, length_due, deltas, List.length_map]
  rw [timerStep, deadlineStep, hlen]
  rcases sysTimeout_spec ⟨handler, arg, s.now, msecs⟩ h.fits hm with ⟨h1, h2⟩ | ⟨h1, l', h2, h3⟩
  · rw [h2, if_pos h1]
    exact Option.Rel.none
  · rw [h2, if_neg (by omega)]
    refine Option.Rel.some ⟨?_, ?_, h.now, h.fired⟩
    · simp only
      rw [h3, due_set, h.queue, h.now]
    · simp only
      rw [h3]
      exact h.fits.set hm

theorem shows_unset {s : TimerSys} {d : DeadlineSys} (h : Shows s d) (handler arg : Nat) :
    Option.Rel Shows (timerStep s (.unset handler arg)) (deadlineStep d (.unset handler arg)) := by
  refine Option.Rel.some ⟨?_, ?_, h.now, h.fired⟩
  · simp only
    rw [deltas_sysUntimeout _ _ h.fits, due_remove, h.queue]
  · simp only
    rw [deltas_sysUntimeout _ _ h.fits]
    exact h.fits.remove _

theorem shows_message {s : TimerSys} {d : DeadlineSys} (h : Shows s d) (ticks : Nat) :
    Option.Rel Shows (timerStep s (.fetch (.message ticks))) (deadlineStep d (.fetch (.message ticks))) := by
  obtain ⟨l, now, fired⟩ := s
  obtain ⟨clock, queue, now', fired'⟩ := d
  obtain ⟨hq, hf, hnow, hfired⟩ := h
  simp only at hq hf hnow hfired
  subst hq hnow hfired
  cases l with
  | nil =>
    refine Option.Rel.some ⟨rfl, hf, rfl, ?_⟩
    simp
  | cons n rest =>
    simp only [timerStep, deadlineStep, sysTimeoutsMboxFetch, deltas_cons, due, Nat.add_eq_left]
    by_cases h0 : n.time = 0
    · rw [if_pos h0, if_pos h0]
      exact Option.Rel.none
    · rw [if_neg h0, if_neg h0]
      by_cases h1 : ticks % 2 ^ 32 = sysArchTimeout
      · rw [if_pos h1, if_pos h1]
        exact Option.Rel.some ⟨rfl, hf.tail, rfl, rfl⟩
      · rw [if_neg h1, if_neg h1]
        have hn : n.time < 2 ^ 32 := hf.head_lt
        by_cases h2 : ticks % 2 ^ 32 < n.time
        · rw [if_pos h2, Nat.min_eq_left (by omega)]
          refine Option.Rel.some ⟨?_, ?_, rfl, ?_⟩
          · simp only [deltas_cons]
            rw [sub32_eq (by omega) hn, due_advance _ _ _ _ _ (by omega), due]
          · simp only [deltas_cons]
            rw [sub32_eq (by omega) hn]
            exact hf.mono (by omega)
          · simp
        · rw [if_neg h2, Nat.min_eq_right (by omega)]
          refine Option.Rel.some ⟨?_, hf.mono (Nat.zero_le _), rfl, ?_⟩
          · simp only [deltas_cons, due, Nat.add_zero]
          · simp

theorem shows_timeout {s : TimerSys} {d : DeadlineSys} (h : Shows s d) (ticks : Nat) :
    Option.Rel Shows (timerStep s (.fetch (.timeout ticks))) (deadlineStep d (.fetch (.timeout ticks))) := by
  obtain ⟨l, now, fired⟩ := s
  obtain ⟨clock, queue, now', fired'⟩ := d
  obtain ⟨hq, hf, hnow, hfired⟩ := h
  simp only at hq hf hnow hfired
  subst hq hnow hfired
  cases l with
  | nil => exact Option.Rel.none
  | cons n rest =>
    simp only [timerStep, deadlineStep, sysTimeoutsMboxFetch, deltas_cons, due, Nat.add_le_add_iff_left]
    by_cases h0 : n.time ≤ ticks
    · rw [if_pos h0, if_pos h0]
      exact Option.Rel.some ⟨rfl, hf.tail, rfl, rfl⟩
    · rw [if_neg h0, if_neg h0]
      exact Option.Rel.none

/-- The two machines step together. -/
theorem shows_step (s : TimerSys) (d : DeadlineSys) (a : TimerAct) (h : Shows s d) (hok : timerOk a = true) :
    Option.Rel Shows (timerStep s a) (deadlineStep d a) := by
  cases a with
  | set msecs handler arg => exact shows_set h (of_decide_eq_true hok)
  | unset handler arg => exact shows_unset h handler arg
  | fetch e =>
    cases e with
    | message ticks => exact shows_message h ticks
    | timeout ticks => exact shows_timeout h ticks
  | work ticks => exact Option.Rel.some ⟨h.queue, h.fits, by simp only [h.now], h.fired⟩

theorem shows_init : Shows TimerSys.init DeadlineSys.init := ⟨rfl, fun _ he => (List.not_mem_nil he).elim, rfl, rfl⟩

end TimerAux

open TimerAux in
/-- On every sequence of calls and waits, the list of differences and the queue of deadlines do the same: they call the same entries at
the same times and have the same entries pending, in the same order, or both cannot go on. -/
theorem timers_refine_deadlines (as : List TimerAct) :
    (exec timerStep (fun _ => timerOk) TimerSys.init as).map (fun s => (s.fired, s.now, s.nextTimeout.map SysTimeo.call)) =
      (exec deadlineStep (fun _ => timerOk) DeadlineSys.init as).map (fun d => (d.fired, d.now, d.queue.map Prod.snd)) := by
  have h := exec_rel shows_step as shows_init
  cases hs : exec timerStep (fun _ => timerOk) TimerSys.init as <;>
    cases hd : exec deadlineStep (fun _ => timerOk) DeadlineSys.init as <;> rw [hs, hd] at h
  · rfl
  · cases h
  · cases h
  · cases h with
    | some h =>
      rw [Option.map_some, Option.map_some, h.fired, h.now, h.queue, map_snd_due, deltas, List.map_map]
      rfl

/-! ## No timeout is early -/

namespace TimerAux

/-- The time that is left of every pending entry is at least what is missing of the time it was set for, and nothing was called early. -/
structure InTime (s : TimerSys) : Prop where
  fits : Fits (deltas s.nextTimeout)
  pending : ∀ e ∈ due 0 (deltas s.nextTimeout), e.2.setAt + e.2.msecs ≤ s.now + e.1
  fired : ∀ f ∈ s.fired, f.1.setAt + f.1.msecs ≤ f.2

/-- What is behind the first entry, after a time that reaches it. -/
theorem pending_tail {n : SysTimeo TimerCall} {rest : List (SysTimeo TimerCall)} {now ticks : Nat}
    (h : ∀ e ∈ due 0 (deltas (n :: rest)), e.2.setAt + e.2.msecs ≤ now + e.1) (ht : n.time ≤ ticks) :
    ∀ e ∈ due 0 (deltas rest), e.2.setAt + e.2.msecs ≤ now + ticks + e.1 := by
  intro e he
  have := h (e.1 + n.time, e.2) (mem_due_cons.mpr (Or.inr ⟨e, he, rfl⟩))
  simp only at this
  omega

/-- Calling the first entry after a time that reaches it. -/
theorem inTime_fire {s : TimerSys} (h : InTime s) {n : SysTimeo TimerCall} {rest : List (SysTimeo TimerCall)}
    (hl : s.nextTimeout = n :: rest) {ticks : Nat} (ht : n.time ≤ ticks) :
    InTime ⟨rest, s.now + ticks, s.fired ++ [(n.call, s.now + ticks)]⟩ := by
  have hf := h.fits
  have hp := h.pending
  rw [hl] at hf hp
  refine ⟨hf.tail, pending_tail hp ht, ?_⟩
  intro f hm
  rcases List.mem_append.mp hm with hm | hm
  · exact h.fired f hm
  · rw [List.mem_singleton.mp hm]
    have := hp (n.time, n.call) (mem_due_cons.mpr (Or.inl rfl))
    simp only at this ⊢
    omega

/-- A wait that a message ends before the first entry is due. -/
theorem inTime_wait {s : TimerSys} (h : InTime s) {n : SysTimeo TimerCall} {rest : List (SysTimeo TimerCall)}
    (hl : s.nextTimeout = n :: rest) (ticks t : Nat) (ht : n.time ≤ t + ticks) (hle : t ≤ n.time) :
    InTime ⟨⟨t, n.call⟩ :: rest, s.now + ticks, s.fired⟩ := by
  have hf := h.fits
  have hp := h.pending
  rw [hl] at hf hp
  refine ⟨hf.mono hle, ?_, h.fired⟩
  intro e he
  rcases mem_due_cons.mp he with rfl | ⟨u, hu, rfl⟩
  · have := hp (n.time, n.call) (mem_due_cons.mpr (Or.inl rfl))
    simp only at this ⊢
    omega
  · have := hp (u.1 + n.time, u.2) (mem_due_cons.mpr (Or.inr ⟨u, hu, rfl⟩))
    simp only at this ⊢
    omega

theorem inTime_fetch {s s' : TimerSys} (h : InTime s) {e : FetchEnd} (hs : timerStep s (.fetch e) = some s') : InTime s' := by
  obtain ⟨l, now, fired⟩ := s
  cases l with
  | nil =>
    cases e with
    | message ticks =>
      obtain rfl := Option.some.inj hs
      exact ⟨h.fits, fun e he => (List.not_mem_nil he).elim, by simpa using h.fired⟩
    | timeout ticks => cases hs
  | cons n rest =>
    have hn : n.time < 2 ^ 32 := h.fits.head_lt
    cases e with
    | message ticks =>
      simp only [timerStep, sysTimeoutsMboxFetch] at hs
      split at hs
      · cases hs
      split at hs
      · rename_i h1
        obtain rfl := Option.some.inj hs
        -- the elapsed time reads as a time-out, and no wait is that long
        have ht : n.time ≤ ticks := by
          rw [sysArchTimeout] at h1
          omega
        exact inTime_fire h rfl ht
      split at hs
      · rename_i h2
        obtain rfl := Option.some.inj hs
        have hw := inTime_wait h rfl ticks (n.time - ticks % 2 ^ 32) (by omega) (by omega)
        rw [← sub32_eq (Nat.le_of_lt h2) hn] at hw
        simpa using hw
      · rename_i h2
        obtain rfl := Option.some.inj hs
        have hw := inTime_wait h rfl ticks 0 (by omega) (by omega)
        simpa using hw
    | timeout ticks =>
      simp only [timerStep, sysTimeoutsMboxFetch] at hs
      split at hs
      · rename_i h1
        obtain rfl := Option.some.inj hs
        exact inTime_fire h rfl h1
      · cases hs

theorem inTime_step {s s' : TimerSys} {a : TimerAct} (h : InTime s) (hok : timerOk a = true) (hs : timerStep s a = some s') :
    InTime s' := by
  cases a with
  | set msecs handler arg =>
    have hm : msecs < 2 ^ 32 := of_decide_eq_true hok
    rw [timerStep] at hs
    rcases sysTimeout_spec ⟨handler, arg, s.now, msecs⟩ h.fits hm with ⟨-, h2⟩ | ⟨-, l', h2, h3⟩
    · rw [h2] at hs
      cases hs
    · rw [h2] at hs
      obtain rfl := Option.some.inj hs
      refine ⟨by simp only [h3]; exact h.fits.set hm, ?_, h.fired⟩
      intro e he
      simp only [h3] at he
      rw [due_set, Nat.zero_add] at he
      rcases mem_place.mp he with rfl | he
      · exact Nat.le_refl _
      · exact h.pending e he
  | unset handler arg =>
    obtain rfl := Option.some.inj hs
    have hd := deltas_sysUntimeout (callIs handler arg) _ h.fits
    refine ⟨by simp only [hd]; exact h.fits.remove _, ?_, h.fired⟩
    intro e he
    simp only [hd] at he
    rw [due_remove] at he
    exact h.pending e (List.mem_of_mem_eraseP he)
  | fetch e => exact inTime_fetch h hs
  | work ticks =>
    obtain rfl := Option.some.inj hs
    refine ⟨h.fits, ?_, h.fired⟩
    intro e he
    have := h.pending e he
    simp only
    omega

end TimerAux

open TimerAux in
/-- In every run, whatever is set, taken back and waited for, and however long the thread is busy in between, no timeout is called
before the time it was set for has passed since it was set. -/
theorem timers_never_early (s : TimerSys) (hrun : Reaches timerStep (fun _ a => timerOk a = true) TimerSys.init s) :
    ∀ f ∈ s.fired, f.1.setAt + f.1.msecs ≤ f.2 := by
  have h := hrun.invariant InTime ⟨fun _ he => (List.not_mem_nil he).elim, fun _ he => (List.not_mem_nil he).elim,
    fun _ hf => (List.not_mem_nil hf).elim⟩ fun s a s' h hok hs => inTime_step h hok hs
  exact h.fired

/-- Two timeouts, the later one set first: a message comes in between. -/
theorem timers_never_early_two : ∃ s, Reaches timerStep (fun _ a => timerOk a = true) TimerSys.init s ∧
    s.fired.map (fun f => (f.1.handler, f.2)) = [(2, 7), (1, 12)] ∧ ∀ f ∈ s.fired, f.1.setAt + f.1.msecs ≤ f.2 := by
  obtain ⟨s, hs, hp⟩ := exists_reaches_of_exec timerStep (fun _ => timerOk) TimerSys.init
    [.set 10 1 0, .work 1, .set 5 2 0, .fetch (.message 3), .work 1, .fetch (.timeout 2), .fetch (.timeout 5), .work 5]
    (fun s => decide (s.fired.map (fun f => (f.1.handler, f.2)) = [(2, 7), (1, 12)])) (by decide +kernel)
  exact ⟨s, hs, of_decide_eq_true hp, timers_never_early s hs⟩

end SaymaFirmware
