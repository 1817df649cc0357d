import SaymaFirmware.Lib.DeltaList
import SaymaFirmware.Timers

/-!
# The timeout list as a delta list

The functions of `lwip_timers.c` on the list of timeouts are the operations of a delta list, as long as every time that is left is a
32-bit number (`Fits`), which they keep.
-/

namespace SaymaFirmware

open Delta

variable {α : Type*}

/-- The list of timeouts as differences. -/
def deltas (l : List (SysTimeo α)) : List (Nat × α) := l.map fun t => (t.time, t.call)

@[simp] theorem deltas_nil : deltas ([] : List (SysTimeo α)) = [] := rfl

@[simp] theorem deltas_cons (t : SysTimeo α) (l : List (SysTimeo α)) : deltas (t :: l) = (t.time, t.call) :: deltas l := rfl

/-- Every time that is left is a 32-bit number. -/
def Fits (ds : List (Nat × α)) : Prop := ∀ e ∈ due 0 ds, e.1 < 2 ^ 32

section

variable {d e : Nat} {x y : α} {ds : List (Nat × α)}

/-- A queue that starts later is due later by the same amount. -/
theorem due_shift (w d : Nat) (ds : List (Nat × α)) : due (w + d) ds = (due w ds).map fun e => (e.1 + d, e.2) := by
  induction ds generalizing w with
  | nil => rfl
  | cons e ds ih => rw [due, due, List.map_cons, show w + d + e.1 = w + e.1 + d by omega, ih]

theorem mem_due_cons {z : Nat × α} : z ∈ due 0 ((d, x) :: ds) ↔ z = (d, x) ∨ ∃ e ∈ due 0 ds, z = (e.1 + d, e.2) := by
  rw [due, List.mem_cons, Nat.zero_add, ← Nat.zero_add d, due_shift, Nat.zero_add, List.mem_map]
  simp only [eq_comm]

namespace Fits

theorem head_lt (h : Fits ((d, x) :: ds)) : d < 2 ^ 32 := h (d, x) (mem_due_cons.mpr (Or.inl rfl))

theorem tail (h : Fits ((d, x) :: ds)) : Fits ds := by
  intro e he
  have := h (e.1 + d, e.2) (mem_due_cons.mpr (Or.inr ⟨e, he, rfl⟩))
  simp only at this
  omega

theorem add_lt (h : Fits ((d, x) :: (e, y) :: ds)) : d + e < 2 ^ 32 := by
  have := h (e + d, y) (mem_due_cons.mpr (Or.inr ⟨(e, y), mem_due_cons.mpr (Or.inl rfl), rfl⟩))
  simp only at this
  omega

/-- A first entry that is due sooner. -/
theorem mono (h : Fits ((d, x) :: ds)) (hed : e ≤ d) : Fits ((e, x) :: ds) := by
  intro z hz
  rcases mem_due_cons.mp hz with rfl | ⟨u, hu, rfl⟩
  · exact Nat.lt_of_le_of_lt hed h.head_lt
  · have := h (u.1 + d, u.2) (mem_due_cons.mpr (Or.inr ⟨u, hu, rfl⟩))
    simp only at this ⊢
    omega

theorem set (h : Fits ds) (hd : d < 2 ^ 32) : Fits (Delta.set d x ds) := by
  intro z hz
  rw [due_set, Nat.zero_add] at hz
  rcases mem_place.mp hz with rfl | hz
  · exact hd
  · exact h z hz

theorem remove (h : Fits ds) (p : α → Bool) : Fits (Delta.remove p ds) := by
  intro z hz
  rw [due_remove] at hz
  exact h z (List.mem_of_mem_eraseP hz)

end Fits

end

/-! ## The functions -/

/-- The loop of `sys_timeout` puts the timeout where it belongs. -/
theorem deltas_sysTimeoutLoop : ∀ (l : List (SysTimeo α)) (t timeout : SysTimeo α), Fits (deltas (t :: l)) → t.time ≤ timeout.time →
    timeout.time < 2 ^ 32 → deltas (sysTimeoutLoop timeout (t :: l)) = Delta.set timeout.time timeout.call (deltas (t :: l)) := by
  intro l
  induction l with
  | nil =>
    intro t timeout hf hle hlt
    simp only [sysTimeoutLoop, deltas_cons, deltas_nil, Delta.set]
    rw [sub32_eq hle hlt, if_neg (by omega)]
  | cons n rest ih =>
    intro t timeout hf hle hlt
    have hn : n.time < 2 ^ 32 := hf.tail.head_lt
    have hset : Delta.set timeout.time timeout.call (deltas (t :: n :: rest)) =
        (t.time, t.call) :: Delta.set (timeout.time - t.time) timeout.call (deltas (n :: rest)) := by
      rw [deltas_cons, Delta.set, if_neg (by omega)]
    rw [hset, sysTimeoutLoop]
    simp only
    rw [sub32_eq hle hlt]
    by_cases h : timeout.time - t.time < n.time
    · rw [if_pos h, sub32_eq (by omega) hn, deltas_cons n rest, Delta.set, if_pos h]
      rfl
    · rw [if_neg h, deltas_cons, ih n _ hf.tail (by simp only; omega) (by simp only; omega)]

/-- `sys_timeout` sets a timeout if the pool has one left. -/
theorem sysTimeout_spec {msecs : Nat} (call : α) {l : List (SysTimeo α)} (hf : Fits (deltas l)) (hm : msecs < 2 ^ 32) :
    (mempNumSysTimeout ≤ l.length ∧ sysTimeout msecs call l = none) ∨
    (l.length < mempNumSysTimeout ∧ ∃ l', sysTimeout msecs call l = some l' ∧ deltas l' = Delta.set msecs call (deltas l)) := by
  rcases Nat.lt_or_ge l.length mempNumSysTimeout with hlen | hlen
  · refine Or.inr ⟨hlen, ?_⟩
    unfold sysTimeout
    rw [if_neg (by omega)]
    cases l with
    | nil => exact ⟨_, rfl, rfl⟩
    | cons n rest =>
      simp only
      by_cases h : msecs < n.time
      · refine ⟨_, if_pos h, ?_⟩
        rw [deltas_cons, deltas_cons, deltas_cons, Delta.set, if_pos h, sub32_eq (by omega) hf.head_lt]
      · exact ⟨_, if_neg h, deltas_sysTimeoutLoop rest n ⟨msecs, call⟩ hf (by simp only; omega) hm⟩
  · exact Or.inl ⟨hlen, by unfold sysTimeout; rw [if_pos hlen]⟩

/-- `sys_untimeout` takes the first matching timeout out. -/
theorem deltas_sysUntimeout (p : α → Bool) : ∀ (l : List (SysTimeo α)), Fits (deltas l) →
    deltas (sysUntimeout p l) = remove p (deltas l) := by
  intro l
  induction l with
  | nil => intro _; rfl
  | cons t rest ih =>
    intro hf
    unfold sysUntimeout
    rw [deltas_cons, remove]
    cases hp : p t.call with
    | true =>
      rw [if_pos rfl, if_pos rfl]
      cases rest with
      | nil => rfl
      | cons n rest =>
        have hadd : t.time + n.time < 2 ^ 32 := hf.add_lt
        change (add32 n.time t.time, n.call) :: deltas rest = (t.time + n.time, n.call) :: deltas rest
        rw [add32_eq (by omega), Nat.add_comm]
    | false => rw [if_neg Bool.false_ne_true, if_neg Bool.false_ne_true, deltas_cons, ih hf.tail]

/-- What is pending is the differences' entries. -/
theorem map_snd_deltas (l : List (SysTimeo α)) : (deltas l).map Prod.snd = l.map SysTimeo.call := by
  rw [deltas, List.map_map]
  rfl

/-- A pass of the fetch calls the first entry or none, and leaves the others. -/
theorem fetch_spec {l l' : List (SysTimeo α)} {e : FetchEnd} {c : Option α} {ticks : Nat} (hf : Fits (deltas l))
    (h : sysTimeoutsMboxFetch l e = some (l', c, ticks)) :
    l.map SysTimeo.call = c.toList ++ l'.map SysTimeo.call ∧ Fits (deltas l') := by
  cases l with
  | nil =>
    cases e with
    | message k =>
      cases h
      exact ⟨rfl, hf⟩
    | timeout k => cases h
  | cons n rest =>
    have hn : n.time < 2 ^ 32 := hf.head_lt
    cases e with
    | message k =>
      simp only [sysTimeoutsMboxFetch] at h
      split at h
      · cases h
      split at h
      · cases h
        exact ⟨rfl, hf.tail⟩
      split at h
      · rename_i h2
        cases h
        refine ⟨rfl, hf.mono ?_⟩
        rw [sub32_eq (Nat.le_of_lt h2) hn]
        exact Nat.sub_le _ _
      · cases h
        exact ⟨rfl, hf.mono (Nat.zero_le _)⟩
    | timeout k =>
      simp only [sysTimeoutsMboxFetch] at h
      split at h
      · cases h
        exact ⟨rfl, hf.tail⟩
      · cases h

end SaymaFirmware
