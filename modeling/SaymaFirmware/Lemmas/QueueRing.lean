import SaymaFirmware.Lib.RingIndex
import SaymaFirmware.RtosQueue

/-!
# The storage of a queue

What a queue holds is read off its storage (`contents`), from the place behind `pcReadFrom` on. As long as the two positions agree with
the number of messages (`WF`), the functions that copy data are the operations of a queue with two ends.
-/

namespace SaymaFirmware
namespace QueueData

variable {α : Type*} {q : QueueData α}

/-- What the queue holds, the next item to read first. -/
def contents (q : QueueData α) : List α :=
  (List.range q.uxMessagesWaiting).map fun i => q.storage ((q.pcReadFrom + 1 + i) % q.uxLength)

/-- The positions agree with the number of messages. -/
structure WF (q : QueueData α) : Prop where
  read : q.pcReadFrom < q.uxLength
  write : q.pcWriteTo = (q.pcReadFrom + 1 + q.uxMessagesWaiting) % q.uxLength
  count : q.uxMessagesWaiting ≤ q.uxLength

/-- It holds as many items as it says. -/
theorem length_contents (q : QueueData α) : q.contents.length = q.uxMessagesWaiting := by
  rw [contents, List.length_map, List.length_range]

/-- A new queue is in order. -/
theorem wf_reset (storage : Nat → α) {n : Nat} (hn : 0 < n) : (reset storage n).WF where
  read := Nat.sub_lt hn Nat.one_pos
  write := by
    have h : n - 1 + 1 = n := Nat.sub_add_cancel hn
    simp only [reset, h, Nat.add_zero, Nat.mod_self]
  count := Nat.zero_le n

/-- Moving a position by one place, as the source does it. -/
theorem step_eq {n i : Nat} (h : i < n) : (if n ≤ i + 1 then 0 else i + 1) = (i + 1) % n := by
  split
  · have : i + 1 = n := by omega
    rw [this, Nat.mod_self]
  · exact (Nat.mod_eq_of_lt (by omega)).symm

/-- The next place to read from. -/
theorem nextRead_eq (h : q.WF) : q.nextRead = (q.pcReadFrom + 1) % q.uxLength := step_eq h.read

section Back

variable (item : α)

/-- A send to the back keeps the positions in order. -/
theorem wf_back (h : q.WF) (hlt : q.uxMessagesWaiting < q.uxLength) : (q.prvCopyDataToBack item).WF where
  read := h.read
  write := by
    have hw : q.pcWriteTo < q.uxLength := by
      rw [h.write]
      exact Nat.mod_lt _ (Nat.zero_lt_of_lt h.read)
    simp only [prvCopyDataToBack]
    rw [step_eq hw, h.write, Nat.mod_add_mod, Nat.add_assoc]
  count := hlt

/-- It puts the item behind the others. -/
theorem contents_back (h : q.WF) (hlt : q.uxMessagesWaiting < q.uxLength) :
    (q.prvCopyDataToBack item).contents = q.contents ++ [item] := by
  simp only [contents, prvCopyDataToBack, List.range_succ, List.map_append, List.map_cons, List.map_nil, h.write, if_true]
  congr 1
  refine List.map_congr_left fun i hi => if_neg ?_
  have hi := List.mem_range.mp hi
  exact Ring.mod_ne_of_lt (by omega) (by omega)

end Back

section Front

variable (item : α)

/-- The place behind the position that a front send leaves is the one it wrote to. -/
theorem front_read_mod (h : q.WF) : ((q.prvCopyDataToFront item).pcReadFrom + 1) % q.uxLength = q.pcReadFrom := by
  have hlt := h.read
  simp only [prvCopyDataToFront]
  split
  · rename_i h0
    rw [show q.uxLength - 1 + 1 = q.uxLength by omega, Nat.mod_self, h0]
  · rw [show q.pcReadFrom - 1 + 1 = q.pcReadFrom by omega, Nat.mod_eq_of_lt hlt]

/-- Places are counted on from the one that was written to. -/
theorem front_place (h : q.WF) (i : Nat) :
    ((q.prvCopyDataToFront item).pcReadFrom + 1 + i) % q.uxLength = (q.pcReadFrom + i) % q.uxLength := by
  rw [Nat.add_mod, front_read_mod item h, Nat.add_mod_mod]

/-- So does a send to the front. -/
theorem wf_front (h : q.WF) (hlt : q.uxMessagesWaiting < q.uxLength) : (q.prvCopyDataToFront item).WF where
  read := by
    have := h.read
    simp only [prvCopyDataToFront]
    split <;> omega
  write := by
    have hcount : (q.prvCopyDataToFront item).uxMessagesWaiting = q.uxMessagesWaiting + 1 := rfl
    have hwrite : (q.prvCopyDataToFront item).pcWriteTo = q.pcWriteTo := rfl
    have hlen : (q.prvCopyDataToFront item).uxLength = q.uxLength := rfl
    rw [hwrite, hlen, hcount, front_place item h, h.write, Nat.add_right_comm, Nat.add_assoc]
  count := hlt

/-- It puts the item before the others. -/
theorem contents_front (h : q.WF) (hlt : q.uxMessagesWaiting < q.uxLength) :
    (q.prvCopyDataToFront item).contents = item :: q.contents := by
  have hread := h.read
  have hplace : ∀ i, (q.prvCopyDataToFront item).storage (((q.prvCopyDataToFront item).pcReadFrom + 1 + i) % q.uxLength) =
      if (q.pcReadFrom + i) % q.uxLength = q.pcReadFrom then item else q.storage ((q.pcReadFrom + i) % q.uxLength) := by
    intro i
    rw [front_place item h]
    rfl
  have hrange : (q.prvCopyDataToFront item).uxMessagesWaiting = q.uxMessagesWaiting + 1 := rfl
  have hlen : (q.prvCopyDataToFront item).uxLength = q.uxLength := rfl
  rw [contents, hrange, hlen, List.range_succ_eq_map, List.map_cons, hplace, Nat.add_zero, Nat.mod_eq_of_lt hread, if_pos rfl,
    List.map_map, contents]
  congr 1
  refine List.map_congr_left ?_
  intro i hi
  have hi := List.mem_range.mp hi
  have hne : (q.pcReadFrom + (i + 1)) % q.uxLength ≠ q.pcReadFrom := by
    have := Ring.mod_ne_of_lt (n := q.uxLength) (j := q.pcReadFrom) (k := q.pcReadFrom + (i + 1)) (by omega) (by omega)
    rw [Nat.mod_eq_of_lt hread] at this
    exact this.symm
  simp only [Function.comp_apply, Nat.succ_eq_add_one]
  rw [hplace, if_neg hne, Nat.add_comm i 1, Nat.add_assoc]

end Front

section Receive

/-- A receive keeps the positions in order. -/
theorem wf_receive (h : q.WF) (hpos : 0 < q.uxMessagesWaiting) : q.prvCopyDataFromQueue.2.WF where
  read := by
    simp only [prvCopyDataFromQueue, nextRead_eq h]
    exact Nat.mod_lt _ (Nat.zero_lt_of_lt h.read)
  write := by
    have hcount : 1 + (q.uxMessagesWaiting - 1) = q.uxMessagesWaiting := by omega
    simp only [prvCopyDataFromQueue, nextRead_eq h]
    rw [h.write, Nat.add_assoc (_ % _), hcount, Nat.mod_add_mod]
  count := Nat.le_trans (Nat.sub_le _ _) h.count

/-- It takes the first item. -/
theorem contents_receive (h : q.WF) (hpos : 0 < q.uxMessagesWaiting) :
    q.contents = q.prvCopyDataFromQueue.1 :: q.prvCopyDataFromQueue.2.contents := by
  obtain ⟨m, hm⟩ := Nat.exists_eq_add_of_lt hpos
  rw [Nat.zero_add] at hm
  simp only [contents, prvCopyDataFromQueue, nextRead_eq h, hm, Nat.add_sub_cancel, List.range_succ_eq_map, List.map_cons, Nat.add_zero,
    List.map_map]
  congr 1
  refine List.map_congr_left ?_
  intro i _
  rw [Function.comp_apply, Nat.add_assoc (_ % _) 1 i, Nat.mod_add_mod, Nat.succ_eq_add_one, Nat.add_comm i 1]

end Receive

end QueueData
end SaymaFirmware
