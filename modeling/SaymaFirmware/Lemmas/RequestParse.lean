import SaymaFirmware.HttpRequest

/-!
# The request parser step by step

Each step of the parser on a memory that is taken apart at the byte where its search ends. What follows that byte makes no difference,
and the memory changes only there.
-/

namespace SaymaFirmware

variable (fsOpen : List UInt8 → Option HttpFile) {u : List UInt8}

theorem set_length_append (u v : List UInt8) (x y : UInt8) : (u ++ x :: v).set u.length y = u ++ y :: v := by
  rw [List.set_append_right _ _ (Nat.le_refl _), Nat.sub_self]
  rfl

/-- The name is the string. -/
theorem serveString_eq (h0 : 0 ∉ u) (v : List UInt8) : serveString fsOpen (u ++ 0 :: v) = ⟨serveName fsOpen u, u ++ 0 :: v⟩ := by
  rw [serveString, cString_eq h0]

/-- The arguments are cut off. -/
theorem serveArguments_eq (h0 : 0 ∉ u) (v : List UInt8) :
    serveArguments fsOpen (u ++ 0 :: v) = ⟨serveName fsOpen (before questionMark u), cutAt questionMark u ++ 0 :: v⟩ := by
  unfold serveArguments
  by_cases hq : questionMark ∈ u
  · obtain ⟨a, a', rfl, hqa⟩ := List.eq_append_cons_of_mem hq
    have h0a : 0 ∉ a := fun h => h0 (List.mem_append_left _ h)
    rw [List.append_assoc, List.cons_append, strchr_hit hqa h0a]
    dsimp only
    rw [set_length_append, serveString_eq fsOpen h0a, before_append_cons hqa, cutAt_append_cons hqa, List.append_assoc,
      List.cons_append]
  · rw [strchr_miss hq h0 (by decide)]
    dsimp only
    rw [serveString_eq fsOpen h0, before_of_not_mem hq, cutAt_of_not_mem hq]

/-- The target ends at a space, which is overwritten, or at the NUL. -/
theorem serveTarget_eq (h0 : 0 ∉ u) (hsp : sp ∉ u) {x : UInt8} (hx : x = sp ∨ x = 0) (v : List UInt8) :
    serveTarget fsOpen (u ++ x :: v) = ⟨serveName fsOpen (before questionMark u), cutAt questionMark u ++ 0 :: v⟩ := by
  unfold serveTarget
  rcases hx with rfl | rfl
  · rw [strchr_hit hsp h0]
    dsimp only
    rw [set_length_append, serveArguments_eq fsOpen h0]
  · rw [strchr_miss hsp h0 (by decide)]
    dsimp only
    rw [serveArguments_eq fsOpen h0]

/-- The comparison of the method ends at the NUL. -/
theorem supportedMethod_append_zero (u v : List UInt8) : supportedMethod (u ++ 0 :: v) = supportedMethod u := by
  rw [supportedMethod, isPrefixOf_append_zero (by decide), isPrefixOf_append_zero (by decide), supportedMethod]

/-- The method ends at a space. -/
theorem serveMethod_space (h0 : 0 ∉ u) (hsp : sp ∉ u) (v : List UInt8) :
    serveMethod fsOpen (u ++ sp :: v) =
      if supportedMethod u then ⟨(serveTarget fsOpen v).calls, u ++ 0 :: (serveTarget fsOpen v).mem⟩ else ⟨[], u ++ 0 :: v⟩ := by
  have hdrop : (u ++ 0 :: v).drop (u.length + 1) = v := by
    rw [List.drop_append, List.drop_of_length_le (Nat.le_succ _), Nat.add_sub_cancel_left]
    rfl
  have htake : (u ++ 0 :: v).take (u.length + 1) = u ++ [0] := by
    rw [List.take_append, List.take_of_length_le (Nat.le_succ _), Nat.add_sub_cancel_left]
    rfl
  unfold serveMethod
  rw [strchr_hit hsp h0]
  dsimp only
  rw [set_length_append, supportedMethod_append_zero, hdrop, htake, List.append_assoc]
  rfl

/-- There is no space before the NUL. -/
theorem serveMethod_zero (h0 : 0 ∉ u) (hsp : sp ∉ u) (v : List UInt8) :
    serveMethod fsOpen (u ++ 0 :: v) = ⟨[], u ++ 0 :: v⟩ := by
  rw [serveMethod, strchr_miss hsp h0 (by decide)]

variable {buflen : Nat}

/-- A CRLF before any NUL. -/
theorem serve_of_crlf (hlen : ¬ buflen < 5) (h0 : 0 ∉ u) (hcrlf : crlf <:+: u) (v : List UInt8) :
    httpServerNetconnServe fsOpen buflen (u ++ v) = serveMethod fsOpen (u ++ v) := by
  obtain ⟨i, hi⟩ := strstr_hit (by decide) hcrlf h0 v
  rw [httpServerNetconnServe, if_neg hlen, hi]

/-- No CRLF before the NUL. -/
theorem serve_of_not_crlf (h0 : 0 ∉ u) (hcrlf : ¬ crlf <:+: u) (v : List UInt8) :
    httpServerNetconnServe fsOpen buflen (u ++ 0 :: v) = ⟨[], u ++ 0 :: v⟩ := by
  rw [httpServerNetconnServe, strstr_miss (by decide) (by decide) hcrlf h0 v]
  split <;> rfl

/-- Every name leads to a call. -/
theorem serveName_ne_nil (name : List UInt8) : serveName fsOpen name ≠ [] := by
  unfold serveName
  repeat' split
  all_goals exact List.cons_ne_nil _ _

end SaymaFirmware
