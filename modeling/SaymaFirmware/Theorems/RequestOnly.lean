import SaymaFirmware.Lemmas.RequestParse

/-!
# The request parser and the memory behind the request

The received bytes are no C string, so a search goes on behind the payload until it meets what it looks for or a NUL. It stays inside
exactly for the payloads of `Delimited`.
-/

namespace SaymaFirmware

namespace RequestAux

variable {fsOpen : List UInt8 → Option HttpFile} {payload : List UInt8}

/-- The parser's run on a memory that begins with `p` depends on `p` alone and changes only `p`. -/
def Contained (run : List UInt8 → HttpRun) (p : List UInt8) : Prop :=
  ∃ calls mem, mem.length = p.length ∧ ∀ behind, run (p ++ behind) = ⟨calls, mem ++ behind⟩

/-- The target ends within `p`. -/
theorem target_contained (fsOpen : List UInt8 → Option HttpFile) {p : List UInt8} (h : ∃ x ∈ p, x = sp ∨ x = 0) :
    Contained (serveTarget fsOpen) p := by
  obtain ⟨u, x, v, rfl, hx, hu⟩ := split_first h
  have hsp : sp ∉ u := fun hm => hu _ hm (Or.inl rfl)
  have h0 : 0 ∉ u := fun hm => hu _ hm (Or.inr rfl)
  refine ⟨serveName fsOpen (before questionMark u), cutAt questionMark u ++ 0 :: v, by simp, ?_⟩
  intro behind
  rw [List.append_assoc, List.cons_append, serveTarget_eq fsOpen h0 hsp hx, List.append_assoc, List.cons_append]

/-- The method and the target end within `p`. -/
theorem method_contained (fsOpen : List UInt8 → Option HttpFile) {p : List UInt8} (h : 0 ∈ p ∨ 2 ≤ p.count sp) :
    Contained (serveMethod fsOpen) p := by
  have hfirst : ∃ x ∈ p, x = sp ∨ x = 0 := by
    rcases h with h | h
    · exact ⟨0, h, Or.inr rfl⟩
    · exact ⟨sp, List.count_pos_iff.mp (by omega), Or.inl rfl⟩
  obtain ⟨u, x, v, rfl, hx, hu⟩ := split_first hfirst
  have hsp : sp ∉ u := fun hm => hu _ hm (Or.inl rfl)
  have h0 : 0 ∉ u := fun hm => hu _ hm (Or.inr rfl)
  rcases hx with rfl | rfl
  · have hv : ∃ y ∈ v, y = sp ∨ y = 0 := by
      rcases h with h | h
      · refine ⟨0, ?_, Or.inr rfl⟩
        exact (List.mem_cons.mp ((List.mem_append.mp h).resolve_left h0)).resolve_left (by decide)
      · rw [List.count_append, List.count_eq_zero.mpr hsp, List.count_cons_self] at h
        exact ⟨sp, List.count_pos_iff.mp (by omega), Or.inl rfl⟩
    obtain ⟨calls, mem, hlen, hrun⟩ := target_contained fsOpen hv
    cases hm : supportedMethod u with
    | true =>
      refine ⟨calls, u ++ 0 :: mem, by simp [hlen], ?_⟩
      intro behind
      rw [List.append_assoc, List.cons_append, serveMethod_space fsOpen h0 hsp, hm, hrun]
      simp
    | false =>
      refine ⟨[], u ++ 0 :: v, by simp, ?_⟩
      intro behind
      rw [List.append_assoc, List.cons_append, serveMethod_space fsOpen h0 hsp, hm]
      simp
  · refine ⟨[], u ++ 0 :: v, by simp, ?_⟩
    intro behind
    rw [List.append_assoc, List.cons_append, serveMethod_zero fsOpen h0 hsp]

/-- A memory with a NUL. -/
theorem serve_contained_of_zero {n : Nat} (hn : ¬ n < 5) {p : List UInt8} (h : 0 ∈ p) :
    Contained (httpServerNetconnServe fsOpen n) p := by
  obtain ⟨calls, mem, hmem, hrun⟩ := method_contained fsOpen (Or.inl h)
  obtain ⟨u, v, rfl, h0⟩ := List.eq_append_cons_of_mem h
  by_cases hcrlf : crlf <:+: u
  · refine ⟨calls, mem, hmem, ?_⟩
    intro behind
    rw [← hrun, List.append_assoc, serve_of_crlf fsOpen hn h0 hcrlf]
  · refine ⟨[], u ++ 0 :: v, rfl, ?_⟩
    intro behind
    rw [List.append_assoc, List.cons_append, serve_of_not_crlf fsOpen h0 hcrlf]

/-- A payload with a CRLF and two spaces. -/
theorem serve_contained_of_spaces {n : Nat} (hn : ¬ n < 5) {p : List UInt8} (h0 : 0 ∉ p) (hcrlf : crlf <:+: p)
    (hsp : 2 ≤ p.count sp) : Contained (httpServerNetconnServe fsOpen n) p := by
  obtain ⟨calls, mem, hmem, hrun⟩ := method_contained fsOpen (Or.inr hsp)
  refine ⟨calls, mem, hmem, ?_⟩
  intro behind
  rw [serve_of_crlf fsOpen hn h0 hcrlf, hrun]

/-- A contained run uses only the request. -/
theorem usesOnlyRequest_of_contained (h : Contained (httpServerNetconnServe fsOpen payload.length) payload) :
    UsesOnlyRequest fsOpen payload := by
  obtain ⟨calls, mem, hlen, hrun⟩ := h
  constructor
  · intro behind₁ behind₂ _
    rw [hrun, hrun]
  · intro behind
    rw [hrun, ← hlen, List.drop_left]

/-- A run goes on to the method or ends at once. -/
theorem serve_cases (fsOpen : List UInt8 → Option HttpFile) (n : Nat) (m : List UInt8) :
    httpServerNetconnServe fsOpen n m = ⟨[], m⟩ ∨ httpServerNetconnServe fsOpen n m = serveMethod fsOpen m := by
  unfold httpServerNetconnServe
  split
  · exact Or.inl rfl
  · split
    · exact Or.inr rfl
    · exact Or.inl rfl
    · exact Or.inl rfl

/-- What stands before the first space is no supported method: whether the CRLF is found makes no difference. -/
theorem usesOnlyRequest_of_unsupported {u v : List UInt8} (h0 : 0 ∉ u) (hsp : sp ∉ u) (hm : supportedMethod u = false) :
    UsesOnlyRequest fsOpen (u ++ sp :: v) := by
  have hmethod : ∀ behind, serveMethod fsOpen (u ++ sp :: v ++ behind) = ⟨[], u ++ 0 :: v ++ behind⟩ := by
    intro behind
    rw [List.append_assoc, List.cons_append, serveMethod_space fsOpen h0 hsp, hm, List.append_assoc]
    rfl
  have hcalls : ∀ behind, (httpServerNetconnServe fsOpen (u ++ sp :: v).length (u ++ sp :: v ++ behind)).calls = [] := by
    intro behind
    rcases serve_cases fsOpen (u ++ sp :: v).length (u ++ sp :: v ++ behind) with h | h
    · rw [h]
    · rw [h, hmethod]
  constructor
  · intro behind₁ behind₂ _
    rw [hcalls, hcalls]
  · intro behind
    rcases serve_cases fsOpen (u ++ sp :: v).length (u ++ sp :: v ++ behind) with h | h
    · rw [h, List.drop_left]
    · rw [h, hmethod]
      exact List.drop_left' (by simp)

/-! ## Payloads that are not delimited -/

/-- A payload without a space: a space behind it is overwritten. -/
theorem overwrites_of_no_space {n : Nat} (hn : ¬ n < 5) {p : List UInt8} (h0 : 0 ∉ p) (hsp : sp ∉ p) :
    (httpServerNetconnServe fsOpen n (p ++ (crlf ++ [sp, 0]))).mem.drop p.length ≠ crlf ++ [sp, 0] := by
  have h0' : 0 ∉ p ++ crlf := fun h => (List.mem_append.mp h).elim h0 (by decide)
  have hsp' : sp ∉ p ++ crlf := fun h => (List.mem_append.mp h).elim hsp (by decide)
  have hmem : ∃ rest, (httpServerNetconnServe fsOpen n (p ++ (crlf ++ [sp, 0]))).mem = p ++ (crlf ++ 0 :: rest) := by
    rw [← List.append_assoc, serve_of_crlf fsOpen hn h0' ⟨p, [], by simp⟩, serveMethod_space fsOpen h0' hsp']
    split
    · exact ⟨_, List.append_assoc _ _ _⟩
    · exact ⟨_, List.append_assoc _ _ _⟩
  obtain ⟨rest, hrest⟩ := hmem
  rw [hrest, List.drop_left]
  simp [sp]

/-- A payload with one space after a method: a second space behind it is overwritten. -/
theorem overwrites_of_one_space {n : Nat} (hn : ¬ n < 5) {u v : List UInt8} (h0 : 0 ∉ u ++ sp :: v) (hu : sp ∉ u) (hv : sp ∉ v)
    (hm : supportedMethod u = true) (hcrlf : crlf <:+: u ++ sp :: v) :
    (httpServerNetconnServe fsOpen n (u ++ sp :: v ++ [sp])).mem.drop (u ++ sp :: v).length ≠ [sp] := by
  have h0u : 0 ∉ u := fun h => h0 (List.mem_append_left _ h)
  have h0v : 0 ∉ v := fun h => h0 (List.mem_append_right _ (List.mem_cons_of_mem _ h))
  rw [serve_of_crlf fsOpen hn h0 hcrlf, List.append_assoc, List.cons_append, serveMethod_space fsOpen h0u hu, if_pos hm,
    serveTarget_eq fsOpen h0v hv (Or.inl rfl)]
  have hlen : (u ++ 0 :: cutAt questionMark v).length = (u ++ sp :: v).length := by simp
  rw [show u ++ 0 :: (cutAt questionMark v ++ [0]) = (u ++ 0 :: cutAt questionMark v) ++ [0] by simp, ← hlen, List.drop_left]
  decide

/-- A payload without a CRLF, with a space after a method: it is answered or not as the memory behind it says. -/
theorem calls_differ_of_not_crlf {n : Nat} (hn : ¬ n < 5) {u v : List UInt8} (h0 : 0 ∉ u ++ sp :: v) (hu : sp ∉ u)
    (hm : supportedMethod u = true) (hcrlf : ¬ crlf <:+: u ++ sp :: v) :
    (httpServerNetconnServe fsOpen n (u ++ sp :: v ++ [0, 0, 0])).calls ≠
      (httpServerNetconnServe fsOpen n (u ++ sp :: v ++ (crlf ++ [0]))).calls := by
  have h0u : 0 ∉ u := fun h => h0 (List.mem_append_left _ h)
  have h0' : 0 ∉ u ++ sp :: v ++ crlf := fun h => (List.mem_append.mp h).elim h0 (by decide)
  obtain ⟨w, x, w', hw, hx, hfirst⟩ := split_first (P := fun x => x = sp ∨ x = 0) (m := v ++ (crlf ++ [0]))
    ⟨0, by simp, Or.inr rfl⟩
  have hsp : sp ∉ w := fun h => hfirst _ h (Or.inl rfl)
  have hz : 0 ∉ w := fun h => hfirst _ h (Or.inr rfl)
  have hanswered : (httpServerNetconnServe fsOpen n (u ++ sp :: v ++ (crlf ++ [0]))).calls =
      serveName fsOpen (before questionMark w) := by
    rw [← List.append_assoc, serve_of_crlf fsOpen hn h0' ⟨u ++ sp :: v, [], by simp⟩, List.append_assoc, List.append_assoc,
      List.cons_append, serveMethod_space fsOpen h0u hu, if_pos hm, hw, serveTarget_eq fsOpen hz hsp hx]
  rw [serve_of_not_crlf fsOpen h0 hcrlf, hanswered]
  exact Ne.symm (serveName_ne_nil fsOpen _)

end RequestAux

open RequestAux in
/-- The server uses only the request, whatever `fs_open` does, exactly for the delimited payloads. -/
theorem usesOnlyRequest_iff (fsOpen : List UInt8 → Option HttpFile) (payload : List UInt8) :
    UsesOnlyRequest fsOpen payload ↔ Delimited payload := by
  by_cases hlen : payload.length < 5
  · refine Iff.intro (fun _ => Or.inl hlen) (fun _ => usesOnlyRequest_of_contained ⟨[], payload, rfl, ?_⟩)
    intro behind
    rw [httpServerNetconnServe, if_pos hlen]
  by_cases h0 : 0 ∈ payload
  · exact Iff.intro (fun _ => Or.inr (Or.inl h0)) (fun _ => usesOnlyRequest_of_contained (serve_contained_of_zero hlen h0))
  unfold Delimited
  simp only [hlen, h0, false_or]
  by_cases hsp : sp ∈ payload
  · obtain ⟨u, v, rfl, hspu⟩ := List.eq_append_cons_of_mem hsp
    have h0u : 0 ∉ u := fun h => h0 (List.mem_append_left _ h)
    rw [before_append_cons hspu, and_iff_right hsp]
    cases hm : supportedMethod u with
    | false => exact Iff.intro (fun _ => Or.inl rfl) (fun _ => usesOnlyRequest_of_unsupported h0u hspu hm)
    | true =>
      simp only [Bool.true_eq_false, false_or]
      constructor
      · intro h
        by_cases hcrlf : crlf <:+: u ++ sp :: v
        · refine ⟨hcrlf, ?_⟩
          by_contra hcount
          have hv : sp ∉ v := by
            rw [List.count_append, List.count_eq_zero.mpr hspu, List.count_cons_self] at hcount
            exact List.count_eq_zero.mp (by omega)
          exact overwrites_of_one_space hlen h0 hspu hv hm hcrlf (h.mem [sp])
        · exact absurd (h.calls [0, 0, 0] (crlf ++ [0]) rfl) (calls_differ_of_not_crlf hlen h0 hspu hm hcrlf)
      · rintro ⟨hcrlf, hcount⟩
        exact usesOnlyRequest_of_contained (serve_contained_of_spaces hlen h0 hcrlf hcount)
  · have hcount : ¬ 2 ≤ payload.count sp := by
      rw [List.count_eq_zero.mpr hsp]
      decide
    simp only [hsp, hcount, false_and, and_false, or_false, iff_false]
    exact fun h => overwrites_of_no_space hlen h0 hsp (h.mem _)

open RequestAux in
/-- A request for `/` without a version: the space behind it, which is no part of it, is overwritten. -/
theorem overwrites_behind_get : ¬ UsesOnlyRequest (fun _ => none) (bytesOf "GET /\r\n") := by
  intro h
  have hmem := h.mem [sp]
  revert hmem
  decide

end SaymaFirmware
