import SaymaFirmware.Lemmas.RequestParse

/-!
# The request parser and the grammar of the request line

The parser cuts the whole buffer at its first two spaces, so what it takes for the target goes on behind the request line when the line
has no version, and it compares only the first letters of the method. It follows the grammar exactly for the payloads of `GrammarMet`.
-/

namespace SaymaFirmware

namespace RequestLineAux

/-! ## The request line of a payload -/

/-- A payload has a request line when it has a CRLF. -/
theorem requestLine_eq_none {payload : List UInt8} : requestLine payload = none ↔ ¬ crlf <:+: payload := by
  induction payload with
  | nil => simp [requestLine, crlf]
  | cons b payload ih =>
    rw [requestLine, List.infix_cons_iff, ← List.isPrefixOf_iff_prefix]
    split
    · rename_i hp
      simp [hp]
    · rename_i hp
      simp [hp, ih]

/-- The line and the CRLF after it are the beginning of the payload. -/
theorem requestLine_split {payload line : List UInt8} (h : requestLine payload = some line) :
    ∃ rest, payload = line ++ (crlf ++ rest) := by
  induction payload generalizing line with
  | nil => exact nomatch h
  | cons b payload ih =>
    rw [requestLine] at h
    split at h
    · rename_i hp
      obtain rfl := Option.some.inj h
      obtain ⟨rest, hrest⟩ := List.isPrefixOf_iff_prefix.mp hp
      exact ⟨rest, hrest.symm⟩
    · obtain ⟨l, hl, rfl⟩ := Option.map_eq_some_iff.mp h
      obtain ⟨rest, rfl⟩ := ih hl
      exact ⟨rest, rfl⟩

/-- Bytes without a CR stand on the line. -/
theorem requestLine_append {u : List UInt8} (h : 13 ∉ u) (v : List UInt8) :
    requestLine (u ++ v) = (requestLine v).map (u ++ ·) := by
  induction u with
  | nil => simp
  | cons b u ih =>
    rw [List.mem_cons, not_or] at h
    have hp : ¬ crlf.isPrefixOf (b :: (u ++ v)) = true := by
      rw [List.isPrefixOf_iff_prefix, crlf, List.cons_prefix_cons]
      exact fun hb => h.1 hb.1
    rw [List.cons_append, requestLine, if_neg hp, ih h.2, Option.map_map]
    rfl

/-! ## The method -/

/-- GET or POST. -/
def Method (m : List UInt8) : Prop := m = bytesOf "GET" ∨ m = bytesOf "POST"

theorem Method.supported {m : List UInt8} (h : Method m) : supportedMethod m = true := by
  rcases h with rfl | rfl <;> decide

theorem Method.sp_not_mem {m : List UInt8} (h : Method m) : sp ∉ m := by
  rcases h with rfl | rfl <;> decide

theorem Method.cr_not_mem {m : List UInt8} (h : Method m) : 13 ∉ m := by
  rcases h with rfl | rfl <;> decide

/-- The line goes on behind the method and the space. -/
theorem Method.requestLine_eq {m : List UInt8} (h : Method m) (v : List UInt8) :
    requestLine (m ++ sp :: v) = (requestLine v).map (m ++ sp :: ·) := by
  have hsp : requestLine (sp :: v) = (requestLine v).map (sp :: ·) := requestLine_append (u := [sp]) (by decide) v
  rw [requestLine_append h.cr_not_mem, hsp, Option.map_map]
  rfl

/-- A line of the grammar begins with the method and a space. -/
theorem RequestLine.begins {line target : List UInt8} (h : RequestLine line target) : ∃ m rest, Method m ∧ line = m ++ sp :: rest := by
  obtain ⟨m, hm, -, rfl | ⟨text, rfl⟩⟩ := h
  · exact ⟨m, target, hm, rfl⟩
  · exact ⟨m, target ++ sp :: text, hm, rfl⟩

/-- Behind the method and the space, the target is what stands before the next space. -/
theorem requestLine_iff {m rest target : List UInt8} (hm : Method m) :
    RequestLine (m ++ sp :: rest) target ↔ target = before sp rest := by
  constructor
  · rintro ⟨m', hm', htarget, hline | ⟨text, hline⟩⟩
    · obtain ⟨-, rfl⟩ := append_cons_inj hm.sp_not_mem (Method.sp_not_mem hm') hline
      exact (before_of_not_mem htarget).symm
    · obtain ⟨-, rfl⟩ := append_cons_inj hm.sp_not_mem (Method.sp_not_mem hm') hline
      exact (before_append_cons htarget text).symm
  · rintro rfl
    by_cases hsp : sp ∈ rest
    · obtain ⟨a, text, rfl, hspa⟩ := List.eq_append_cons_of_mem hsp
      rw [before_append_cons hspa]
      exact ⟨m, hm, hspa, Or.inr ⟨text, rfl⟩⟩
    · rw [before_of_not_mem hsp]
      exact ⟨m, hm, hsp, Or.inl rfl⟩

/-- A payload whose line is of the grammar begins with a method and a space. -/
theorem begins_of_requestLine {payload line target : List UInt8} (hline : requestLine payload = some line)
    (h : RequestLine line target) : ∃ m rest, Method m ∧ payload = m ++ sp :: rest := by
  obtain ⟨m, rest, hm, rfl⟩ := RequestLine.begins h
  obtain ⟨tail, rfl⟩ := requestLine_split hline
  exact ⟨m, rest ++ (crlf ++ tail), hm, by rw [List.append_assoc, List.cons_append]⟩

/-! ## The response -/

/-- What is written for a name when there are no files. -/
theorem written_serveName (target mem : List UInt8) :
    (HttpRun.mk (serveName (fun _ => none) (before questionMark target)) mem).written = (targetResponse target).writes := by
  unfold targetResponse serveName
  split <;> rfl

/-- The parser takes for the target what stands before the next space, on the line or behind it. -/
theorem written_serveTarget {v : List UInt8} (h0 : 0 ∉ v) (behind : List UInt8) :
    (serveTarget (fun _ => none) (v ++ 0 :: behind)).written = (targetResponse (before sp v)).writes := by
  by_cases hsp : sp ∈ v
  · obtain ⟨a, b, rfl, hspa⟩ := List.eq_append_cons_of_mem hsp
    have h0a : 0 ∉ a := fun h => h0 (List.mem_append_left _ h)
    rw [List.append_assoc, List.cons_append, serveTarget_eq _ h0a hspa (Or.inl rfl), written_serveName, before_append_cons hspa]
  · rw [serveTarget_eq _ h0 hsp (Or.inr rfl), written_serveName, before_of_not_mem hsp]

/-- The two responses are not the same. -/
theorem writes_targetResponse_inj {t t' : List UInt8} :
    (targetResponse t).writes = (targetResponse t').writes ↔
      (before questionMark t = bytesOf "/" ↔ before questionMark t' = bytesOf "/") := by
  unfold targetResponse
  split <;> split <;> simp [HttpResponse.writes, *]

/-- What the parser takes for the target is answered like the target of the line, unless that is a slash and the line ends after it. -/
theorem target_agrees (line rest : List UInt8) :
    (targetResponse (before sp (line ++ (crlf ++ rest)))).writes = (targetResponse (before sp line)).writes ↔ line ≠ bytesOf "/" := by
  rw [writes_targetResponse_inj]
  by_cases hsp : sp ∈ line
  · rw [before_append_of_mem hsp]
    refine iff_of_true Iff.rfl ?_
    rintro rfl
    exact absurd hsp (by decide)
  rw [before_append_of_not_mem hsp, before_of_not_mem hsp]
  by_cases hq : questionMark ∈ line
  · rw [before_append_of_mem hq]
    refine iff_of_true Iff.rfl ?_
    rintro rfl
    exact absurd hq (by decide)
  rw [before_append_of_not_mem hq, before_of_not_mem hq]
  have hcr : line ++ before questionMark (before sp (crlf ++ rest)) ≠ bytesOf "/" := by
    intro h
    have hmem : (13 : UInt8) ∈ bytesOf "/" := by
      rw [← h, before_append_of_not_mem (by decide), before_append_of_not_mem (by decide)]
      simp [crlf]
    exact absurd hmem (by decide)
  simp [hcr]

/-! ## The payload -/

variable {payload behind : List UInt8}

/-- A payload that is not answered and whose line is not of the grammar. -/
theorem followsGrammar_of_silent
    (hsilent : (httpServerNetconnServe (fun _ => none) payload.length (payload ++ 0 :: behind)).written = [])
    (hline : ∀ m rest, Method m → payload ≠ m ++ sp :: rest) : FollowsGrammar payload behind := by
  constructor
  · intro line target hl hr
    obtain ⟨m, rest, hm, hp⟩ := begins_of_requestLine hl hr
    exact absurd hp (hline m rest hm)
  · exact fun _ => hsilent

/-- A payload with a CRLF and a space. -/
theorem written_serve {u v : List UInt8} (hlen : 5 ≤ (u ++ sp :: v).length) (h0 : 0 ∉ u ++ sp :: v) (hu : sp ∉ u)
    (hcrlf : crlf <:+: u ++ sp :: v) (behind : List UInt8) :
    (httpServerNetconnServe (fun _ => none) (u ++ sp :: v).length (u ++ sp :: v ++ 0 :: behind)).written =
      if supportedMethod u then (targetResponse (before sp v)).writes else [] := by
  have h0u : 0 ∉ u := fun h => h0 (List.mem_append_left _ h)
  have h0v : 0 ∉ v := fun h => h0 (List.mem_append_right _ (List.mem_cons_of_mem _ h))
  rw [serve_of_crlf _ (Nat.not_lt.mpr hlen) h0 hcrlf, List.append_assoc, List.cons_append, serveMethod_space _ h0u hu]
  split
  · exact written_serveTarget h0v behind
  · rfl

/-- A payload with a line that begins with a method: the answer is right unless the line is the method and a slash. -/
theorem followsGrammar_of_method {m v line : List UInt8} (hlen : 5 ≤ (m ++ sp :: v).length) (h0 : 0 ∉ m ++ sp :: v) (hm : Method m)
    (hcrlf : crlf <:+: m ++ sp :: v) (hv : requestLine v = some line) (behind : List UInt8) :
    FollowsGrammar (m ++ sp :: v) behind ↔ line ≠ bytesOf "/" := by
  have hline : requestLine (m ++ sp :: v) = some (m ++ sp :: line) := by
    rw [hm.requestLine_eq, hv]
    rfl
  have hwritten := written_serve hlen h0 hm.sp_not_mem hcrlf behind
  rw [if_pos hm.supported] at hwritten
  obtain ⟨rest, rfl⟩ := requestLine_split hv
  rw [← target_agrees line rest]
  constructor
  · intro h
    rw [← hwritten]
    exact h.line _ _ hline ((requestLine_iff hm).mpr rfl)
  · intro h
    constructor
    · intro l target hl hr
      obtain rfl := Option.some.inj (hline.symm.trans hl)
      rw [hwritten, h, (requestLine_iff hm).mp hr]
    · intro hnone
      exact absurd ((requestLine_iff hm).mpr rfl) (hnone _ _ hline)

/-- A response is never empty. -/
theorem targetResponse_writes_ne_nil (target : List UInt8) : (targetResponse target).writes ≠ [] := by
  unfold targetResponse
  split <;> exact List.cons_ne_nil _ _

/-- A payload that begins with a method and a space has that method before its first space. -/
theorem Method.of_append_cons {u v m rest : List UInt8} (hu : sp ∉ u) (hm : Method m) (h : u ++ sp :: v = m ++ sp :: rest) :
    Method u := by
  rw [(append_cons_inj hu hm.sp_not_mem h).1]
  exact hm

/-- What stands before the first space is no supported method: nothing is sent, and no method of the grammar is there. -/
theorem followsGrammar_of_unsupported {u v : List UInt8} (hlen : 5 ≤ (u ++ sp :: v).length) (h0 : 0 ∉ u ++ sp :: v) (hu : sp ∉ u)
    (hcrlf : crlf <:+: u ++ sp :: v) (hs : supportedMethod u = false) (behind : List UInt8) :
    FollowsGrammar (u ++ sp :: v) behind := by
  have hwritten := written_serve hlen h0 hu hcrlf behind
  rw [hs] at hwritten
  refine followsGrammar_of_silent hwritten ?_
  intro m rest hm h
  rw [(Method.of_append_cons hu hm h).supported] at hs
  cases hs

/-- It only begins like a method: the payload is answered, though its line is not of the grammar. -/
theorem not_followsGrammar_of_longer {u v : List UInt8} (hlen : 5 ≤ (u ++ sp :: v).length) (h0 : 0 ∉ u ++ sp :: v) (hu : sp ∉ u)
    (hcrlf : crlf <:+: u ++ sp :: v) (hs : supportedMethod u = true) (hm : ¬ Method u) (behind : List UInt8) :
    ¬ FollowsGrammar (u ++ sp :: v) behind := by
  intro h
  have hwritten := written_serve hlen h0 hu hcrlf behind
  rw [if_pos hs] at hwritten
  refine targetResponse_writes_ne_nil (before sp v) (hwritten.symm.trans (h.other ?_))
  intro line target hl hr
  obtain ⟨m, rest, hm', hp⟩ := begins_of_requestLine hl hr
  exact hm (Method.of_append_cons hu hm' hp)

end RequestLineAux

open RequestLineAux in
/-- For a payload of at least five bytes without a NUL, with a NUL right behind it, the server follows the grammar of the request line
exactly when `GrammarMet` holds. -/
theorem followsGrammar_iff (payload behind : List UInt8) (hlen : 5 ≤ payload.length) (h0 : 0 ∉ payload) :
    FollowsGrammar payload behind ↔ GrammarMet payload := by
  by_cases hcrlf : crlf <:+: payload
  case neg =>
    have hnone := requestLine_eq_none.mpr hcrlf
    refine iff_of_true ⟨?_, ?_⟩ (Or.inl hnone)
    · intro line target hl
      rw [hnone] at hl
      cases hl
    · intro _
      rw [serve_of_not_crlf _ h0 hcrlf]
      rfl
  by_cases hsp : sp ∈ payload
  case neg =>
    refine iff_of_true (followsGrammar_of_silent ?_ ?_) (Or.inr (Or.inl hsp))
    · rw [serve_of_crlf _ (Nat.not_lt.mpr hlen) h0 hcrlf, serveMethod_zero _ h0 hsp]
      rfl
    · rintro m rest - rfl
      exact hsp (List.mem_append_right _ List.mem_cons_self)
  obtain ⟨u, v, rfl, hu⟩ := List.eq_append_cons_of_mem hsp
  have hsome : requestLine (u ++ sp :: v) ≠ none := fun h => requestLine_eq_none.mp h hcrlf
  unfold GrammarMet
  rw [before_append_cons hu, or_iff_right hsome, or_iff_right (not_not.mpr hsp)]
  cases hs : supportedMethod u with
  | false => exact iff_of_true (followsGrammar_of_unsupported hlen h0 hu hcrlf hs behind) (Or.inl rfl)
  | true =>
    rw [or_iff_right (by simp)]
    by_cases hm : Method u
    · obtain ⟨line, hline⟩ := Option.ne_none_iff_exists'.mp hsome
      rw [hm.requestLine_eq] at hline
      obtain ⟨l, hl, rfl⟩ := Option.map_eq_some_iff.mp hline
      rw [followsGrammar_of_method hlen h0 hm hcrlf hl behind, hm.requestLine_eq, hline]
      have hinj : some (u ++ sp :: l) = some (u ++ sp :: bytesOf "/") ↔ l = bytesOf "/" := by simp
      exact ⟨fun h => ⟨hm, fun he => h (hinj.mp he)⟩, fun h he => h.2 (hinj.mpr he)⟩
    · exact iff_of_false (not_followsGrammar_of_longer hlen h0 hu hcrlf hs hm behind) fun h => hm h.1

/-- A request for `/` with a version and a header line. -/
theorem followsGrammar_getVersion :
    5 ≤ (bytesOf "GET / HTTP/1.1\r\nHost: sayma\r\n\r\n").length ∧ 0 ∉ bytesOf "GET / HTTP/1.1\r\nHost: sayma\r\n\r\n" ∧
      FollowsGrammar (bytesOf "GET / HTTP/1.1\r\nHost: sayma\r\n\r\n") [] := by
  refine ⟨by decide, by decide, ?_⟩
  refine (followsGrammar_iff _ _ (by decide) (by decide)).mpr (Or.inr (Or.inr (Or.inr ⟨Or.inl (by decide), by decide⟩)))

/-- A request for `/` without a version: the CRLF is taken for a part of the target, and the answer is 404. -/
theorem get_slash_not_found : ¬ FollowsGrammar (bytesOf "GET /\r\n") [] := by
  intro h
  have hwritten := h.line (bytesOf "GET /") (bytesOf "/") (by decide)
    ⟨bytesOf "GET", Or.inl rfl, by decide, Or.inl (by decide)⟩
  revert hwritten
  decide

end SaymaFirmware
