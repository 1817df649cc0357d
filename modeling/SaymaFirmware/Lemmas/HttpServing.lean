import Mathlib.Data.List.Basic
import SaymaFirmware.HttpServe

/-!
# The invariant of the HTTP server

Nothing unacknowledged refers to memory that is stored to or freed, and where the server is, the memory it is about to queue holds the
next bytes of the stream.
-/

namespace SaymaFirmware

namespace HttpAux

/-- Some unacknowledged byte refers to the address. -/
def Referred (s : HttpState) (a : HttpAddr) : Prop := ∃ c i, (s.conns c).acked ≤ i ∧ (s.conns c).queued[i]? = some a

/-- Not a freed block. -/
def Allocated (s : HttpState) (obj : HttpObj) : Prop := ∀ block, obj = .scratch block → s.live block = true

/-- The block can be stored to. -/
def InRam : HttpObj → Prop
  | .fileBuffer | .scratch _ => True
  | _ => False

/-- What the current connection has still to queue. -/
def unqueued (s : HttpState) : List UInt8 := (s.conns s.current).stream.drop (s.conns s.current).queued.length

/-- What is queued after a `netconn_write` is the rest. -/
def NextOk (s : HttpState) (rest : List UInt8) : HttpNext → Prop
  | .indexHtml => rest = httpIndexHtml
  | .close => True
  | .read block left => rest = left ∧ s.live block = true

/-- Where the server is, the memory it is about to queue holds the next bytes of the stream, or will once it is filled. -/
def ServerOk (s : HttpState) : HttpPc → Prop
  | .accept | .close _ => True
  | .fill obj stores len next =>
    (∀ x ∈ stores, ¬ Referred s ⟨obj, x.1⟩) ∧ InRam obj ∧ Allocated s obj ∧
      ∃ bytes rest, unqueued s = bytes ++ rest ∧ bytes.length = len ∧ HoldsAt (runStores stores (s.block obj)) 0 bytes ∧
        NextOk s rest next
  | .write obj len k next =>
    Allocated s obj ∧
      ∃ bytes rest, unqueued s = bytes ++ rest ∧ k + bytes.length = len ∧ HoldsAt (s.block obj) k bytes ∧ NextOk s rest next
  | .read block rest => unqueued s = rest ∧ s.live block = true

/-- The invariant of the server. -/
structure Serving (s : HttpState) : Prop where
  body : BodyIntact s
  fresh : ∀ c, s.current < c → s.conns c = ⟨[], [], 0⟩
  server : ServerOk s s.pc

theorem serving_init (mem : HttpObj → Nat → UInt8) : Serving (httpInit mem) := by
  refine ⟨⟨?_, ?_⟩, fun _ _ => rfl, trivial⟩
  · intro e he
    simp [httpInit] at he
  · intro c i a _ ha
    simp [httpInit] at ha

variable {s s' : HttpState}

theorem Serving.allocated (h : Serving s) {a : HttpAddr} (ha : Referred s a) : Allocated s a.obj := by
  obtain ⟨c, i, hi, hq⟩ := ha
  exact (h.body.queued c i a hi hq).2

/-- What `refers` looks for. -/
theorem Serving.not_referred (h : Serving s) {p : HttpAddr → Bool} (hp : s.refers p = false) {a : HttpAddr} (ha : Referred s a) :
    p a = false := by
  obtain ⟨c, i, hi, hq⟩ := ha
  have hc : c < s.current + 1 := by
    by_contra hc
    rw [h.fresh c (by omega)] at hq
    simp at hq
  unfold HttpState.refers at hp
  rw [List.any_eq_false] at hp
  have hconn := hp c (List.mem_range.mpr hc)
  rw [Bool.not_eq_true, List.any_eq_false] at hconn
  have hmem : a ∈ (s.conns c).queued.drop (s.conns c).acked := by
    refine List.mem_of_getElem? (i := i - (s.conns c).acked) ?_
    rw [List.getElem?_drop, Nat.add_sub_cancel' hi]
    exact hq
  simpa using hconn a hmem

/-! ### Stores -/

theorem load_store_of_ne {a x : HttpAddr} (hne : a ≠ x) (b : UInt8) : (s.store x b).load a = s.load a := by
  obtain ⟨obj, off⟩ := a
  by_cases hobj : obj = x.obj
  · subst hobj
    have hoff : off ≠ x.off := fun h => hne (by rw [h])
    cases hx : x.obj <;> simp [HttpState.load, HttpState.block, HttpState.store, hx, Function.update_of_ne hoff]
  · cases obj <;> simp [HttpState.load, HttpState.block, HttpState.store, Function.update_of_ne hobj]

theorem block_store_of_ne {obj : HttpObj} {x : HttpAddr} (hne : obj ≠ x.obj) (b : UInt8) : (s.store x b).block obj = s.block obj := by
  cases obj <;> simp [HttpState.block, HttpState.store, Function.update_of_ne hne]

theorem block_store_self {x : HttpAddr} (hram : InRam x.obj) (b : UInt8) :
    (s.store x b).block x.obj = Function.update (s.block x.obj) x.off b := by
  obtain ⟨obj, off⟩ := x
  cases obj with
  | fileBuffer | scratch block => simp [HttpState.block, HttpState.store]
  | httpHtmlHdr | httpIndexHtml => exact hram.elim

/-- A store to memory nothing unacknowledged refers to. -/
theorem BodyIntact.store (h : BodyIntact s) {x : HttpAddr} (hx : ¬ Referred s x) (b : UInt8) (pc : HttpPc) :
    BodyIntact { s.store x b with pc := pc } := by
  refine ⟨h.sent, ?_⟩
  intro c i a hi hq
  have hne : a ≠ x := by
    rintro rfl
    exact hx ⟨c, i, hi, hq⟩
  have hload : HttpState.load { s.store x b with pc := pc } a = s.load a := load_store_of_ne hne b
  rw [hload]
  exact h.queued c i a hi hq

/-! ### Steps of the others -/

/-- What the server relies on is kept by a step that leaves its connection, the blocks in use, and their memory, and refers to nothing
new. -/
theorem ServerOk.of_eq {pc : HttpPc} (h : ServerOk s pc) (hunq : unqueued s' = unqueued s) (hlive : s'.live = s.live)
    (hblock : ∀ obj, Allocated s obj → s'.block obj = s.block obj) (href : ∀ a, Referred s' a → Referred s a) : ServerOk s' pc := by
  have hnext : ∀ {rest next}, NextOk s rest next → NextOk s' rest next := by
    intro rest next hn
    cases next with
    | indexHtml | close => exact hn
    | read block left => exact ⟨hn.1, hlive ▸ hn.2⟩
  have halloc : ∀ {obj}, Allocated s obj → Allocated s' obj := fun ha block hb => hlive ▸ ha block hb
  cases pc with
  | accept | close file => trivial
  | fill obj stores len next =>
    obtain ⟨hstores, hram, ha, bytes, rest, hbytes, hlen, hholds, hn⟩ := h
    refine ⟨fun x hx hr => hstores x hx (href _ hr), hram, halloc ha, bytes, rest, hunq.trans hbytes, hlen, ?_, hnext hn⟩
    rw [hblock obj ha]
    exact hholds
  | write obj len k next =>
    obtain ⟨ha, bytes, rest, hbytes, hlen, hholds, hn⟩ := h
    refine ⟨halloc ha, bytes, rest, hunq.trans hbytes, hlen, ?_, hnext hn⟩
    rw [hblock obj ha]
    exact hholds
  | read block rest => exact ⟨hunq.trans h.1, hlive ▸ h.2⟩

theorem Serving.send (h : Serving s) {conn offset : Nat} (hs : s.send conn offset = some s') : Serving s' := by
  unfold HttpState.send at hs
  split at hs
  · rename_i hack
    obtain ⟨a, ha, rfl⟩ := Option.map_eq_some_iff.mp hs
    refine ⟨⟨?_, h.body.queued⟩, h.fresh, h.server.of_eq rfl rfl (fun _ _ => rfl) fun _ hr => hr⟩
    intro e he
    rcases List.mem_append.mp he with he | he
    · exact h.body.sent e he
    · rw [List.mem_singleton] at he
      subst he
      exact (h.body.queued conn offset a hack ha).1
  · nomatch hs

/-- A connection that is changed in what it has acknowledged only. -/
theorem conns_ack (conns : Nat → HttpConn) (conn n c : Nat) :
    (Function.update conns conn { conns conn with acked := n } c).stream = (conns c).stream ∧
      (Function.update conns conn { conns conn with acked := n } c).queued = (conns c).queued := by
  by_cases hc : c = conn
  · subst hc
    rw [Function.update_self]
    exact ⟨rfl, rfl⟩
  · rw [Function.update_of_ne hc]
    exact ⟨rfl, rfl⟩

theorem Serving.ack (h : Serving s) {conn n : Nat} (hs : s.ack conn n = some s') : Serving s' := by
  unfold HttpState.ack at hs
  split at hs
  · rename_i hn
    obtain rfl := Option.some.inj hs
    have hmono : ∀ c, (s.conns c).acked ≤ (Function.update s.conns conn { s.conns conn with acked := n } c).acked := by
      intro c
      by_cases hc : c = conn
      · subst hc
        rw [Function.update_self]
        exact hn.1
      · exact Nat.le_of_eq (by rw [Function.update_of_ne hc])
    have hkeep := conns_ack s.conns conn n
    refine ⟨⟨?_, ?_⟩, ?_, ?_⟩
    · intro e he
      show (Function.update s.conns conn _ e.conn).stream[e.offset]? = _
      rw [(hkeep e.conn).1]
      exact h.body.sent e he
    · intro c i a hi hq
      show (Function.update s.conns conn _ c).stream[i]? = _ ∧ _
      rw [(hkeep c).1]
      exact h.body.queued c i a (Nat.le_trans (hmono c) hi) ((hkeep c).2 ▸ hq)
    · intro c hc
      have hempty := h.fresh c hc
      show Function.update s.conns conn _ c = _
      by_cases hcc : c = conn
      · subst hcc
        rw [Function.update_self, hempty]
        rw [hempty] at hn
        obtain rfl : n = 0 := Nat.le_zero.mp hn.2
        rfl
      · rw [Function.update_of_ne hcc, hempty]
    · refine h.server.of_eq ?_ rfl (fun _ _ => rfl) ?_
      · unfold unqueued
        rw [(hkeep _).1, (hkeep _).2]
      · rintro a ⟨c, i, hi, hq⟩
        exact ⟨c, i, Nat.le_trans (hmono c) hi, (hkeep c).2 ▸ hq⟩
  · nomatch hs

/-- A store by someone else into a block the server does not hold. -/
theorem Serving.scribble (h : Serving s) {block : Nat} (hfree : s.live block = false) (off : Nat) (b : UInt8) :
    Serving (s.store ⟨.scratch block, off⟩ b) := by
  have hother : ∀ obj, Allocated s obj → obj ≠ .scratch block := by
    rintro obj ha rfl
    have := ha block rfl
    rw [hfree] at this
    nomatch this
  refine ⟨BodyIntact.store h.body (fun hr => hother _ (h.allocated hr) rfl) b s.pc, h.fresh, ?_⟩
  exact h.server.of_eq rfl rfl (fun obj ha => block_store_of_ne (hother obj ha) b) fun _ hr => hr

/-! ### Steps of the server -/

/-- A step that only moves the server. -/
theorem Serving.move (h : Serving s) {pc : HttpPc} (hpc : ServerOk s pc) : Serving { s with pc := pc } :=
  ⟨⟨h.body.sent, h.body.queued⟩, h.fresh, hpc.of_eq rfl rfl (fun _ _ => rfl) fun _ hr => hr⟩

theorem Serving.fill (h : Serving s) {obj : HttpObj} {x : Nat × UInt8} {stores : List (Nat × UInt8)} {len : Nat} {next : HttpNext}
    (hpc : s.pc = .fill obj (x :: stores) len next) :
    Serving { s.store ⟨obj, x.1⟩ x.2 with pc := .fill obj stores len next } := by
  have hserver := h.server
  rw [hpc] at hserver
  obtain ⟨hstores, hram, ha, bytes, rest, hbytes, hlen, hholds, hn⟩ := hserver
  refine ⟨BodyIntact.store h.body (hstores x List.mem_cons_self) x.2 _, h.fresh, ?_⟩
  refine ⟨fun y hy => hstores y (List.mem_cons_of_mem x hy), hram, ha, bytes, rest, hbytes, hlen, ?_, ?_⟩
  · have hblock : HttpState.block { s.store ⟨obj, x.1⟩ x.2 with pc := .fill obj stores len next } obj =
        Function.update (s.block obj) x.1 x.2 := block_store_self (x := ⟨obj, x.1⟩) hram x.2
    rw [hblock]
    exact hholds
  · cases next <;> exact hn

/-- The connections after a byte is queued. -/
theorem conns_queue (a : HttpAddr) (c : Nat) : ((s.queue a).conns c).stream = (s.conns c).stream ∧
    ((s.queue a).conns c).acked = (s.conns c).acked ∧
      ((s.queue a).conns c).queued = (s.conns c).queued ++ if c = s.current then [a] else [] := by
  by_cases hc : c = s.current
  · subst hc
    simp [HttpState.queue]
  · simp [HttpState.queue, hc]

/-- The byte at the end of the queue. -/
theorem getElem?_queue {a b : HttpAddr} {c i : Nat} (h : ((s.queue a).conns c).queued[i]? = some b) :
    (s.conns c).queued[i]? = some b ∨ c = s.current ∧ i = (s.conns c).queued.length ∧ b = a := by
  rw [(conns_queue a c).2.2] at h
  split at h
  · rename_i hc
    rcases Nat.lt_trichotomy i (s.conns c).queued.length with hi | hi | hi
    · rw [List.getElem?_append_left hi] at h
      exact Or.inl h
    · subst hi
      rw [List.getElem?_concat_length] at h
      exact Or.inr ⟨hc, rfl, (Option.some.inj h).symm⟩
    · rw [List.getElem?_eq_none (by simp; omega)] at h
      cases h
  · rw [List.append_nil] at h
    exact Or.inl h

/-- The next byte of the stream is queued. -/
theorem Serving.write (h : Serving s) {obj : HttpObj} {len k : Nat} {next : HttpNext} (hpc : s.pc = .write obj len k next)
    (hk : k < len) : Serving { s.queue ⟨obj, k⟩ with pc := .write obj len (k + 1) next } := by
  have hserver := h.server
  rw [hpc] at hserver
  obtain ⟨ha, bytes, rest, hbytes, hlen, hholds, hn⟩ := hserver
  cases bytes with
  | nil => exact absurd hlen (Nat.ne_of_lt hk)
  | cons b bytes =>
    obtain ⟨hb, hholds⟩ := HoldsAt.cons.mp hholds
    have hconns := conns_queue (s := s) ⟨obj, k⟩
    have hstream : (s.conns s.current).stream[(s.conns s.current).queued.length]? = some b := by
      have := congrArg (fun l => l[0]?) hbytes
      simpa [unqueued] using this
    refine ⟨⟨?_, ?_⟩, ?_, ha, bytes, rest, ?_, by rw [← hlen, List.length_cons]; omega, hholds, ?_⟩
    · intro e he
      show ((s.queue ⟨obj, k⟩).conns e.conn).stream[e.offset]? = some e.byte
      rw [(hconns e.conn).1]
      exact h.body.sent e he
    · intro c i a hi hq
      show ((s.queue ⟨obj, k⟩).conns c).stream[i]? = some (s.load a) ∧ Allocated s a.obj
      rw [(hconns c).1]
      rcases getElem?_queue hq with hq | ⟨rfl, rfl, rfl⟩
      · exact h.body.queued c i a ((hconns c).2.1 ▸ hi) hq
      · exact ⟨hstream.trans (congrArg some hb.symm), ha⟩
    · intro c hc
      have hcur : s.current < c := hc
      show Function.update s.conns s.current _ c = _
      rw [Function.update_of_ne (Nat.ne_of_gt hcur)]
      exact h.fresh c hcur
    · show ((s.queue ⟨obj, k⟩).conns s.current).stream.drop ((s.queue ⟨obj, k⟩).conns s.current).queued.length = bytes ++ rest
      rw [(hconns s.current).1, (hconns s.current).2.2, if_pos rfl, List.length_append, List.length_singleton, ← List.drop_drop]
      have := congrArg (List.drop 1) hbytes
      simpa [unqueued] using this
    · cases next <;> exact hn

/-- A constant. -/
theorem holdsAt_getD (bytes : List UInt8) : HoldsAt (fun off => bytes.getD off 0) 0 bytes := by
  intro i b hb
  simp [List.getD, hb]

/-- After a `netconn_write`. -/
theorem Serving.written (h : Serving s) {obj : HttpObj} {len k : Nat} {next : HttpNext} (hpc : s.pc = .write obj len k next)
    (hk : ¬ k < len) : Serving { s with pc := next.pc } := by
  have hserver := h.server
  rw [hpc] at hserver
  obtain ⟨ha, bytes, rest, hbytes, hlen, hholds, hn⟩ := hserver
  obtain rfl : bytes = [] := List.length_eq_zero_iff.mp (by omega)
  refine h.move ?_
  cases next with
  | indexHtml =>
    refine ⟨nofun, httpIndexHtml, [], ?_, Nat.zero_add _, holdsAt_getD _, trivial⟩
    rw [hbytes, hn, List.nil_append, List.append_nil]
  | close => trivial
  | read block left => exact ⟨hbytes.trans hn.1, hn.2⟩

/-- `fs_close`. -/
theorem Serving.close (h : Serving s) {block : Nat} (hfree : s.refers (fun a => a.obj = .scratch block) = false) :
    Serving { s with live := Function.update s.live block false, pc := .accept } := by
  refine ⟨⟨h.body.sent, ?_⟩, h.fresh, trivial⟩
  intro c i a hi hq
  obtain ⟨hload, halloc⟩ := h.body.queued c i a hi hq
  refine ⟨hload, ?_⟩
  intro block' hobj
  have hne : block' ≠ block := by
    rintro rfl
    have := h.not_referred hfree ⟨c, i, hi, hq⟩
    simp [hobj] at this
  show Function.update s.live block false block' = true
  rw [Function.update_of_ne hne]
  exact halloc block' hobj

theorem Serving.server_step (h : Serving s) (hok : reuseAcked s .server = true) (hs : s.server = some s') : Serving s' := by
  unfold HttpState.server at hs
  split at hs
  · rename_i hpc
    obtain rfl := Option.some.inj hs
    exact h.fill hpc
  · rename_i obj len next hpc
    obtain rfl := Option.some.inj hs
    have hserver := h.server
    rw [hpc] at hserver
    obtain ⟨-, -, ha, bytes, rest, hbytes, hlen, hholds, hn⟩ := hserver
    exact h.move ⟨ha, bytes, rest, hbytes, by omega, hholds, hn⟩
  · rename_i hpc
    split at hs
    · rename_i hk
      obtain rfl := Option.some.inj hs
      exact h.write hpc hk
    · rename_i hk
      obtain rfl := Option.some.inj hs
      exact h.written hpc hk
  · rename_i block hpc
    obtain rfl := Option.some.inj hs
    simp only [reuseAcked, hpc, Bool.not_eq_true'] at hok
    exact h.close hok
  · obtain rfl := Option.some.inj hs
    exact h.move (show ServerOk s .accept from trivial)
  · nomatch hs

/-- The stores `reuseAcked` looks at. -/
theorem Serving.not_overwritten (h : Serving s) {stores : List (Nat × UInt8)} (hok : (!s.refers (overwritten stores)) = true) :
    ∀ x ∈ stores, ¬ Referred s ⟨.fileBuffer, x.1⟩ := by
  intro x hx hr
  rw [Bool.not_eq_true'] at hok
  have := h.not_referred hok hr
  simp only [overwritten, decide_true, Bool.true_and, List.any_eq_false, decide_eq_true_eq] at this
  exact this x hx rfl

theorem Serving.fsRead (h : Serving s) {n : Nat} (hok : reuseAcked s (.fsRead n) = true) (hs : s.fsRead n = some s') : Serving s' := by
  unfold HttpState.fsRead at hs
  split at hs
  · rename_i block rest hpc
    have hserver := h.server
    rw [hpc] at hserver
    simp only [reuseAcked, hpc] at hok
    split at hs
    · nomatch hs
    · split at hs
      · obtain rfl := Option.some.inj hs
        exact h.move (show ServerOk s (.close (some block)) from trivial)
      · obtain rfl := Option.some.inj hs
        refine h.move ⟨h.not_overwritten hok, trivial, nofun, rest.take n, rest.drop n, ?_, rfl,
          HoldsAt.runStores_storesAt _ _ _, rfl, hserver.2⟩
        rw [List.take_append_drop]
        exact hserver.1
  · nomatch hs

/-- `malloc` keeps the blocks in use, and gives one that is not. -/
theorem alloc_spec {r : HttpResponse} {live : Nat → Bool} (h : s.alloc r = some live) :
    (∀ b, s.live b = true → live b = true) ∧
      ∀ block name content, r = .file block name content → s.live block = false ∧ live block = true := by
  cases r with
  | none | homePage | notFound =>
    obtain rfl := Option.some.inj h
    exact ⟨fun _ hb => hb, nofun⟩
  | file block name content =>
    simp only [HttpState.alloc] at h
    split at h
    · nomatch h
    · rename_i hfree
      obtain rfl := Option.some.inj h
      constructor
      · intro b hb
        by_cases hbb : b = block
        · rw [hbb, Function.update_self]
        · rw [Function.update_of_ne hbb]
          exact hb
      · intro block' name' content' heq
        obtain ⟨rfl, -, -⟩ := HttpResponse.file.inj heq
        exact ⟨Bool.eq_false_iff.mpr hfree, Function.update_self _ _ _⟩

/-- The state after a request, where the server is `pc`. -/
def opened (s : HttpState) (pc : HttpPc) (stream : List UInt8) (live : Nat → Bool) : HttpState :=
  { s with pc := pc, current := s.current + 1, conns := Function.update s.conns (s.current + 1) ⟨stream, [], 0⟩, live := live }

section

variable {pc : HttpPc} {stream : List UInt8} {live : Nat → Bool}

theorem conns_opened_of_ne {c : Nat} (hc : c ≠ s.current + 1) : (opened s pc stream live).conns c = s.conns c :=
  Function.update_of_ne hc _ _

theorem conns_opened_self : (opened s pc stream live).conns (s.current + 1) = ⟨stream, [], 0⟩ := Function.update_self _ _ _

theorem unqueued_opened : unqueued (opened s pc stream live) = stream := by
  show ((opened s pc stream live).conns (s.current + 1)).stream.drop ((opened s pc stream live).conns (s.current + 1)).queued.length = _
  rw [conns_opened_self]
  rfl

/-- A new connection has nothing queued. -/
theorem ne_of_queued_opened {c i : Nat} {a : HttpAddr} (h : ((opened s pc stream live).conns c).queued[i]? = some a) :
    c ≠ s.current + 1 := by
  rintro rfl
  rw [conns_opened_self] at h
  simp at h

theorem referred_opened {a : HttpAddr} (h : Referred (opened s pc stream live) a) : Referred s a := by
  obtain ⟨c, i, hi, hq⟩ := h
  have hc := ne_of_queued_opened hq
  rw [conns_opened_of_ne hc] at hi hq
  exact ⟨c, i, hi, hq⟩

/-- A new connection leaves the others. -/
theorem Serving.opened (h : Serving s) (hlive : ∀ b, s.live b = true → live b = true)
    (hserver : ServerOk (opened s pc stream live) pc) : Serving (opened s pc stream live) := by
  refine ⟨⟨?_, ?_⟩, ?_, hserver⟩
  · intro e he
    have hsent := h.body.sent e he
    have hc : e.conn ≠ s.current + 1 := by
      intro hc
      rw [h.fresh e.conn (by omega)] at hsent
      simp at hsent
    rw [conns_opened_of_ne hc]
    exact hsent
  · intro c i a hi hq
    have hc := ne_of_queued_opened hq
    rw [conns_opened_of_ne hc] at hi hq ⊢
    obtain ⟨hload, halloc⟩ := h.body.queued c i a hi hq
    exact ⟨hload, fun block hobj => hlive _ (halloc block hobj)⟩
  · intro c hc
    have hcur : s.current + 1 < c := hc
    rw [conns_opened_of_ne (Nat.ne_of_gt hcur)]
    exact h.fresh c (by omega)

end

theorem Serving.accept (h : Serving s) {r : HttpResponse} (hok : reuseAcked s (.accept r) = true) (hs : s.accept r = some s') :
    Serving s' := by
  unfold HttpState.accept at hs
  split at hs
  · obtain ⟨live, halloc, rfl⟩ := Option.map_eq_some_iff.mp hs
    obtain ⟨hlive, hfile⟩ := alloc_spec halloc
    refine h.opened hlive ?_
    cases r with
    | none => trivial
    | homePage =>
      exact ⟨nofun, httpHtmlHdr, httpIndexHtml, unqueued_opened, Nat.zero_add _, holdsAt_getD _, rfl⟩
    | notFound =>
      refine ⟨fun x hx hr => h.not_overwritten hok x hx (referred_opened hr), trivial, nofun, httpHeader [], [], ?_, rfl,
        holdsAt_httpHeaderStores _ _, trivial⟩
      rw [List.append_nil]
      exact unqueued_opened
    | file block name content =>
      obtain ⟨hfree, hheld⟩ := hfile block name content rfl
      refine ⟨?_, trivial, ?_, httpHeader name, content, unqueued_opened, rfl, holdsAt_httpHeaderStores _ _, rfl, hheld⟩
      · -- a block that something unacknowledged refers to is in use
        intro x _ hr
        have := h.allocated (referred_opened hr) block rfl
        rw [hfree] at this
        nomatch this
      · intro block' hobj
        obtain rfl := HttpObj.scratch.inj hobj
        exact hheld
  · nomatch hs

theorem Serving.step (h : Serving s) {a : HttpAct} (hok : reuseAcked s a = true) (hs : httpStep s a = some s') : Serving s' := by
  cases a with
  | accept r => exact h.accept hok hs
  | fsRead n => exact h.fsRead hok hs
  | server => exact h.server_step hok hs
  | send conn offset => exact h.send hs
  | ack conn n => exact h.ack hs
  | scribble block off b =>
    simp only [httpStep] at hs
    split at hs
    · nomatch hs
    · rename_i hfree
      obtain rfl := Option.some.inj hs
      exact h.scribble (Bool.eq_false_iff.mpr hfree) off b

end HttpAux

end SaymaFirmware
