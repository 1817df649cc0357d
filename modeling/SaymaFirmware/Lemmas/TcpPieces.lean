import SaymaFirmware.TcpRecv

/-!
# Pieces of a stream on `ooseq`

A segment that carries a piece of the stream (`IsPiece`) still does when it is trimmed at either edge, and when it takes over a FIN that
stands where it ends. `ooseq` holds pieces one behind the other without overlap (`Oos`), and putting a piece into it keeps that, wherever
it goes and whatever it covers.
-/

namespace SaymaFirmware

open SeqNum

/-- The segment carries the stream from the position `p` on, and a FIN only at the end of the stream. -/
structure IsPiece (irs : Nat) (stream : List UInt8) (p : Nat) (seg : RcvSeg) : Prop where
  seqno : seg.seqno = num (irs + p)
  data : seg.data = (stream.drop p).take seg.len
  fits : p + seg.len ≤ stream.length
  fin : seg.fin = true → p + seg.len = stream.length
  some : seg.fin = false → 0 < seg.len
  short : seg.len < 65536

/-- Pieces that start at `lo` or behind it and before `hi` and end no later than `top`, one behind the other; only the last may have a
FIN. -/
def Oos (irs : Nat) (stream : List UInt8) (hi top : Nat) : Nat → List RcvSeg → Prop
  | _, [] => True
  | lo, seg :: l => ∃ p, lo ≤ p ∧ (p < hi ∧ p + seg.tcplen ≤ top) ∧ IsPiece irs stream p seg ∧ (seg.fin = true → l = []) ∧
      Oos irs stream hi top (p + seg.len) l

namespace TcpPiecesAux

variable {irs p q lo hi top : Nat} {stream : List UInt8} {seg next : RcvSeg} {l : List RcvSeg}

/-- The FIN is behind the end of the stream. -/
theorem isPiece_end (h : IsPiece irs stream p seg) : p + seg.tcplen ≤ stream.length + 1 := by
  have hfits := h.fits
  rw [RcvSeg.tcplen]
  split <;> omega

theorem isPiece_length (h : IsPiece irs stream p seg) : seg.data.length = seg.len := by
  have hfits := h.fits
  rw [h.data, List.length_take, List.length_drop]
  omega

/-- The data behind what has been received before. -/
theorem take_append_data (h : IsPiece irs stream p seg) : stream.take p ++ seg.data = stream.take (p + seg.len) := by
  rw [h.data, List.take_add]

/-- Trimmed at its end, a piece is still one. -/
theorem isPiece_realloc {n : Nat} (h : IsPiece irs stream p seg) (hfin : seg.fin = false) (hn : 0 < n ∧ n ≤ seg.len) :
    IsPiece irs stream p (seg.realloc n) := by
  have hfits := h.fits
  have hshort := h.short
  refine ⟨h.seqno, ?_, ?_, ?_, fun _ => hn.1, ?_⟩
  · change seg.data.take n = (stream.drop p).take n
    rw [h.data, List.take_take, Nat.min_eq_left hn.2]
  · change p + n ≤ stream.length
    omega
  · intro hf
    rw [show (seg.realloc n).fin = seg.fin from rfl, hfin] at hf
    cases hf
  · change n < 65536
    omega

/-- Trimmed to the window, a piece loses its FIN. -/
theorem isPiece_trim {n : Nat} (h : IsPiece irs stream p seg) (hn : 0 < n ∧ n ≤ seg.len) :
    IsPiece irs stream p ({ seg with fin := false }.realloc n) := by
  have hfits := h.fits
  have hshort := h.short
  refine ⟨h.seqno, ?_, ?_, Bool.noConfusion, fun _ => hn.1, ?_⟩
  · change seg.data.take n = (stream.drop p).take n
    rw [h.data, List.take_take, Nat.min_eq_left hn.2]
  · change p + n ≤ stream.length
    omega
  · change n < 65536
    omega

/-- Where the stream ends, a piece may take over its FIN. -/
theorem isPiece_withFin (h : IsPiece irs stream p seg) (hend : p + seg.len = stream.length) :
    IsPiece irs stream p { seg with fin := true } :=
  ⟨h.seqno, h.data, h.fits, fun _ => hend, Bool.noConfusion, h.short⟩

theorem tcplen_of_not_fin (hfin : seg.fin = false) : seg.tcplen = seg.len := by
  rw [RcvSeg.tcplen, hfin, if_neg Bool.false_ne_true, Nat.add_zero]

/-- What a piece without FIN covers ends where it does. -/
theorem coveredEnd_eq (h : IsPiece irs stream p seg) (hfin : seg.fin = false) (inseq : Bool) :
    coveredEnd inseq seg = num (irs + (p + seg.len)) := by
  rw [coveredEnd, tcplen_of_not_fin hfin, ite_self, h.seqno, num_add, Nat.add_assoc]

/-- Numbers from one position on and before another. -/
theorem between_positions {a b : Nat} (ha : a ≤ p + 2 ^ 30 ∧ p ≤ a + 2 ^ 30) (hb : b ≤ p + 2 ^ 30 ∧ p ≤ b + 2 ^ 30) :
    between (num p) (num a) (sub32 (num b) 1) = decide (a ≤ p ∧ p < b) := by
  rw [between, geq_num (by omega) (by omega), num_pred, ← num_add_cycle p, leq_num (by omega) (by omega), ← Bool.decide_and,
    decide_eq_decide]
  omega

/-! ## Sorted queues -/

/-- A queue that starts later and ends earlier. -/
theorem oos_mono {lo' hi' top' : Nat} (h : Oos irs stream hi top lo l) (hlo : lo' ≤ lo) (hhi : hi ≤ hi') (htop : top ≤ top') :
    Oos irs stream hi' top' lo' l := by
  induction l generalizing lo lo' with
  | nil => trivial
  | cons seg l ih =>
    obtain ⟨p, hp, ⟨hlt, hend⟩, hpiece, hfin, hl⟩ := h
    exact ⟨p, Nat.le_trans hlo hp, ⟨Nat.lt_of_lt_of_le hlt hhi, Nat.le_trans hend htop⟩, hpiece, hfin, ih hl (Nat.le_refl _)⟩

theorem oos_from {lo' : Nat} (h : Oos irs stream hi top lo l) (hlo : lo' ≤ lo) : Oos irs stream hi top lo' l :=
  oos_mono h hlo (Nat.le_refl hi) (Nat.le_refl top)

/-- A queue in which something is left, of which the first piece ends behind `c`. -/
structure LeftBehind (irs : Nat) (stream : List UInt8) (hi top lo c q : Nat) (next : RcvSeg) (l : List RcvSeg) : Prop where
  from_lo : lo ≤ q
  within : q < hi ∧ q + next.tcplen ≤ top
  piece : IsPiece irs stream q next
  fin : next.fin = true → l = []
  rest : Oos irs stream hi top (q + next.len) l
  beyond : c < q + next.len

/-- What a segment leaves of a queue when it covers some of it. -/
structure Absorbed (irs : Nat) (stream : List UInt8) (hi top lo p : Nat) (seg : RcvSeg) (r : RcvSeg × List RcvSeg) : Prop where
  piece : IsPiece irs stream p r.1
  ends : p + r.1.tcplen ≤ top
  len : r.1.len = seg.len
  keeps : seg.fin = true → r.1.fin = true
  fin : r.1.fin = true → r.2 = []
  queue : r.2 = [] ∨ ∃ next l q, r.2 = next :: l ∧ LeftBehind irs stream hi top lo (p + seg.len) q next l

/-- The pieces that a segment covers go, and their FIN goes to it: what is left ends behind it. -/
theorem absorb_spec (inseq : Bool) (h : IsPiece irs stream p seg) (htop : p + seg.tcplen ≤ top) (hfin : seg.fin = false) (hp : p < lo)
    (hhi : hi ≤ p + 2 ^ 20) (hl : Oos irs stream hi top lo l) : Absorbed irs stream hi top lo p seg (absorb inseq seg l) := by
  induction l generalizing lo with
  | nil => exact ⟨h, htop, rfl, id, fun _ => rfl, Or.inl rfl⟩
  | cons next l ih =>
    obtain ⟨q, hq, ⟨hlt, hntop⟩, hnext, hnfin, hrest⟩ := hl
    have hshort := h.short
    have hnshort := hnext.short
    have hge : geq (coveredEnd inseq seg) (add32 next.seqno next.len) = decide (q + next.len ≤ p + seg.len) := by
      rw [coveredEnd_eq h hfin, hnext.seqno, num_add, geq_num (by omega) (by omega), decide_eq_decide]
      omega
    rw [absorb, hge, hfin, Bool.false_or]
    by_cases hle : q + next.len ≤ p + seg.len
    · rw [if_pos (decide_eq_true hle)]
      cases hnf : next.fin with
      | false =>
        have hsome := hnext.some hnf
        have hr := ih (show p < q + next.len by omega) hrest
        have hsame : { seg with fin := false } = seg := by rw [← hfin]
        rw [hsame]
        refine ⟨hr.piece, hr.ends, hr.len, hr.keeps, hr.fin, hr.queue.imp_right ?_⟩
        rintro ⟨next', l', q', heq, hleft⟩
        exact ⟨next', l', q', heq, by have := hleft.from_lo; omega, hleft.within, hleft.piece, hleft.fin, hleft.rest, hleft.beyond⟩
      | true =>
        have hend := hnext.fin hnf
        have hfits := h.fits
        rw [RcvSeg.tcplen, hnf, if_pos rfl] at hntop
        rw [hnfin hnf]
        refine ⟨isPiece_withFin h (by omega), ?_, rfl, fun _ => rfl, fun _ => rfl, Or.inl rfl⟩
        change p + (seg.len + 1) ≤ top
        omega
    · rw [if_neg (by rw [decide_eq_true_eq]; exact hle)]
      refine ⟨h, htop, rfl, id, ?_, Or.inr ⟨next, l, q, rfl, hq, ⟨hlt, hntop⟩, hnext, hnfin, hrest, by omega⟩⟩
      intro hf
      rw [hfin] at hf
      cases hf

/-- A piece in front of a queue that it no longer overlaps. -/
structure Fitted (irs : Nat) (stream : List UInt8) (hi top p : Nat) (seg seg' : RcvSeg) (l' : List RcvSeg) : Prop where
  piece : IsPiece irs stream p seg'
  ends : p + seg'.tcplen ≤ top
  fin : seg'.fin = true → l' = []
  queue : Oos irs stream hi top (p + seg'.len) l'
  reach : seg.len ≤ seg'.len ∨
    ∃ next l, l' = next :: l ∧ next.seqno = num (irs + (p + seg'.len)) ∧ seg.len < seg'.len + next.len

/-- The segment, without the segments it covers, is trimmed where the rest of the queue starts. -/
theorem fitted_trimBack (inseq : Bool) (h : IsPiece irs stream p seg) (htop : p + seg.tcplen ≤ top) (hfin : seg.fin = false)
    (hp : p < lo) (hhi : hi ≤ p + 2 ^ 16) (hl : Oos irs stream hi top lo l) {r : RcvSeg × List RcvSeg} (hr : absorb inseq seg l = r) :
    Fitted irs stream hi top p seg (trimBack inseq r.1 r.2) r.2 ∧
      (overlaps inseq r.1 r.2 = true → (r.2.head?.any fun next =>
        add32 (trimBack inseq r.1 r.2).seqno (trimBack inseq r.1 r.2).tcplen = next.seqno) = true) := by
  have ha := hr ▸ absorb_spec inseq h htop hfin hp (by omega) hl
  obtain ⟨seg₁, l₁⟩ := r
  obtain ⟨hpiece, hends, hlen, hkeeps, hfin₁, hqueue⟩ := ha
  dsimp only at *
  rcases hqueue with rfl | ⟨next, l', q, rfl, hleft⟩
  · exact ⟨⟨hpiece, hends, fun _ => rfl, trivial, Or.inl (Nat.le_of_eq hlen.symm)⟩, Bool.noConfusion⟩
  · have hnf : seg₁.fin = false := by
      cases hf : seg₁.fin with
      | false => rfl
      | true => exact absurd (hfin₁ hf) (List.cons_ne_nil _ _)
    have hlo := hleft.from_lo
    have hbefore := hleft.within
    have hbeyond := hleft.beyond
    have hshort := hpiece.short
    have hgt : gt (coveredEnd inseq seg₁) next.seqno = decide (q < p + seg₁.len) := by
      rw [coveredEnd_eq hpiece hnf, hleft.piece.seqno, gt_num (by omega) (by omega), decide_eq_decide]
      omega
    rw [trimBack, overlaps, hgt]
    by_cases hlt : q < p + seg₁.len
    · rw [if_pos (decide_eq_true hlt)]
      have hsub : sub32 next.seqno seg₁.seqno % 65536 = q - p := by
        rw [hleft.piece.seqno, hpiece.seqno, sub32_num_eq (by omega) (by omega), Nat.mod_eq_of_lt (by omega)]
        omega
      rw [hsub]
      have htrim := isPiece_realloc hpiece hnf (n := q - p) (by omega)
      have hlen' : (seg₁.realloc (q - p)).len = q - p := rfl
      have hend : p + (q - p) = q := by omega
      have hfin' : (seg₁.realloc (q - p)).fin = false := hnf
      refine ⟨⟨htrim, ?_, ?_, ?_, Or.inr ⟨next, l', rfl, ?_, ?_⟩⟩, ?_⟩
      · rw [tcplen_of_not_fin hfin', hlen', hend]
        exact Nat.le_trans (Nat.le_add_right _ _) hbefore.2
      · intro hf
        rw [hfin'] at hf
        cases hf
      · exact ⟨q, by omega, hbefore, hleft.piece, hleft.fin, hleft.rest⟩
      · rw [hlen', hend]
        exact hleft.piece.seqno
      · omega
      · intro _
        rw [List.head?_cons, Option.any_some, decide_eq_true_eq, tcplen_of_not_fin hfin', htrim.seqno, hlen', num_add, Nat.add_assoc,
          hend]
        exact hleft.piece.seqno.symm
    · rw [if_neg (by rw [decide_eq_true_eq]; exact hlt)]
      have hqueue : Oos irs stream hi top (p + seg₁.len) (next :: l') := ⟨q, by omega, hbefore, hleft.piece, hleft.fin, hleft.rest⟩
      refine ⟨⟨hpiece, hends, hfin₁, hqueue, Or.inl (Nat.le_of_eq hlen.symm)⟩, ?_⟩
      intro hc
      rw [decide_eq_true_eq] at hc
      exact absurd hc hlt

/-- `tcp_oos_insert_segment` in front of a queue that starts behind the segment. -/
theorem oos_insert (h : IsPiece irs stream p seg) (htop : p + seg.tcplen ≤ top) (hp : p < lo) (hlt : p < hi) (hhi : hi ≤ p + 2 ^ 16)
    (hl : Oos irs stream hi top lo l) : Oos irs stream hi top p (tcpOosInsertSegment seg l) := by
  unfold tcpOosInsertSegment
  split
  · exact ⟨p, Nat.le_refl p, ⟨hlt, htop⟩, h, fun _ => rfl, trivial⟩
  · rename_i hfin
    obtain ⟨hfit, _⟩ := fitted_trimBack false h htop (Bool.eq_false_iff.mpr hfin) hp hhi hl rfl
    exact ⟨p, Nat.le_refl p, ⟨hlt, hfit.ends⟩, hfit.piece, hfit.fin, hfit.queue⟩

/-- And in place of a shorter segment that starts where the segment does. -/
theorem oos_replace (h : IsPiece irs stream p seg) (htop : p + seg.tcplen ≤ top) (hlt : p < hi) (hhi : hi ≤ p + 2 ^ 16)
    (hnext : IsPiece irs stream p next) (hlen : next.len < seg.len) (hl : Oos irs stream hi top (p + next.len) l) :
    Oos irs stream hi top p (tcpOosInsertSegment seg (next :: l)) := by
  have hfits := h.fits
  have hshort := h.short
  have hnfin : next.fin = false := by
    cases hf : next.fin with
    | false => rfl
    | true =>
      have := hnext.fin hf
      omega
  unfold tcpOosInsertSegment
  split
  · exact ⟨p, Nat.le_refl p, ⟨hlt, htop⟩, h, fun _ => rfl, trivial⟩
  · rename_i hfin
    have hseg := Bool.eq_false_iff.mpr hfin
    have hsome := hnext.some hnfin
    have hcover : absorb false seg (next :: l) = absorb false seg l := by
      have hge : geq (coveredEnd false seg) (add32 next.seqno next.len) = true := by
        rw [coveredEnd_eq h hseg, hnext.seqno, num_add, geq_num (by omega) (by omega), decide_eq_true_eq]
        omega
      rw [absorb, if_pos hge, hnfin, Bool.or_false]
    rw [hcover]
    obtain ⟨hfit, _⟩ := fitted_trimBack false h htop hseg (show p < p + next.len by omega) hhi hl rfl
    exact ⟨p, Nat.le_refl p, ⟨hlt, hfit.ends⟩, hfit.piece, hfit.fin, hfit.queue⟩

/-- A segment of the queue is trimmed where a new one starts. -/
theorem trimBefore_spec {pp : Nat} (h : IsPiece irs stream pp seg) (hfin : seg.fin = false) (hlt : pp < p) (hclose : p ≤ pp + 2 ^ 16) :
    IsPiece irs stream pp (trimBefore (num (irs + p)) seg) ∧ pp + (trimBefore (num (irs + p)) seg).len ≤ p ∧
      (trimBefore (num (irs + p)) seg).fin = false ∧ (trimBefore (num (irs + p)) seg).tcplen ≤ seg.tcplen := by
  have hshort := h.short
  have hgt : gt (add32 seg.seqno seg.len) (num (irs + p)) = decide (p < pp + seg.len) := by
    rw [h.seqno, num_add, gt_num (by omega) (by omega), decide_eq_decide]
    omega
  rw [trimBefore, hgt]
  by_cases hover : p < pp + seg.len
  · rw [if_pos (decide_eq_true hover)]
    have hsub : sub32 (num (irs + p)) seg.seqno % 65536 = p - pp := by
      rw [h.seqno, sub32_num_eq (by omega) (by omega), Nat.mod_eq_of_lt (by omega)]
      omega
    rw [hsub]
    refine ⟨isPiece_realloc h hfin (by omega), ?_, hfin, ?_⟩
    · change pp + (p - pp) ≤ p
      omega
    · rw [tcplen_of_not_fin hfin]
      change (p - pp + if seg.fin then 1 else 0) ≤ seg.len
      rw [hfin, if_neg Bool.false_ne_true]
      omega
  · rw [if_neg (by rw [decide_eq_true_eq]; exact hover)]
    exact ⟨h, by omega, hfin, Nat.le_refl _⟩

/-! ## The walk through the queue -/

/-- Trimmed to the window, a segment is a piece up to the edge. -/
theorem trimOverrun_spec {edge tcplen : Nat} {seg' : RcvSeg} (h : IsPiece irs stream p seg) (htcplen : tcplen = seg.tcplen)
    (hedge : p < edge ∧ edge ≤ p + 2 ^ 16)
    (hwrap : num (irs + edge) < add32 seg.seqno tcplen → lt (num (irs + edge)) (add32 seg.seqno tcplen) = true)
    (hs : trimOverrun (num (irs + edge)) tcplen seg = some seg') : IsPiece irs stream p seg' ∧ seg'.tcplen ≤ seg.tcplen := by
  have hend := isPiece_end h
  have hshort := h.short
  have hle : seg.tcplen ≤ seg.len + 1 := by
    rw [RcvSeg.tcplen]
    split <;> omega
  unfold trimOverrun at hs
  split at hs
  · rename_i hover
    have hlt := hwrap hover
    rw [htcplen, h.seqno, num_add, lt_num (by omega) (by omega), decide_eq_true_eq] at hlt
    have hsub : sub32 (num (irs + edge)) seg.seqno % 65536 = edge - p := by
      rw [h.seqno, sub32_num_eq (by omega) (by omega), Nat.mod_eq_of_lt (by omega)]
      omega
    simp only [hsub] at hs
    split at hs
    · obtain rfl := Option.some.inj hs
      refine ⟨isPiece_trim h (by omega), ?_⟩
      rw [tcplen_of_not_fin rfl]
      change edge - p ≤ seg.tcplen
      omega
    · cases hs
  · obtain rfl := Option.some.inj hs
    exact ⟨h, Nat.le_refl _⟩

/-- The segment in hand, of which the next one starts at `lo₂` or behind it. -/
structure PrevOk (irs : Nat) (stream : List UInt8) (hi top lo p : Nat) (prev : Option RcvSeg) (lo₂ : Nat) : Prop where
  back : ∀ l, Oos irs stream hi top lo₂ l → Oos irs stream hi top lo (prev.toList ++ l)
  cut : ∀ l, Oos irs stream hi top p l → Oos irs stream hi top lo ((prev.map (trimBefore (num (irs + p)))).toList ++ l)
  near : ∀ pv ∈ prev, ∃ pp, pv.seqno = num (irs + pp) ∧ pp < p ∧ p ≤ pp + 2 ^ 16

theorem prevOk_none (h : lo ≤ p) : PrevOk irs stream hi top lo p none lo :=
  ⟨fun _ hl => hl, fun _ hl => oos_from hl h, nofun⟩

/-- On to the next segment, which is in hand then. -/
theorem prevOk_some (hlo : lo ≤ q) (hin : q < hi ∧ q + next.tcplen ≤ top) (h : IsPiece irs stream q next) (hfin : next.fin = false)
    (hp : q < p) (hclose : p ≤ q + 2 ^ 16) : PrevOk irs stream hi top lo p (some next) (q + next.len) := by
  obtain ⟨hpiece, hle, hfin', htcplen⟩ := trimBefore_spec h hfin hp hclose
  have hcut : q + (trimBefore (num (irs + p)) next).tcplen ≤ top := Nat.le_trans (Nat.add_le_add_left htcplen q) hin.2
  refine ⟨fun l hl => ⟨q, hlo, hin, h, ?_, hl⟩, fun l hl => ⟨q, hlo, ⟨hin.1, hcut⟩, hpiece, ?_, oos_from hl hle⟩,
    ?_⟩
  · intro hf
    rw [hfin] at hf
    cases hf
  · intro hf
    rw [hfin'] at hf
    cases hf
  · intro pv hpv
    obtain rfl := Option.some.inj hpv
    exact ⟨q, h.seqno, hp, hclose⟩

/-- The test of the walk tells whether the new segment starts first. -/
theorem goesBefore_eq {lo₂ : Nat} {prev : Option RcvSeg} (hprev : PrevOk irs stream hi top lo p prev lo₂)
    (hnext : next.seqno = num (irs + q)) (hclose : q ≤ p + 2 ^ 16 ∧ p ≤ q + 2 ^ 16) :
    goesBefore (num (irs + p)) prev next = decide (p < q) := by
  cases prev with
  | none => rw [goesBefore, hnext, lt_num (by omega) (by omega), decide_eq_decide, Nat.add_lt_add_iff_left]
  | some pv =>
    obtain ⟨pp, hseq, hlt, hnear⟩ := hprev.near pv rfl
    rw [goesBefore, hnext, hseq, num_add, between_positions (by omega) (by omega), decide_eq_decide]
    omega

/-- Wherever the walk puts the segment, the queue stays sorted. What the walk has passed is put back by `PrevOk.back`. -/
theorem placeOoseq_spec {edge tcplen b : Nat} {mem : Bool} (h : IsPiece irs stream p seg) (htcplen : tcplen = seg.tcplen)
    (hb : b ≤ p ∧ hi ≤ b + 2 ^ 16) (hlt : p < hi) (htop : p + seg.tcplen ≤ top) (hedge : p < edge ∧ edge ≤ p + 2 ^ 16) :
    ∀ {l : List RcvSeg} {lo lo₂ : Nat} {prev : Option RcvSeg} {l' : List RcvSeg}, PrevOk irs stream hi top lo p prev lo₂ → b ≤ lo₂ →
      Oos irs stream hi top lo₂ l →
      (∀ last ∈ l.getLast?, gt seg.seqno last.seqno = true → num (irs + edge) < add32 seg.seqno tcplen →
        lt (num (irs + edge)) (add32 seg.seqno tcplen) = true) →
      placeOoseq (num (irs + edge)) tcplen mem seg prev l = some l' → Oos irs stream hi top lo l' := by
  intro l
  induction l with
  | nil =>
    intro lo lo₂ prev l' hprev _ _ _ hs
    obtain rfl := Option.some.inj hs
    simpa using hprev.back [] trivial
  | cons next l ih =>
    intro lo lo₂ prev l' hprev hlo₂ hl hwrap hs
    obtain ⟨q, hq, ⟨hqlt, hqtop⟩, hnext, hnfin, hrest⟩ := id hl
    have hbefore := goesBefore_eq hprev hnext.seqno (by omega)
    have heq : seg.seqno = next.seqno ↔ p = q := by
      rw [h.seqno, hnext.seqno, num_inj (by omega) (by omega), Nat.add_left_cancel_iff]
    have hgt : gt seg.seqno next.seqno = decide (q < p) := by
      rw [h.seqno, hnext.seqno, gt_num (by omega) (by omega), decide_eq_decide, Nat.add_lt_add_iff_left]
    unfold placeOoseq at hs
    rw [h.seqno] at hs
    split at hs
    · -- the same number
      rename_i hsame
      obtain rfl := heq.mp (h.seqno ▸ hsame)
      obtain rfl := Option.some.inj hs
      refine hprev.back _ ?_
      split
      · rename_i hc
        exact oos_from (oos_replace h htop hlt (by omega) hnext hc.1 hrest) hq
      · exact hl
    · rename_i hne
      split at hs
      · rename_i hgoes
        obtain rfl := Option.some.inj hs
        have hpq : p < q := by rwa [hbefore, decide_eq_true_eq] at hgoes
        have hqueue : Oos irs stream hi top q (next :: l) := ⟨q, Nat.le_refl q, ⟨hqlt, hqtop⟩, hnext, hnfin, hrest⟩
        split
        · exact hprev.cut _ (oos_insert h htop hpq hlt (by omega) hqueue)
        · exact hprev.back _ hl
      · rename_i hgoes
        have hqp : q < p := by
          rw [hbefore, decide_eq_true_eq] at hgoes
          have : p ≠ q := fun hpq => hne (h.seqno ▸ heq.mpr hpq)
          omega
        split at hs
        · rename_i hlast
          obtain ⟨rfl, hgtlast⟩ := hlast
          split at hs
          · obtain rfl := Option.some.inj hs
            exact hprev.back _ hl
          · rename_i hmem
            have hnf : next.fin = false := Bool.eq_false_iff.mpr fun hf => hmem (Or.inl hf)
            obtain ⟨seg', hseg', rfl⟩ := Option.map_eq_some_iff.mp hs
            obtain ⟨hpiece, hptcplen⟩ := trimOverrun_spec h htcplen hedge
              (fun hover => hwrap next rfl (h.seqno ▸ hgtlast) (h.seqno ▸ hover)) hseg'
            obtain ⟨hcut, hle, hcfin, hctcplen⟩ := trimBefore_spec hnext hnf hqp (by omega)
            refine hprev.back _ ⟨q, hq, ⟨hqlt, by omega⟩, hcut, ?_, p, hle, ⟨hlt, by omega⟩, hpiece, fun _ => rfl, trivial⟩
            intro hf
            rw [hcfin] at hf
            cases hf
        · rename_i hlast
          have hne : l ≠ [] := fun hnil => hlast ⟨hnil, by rw [← h.seqno, hgt]; exact decide_eq_true hqp⟩
          have hnf : next.fin = false := Bool.eq_false_iff.mpr fun hf => hne (hnfin hf)
          obtain ⟨l'', hl'', rfl⟩ := Option.map_eq_some_iff.mp hs
          refine hprev.back _ (ih (prevOk_some hq ⟨hqlt, hqtop⟩ hnext hnf hqp (by omega)) (by omega) hrest ?_ hl'')
          intro last hlast
          refine hwrap last ?_
          rw [List.getLast?_cons_of_ne_nil hne]
          exact hlast

end TcpPiecesAux

end SaymaFirmware
