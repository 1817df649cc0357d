import Mathlib.Algebra.BigOperators.Group.List.Basic
import SaymaFirmware.TcpSend

/-!
# Segments that cover a stream

`Tiled p l` says that the segments `l` stand one behind the other from the position `p` of the stream on, each with the number of its
position. The two queues of a connection are the two parts of one such list, in which each segment is marked as sent or not (`Marked`);
sending a segment and taking it back only changes its mark, and an acknowledgement removes segments from the front.
-/

namespace SaymaFirmware

open SeqNum

/-- The data of segments. -/
def segBytes (l : List TcpSeg) : List UInt8 := l.flatMap TcpSeg.data

/-- The number of their pbufs. -/
def segClens (l : List TcpSeg) : Nat := (l.map TcpSeg.clen).sum

/-- Segments one behind the other from a position on. -/
def Tiled : Nat → List TcpSeg → Prop
  | _, [] => True
  | p, seg :: l => seg.seqno = num p ∧ 0 < seg.len ∧ Tiled (p + seg.len) l

section Tiles

variable {p : Nat} {seg : TcpSeg} {l l' : List TcpSeg}

@[simp] theorem segBytes_nil : segBytes [] = [] := rfl

@[simp] theorem segBytes_cons (seg : TcpSeg) (l : List TcpSeg) : segBytes (seg :: l) = seg.data ++ segBytes l := rfl

@[simp] theorem segBytes_append (l l' : List TcpSeg) : segBytes (l ++ l') = segBytes l ++ segBytes l' := List.flatMap_append

@[simp] theorem segClens_nil : segClens [] = 0 := rfl

@[simp] theorem segClens_cons (seg : TcpSeg) (l : List TcpSeg) : segClens (seg :: l) = seg.clen + segClens l := by
  rw [segClens, List.map_cons, List.sum_cons, segClens]

@[simp] theorem segClens_append (l l' : List TcpSeg) : segClens (l ++ l') = segClens l + segClens l' := by
  rw [segClens, List.map_append, List.sum_append, segClens, segClens]

/-- Segments stand one behind the other when both parts do. -/
theorem tiled_append : Tiled p (l ++ l') ↔ Tiled p l ∧ Tiled (p + (segBytes l).length) l' := by
  induction l generalizing p with
  | nil => exact (and_iff_right trivial).symm
  | cons seg l ih =>
    rw [List.cons_append, Tiled, Tiled, ih, segBytes_cons, List.length_append, ← Nat.add_assoc, and_assoc, and_assoc]
    rfl

/-- What the queues say about a segment, without its flags and its checksum. -/
def TcpSeg.core (seg : TcpSeg) : Nat × List UInt8 × Nat := (seg.seqno, seg.data, seg.clen)

/-- What is compared of two segments. -/
theorem core_eq_iff {a b : TcpSeg} : a.core = b.core ↔ a.seqno = b.seqno ∧ a.data = b.data ∧ a.clen = b.clen := by
  rw [TcpSeg.core, TcpSeg.core, Prod.mk.injEq, Prod.mk.injEq]

/-- The data are part of it. -/
theorem segBytes_congr (h : l.map TcpSeg.core = l'.map TcpSeg.core) : segBytes l = segBytes l' := by
  have hflat : ∀ l : List TcpSeg, segBytes l = (l.map TcpSeg.core).flatMap fun c => c.2.1 := by
    intro l
    rw [segBytes, List.flatMap_map]
    rfl
  rw [hflat, hflat, h]

/-- So are the pbufs. -/
theorem segClens_congr (h : l.map TcpSeg.core = l'.map TcpSeg.core) : segClens l = segClens l' := by
  have hsum : ∀ l : List TcpSeg, segClens l = ((l.map TcpSeg.core).map fun c => c.2.2).sum := by
    intro l
    rw [segClens, List.map_map]
    rfl
  rw [hsum, hsum, h]

/-- And the numbers. -/
theorem tiled_congr (h : l.map TcpSeg.core = l'.map TcpSeg.core) (ht : Tiled p l) : Tiled p l' := by
  induction l generalizing p l' with
  | nil =>
    obtain rfl : l' = [] := by simpa using h.symm
    exact ht
  | cons a l ih =>
    cases l' with
    | nil => cases h
    | cons b l' =>
      rw [List.map_cons, List.map_cons, List.cons.injEq] at h
      obtain ⟨hseq, hdata, _⟩ := core_eq_iff.mp h.1
      obtain ⟨h1, h2, h3⟩ := ht
      have hlen : a.len = b.len := by rw [TcpSeg.len, TcpSeg.len, hdata]
      exact ⟨hseq ▸ h1, hlen ▸ h2, ih h.2 (hlen ▸ h3)⟩

/-- The push flag is not. -/
theorem map_core_setPsh (l : List TcpSeg) : (setPsh l).map TcpSeg.core = l.map TcpSeg.core := by
  fun_induction setPsh l with
  | case1 => rfl
  | case2 seg => rfl
  | case3 seg l _ ih => rw [List.map_cons, ih, List.map_cons]

/-- A segment's number is that of its position, and so is the number behind its data. -/
theorem tiled_mem (h : Tiled p (l ++ seg :: l')) :
    seg.seqno = num (p + (segBytes l).length) ∧ 0 < seg.len ∧ add32 seg.seqno seg.len = num (p + (segBytes l).length + seg.len) := by
  obtain ⟨_, hseq, hpos, _⟩ := tiled_append.mp h
  exact ⟨hseq, hpos, by rw [hseq, num_add]⟩

/-- Of two segments the one in front has the smaller number. -/
theorem tiled_lt {a b : TcpSeg} {l₁ l₂ l₃ : List TcpSeg} (h : Tiled p (l₁ ++ a :: (l₂ ++ b :: l₃)))
    (hlt : (segBytes (l₁ ++ a :: (l₂ ++ b :: l₃))).length < 2 ^ 31) :
    lt a.seqno b.seqno = true ∧ lt b.seqno a.seqno = false := by
  obtain ⟨ha, hpos, _⟩ := tiled_mem h
  have hb := (tiled_mem (l := l₁ ++ a :: l₂) (by simpa using h)).1
  simp only [segBytes_append, segBytes_cons, List.length_append] at hlt hb
  rw [TcpSeg.len] at hpos
  rw [ha, hb, lt_num (by omega) (by omega), lt_num (by omega) (by omega), decide_eq_true_eq, decide_eq_false_iff_not]
  omega

end Tiles

/-! ## Marks -/

/-- The segments that have been sent. -/
def sentSegs : List (TcpSeg × Bool) → List TcpSeg
  | [] => []
  | (seg, true) :: m => seg :: sentSegs m
  | (_, false) :: m => sentSegs m

/-- The segments that have not. -/
def unsentSegs : List (TcpSeg × Bool) → List TcpSeg
  | [] => []
  | (_, true) :: m => unsentSegs m
  | (seg, false) :: m => seg :: unsentSegs m

/-- All of them. -/
def allSegs (m : List (TcpSeg × Bool)) : List TcpSeg := m.map Prod.fst

section Marks

variable {seg : TcpSeg} {m m' : List (TcpSeg × Bool)}

/-- The sent segments of two lists. -/
theorem sentSegs_append (m m' : List (TcpSeg × Bool)) : sentSegs (m ++ m') = sentSegs m ++ sentSegs m' := by
  fun_induction sentSegs m with
  | case1 => rfl
  | case2 seg m ih => rw [List.cons_append, sentSegs, ih, List.cons_append]
  | case3 seg m ih => rw [List.cons_append, sentSegs, ih]

/-- The unsent ones. -/
theorem unsentSegs_append (m m' : List (TcpSeg × Bool)) : unsentSegs (m ++ m') = unsentSegs m ++ unsentSegs m' := by
  fun_induction unsentSegs m with
  | case1 => rfl
  | case2 seg m ih => rw [List.cons_append, unsentSegs, ih]
  | case3 seg m ih => rw [List.cons_append, unsentSegs, ih, List.cons_append]

theorem allSegs_cons (seg : TcpSeg) (b : Bool) (m : List (TcpSeg × Bool)) : allSegs ((seg, b) :: m) = seg :: allSegs m := rfl

/-- All of them. -/
theorem allSegs_append (m m' : List (TcpSeg × Bool)) : allSegs (m ++ m') = allSegs m ++ allSegs m' := List.map_append

/-- A sent segment is one of all. -/
theorem mem_allSegs_of_sent (h : seg ∈ sentSegs m) : seg ∈ allSegs m := by
  fun_induction sentSegs m with
  | case1 => exact h
  | case2 s m ih =>
    rcases List.mem_cons.mp h with rfl | h
    · exact List.mem_cons_self
    · exact List.mem_cons_of_mem _ (ih h)
  | case3 s m ih => exact List.mem_cons_of_mem _ (ih h)

/-- So is an unsent one. -/
theorem mem_allSegs_of_unsent (h : seg ∈ unsentSegs m) : seg ∈ allSegs m := by
  fun_induction unsentSegs m with
  | case1 => exact h
  | case2 s m ih => exact List.mem_cons_of_mem _ (ih h)
  | case3 s m ih =>
    rcases List.mem_cons.mp h with rfl | h
    · exact List.mem_cons_self
    · exact List.mem_cons_of_mem _ (ih h)

/-- Each pbuf belongs to one of the queues. -/
theorem segClens_marks (m : List (TcpSeg × Bool)) : segClens (sentSegs m) + segClens (unsentSegs m) = segClens (allSegs m) := by
  induction m with
  | nil => rfl
  | cons x m ih =>
    obtain ⟨seg, sent⟩ := x
    cases sent <;> simp only [sentSegs, unsentSegs, allSegs, List.map_cons, segClens_cons] at ih ⊢ <;> omega

/-- The first segment that has not been sent stands behind segments that have. -/
theorem unsentSegs_eq_cons {l : List TcpSeg} (h : unsentSegs m = seg :: l) :
    ∃ m₁ m₂, m = m₁ ++ (seg, false) :: m₂ ∧ unsentSegs m₁ = [] ∧ unsentSegs m₂ = l := by
  induction m with
  | nil => cases h
  | cons x m ih =>
    obtain ⟨s, sent⟩ := x
    cases sent with
    | false =>
      obtain ⟨rfl, rfl⟩ := List.cons.inj h
      exact ⟨[], m, rfl, rfl, rfl⟩
    | true =>
      obtain ⟨m₁, m₂, rfl, h₁, h₂⟩ := ih h
      exact ⟨(s, true) :: m₁, m₂, rfl, h₁, h₂⟩

/-- Where an unsent segment stands among all. -/
theorem unsentSegs_eq_append {kept l : List TcpSeg} (h : unsentSegs m = kept ++ seg :: l) :
    ∃ m₁ m₂, m = m₁ ++ (seg, false) :: m₂ ∧ unsentSegs m₁ = kept ∧ unsentSegs m₂ = l := by
  induction kept generalizing m with
  | nil => exact unsentSegs_eq_cons h
  | cons a kept ih =>
    obtain ⟨n₁, n₂, rfl, hn₁, hn₂⟩ := unsentSegs_eq_cons h
    obtain ⟨m₁, m₂, rfl, hm₁, hm₂⟩ := ih hn₂
    refine ⟨n₁ ++ (a, false) :: m₁, m₂, by rw [List.append_assoc, List.cons_append], ?_, hm₂⟩
    rw [unsentSegs_append, hn₁, unsentSegs, hm₁, List.nil_append]

/-- Where the first sent one does. -/
theorem sentSegs_eq_cons {l : List TcpSeg} (h : sentSegs m = seg :: l) :
    ∃ m₁ m₂, m = m₁ ++ (seg, true) :: m₂ ∧ sentSegs m₁ = [] ∧ sentSegs m₂ = l := by
  induction m with
  | nil => cases h
  | cons x m ih =>
    obtain ⟨s, sent⟩ := x
    cases sent with
    | true =>
      obtain ⟨rfl, rfl⟩ := List.cons.inj h
      exact ⟨[], m, rfl, rfl, rfl⟩
    | false =>
      obtain ⟨m₁, m₂, rfl, h₁, h₂⟩ := ih h
      exact ⟨(s, false) :: m₁, m₂, rfl, h₁, h₂⟩

/-- Segments that are all of one kind. -/
theorem sentSegs_eq_all (h : unsentSegs m = []) : sentSegs m = allSegs m := by
  induction m with
  | nil => rfl
  | cons x m ih =>
    obtain ⟨s, sent⟩ := x
    cases sent with
    | false => cases h
    | true => exact congrArg (s :: ·) (ih h)

/-- And the other way round. -/
theorem unsentSegs_eq_all (h : sentSegs m = []) : unsentSegs m = allSegs m := by
  induction m with
  | nil => rfl
  | cons x m ih =>
    obtain ⟨s, sent⟩ := x
    cases sent with
    | true => cases h
    | false => exact congrArg (s :: ·) (ih h)

end Marks

/-! ## The queues -/

section Queues

variable {seg : TcpSeg} {a b l : List TcpSeg}

/-- A segment goes between those with smaller and those with larger numbers. -/
theorem insertSeg_eq (ha : ∀ s ∈ a, lt s.seqno seg.seqno = true) (hb : ∀ s ∈ b, lt s.seqno seg.seqno = false) :
    insertSeg seg (a ++ b) = a ++ seg :: b := by
  induction a with
  | nil =>
    cases b with
    | nil => rfl
    | cons s b => rw [List.nil_append, insertSeg, hb s List.mem_cons_self, if_neg Bool.false_ne_true, List.nil_append]
  | cons s a ih =>
    rw [List.cons_append, insertSeg, ha s List.mem_cons_self, if_pos rfl, ih fun r hr => ha r (List.mem_cons_of_mem s hr),
      List.cons_append]

/-- `tcp_output` finds the same place, also when that is the end. -/
theorem addUnacked_eq (ha : ∀ s ∈ a, lt s.seqno seg.seqno = true ∧ lt seg.seqno s.seqno = false)
    (hb : ∀ s ∈ b, lt seg.seqno s.seqno = true ∧ lt s.seqno seg.seqno = false) : addUnacked seg (a ++ b) = a ++ seg :: b := by
  have hinsert := insertSeg_eq (fun s hs => (ha s hs).1) fun s hs => (hb s hs).2
  rw [addUnacked]
  cases hlast : (a ++ b).getLast? with
  | none =>
    have hnil := List.getLast?_eq_none_iff.mp hlast
    obtain ⟨rfl, rfl⟩ := List.append_eq_nil_iff.mp hnil
    rfl
  | some useg =>
    simp only
    have hmem := List.mem_of_getLast? hlast
    rcases b.eq_nil_or_concat with rfl | ⟨b', s, rfl⟩
    · rw [List.append_nil] at hmem ⊢
      rw [(ha useg hmem).2, if_neg Bool.false_ne_true]
    · rw [List.concat_eq_append, ← List.append_assoc, List.getLast?_concat] at hlast
      obtain rfl := Option.some.inj hlast
      rw [(hb s (by simp)).1, if_pos rfl, hinsert]

/-- The loops that remove segments never fail while the pbufs are counted right. -/
theorem removeAcked_eq (acked : TcpSeg → Bool) (other l : List TcpSeg) :
    removeAcked acked other (segClens l + segClens other) l =
      some (segClens (l.dropWhile acked) + segClens other, l.dropWhile acked) := by
  induction l with
  | nil => rfl
  | cons seg l ih =>
    rw [removeAcked]
    cases hacked : acked seg with
    | false => rw [if_neg Bool.false_ne_true, List.dropWhile_cons_of_neg (by rw [hacked]; exact Bool.false_ne_true)]
    | true =>
      have hsub : segClens (seg :: l) + segClens other - seg.clen = segClens l + segClens other := by
        rw [segClens_cons]
        omega
      rw [if_pos rfl, if_pos (by rw [segClens_cons]; omega), hsub, List.dropWhile_cons_of_pos hacked, ih, if_neg]
      rintro ⟨hne, rfl, rfl⟩
      exact hne rfl

/-- What is acknowledged is the front part of a list. -/
theorem dropWhile_append_eq {p : TcpSeg → Bool} (ha : ∀ s ∈ a, p s = true) (hb : ∀ s ∈ b, p s = false) :
    (a ++ b).dropWhile p = b := by
  induction a with
  | nil =>
    cases b with
    | nil => rfl
    | cons s b => exact List.dropWhile_cons_of_neg (by rw [hb s List.mem_cons_self]; exact Bool.false_ne_true)
  | cons s a ih =>
    rw [List.cons_append, List.dropWhile_cons_of_pos (ha s List.mem_cons_self)]
    exact ih fun r hr => ha r (List.mem_cons_of_mem s hr)

end Queues

end SaymaFirmware
