import SaymaFirmware.InetChksum

/-!
# What the checksum functions compute

Every version of `lwip_standard_chksum` returns the sum of the data as little-endian words (`weigh`), brought to 16 bits with an
end-around carry (`canon`), and so does the loop over a chain of pbufs, wherever the chain is cut.
-/

namespace SaymaFirmware

open Ones

section Words

variable {l : List UInt8}

/-- The first word of a list. -/
theorem weigh_false_cons (a b : UInt8) (l : List UInt8) : weigh false (a :: b :: l) = word16 a b + weigh false l := by
  simp only [weigh, word16, Bool.false_eq_true, if_false, Bool.not_false, if_true, Bool.not_true]
  omega

/-- The first two bytes behind an odd number of them. -/
theorem weigh_true_cons (a b : UInt8) (l : List UInt8) : weigh true (a :: b :: l) = 256 * a.toNat + b.toNat + weigh true l := by
  simp only [weigh, Bool.false_eq_true, if_false, Bool.not_false, if_true, Bool.not_true]
  omega

/-- Two bytes make a 16-bit word. -/
theorem word16_le (a b : UInt8) : word16 a b ≤ 65535 := by
  have ha := a.toNat_lt
  have hb := b.toNat_lt
  rw [word16]
  omega

/-- The sum of data that a 16-bit length can count is a 32-bit number, with room for more. -/
theorem weigh_lt (odd : Bool) (h : l.length < 65536) : weigh odd l + 1000000 < 2 ^ 32 := by
  have := weigh_le odd l
  omega

/-- The loop over the words leaves at most one byte. -/
theorem sumWords_length (sum : Nat) (l : List UInt8) : (sumWords sum l).2.length ≤ 1 := by
  fun_induction sumWords sum l with
  | case1 sum a b l ih => exact ih
  | case2 sum l hl =>
    match l, hl with
    | [], _ => exact Nat.zero_le 1
    | [a], _ => exact Nat.le_refl 1
    | a :: b :: l, hl => exact absurd rfl (hl a b l)

/-- The loop moves the words from the data into the sum. -/
theorem sumWords_sum (sum : Nat) (l : List UInt8) (h : sum + weigh false l < 2 ^ 32) :
    (sumWords sum l).1 + weigh false (sumWords sum l).2 = sum + weigh false l := by
  fun_induction sumWords sum l with
  | case1 sum a b l ih =>
    rw [weigh_false_cons] at h ⊢
    rw [add32_eq (by omega)] at ih ⊢
    rw [ih (by omega)]
    omega
  | case2 sum l _ => rfl

/-- The end of the second and the third version. -/
theorem finishSum_eq {odd : Bool} {t : Nat} {sum : Nat × List UInt8} (hl : sum.2.length ≤ 1)
    (hlt : sum.1 + t + weigh false sum.2 < 2 ^ 32) :
    finishSum odd t sum = canon (if odd then 256 * (sum.1 + t + weigh false sum.2) else sum.1 + t + weigh false sum.2) := by
  obtain ⟨s, rest⟩ := sum
  have hrest : leftOver rest = weigh false rest := by
    match rest, hl with
    | [], _ => rfl
    | [b], _ => rfl
  simp only at hlt
  have hfold := fold_fold_eq hlt
  have hle := canon_le (s + t + weigh false rest)
  simp only [finishSum, hrest, foldU32T, swapBytesInWord]
  rw [add32_eq (by omega), ← Nat.add_assoc, hfold]
  cases odd with
  | false =>
    simp only [Bool.false_eq_true, if_false]
    exact Nat.mod_eq_of_lt (by omega)
  | true =>
    simp only [if_true]
    rw [swap_eq hle, canon_mul_canon]
    have := canon_le (256 * (s + t + weigh false rest))
    exact Nat.mod_eq_of_lt (by omega)

/-- At an even address nothing is put before the loop. -/
theorem alignWord_false (l : List UInt8) : alignWord false l = (0, l) := by cases l <;> rfl

/-- The first byte at an odd address is an upper one. -/
theorem alignWord_true (l : List UInt8) : (alignWord true l).1 + weigh false (alignWord true l).2 = weigh true l := by
  cases l <;> rfl

/-- At an odd one a byte is taken off. -/
theorem alignWord_length (odd : Bool) (l : List UInt8) : (alignWord odd l).2.length ≤ l.length := by
  cases l with
  | nil => exact Nat.le_refl _
  | cons b l =>
    cases odd with
    | false => exact Nat.le_refl _
    | true => exact Nat.le_succ _

/-- It is the upper byte of a word. -/
theorem alignWord_le (odd : Bool) (l : List UInt8) : (alignWord odd l).1 ≤ 65280 := by
  cases l with
  | nil => exact Nat.zero_le _
  | cons b l =>
    have hb := b.toNat_lt
    cases odd with
    | false => exact Nat.zero_le _
    | true =>
      simp only [alignWord, if_true]
      omega

/-- With it the sum is that of the data behind an odd number of bytes. -/
theorem alignWord_sum (odd : Bool) (l : List UInt8) : (alignWord odd l).1 + weigh false (alignWord odd l).2 = weigh odd l := by
  cases odd with
  | false => rw [alignWord_false, Nat.zero_add]
  | true => exact alignWord_true l

/-- The bytes are exchanged back when the address was odd. -/
theorem canon_align (odd : Bool) (l : List UInt8) : canon (if odd then 256 * weigh odd l else weigh odd l) = canon (weigh false l) := by
  cases odd with
  | false => rfl
  | true => exact canon_mul_weigh true l

end Words

section Versions

variable {data : List UInt8}

/-- The version in use, at any address. -/
theorem lwipStandardChksum_eq (addr : Nat) (h : data.length < 65536) : lwipStandardChksum addr data = canon (weigh false data) := by
  have hsum := alignWord_sum (decide (addr % 2 = 1)) data
  have hlt := weigh_lt (decide (addr % 2 = 1)) h
  have hwords := sumWords_sum 0 (alignWord (decide (addr % 2 = 1)) data).2 (by omega)
  have hall : (sumWords 0 (alignWord (decide (addr % 2 = 1)) data).2).1 + (alignWord (decide (addr % 2 = 1)) data).1 +
      weigh false (sumWords 0 (alignWord (decide (addr % 2 = 1)) data).2).2 = weigh (decide (addr % 2 = 1)) data := by omega
  simp only [lwipStandardChksum]
  rw [finishSum_eq (sumWords_length _ _) (by omega), hall, canon_align]

/-- The loop of version 1, as long as its sum fits. -/
theorem sumOctets_eq {acc : Nat} (h : acc + weigh true data < 2 ^ 32) : sumOctets acc data = acc + weigh true data := by
  fun_induction sumOctets acc data with
  | case1 acc a b l ih =>
    rw [weigh_true_cons] at h ⊢
    rw [add32_eq (by omega)] at ih ⊢
    rw [ih (by omega)]
    omega
  | case2 acc a =>
    simp only [weigh, if_true, Nat.add_zero] at h ⊢
    exact add32_eq h
  | case3 acc => rfl

/-- Version 1 is the folded sum of the words. -/
theorem lwipStandardChksum1_eq (h : data.length < 65536) : lwipStandardChksum1 data = canon (weigh false data) := by
  have hlt := weigh_lt true h
  have hle := canon_le (weigh true data)
  have hacc : (if foldU32T (weigh true data) / 65536 ≠ 0 then foldU32T (foldU32T (weigh true data)) else foldU32T (weigh true data)) =
      canon (weigh true data) := by
    split
    · exact fold_fold_eq (by omega)
    · rename_i hsmall
      rw [foldU32T] at hsmall ⊢
      rw [← canon_fold, canon_of_le (by omega)]
  simp only [lwipStandardChksum1]
  rw [sumOctets_eq (by omega), Nat.zero_add, hacc, Nat.mod_eq_of_lt (by omega), swapBytesInWord, swap_eq hle, canon_mul_canon,
    canon_mul_weigh]
  rfl

/-- Adding back the carry keeps the sum. -/
theorem addCarry_canon {s w : Nat} (hs : s < 2 ^ 32) (hw : w < 2 ^ 32) :
    addCarry s w < 2 ^ 32 ∧ ∀ r, canon (addCarry s w + r) = canon (s + w + r) := by
  simp only [addCarry]
  by_cases hover : s + w < 2 ^ 32
  · rw [add32_eq hover, if_neg (by omega)]
    exact ⟨hover, fun _ => rfl⟩
  · have hmod : add32 s w = s + w - 2 ^ 32 := by
      rw [add32]
      omega
    rw [hmod, if_pos (by omega), add32_eq (by omega)]
    refine ⟨by omega, fun r => canon_congr ?_ ?_⟩ <;> omega

/-- Four bytes make a 32-bit word. -/
theorem word32_lt (a b c d : UInt8) : word32 a b c d < 2 ^ 32 := by
  have hab := word16_le a b
  have hcd := word16_le c d
  rw [word32]
  omega

/-- A 32-bit word counts as its two halves. -/
theorem canon_word32 (a b c d : UInt8) (n : Nat) : canon (word32 a b c d + n) = canon (word16 a b + word16 c d + n) := by
  rw [word32]
  refine canon_congr ?_ ?_ <;> omega

/-- The loop over the long words counts its carries, so it keeps the sum modulo `65535`. -/
theorem sumLongs_canon (sum : Nat) (data : List UInt8) (h : sum < 2 ^ 32) :
    (sumLongs sum data).1 < 2 ^ 32 ∧ (sumLongs sum data).2.length ≤ data.length ∧
      canon ((sumLongs sum data).1 + weigh false (sumLongs sum data).2) = canon (sum + weigh false data) := by
  fun_induction sumLongs sum data with
  | case1 sum a b c d e f g h' l ih =>
    obtain ⟨hlt₁, hcanon₁⟩ := addCarry_canon h (word32_lt a b c d)
    obtain ⟨hlt₂, hcanon₂⟩ := addCarry_canon hlt₁ (word32_lt e f g h')
    obtain ⟨hlt, hlen, hcanon⟩ := ih hlt₂
    refine ⟨hlt, by simp only [List.length_cons]; omega, hcanon.trans ?_⟩
    calc canon (addCarry (addCarry sum (word32 a b c d)) (word32 e f g h') + weigh false l)
        = canon (addCarry sum (word32 a b c d) + word32 e f g h' + weigh false l) := hcanon₂ _
      _ = canon (sum + word32 a b c d + (word32 e f g h' + weigh false l)) := by rw [Nat.add_assoc, hcanon₁]
      _ = canon (word32 a b c d + (word32 e f g h' + (sum + weigh false l))) := congrArg canon (by omega)
      _ = canon (word32 e f g h' + (word16 a b + word16 c d + (sum + weigh false l))) := by
        rw [canon_word32]
        exact congrArg canon (by omega)
      _ = canon (sum + weigh false (a :: b :: c :: d :: e :: f :: g :: h' :: l)) := by
        rw [canon_word32]
        simp only [weigh_false_cons]
        exact congrArg canon (by omega)
  | case2 sum l _ => exact ⟨h, Nat.le_refl _, rfl⟩

/-- A word before the loop brings the address to a multiple of four. -/
theorem alignLong_sum (unaligned : Bool) (l : List UInt8) :
    (alignLong unaligned l).1 + weigh false (alignLong unaligned l).2 = weigh false l ∧
      (alignLong unaligned l).1 ≤ 65535 ∧ (alignLong unaligned l).2.length ≤ l.length := by
  match l with
  | [] => exact ⟨rfl, Nat.zero_le _, Nat.le_refl _⟩
  | [a] => exact ⟨Nat.zero_add _, Nat.zero_le _, Nat.le_refl _⟩
  | a :: b :: l =>
    cases unaligned with
    | false => exact ⟨Nat.zero_add _, Nat.zero_le _, Nat.le_refl _⟩
    | true => exact ⟨(weigh_false_cons a b l).symm, word16_le a b, Nat.le_add_right _ 2⟩

/-- Version 3 is the folded sum of the words too. -/
theorem lwipStandardChksum3_eq (addr : Nat) (h : data.length < 65536) : lwipStandardChksum3 addr data = canon (weigh false data) := by
  have hall : ∀ odd unaligned : Bool, finishSum odd (alignWord odd data).1
      (sumWords (foldU32T (sumLongs (alignLong unaligned (alignWord odd data).2).1 (alignLong unaligned (alignWord odd data).2).2).1)
        (sumLongs (alignLong unaligned (alignWord odd data).2).1 (alignLong unaligned (alignWord odd data).2).2).2) =
      canon (weigh false data) := by
    intro odd unaligned
    have hsum := alignWord_sum odd data
    have hlen := alignWord_length odd data
    have hlt := weigh_lt odd h
    have htop := alignWord_le odd data
    generalize alignWord odd data = head at *
    obtain ⟨hstart, hstartle, hstartlen⟩ := alignLong_sum unaligned head.2
    generalize alignLong unaligned head.2 = start at *
    obtain ⟨hbulklt, hbulklen, hbulk⟩ := sumLongs_canon start.1 start.2 (by omega)
    generalize sumLongs start.1 start.2 = bulk at *
    have hfold : foldU32T bulk.1 ≤ 131070 := by
      rw [foldU32T, fold]
      omega
    have hrest := weigh_lt false (by omega : bulk.2.length < 65536)
    have hwords := sumWords_sum (foldU32T bulk.1) bulk.2 (by omega)
    rw [finishSum_eq (sumWords_length _ _) (by omega), show (sumWords (foldU32T bulk.1) bulk.2).1 + head.1 +
      weigh false (sumWords (foldU32T bulk.1) bulk.2).2 = foldU32T bulk.1 + (head.1 + weigh false bulk.2) by omega]
    have hcanon : canon (foldU32T bulk.1 + (head.1 + weigh false bulk.2)) = canon (weigh odd data) := by
      calc canon (foldU32T bulk.1 + (head.1 + weigh false bulk.2))
          = canon (bulk.1 + (head.1 + weigh false bulk.2)) := by rw [← canon_canon_add, foldU32T, canon_fold, canon_canon_add]
        _ = canon (head.1 + canon (bulk.1 + weigh false bulk.2)) := by
          rw [canon_add_canon]
          exact congrArg canon (by omega)
        _ = canon (weigh odd data) := by
          rw [hbulk, canon_add_canon]
          exact congrArg canon (by omega)
    rw [← canon_align odd data]
    cases odd with
    | false => exact hcanon
    | true =>
      simp only [if_true]
      rw [← canon_mul_canon, hcanon, canon_mul_canon]
  exact hall _ _

end Versions

section Chains

variable {p : List PbufSeg} {l : List UInt8}

/-- Every pbuf has a 16-bit length. -/
def ChainOk (p : List PbufSeg) : Prop := ∀ q ∈ p, q.data.length < 65536

/-- The state of a checksum loop after the bytes `l`. -/
def SumOf (acc : Nat × Bool) (l : List UInt8) : Prop := acc.1 = canon (weigh acc.2 l)

/-- Exchanging the bytes back gives the sum of a chain. -/
theorem unswap_eq {acc : Nat × Bool} (h : SumOf acc l) : unswap acc = canon (weigh false l) := by
  obtain ⟨sum, odd⟩ := acc
  obtain rfl : sum = canon (weigh odd l) := h
  cases odd with
  | false => rfl
  | true =>
    simp only [unswap, if_true, swapBytesInWord]
    rw [swap_eq (canon_le _), canon_mul_canon, canon_mul_weigh]
    rfl

/-- The test for an odd length. -/
theorem decide_length_odd (l : List UInt8) : (l.length % 2 ≠ 0) ↔ isOdd l = true := by
  rw [isOdd, decide_eq_true_eq]
  omega

/-- A pbuf behind an even or an odd number of bytes. -/
theorem chksumSeg_sumOf {acc : Nat × Bool} {q : PbufSeg} {data : List UInt8} (h : SumOf acc l) (hodd : acc.2 = isOdd l)
    (hlt : data.length < 65536) : SumOf (chksumSeg acc q data) (l ++ data) ∧ (chksumSeg acc q data).2 = (acc.2 ^^ isOdd q.data) := by
  obtain ⟨sum, odd⟩ := acc
  obtain rfl : sum = canon (weigh odd l) := h
  obtain rfl : odd = isOdd l := hodd
  have hsum : foldU32T (add32 (canon (weigh (isOdd l) l)) (lwipStandardChksum q.payload data)) = canon (weigh (isOdd l) (l ++ data)) := by
    have h1 := canon_le (weigh (isOdd l) l)
    have h2 := canon_le (weigh false data)
    rw [lwipStandardChksum_eq _ hlt, add32_eq (by omega), foldU32T, fold_eq (by omega), canon_canon_add, canon_add_canon, weigh_append,
      Bool.xor_self]
  simp only [chksumSeg, hsum, decide_length_odd]
  cases hq : isOdd q.data with
  | false =>
    simp only [Bool.false_eq_true, if_false, Bool.xor_false]
    exact ⟨rfl, trivial⟩
  | true =>
    simp only [if_true, Bool.xor_true]
    refine ⟨?_, trivial⟩
    rw [SumOf, swapBytesInWord, swap_eq (canon_le _), canon_mul_canon, canon_mul_weigh]

/-- The bytes of a chain, pbuf by pbuf. -/
theorem chainBytes_cons (q : PbufSeg) (p : List PbufSeg) : chainBytes (q :: p) = q.data ++ chainBytes p := rfl

/-- The loop over a chain sums its bytes, whatever the lengths of the pbufs. -/
theorem foldl_chksumSeg (hp : ChainOk p) {acc : Nat × Bool} (h : SumOf acc l) (hodd : acc.2 = isOdd l) :
    SumOf (p.foldl (fun acc q => chksumSeg acc q q.data) acc) (l ++ chainBytes p) := by
  induction p generalizing acc l with
  | nil => exact (List.append_nil l).symm ▸ h
  | cons q p ih =>
    obtain ⟨hsum, hodd'⟩ := chksumSeg_sumOf (q := q) h hodd (hp q List.mem_cons_self)
    rw [List.foldl_cons, chainBytes_cons, ← List.append_assoc]
    refine ih (fun r hr => hp r (List.mem_cons_of_mem q hr)) hsum ?_
    rw [hodd', hodd, isOdd_append]

/-- It starts with nothing. -/
theorem sumOf_nil : SumOf (0, false) [] := rfl

/-- The complement of a folded sum. -/
theorem not16_canon (n : Nat) : not16 (canon n) = 65535 - canon n := by
  have := canon_le n
  rw [not16, Nat.mod_eq_of_lt (by omega)]

/-- `inet_chksum` is what the sum of the data lacks. -/
theorem inetChksum_eq (addr : Nat) {data : List UInt8} (h : data.length < 65536) :
    inetChksum addr data = 65535 - canon (weigh false data) := by
  rw [inetChksum, lwipStandardChksum_eq addr h, not16_canon]

/-- `inet_chksum_pbuf` is what the sum of the chain lacks. -/
theorem inetChksumPbuf_eq (hp : ChainOk p) : inetChksumPbuf p = 65535 - canon (weigh false (chainBytes p)) := by
  rw [inetChksumPbuf, unswap_eq (foldl_chksumSeg hp sumOf_nil rfl), not16_canon]
  rfl

/-- What the pseudo header adds. -/
def pseudoSum (h : PseudoHdr) : Nat :=
  h.src % 65536 + h.src / 65536 % 65536 + h.dest % 65536 + h.dest / 65536 % 65536 + swapBytesInWord h.proto +
    swapBytesInWord h.protoLen

/-- Exchanged bytes are a 16-bit word. -/
theorem swapBytesInWord_le (w : Nat) : swapBytesInWord w ≤ 65535 := by
  rw [swapBytesInWord, swap]
  omega

/-- The sum of the pseudo header does not overflow. -/
theorem addPseudo_eq {acc : Nat} (h : PseudoHdr) (hacc : acc ≤ 65535) : addPseudo acc h = acc + pseudoSum h ∧ pseudoSum h ≤ 393210 := by
  have h1 := swapBytesInWord_le h.proto
  have h2 := swapBytesInWord_le h.protoLen
  refine ⟨?_, by rw [pseudoSum]; omega⟩
  simp only [addPseudo, pseudoSum, add32]
  omega

/-- The end of the routines with a pseudo header: two folds are enough. -/
theorem not16_addPseudo {acc : Nat × Bool} (h : PseudoHdr) (hs : SumOf acc l) :
    not16 (foldU32T (foldU32T (addPseudo (unswap acc) h))) = 65535 - canon (weigh false l + pseudoSum h) := by
  have hle := canon_le (weigh false l)
  obtain ⟨hadd, hbound⟩ := addPseudo_eq h hle
  rw [unswap_eq hs, hadd, foldU32T, foldU32T, fold_fold_eq (by omega), canon_canon_add, not16_canon]

/-- `inet_chksum_pseudo` is what the sum of the chain and the pseudo header lacks. -/
theorem inetChksumPseudo_eq (hp : ChainOk p) (h : PseudoHdr) :
    inetChksumPseudo p h = 65535 - canon (weigh false (chainBytes p) + pseudoSum h) := by
  rw [inetChksumPseudo, not16_addPseudo h (foldl_chksumSeg hp sumOf_nil rfl)]
  rfl

/-- The loop stops in the pbuf in which the bytes end. -/
theorem chksumPartial_eq (hp : ChainOk p) {acc : Nat × Bool} {n : Nat} (hn : n < 0x7fff) (h : SumOf acc l) (hodd : acc.2 = isOdd l) :
    ∃ acc', chksumPartial acc n p = some acc' ∧ SumOf acc' (l ++ (chainBytes p).take n) := by
  induction p generalizing acc l n with
  | nil =>
    refine ⟨acc, rfl, ?_⟩
    rw [chainBytes, List.flatMap_nil, List.take_nil, List.append_nil]
    exact h
  | cons q p ih =>
    rw [chksumPartial]
    split
    · rename_i hzero
      refine ⟨acc, rfl, ?_⟩
      rw [hzero, List.take_zero, List.append_nil]
      exact h
    · have hq := hp q List.mem_cons_self
      have hlt : (q.data.take (min q.data.length n)).length < 65536 := by
        rw [List.length_take]
        omega
      obtain ⟨hsum, hodd'⟩ := chksumSeg_sumOf (q := q) h hodd hlt
      simp only
      rw [if_pos (by omega), chainBytes_cons, List.take_append, ← List.append_assoc]
      by_cases hle : q.data.length ≤ n
      · rw [Nat.min_eq_left hle, List.take_length] at hsum hodd' ⊢
        rw [List.take_of_length_le hle]
        refine ih (fun r hr => hp r (List.mem_cons_of_mem q hr)) (by omega) hsum ?_
        rw [hodd', hodd, isOdd_append]
      · rw [Nat.min_eq_right (by omega)] at hsum hodd' ⊢
        rw [Nat.sub_self, show n - q.data.length = 0 by omega, List.take_zero, List.append_nil]
        refine ⟨_, ?_, hsum⟩
        cases p <;> simp only [chksumPartial, if_true]

/-- `inet_chksum_pseudo_partial` does the same with the first bytes of the chain. -/
theorem inetChksumPseudoPartial_eq (hp : ChainOk p) (h : PseudoHdr) {n : Nat} (hn : n < 0x7fff) :
    inetChksumPseudoPartial p h n = some (65535 - canon (weigh false ((chainBytes p).take n) + pseudoSum h)) := by
  obtain ⟨acc, hacc, hsum⟩ := chksumPartial_eq hp hn sumOf_nil rfl
  rw [inetChksumPseudoPartial, hacc, Option.map_some, not16_addPseudo h hsum]
  rfl

end Chains

/-- A 16-bit number in memory. -/
def wordBytes (w : Nat) : List UInt8 := [UInt8.ofNat (w % 256), UInt8.ofNat (w / 256)]

section Words

/-- A byte as a number and back. -/
theorem toNat_ofNat {n : Nat} (h : n < 256) : (UInt8.ofNat n).toNat = n := by
  rw [UInt8.toNat_ofNat']
  exact Nat.mod_eq_of_lt h

/-- A word at an even place counts as itself. -/
theorem weigh_wordBytes {w : Nat} (h : w < 65536) (l : List UInt8) : weigh false (wordBytes w ++ l) = w + weigh false l := by
  rw [wordBytes, List.cons_append, List.cons_append, List.nil_append, weigh_false_cons, word16, toNat_ofNat (by omega),
    toNat_ofNat (by omega)]
  omega

/-- A word at an even place is added as it is. -/
theorem weigh_word {pre : List UInt8} (heven : pre.length % 2 = 0) {w : Nat} (h : w < 65536) (post : List UInt8) :
    weigh false (pre ++ wordBytes w ++ post) = w + weigh false (pre ++ post) := by
  have hpre : isOdd pre = false := by
    rw [isOdd, decide_eq_false_iff_not]
    omega
  rw [List.append_assoc, weigh_append false pre (wordBytes w ++ post), weigh_append false pre post, hpre, Bool.xor_false,
    weigh_wordBytes h]
  omega

end Words

end SaymaFirmware
