import SaymaFirmware.Lemmas.HeapBlocks

/-!
# The allocator's functions on blocks

One lemma for each function: `prvInsertBlockIntoFreeList` joins a tile with its free neighbours, `pvPortMalloc` takes the first free
tile that is large enough, and `vPortFree` gives a tile back. Each also says that no word inside an allocated block is written.
-/

namespace SaymaFirmware

open Links Tiling

/-! ## Inserting a block -/

section

variable {L : HeapLayout} {s s' : HeapState} {ls rs : List (Tile Nat)} {l r : Option (Tile Nat)} {x : Tile Nat} {n : Nat}
  {qs : List Nat}

/-- The joined tile starts at or before the tile that is handed back. -/
theorem joined_addr_le (h : Blocks L s (ls ++ l.toList ++ x :: (r.toList ++ rs))) : (joined l x r).addr ≤ x.addr := by
  cases l with
  | none => exact Nat.le_refl _
  | some u =>
    have hu := h.tiles.stop_le_of_mem_left (t := u) (by simp)
    exact Nat.le_trans (Nat.le_add_right _ _) hu

/-- The nodes behind a tile: the free blocks there and the end marker. -/
theorem node_of_mem_behind {xs ys : List (Tile Nat)} (h : Blocks L s (xs ++ x :: ys)) {b : Nat}
    (hb : b ∈ frees ys ++ [L.pucHeapEnd]) : x.stop ≤ b ∧ b ≤ L.pucHeapEnd ∧ L.Node b := by
  rcases List.mem_append.mp hb with hb | hb
  · obtain ⟨t, ht, -, rfl⟩ := mem_frees.mp hb
    have h1 := h.tiles.le_addr_of_mem_right (t := t) (by simp [ht])
    have h2 := h.mem_bounds (t := t) (by simp [ht])
    exact ⟨h1, by omega, h.node (by simp [ht])⟩
  · rw [List.mem_singleton.mp hb]
    exact ⟨(h.tiles.bounds (t := x) (by simp)).2.2, Nat.le_refl _, L.node_end⟩

/-- The nodes before a tile: the list's head and the free blocks there. -/
theorem node_of_mem_before {xs ys : List (Tile Nat)} {y : Tile Nat} (h : Tiles L.pucAlignedHeap (xs ++ y :: ys) L.pucHeapEnd)
    (hs : ∀ t ∈ xs, L.Node t.addr) {b : Nat} (hb : b ∈ L.xStart :: frees xs) : b ≠ y.addr ∧ L.Node b := by
  rcases List.mem_cons.mp hb with rfl | hb
  · have hy := h.bounds (t := y) (by simp)
    exact ⟨fun he => L.xStart_ne hy.1 (Nat.le_trans (Nat.le_add_right _ _) hy.2.2) he.symm, L.node_start⟩
  · obtain ⟨t, ht, -, rfl⟩ := mem_frees.mp hb
    have h1 := h.stop_le_of_mem_left ht
    have h2 := (h.bounds (t := t) (by simp [ht])).2.1
    simp only [Tile.stop] at h1
    exact ⟨by omega, hs t ht⟩

/-- The list after an insertion. -/
theorem linked_of_inserted (h : Blocks L s (ls ++ l.toList ++ x :: (r.toList ++ rs))) (ha : Around ls l r rs) (hx : x.free = false)
    (hn : frees rs ++ [L.pucHeapEnd] = n :: qs)
    (hi : Inserted L s s' (front L (ls ++ l.toList)) (joined l x r).addr n (joined l x r).size) :
    Linked s'.pxNextFreeBlock (L.xStart :: frees (ls ++ joined l x r :: rs) ++ [L.pucHeapEnd]) := by
  have hlist : L.xStart :: frees (ls ++ joined l x r :: rs) ++ [L.pucHeapEnd] =
      (L.xStart :: frees ls) ++ (joined l x r).addr :: n :: qs := by
    rw [frees_append, frees_cons_free (joined_free l x r), ← hn]
    simp
  have hold : Linked s.pxNextFreeBlock ((L.xStart :: frees ls ++ (l.map Tile.addr).toList) ++ ((r.map Tile.addr).toList ++ n :: qs)) := by
    have hl := h.linked
    rw [ha.frees_eq hx] at hl
    rw [← hn]
    simpa using hl
  have hyx := joined_addr_le h
  -- the nodes behind the block keep their pointers
  have hbehind : ∀ b ∈ n :: qs, s'.pxNextFreeBlock b = s.pxNextFreeBlock b := by
    intro b hb
    rw [← hn] at hb
    obtain ⟨h1, h2, h3⟩ := node_of_mem_behind (b := b) h (by
      rw [frees_append, List.append_assoc]
      exact List.mem_append_right _ hb)
    have hpos := (h.tiles.bounds (t := x) (by simp)).2.1
    simp only [Tile.stop] at h1
    exact hi.next_other b h3 (by omega) (h.front_ne (by omega) h2)
  have htail : Linked s'.pxNextFreeBlock (n :: qs) := by
    refine Linked.congr ?_ hbehind
    exact List.IsChain.right_of_append (List.IsChain.right_of_append hold)
  have hbefore : ∀ b ∈ L.xStart :: frees ls, b ≠ (joined l x r).addr ∧ L.Node b := fun b hb =>
    node_of_mem_before (Around.tiles h.tiles) (fun t ht => h.node (by simp [ht])) hb
  have hinit : Linked s.pxNextFreeBlock (L.xStart :: frees ls ++ (l.map Tile.addr).toList) := List.IsChain.left_of_append hold
  rw [hlist]
  cases l with
  | none =>
    -- the block follows the front node
    have hit : front L (ls ++ (none : Option (Tile Nat)).toList) = front L ls := by simp
    rw [hit] at hi
    have hne : front L ls ≠ (joined none x r).addr := (hbefore _ (List.getLast_mem _)).1
    rw [Option.map_none, Option.toList_none, List.append_nil, ← dropLast_append_front] at hinit
    rw [← dropLast_append_front, List.append_assoc, List.cons_append, List.nil_append]
    refine hinit.splice ?_ (hi.next_front hne) (List.isChain_cons_cons.mpr ⟨hi.next_self, htail⟩)
    intro b hb
    obtain ⟨h1, h2⟩ := hbefore b (List.dropLast_subset _ hb)
    rw [List.append_assoc] at h
    exact hi.next_other b h2 h1 (h.ne_front_of_mem_dropLast hb)
  | some u =>
    -- the block has become a part of the front node
    have hit : front L (ls ++ (some u).toList) = u.addr := front_concat_free L ls (ha.left_free u rfl)
    rw [hit] at hi
    refine Linked.splice hinit ?_ hi.next_self htail
    intro b hb
    obtain ⟨h1, h2⟩ := hbefore b hb
    exact hi.next_other b h2 h1 h1

/-- The blocks after an insertion. -/
theorem blocks_of_inserted (h : Blocks L s (ls ++ l.toList ++ x :: (r.toList ++ rs))) (ha : Around ls l r rs) (hx : x.free = false)
    (hn : frees rs ++ [L.pucHeapEnd] = n :: qs)
    (hi : Inserted L s s' (front L (ls ++ l.toList)) (joined l x r).addr n (joined l x r).size) :
    Blocks L s' (ls ++ joined l x r :: rs) := by
  have hT := Around.tiles h.tiles
  have hy := hT.bounds (t := joined l x r) (by simp)
  simp only [Tile.stop] at hy
  have hstart : L.xStart ≠ (joined l x r).addr := fun he => L.xStart_ne hy.1 (by omega) he.symm
  have hend : L.pucHeapEnd ≠ (joined l x r).addr := by omega
  have hxb := h.mem_bounds (t := x) (by simp)
  refine ⟨hT, ha.coalesced, ?_, ?_, linked_of_inserted h ha hx hn hi, ?_, ?_, ?_, ?_⟩
  · intro t ht
    rw [List.mem_append, List.mem_cons] at ht
    rcases ht with ht | rfl | ht
    · exact h.aligned t (by simp [ht])
    · have h1 := h.aligned x (by simp)
      have h2 : ((l.map Tile.size).getD 0) % 8 = 0 := by
        cases l with
        | none => rfl
        | some u => exact h.aligned u (by simp)
      have h3 : ((r.map Tile.size).getD 0) % 8 = 0 := by
        cases r with
        | none => rfl
        | some u => exact h.aligned u (by simp)
      simp only [joined]
      omega
    · exact h.aligned t (by simp [ht])
  · intro t ht
    by_cases he : t.addr = (joined l x r).addr
    · rw [hT.eq_of_addr_eq ht (by simp) he, hi.size_self]
    · have hm : t ∈ ls ++ l.toList ++ x :: (r.toList ++ rs) := by
        rw [List.mem_append, List.mem_cons] at ht
        rcases ht with ht | rfl | ht
        · simp [ht]
        · exact absurd rfl he
        · simp [ht]
      rw [hi.size_other _ (h.node hm) he, h.sizes t hm]
  · rw [hi.size_other _ L.node_start hstart, h.start_size]
  · rw [hi.size_other _ L.node_end hend, h.end_size]
  · rw [hi.next_other _ L.node_end hend (h.front_ne (by omega) (Nat.le_refl _)), h.end_next]
  · rw [hi.end_eq, h.end_eq]

/-! ### What is not written -/

/-- The words of a block behind its link are the same in both states. -/
def Kept (s s' : HeapState) (t : Tile Nat) : Prop := ∀ w, t.addr + 8 ≤ w → w < t.stop → s'.mem w = s.mem w

/-- No link of another block, nor the list's head, is inside a block. -/
theorem body_ne_link {ts : List (Tile Nat)} (h : Blocks L s ts) {t : Tile Nat} (ht : t ∈ ts) {w : Nat} (h1 : t.addr + 8 ≤ w)
    (h2 : w < t.stop) {b : Nat} (hb : b = L.xStart ∨ ∃ u ∈ ts, u.addr = b) : w ≠ b ∧ w ≠ b + 4 := by
  have htb := h.mem_bounds ht
  simp only [Tile.stop] at h2
  rcases hb with rfl | ⟨u, hu, rfl⟩
  · have h3 := L.pucAlignedHeap_bounds
    have h4 := L.bounds
    omega
  · by_cases he : t = u
    · subst he; omega
    · have hub := h.mem_bounds hu
      rcases h.tiles.stop_le_or ht hu he with h3 | h3 <;> simp only [Tile.stop] at h3 <;> omega

/-- The front node is the list's head or a block. -/
theorem front_link {xs ys : List (Tile Nat)} : front L xs = L.xStart ∨ ∃ u ∈ xs ++ ys, u.addr = front L xs := by
  rcases front_mem L xs with he | hm
  · exact Or.inl he
  · obtain ⟨u, hu, -, he⟩ := mem_frees.mp hm
    exact Or.inr ⟨u, List.mem_append_left _ hu, he⟩

/-- An insertion writes only links. -/
theorem kept_of_inserted (h : Blocks L s (ls ++ l.toList ++ x :: (r.toList ++ rs)))
    (hi : Inserted L s s' (front L (ls ++ l.toList)) (joined l x r).addr n (joined l x r).size) {t : Tile Nat}
    (ht : t ∈ ls ++ l.toList ++ x :: (r.toList ++ rs)) : Kept s s' t := by
  intro w h1 h2
  have hit := body_ne_link h ht h1 h2 front_link
  have hy : ∃ u ∈ ls ++ l.toList ++ x :: (r.toList ++ rs), u.addr = (joined l x r).addr := by
    cases l with
    | none => exact ⟨x, by simp, rfl⟩
    | some u => exact ⟨u, by simp, rfl⟩
  have hyw := body_ne_link h ht h1 h2 (Or.inr hy)
  exact hi.words w hyw.1 hyw.2 hit.1

/-! ### The function -/

/-- The loop ends at the node in front of the block. -/
theorem walk_insert {xs ys : List (Tile Nat)} (h : Blocks L s (xs ++ x :: ys)) (hx : x.free = false) :
    walk s.pxNextFreeBlock (fun b => decide (b < x.addr)) heapFuel L.xStart = some (front L xs) := by
  have hl := h.linked_owned hx
  obtain ⟨c, qs, hc⟩ : ∃ c qs, frees ys ++ [L.pucHeapEnd] = c :: qs := List.exists_cons_of_ne_nil (by simp)
  have hcx := node_of_mem_behind (b := c) h (by rw [hc]; exact List.mem_cons_self)
  rw [hc] at hl
  have hlen := h.frees_length_lt
  rw [frees_append, List.length_append] at hlen
  refine walk_eq _ ?_ (frees xs) hl ?_ (by omega)
  · have h1 := hcx.1
    simp only [Tile.stop] at h1
    exact decide_eq_false (by omega)
  · intro a ha
    obtain ⟨t, ht, -, rfl⟩ := mem_frees.mp ha
    have h1 := h.tiles.stop_le_of_mem_left ht
    have h2 := (h.tiles.bounds (t := t) (by simp [ht])).2.1
    simp only [Tile.stop] at h1
    exact decide_eq_true (by omega)

/-- The front node points to the first free block behind the tile, or to the end marker. -/
theorem next_front_eq {xs ys : List (Tile Nat)} (h : Blocks L s (xs ++ x :: ys)) (hx : x.free = false) {c : Nat}
    (hc : frees ys ++ [L.pucHeapEnd] = c :: qs) : s.pxNextFreeBlock (front L xs) = c := by
  have hl := h.linked_owned hx
  rw [hc, ← dropLast_append_front, List.append_assoc] at hl
  exact hl.next_eq

/-- The front node ends where the tile starts exactly when it is the tile's free neighbour. -/
theorem front_adjacent_iff (h : Blocks L s (ls ++ l.toList ++ x :: (r.toList ++ rs))) (ha : Around ls l r rs) :
    add32 (front L (ls ++ l.toList)) (s.xBlockSize (front L (ls ++ l.toList))) = x.addr ↔ l.isSome := by
  have hb := L.bounds
  have hxb := h.mem_bounds (t := x) (by simp)
  cases l with
  | none =>
    rw [Option.toList_none, List.append_nil] at h ⊢
    simp only [Option.isSome_none, Bool.false_eq_true, iff_false]
    rcases front_mem L ls with he | hm
    · rw [he, h.start_size, add32_eq (by have := L.xStart_fits; rw [sizeofXBlockLink_eq] at this; omega)]
      exact fun hc => L.xStart_ne hxb.1 (by omega) hc.symm
    · obtain ⟨u, hu, hf, he⟩ := mem_frees.mp hm
      have hub := h.mem_bounds (t := u) (by simp [hu])
      have hlt := h.tiles.split.1.stop_lt_of_free ha.left_owned hu hf
      simp only [Tile.stop] at hlt
      rw [← he, h.sizes u (by simp [hu]), add32_eq (by omega)]
      omega
  | some u =>
    have hub := h.mem_bounds (t := u) (by simp)
    have hadj : u.addr + u.size = x.addr := by
      obtain ⟨m, hm, hr⟩ := tiles_append.mp h.tiles
      obtain ⟨k, -, hu⟩ := tiles_append.mp hm
      obtain ⟨rfl, -, hu⟩ := hu
      exact Eq.trans hu hr.1.symm
    rw [Option.toList_some, front_concat_free L ls (ha.left_free u rfl), h.sizes u (by simp), add32_eq (by omega)]
    simp [hadj]

/-- The second half of the insertion, in a state where the block has absorbed the neighbour in front. -/
theorem insertBefore_joined (s₁ : HeapState) (h : Blocks L s (ls ++ l.toList ++ x :: (r.toList ++ rs))) (ha : Around ls l r rs)
    (hx : x.free = false) (hn : frees rs ++ [L.pucHeapEnd] = n :: qs)
    (hnext : ∀ b, L.Node b → s₁.pxNextFreeBlock b = s.pxNextFreeBlock b)
    (hsize : ∀ b, L.Node b → b ≠ (joined l x r).addr → s₁.xBlockSize b = s.xBlockSize b)
    (hself : s₁.xBlockSize (joined l x r).addr = (l.map Tile.size).getD 0 + x.size) (hend : s₁.pxEnd = s.pxEnd) :
    Inserted L s₁ (insertBefore s₁ (front L (ls ++ l.toList)) (joined l x r).addr) (front L (ls ++ l.toList)) (joined l x r).addr n
      (joined l x r).size := by
  have hT := Around.tiles h.tiles
  have hb := L.bounds
  have hxb := h.mem_bounds (t := x) (by simp)
  have hit : L.Node (front L (ls ++ l.toList)) := h.node_front
  have hy : L.Node (joined l x r).addr := by
    cases l with
    | none => exact h.node (t := x) (by simp)
    | some u => exact h.node (t := u) (by simp)
  -- the block ends where `x` does
  have hstop : (joined l x r).addr + ((l.map Tile.size).getD 0 + x.size) = x.stop := by
    cases l with
    | none => simp [joined, Tile.stop]
    | some u =>
      have hadj := (front_adjacent_iff h ha).mpr rfl
      rw [Option.toList_some, front_concat_free L ls (ha.left_free u rfl), h.sizes u (by simp), add32_eq (by
        have := h.mem_bounds (t := u) (by simp); omega)] at hadj
      simp only [joined, Option.map_some, Option.getD_some, Tile.stop]
      omega
  have hadd : add32 (joined l x r).addr (s₁.xBlockSize (joined l x r).addr) = x.stop := by
    rw [hself, add32_eq (by rw [hstop]; simp only [Tile.stop]; omega), hstop]
  cases r with
  | none =>
    have hc : s₁.pxNextFreeBlock (front L (ls ++ l.toList)) = n := by
      rw [hnext _ hit, next_front_eq h hx hn]
    have hap := insertBefore_apart (s := s₁) hit hy (by
      rw [hadd, hc, hend, h.end_eq]
      intro hxn
      have hm : n ∈ frees rs ++ [L.pucHeapEnd] := by rw [hn]; exact List.mem_cons_self
      rcases List.mem_append.mp hm with hm | hm
      · obtain ⟨t, ht, hf, rfl⟩ := mem_frees.mp hm
        have hlt := (h.tiles.split.2).lt_addr_of_free ha.right_owned ht hf
        omega
      · exact List.mem_singleton.mp hm)
    rw [hc, hself] at hap
    exact hap
  | some t =>
    have htf := ha.right_free t rfl
    have hts : t.addr = x.stop := h.tiles.split.2.1
    have htb := h.mem_bounds (t := t) (by simp)
    have hfr : frees ((some t).toList ++ rs) ++ [L.pucHeapEnd] = t.addr :: n :: qs := by
      rw [Option.toList_some, List.cons_append, List.nil_append, frees_cons_free htf, List.cons_append, hn]
    have hc : s₁.pxNextFreeBlock (front L (ls ++ l.toList)) = t.addr := by
      rw [hnext _ hit, next_front_eq h hx hfr]
    have htn : L.Node t.addr := h.node (by simp)
    have hnt : s.pxNextFreeBlock t.addr = n := by
      have hl := h.linked_owned hx
      rw [hfr] at hl
      exact hl.next_eq
    have hmg := insertBefore_merge (s := s₁) hit hy (by rw [hc]; exact htn) (by rw [hadd, hc, hts]) (by
      rw [hc, hend, h.end_eq]; omega)
    have hty : t.addr ≠ (joined l x (some t)).addr := by
      have := joined_addr_le h
      simp only [Tile.stop] at hts
      omega
    rw [hc, hnext _ htn, hnt, hself, hsize _ htn hty, h.sizes t (by simp), add32_eq (by
      simp only [Tile.stop] at hstop hts; omega)] at hmg
    exact hmg

/-- `prvInsertBlockIntoFreeList` returns, and the tile and its free neighbours have become one free tile. -/
theorem insert_spec (h : Blocks L s (ls ++ l.toList ++ x :: (r.toList ++ rs))) (ha : Around ls l r rs) (hx : x.free = false) :
    ∃ s', prvInsertBlockIntoFreeList L s x.addr = some s' ∧ Blocks L s' (ls ++ joined l x r :: rs) ∧
      s'.xFreeBytesRemaining = s.xFreeBytesRemaining ∧ ∀ t ∈ ls ++ l.toList ++ x :: (r.toList ++ rs), Kept s s' t := by
  obtain ⟨n, qs, hn⟩ : ∃ n qs, frees rs ++ [L.pucHeapEnd] = n :: qs := List.exists_cons_of_ne_nil (by simp)
  have hiff := front_adjacent_iff h ha
  have hins : Inserted L s (insertAfter s (front L (ls ++ l.toList)) x.addr) (front L (ls ++ l.toList)) (joined l x r).addr n
      (joined l x r).size := by
    cases l with
    | none =>
      have hne : ¬add32 (front L (ls ++ (none : Option (Tile Nat)).toList))
          (s.xBlockSize (front L (ls ++ (none : Option (Tile Nat)).toList))) = x.addr := by
        intro hc
        cases hiff.mp hc
      rw [insertAfter, if_neg hne]
      exact insertBefore_joined s h ha hx hn (fun _ _ => rfl) (fun _ _ _ => rfl)
        (by simp [joined, h.sizes x]) rfl
    | some u =>
      have hu := front_concat_free L ls (ha.left_free u rfl)
      have hun : L.Node u.addr := h.node (by simp)
      have hb := L.bounds
      have hub := h.mem_bounds (t := u) (by simp)
      have hxb := h.mem_bounds (t := x) (by simp)
      have hux := h.tiles.stop_le_of_mem_left (t := u) (by simp)
      simp only [Tile.stop] at hux
      rw [insertAfter, if_pos (hiff.mpr rfl)]
      rw [Option.toList_some, hu, h.sizes u (by simp), h.sizes x (by simp), add32_eq (by omega)]
      have hj := insertBefore_joined (s.setSize u.addr (u.size + x.size)) h ha hx hn (fun b hb => HeapState.setSize_next hun hb)
        (fun b _ hne => HeapState.setSize_size_ne hne) HeapState.setSize_size_self rfl
      rw [Option.toList_some, hu] at hj
      exact Inserted.of_setSize hun hj
  refine ⟨_, ?_, blocks_of_inserted h ha hx hn hins, hins.free_eq, fun t ht => kept_of_inserted h hins ht⟩
  rw [prvInsertBlockIntoFreeList, walk_insert h hx, Option.map_some]

end

/-- What handing a tile back leaves: its bytes are free, and the other owned tiles are as before. -/
theorem insert_released {L : HeapLayout} {s : HeapState} {xs ys : List (Tile Nat)} {x : Tile Nat} (h : Blocks L s (xs ++ x :: ys))
    (hx : x.free = false) :
    ∃ s' ts', prvInsertBlockIntoFreeList L s x.addr = some s' ∧ Blocks L s' ts' ∧
      s'.xFreeBytesRemaining = s.xFreeBytesRemaining ∧ freeSize ts' = freeSize (xs ++ x :: ys) + x.size ∧
      (∀ t, t.free = false → (t ∈ ts' ↔ t ∈ xs ++ x :: ys ∧ t ≠ x)) ∧ ∀ t ∈ xs ++ x :: ys, Kept s s' t := by
  obtain ⟨ls, l, r, rs, rfl, rfl, ha⟩ := exists_around h.coalesced
  obtain ⟨s', h1, h2, h3, h4⟩ := insert_spec h ha hx
  refine ⟨s', _, h1, h2, h3, ha.freeSize_joined hx, ?_, h4⟩
  intro t ht
  by_cases he : t = x
  · subst he
    simp only [ne_eq, not_true_eq_false, and_false, iff_false]
    intro hm
    rw [List.mem_append, List.mem_cons] at hm
    have hpos := (h.tiles.bounds (t := t) (by simp)).2.1
    rcases hm with hm | hm | hm
    · have hs := h.tiles.stop_le_of_mem_left (t := t) (by simp [hm])
      simp only [Tile.stop] at hs
      omega
    · rw [hm] at ht
      cases ht
    · have hs := h.tiles.le_addr_of_mem_right (t := t) (by simp [hm])
      simp only [Tile.stop] at hs
      omega
  · rw [ha.mem_owned ht he]
    simp [he]

/-! ## `vPortFree` -/

/-- The free bytes are counted. -/
def Counted (s : HeapState) (ts : List (Tile Nat)) : Prop := s.xFreeBytesRemaining = freeSize ts

theorem vPortFree_spec {L : HeapLayout} {s : HeapState} {ts : List (Tile Nat)} {x : Tile Nat} (h : Blocks L s ts)
    (hcount : Counted s ts) (hm : x ∈ ts) (hx : x.free = false) :
    ∃ s' ts', vPortFree L s (x.addr + 16) = some s' ∧ Blocks L s' ts' ∧ Counted s' ts' ∧
      (∀ t, t.free = false → (t ∈ ts' ↔ t ∈ ts ∧ t ≠ x)) ∧ ∀ t ∈ ts, Kept s s' t := by
  have hxb := h.mem_bounds hm
  have hb := L.bounds
  have hend := L.pucHeapEnd_eq
  obtain ⟨xs, ys, rfl⟩ := List.append_of_mem hm
  have h₁ : Blocks L { s with xFreeBytesRemaining := add32 s.xFreeBytesRemaining (s.xBlockSize x.addr) } (xs ++ x :: ys) :=
    ⟨h.tiles, h.coalesced, h.aligned, h.sizes, h.linked, h.start_size, h.end_size, h.end_next, h.end_eq⟩
  obtain ⟨s', ts', hs, hB, hfree, hsize, hown, hkept⟩ := insert_released h₁ hx
  have hle := hB.tiles.freeSize_le
  refine ⟨s', ts', ?_, hB, ?_, hown, hkept⟩
  · rw [vPortFree, if_pos (by omega), heapStructSize_eq, sub32_eq (by omega) (by omega), Nat.add_sub_cancel]
    exact hs
  · rw [Counted, hfree, hsize, h.sizes x hm, hcount, add32_eq (by omega)]

/-! ## `pvPortMalloc` -/

section

variable {L : HeapLayout} {s : HeapState} {xs ys ts : List (Tile Nat)} {t : Tile Nat} {w n : Nat}

/-- The test of the search loop. -/
def tooSmall (s : HeapState) (w b : Nat) : Bool := decide (s.xBlockSize b < w) && decide (s.pxNextFreeBlock b ≠ 0)

/-- The loop passes every free block that is too small. -/
theorem tooSmall_of_lt (h : Blocks L s (xs ++ ys)) (ht : t ∈ xs) (hf : t.free = true) (hlt : t.size < w) :
    tooSmall s w t.addr = true := by
  obtain ⟨as, bs, hab⟩ := List.append_of_mem ht
  obtain ⟨c, qs, hc⟩ : ∃ c qs, frees (bs ++ ys) ++ [L.pucHeapEnd] = c :: qs := List.exists_cons_of_ne_nil (by simp)
  rw [hab, List.append_assoc, List.cons_append] at h
  have hl := h.linked_free hf
  rw [hc] at hl
  have hnode := node_of_mem_behind (b := c) h (by rw [hc]; exact List.mem_cons_self)
  have hpos := (h.tiles.bounds (t := t) (by simp)).2.1
  have h1 := hnode.1
  simp only [Tile.stop] at h1
  rw [tooSmall, hl.next_eq, h.sizes t (by simp), decide_eq_true hlt, decide_eq_true (by omega : c ≠ 0)]
  rfl

/-- The loop ends in front of the first free block that is large enough. -/
theorem walk_fits (h : Blocks L s (xs ++ t :: ys)) (hf : t.free = true) (hw : w ≤ t.size)
    (hfirst : ∀ u ∈ xs, u.free = true → u.size < w) :
    walk s.pxNextFreeBlock (tooSmall s w) heapFuel L.xStart = some (front L xs) ∧ s.pxNextFreeBlock (front L xs) = t.addr := by
  have hl := h.linked_free hf
  have hlen := h.frees_length_lt
  rw [frees_append, List.length_append] at hlen
  constructor
  · refine walk_eq _ ?_ (frees xs) hl ?_ (by omega)
    · rw [tooSmall, h.sizes t (by simp), decide_eq_false (by omega)]
      rfl
    · intro b hb
      obtain ⟨u, hu, huf, rfl⟩ := mem_frees.mp hb
      exact tooSmall_of_lt h hu huf (hfirst u hu huf)
  · rw [← dropLast_append_front, List.append_assoc] at hl
    exact hl.next_eq

/-- The loop ends in front of the end marker if no free block is large enough. -/
theorem walk_end (h : Blocks L s ts) (hsmall : ∀ u ∈ ts, u.free = true → u.size < w) :
    walk s.pxNextFreeBlock (tooSmall s w) heapFuel L.xStart = some (front L ts) ∧
      s.pxNextFreeBlock (front L ts) = L.pucHeapEnd := by
  have hl := h.linked
  have hlen := h.frees_length_lt
  constructor
  · refine walk_eq _ ?_ (frees ts) hl ?_ hlen
    · rw [tooSmall, h.end_next]
      simp
    · intro b hb
      obtain ⟨u, hu, huf, rfl⟩ := mem_frees.mp hb
      rw [← List.append_nil ts] at h
      exact tooSmall_of_lt h hu huf (hsmall u hu huf)
  · rw [← dropLast_append_front, List.append_assoc] at hl
    exact hl.next_eq

/-- Taking a block out of the list. -/
theorem take_blocks (h : Blocks L s (xs ++ t :: ys)) (hf : t.free = true) :
    Blocks L (s.setNext (front L xs) (s.pxNextFreeBlock t.addr)) (xs ++ ⟨t.addr, t.size, some n⟩ :: ys) := by
  have hit : L.Node (front L xs) := h.node_front
  have hl := h.linked_free hf
  obtain ⟨c, qs, hc⟩ : ∃ c qs, frees ys ++ [L.pucHeapEnd] = c :: qs := List.exists_cons_of_ne_nil (by simp)
  have htb := h.mem_bounds (t := t) (by simp)
  rw [hc] at hl
  have hmem : ∀ u ∈ xs ++ ⟨t.addr, t.size, some n⟩ :: ys, ∃ v ∈ xs ++ t :: ys, v.addr = u.addr ∧ v.size = u.size := by
    intro u hu
    rw [List.mem_append, List.mem_cons] at hu
    rcases hu with hu | rfl | hu
    · exact ⟨u, by simp [hu], rfl, rfl⟩
    · exact ⟨t, by simp, rfl, rfl⟩
    · exact ⟨u, by simp [hu], rfl, rfl⟩
  refine ⟨h.tiles.replace rfl rfl, h.coalesced.replace rfl, ?_, ?_, ?_, ?_, ?_, ?_, h.end_eq⟩
  · intro u hu
    obtain ⟨v, hv, -, hvs⟩ := hmem u hu
    rw [← hvs, h.aligned v hv]
  · intro u hu
    obtain ⟨v, hv, hva, hvs⟩ := hmem u hu
    rw [← hva, ← hvs, HeapState.setNext_size hit (h.node hv), h.sizes v hv]
  · rw [frees_append, frees_cons_owned rfl, ← List.cons_append, List.append_assoc, hc, ← dropLast_append_front, List.append_assoc]
    have hinit : Linked s.pxNextFreeBlock ((L.xStart :: frees xs).dropLast ++ [front L xs]) := by
      rw [dropLast_append_front]
      exact List.IsChain.left_of_append hl
    refine hinit.splice ?_ ?_ ?_
    · intro b hb
      exact HeapState.setNext_next_ne (h.ne_front_of_mem_dropLast hb)
    · rw [HeapState.setNext_next_self]
      exact hl.next_eq
    · refine Linked.congr (hl.tail).of_cons ?_
      intro b hb
      rw [← hc] at hb
      obtain ⟨h1, h2, -⟩ := node_of_mem_behind h hb
      simp only [Tile.stop] at h1
      exact HeapState.setNext_next_ne (h.front_ne (by omega) h2)
  · rw [HeapState.setNext_size hit L.node_start, h.start_size]
  · rw [HeapState.setNext_size hit L.node_end, h.end_size]
  · rw [HeapState.setNext_next_ne (h.front_ne (by omega) (Nat.le_refl _)), h.end_next]

/-- Cutting an allocated block in two. -/
theorem split_blocks {rest : Nat} (h : Blocks L s (xs ++ t :: ys)) (hf : t.free = false) (hw : 0 < w) (hw8 : w % 8 = 0)
    (hr : 0 < rest) (hsum : w + rest = t.size) :
    Blocks L ((s.setSize (t.addr + w) rest).setSize t.addr w) (xs ++ ⟨t.addr, w, t.owner⟩ :: ⟨t.addr + w, rest, t.owner⟩ :: ys) := by
  have hm : t ∈ xs ++ t :: ys := by simp
  have htb := h.mem_bounds hm
  have hts := h.aligned _ hm
  have htn : L.Node t.addr := h.node hm
  have hnn : L.Node (t.addr + w) := Or.inr ⟨by omega, by omega, by omega⟩
  -- sizes and pointers of the other links
  have hsize : ∀ b, b ≠ t.addr → b ≠ t.addr + w →
      ((s.setSize (t.addr + w) rest).setSize t.addr w).xBlockSize b = s.xBlockSize b := by
    intro b h1 h2
    rw [HeapState.setSize_size_ne h1, HeapState.setSize_size_ne h2]
  have hnext : ∀ b, L.Node b →
      ((s.setSize (t.addr + w) rest).setSize t.addr w).pxNextFreeBlock b = s.pxNextFreeBlock b := by
    intro b hb
    rw [HeapState.setSize_next htn hb, HeapState.setSize_next hnn hb]
  have hother : ∀ u ∈ xs ++ ys, u.addr ≠ t.addr ∧ u.addr ≠ t.addr + w ∧ u ∈ xs ++ t :: ys := by
    intro u hu
    rcases List.mem_append.mp hu with hu | hu
    · have h1 := h.tiles.stop_le_of_mem_left hu
      have h2 := h.mem_bounds (t := u) (by simp [hu])
      simp only [Tile.stop] at h1
      exact ⟨by omega, by omega, by simp [hu]⟩
    · have h1 := h.tiles.le_addr_of_mem_right hu
      have h2 := h.mem_bounds (t := u) (by simp [hu])
      simp only [Tile.stop] at h1
      exact ⟨by omega, by omega, by simp [hu]⟩
  refine ⟨?_, ?_, ?_, ?_, ?_, ?_, ?_, ?_, h.end_eq⟩
  · obtain ⟨m, hl, he, -, hr'⟩ := tiles_append.mp h.tiles
    refine tiles_append.mpr ⟨m, hl, he, hw, rfl, hr, ?_⟩
    simp only [Tile.stop] at hr' ⊢
    rwa [Nat.add_assoc, hsum]
  · obtain ⟨h1, h2, h3⟩ := List.isChain_append.mp h.coalesced
    refine List.isChain_append.mpr ⟨h1, List.isChain_cons_cons.mpr ⟨Or.inl hf, List.isChain_cons.mpr
      ⟨fun _ _ => Or.inl hf, (List.isChain_cons.mp h2).2⟩⟩, ?_⟩
    intro u _ v hv
    obtain rfl : (⟨t.addr, w, t.owner⟩ : Tile Nat) = v := by simpa using hv
    exact Or.inr hf
  · intro u hu
    rw [List.mem_append, List.mem_cons, List.mem_cons] at hu
    rcases hu with hu | rfl | rfl | hu
    · exact h.aligned u (by simp [hu])
    · exact hw8
    · change rest % 8 = 0
      omega
    · exact h.aligned u (by simp [hu])
  · intro u hu
    rw [List.mem_append, List.mem_cons, List.mem_cons] at hu
    rcases hu with hu | rfl | rfl | hu
    · obtain ⟨h1, h2, h3⟩ := hother u (by simp [hu])
      rw [hsize _ h1 h2, h.sizes u h3]
    · exact HeapState.setSize_size_self
    · change HeapState.xBlockSize _ (t.addr + w) = rest
      rw [HeapState.setSize_size_ne (by omega), HeapState.setSize_size_self]
    · obtain ⟨h1, h2, h3⟩ := hother u (by simp [hu])
      rw [hsize _ h1 h2, h.sizes u h3]
  · have hl := h.linked_owned hf
    rw [frees_append, frees_cons_owned (t := ⟨t.addr, w, t.owner⟩) hf, frees_cons_owned (t := ⟨t.addr + w, rest, t.owner⟩) hf,
      ← List.cons_append, List.append_assoc]
    apply hl.congr
    intro b hb
    apply hnext
    rcases List.mem_append.mp hb with hb | hb
    · rcases List.mem_cons.mp hb with rfl | hb
      · exact L.node_start
      · exact (h.mem_frees_bounds (by rw [frees_append]; exact List.mem_append_left _ hb)).2.2
    · exact (node_of_mem_behind h hb).2.2
  · have h1 := L.xStart_ne htb.1 (by omega)
    have h2 := L.xStart_ne (b := t.addr + w) (by omega) (by omega)
    rw [hsize _ (Ne.symm h1) (Ne.symm h2), h.start_size]
  · rw [hsize _ (by omega) (by omega), h.end_size]
  · rw [hnext _ L.node_end, h.end_next]

/-- What `pvPortMalloc` leaves when it has taken the block `t` for a request of `n` bytes. -/
structure Taken (L : HeapLayout) (s s' : HeapState) (ts : List (Tile Nat)) (t : Tile Nat) (w n : Nat) : Prop where
  blocks : ∃ ts' m, Blocks L s' ts' ∧ Counted s' ts' ∧ w ≤ m ∧ m ≤ t.size ∧
    ∀ u : Tile Nat, u.free = false → (u ∈ ts' ↔ u ∈ ts ∨ u = ⟨t.addr, m, some n⟩)
  kept : ∀ u ∈ ts, u.free = false → Kept s s' u

/-- A block that fits as it is. -/
theorem taken_whole (h : Blocks L s (xs ++ t :: ys)) (hcount : Counted s (xs ++ t :: ys)) (hf : t.free = true) (hw : w ≤ t.size) :
    Taken L s { s.setNext (front L xs) (s.pxNextFreeBlock t.addr) with
      xFreeBytesRemaining := sub32 s.xFreeBytesRemaining t.size } (xs ++ t :: ys) t w n := by
  have hB := take_blocks (n := n) h hf
  have htb := h.mem_bounds (t := t) (by simp)
  have hb := L.bounds
  have hle := h.tiles.freeSize_le
  have hfs : freeSize (xs ++ t :: ys) = freeSize xs + (t.size + freeSize ys) := by rw [freeSize_append, freeSize_cons_free hf]
  refine ⟨⟨xs ++ ⟨t.addr, t.size, some n⟩ :: ys, t.size, ⟨hB.tiles, hB.coalesced, hB.aligned, hB.sizes, hB.linked, hB.start_size,
    hB.end_size, hB.end_next, hB.end_eq⟩, ?_, hw, Nat.le_refl _, ?_⟩, ?_⟩
  · rw [Counted, freeSize_append, freeSize_cons_owned rfl]
    simp only
    rw [hcount, sub32_eq (by omega) (by omega)]
    omega
  · intro u hu
    have hne : u ≠ t := by
      rintro rfl
      rw [hu] at hf
      cases hf
    simp only [List.mem_append, List.mem_cons, hne, false_or]
    constructor
    · rintro (h1 | h1 | h1)
      · exact Or.inl (Or.inl h1)
      · exact Or.inr h1
      · exact Or.inl (Or.inr h1)
    · rintro ((h1 | h1) | h1)
      · exact Or.inl h1
      · exact Or.inr (Or.inr h1)
      · exact Or.inr (Or.inl h1)
  · intro u hu _ v h1 h2
    exact if_neg (body_ne_link h hu h1 h2 front_link).1

/-- A block that is cut, and the rest given back. -/
theorem taken_split (rest : Nat) (h : Blocks L s (xs ++ t :: ys)) (hcount : Counted s (xs ++ t :: ys)) (hf : t.free = true)
    (hw : 0 < w) (hw8 : w % 8 = 0) (hr : 0 < rest) (hsum : w + rest = t.size) :
    ∃ s', prvInsertBlockIntoFreeList L (((s.setNext (front L xs) (s.pxNextFreeBlock t.addr)).setSize (t.addr + w) rest).setSize t.addr w)
        (t.addr + w) = some s' ∧
      Taken L s { s' with xFreeBytesRemaining := sub32 s'.xFreeBytesRemaining (s'.xBlockSize t.addr) } (xs ++ t :: ys) t w n := by
  have hS := split_blocks (take_blocks (n := n) h hf) rfl hw hw8 hr hsum
  rw [show (xs ++ ⟨t.addr, w, some n⟩ :: ⟨t.addr + w, rest, some n⟩ :: ys : List (Tile Nat)) =
    (xs ++ [⟨t.addr, w, some n⟩]) ++ ⟨t.addr + w, rest, some n⟩ :: ys by simp] at hS
  obtain ⟨s', ts', hs, hB, hfree, hsize, hown, hkept⟩ := insert_released hS rfl
  have htb := h.mem_bounds (t := t) (by simp)
  have hb := L.bounds
  have hle := h.tiles.freeSize_le
  have hfs : freeSize (xs ++ t :: ys) = freeSize xs + (t.size + freeSize ys) := by rw [freeSize_append, freeSize_cons_free hf]
  have hfs' : freeSize ts' = freeSize xs + freeSize ys + rest := by
    rw [hsize, freeSize_append, freeSize_append, freeSize_cons_owned rfl, freeSize_cons_owned rfl]
    simp [freeSize]
  have hdiff : (⟨t.addr, w, some n⟩ : Tile Nat) ≠ ⟨t.addr + w, rest, some n⟩ := by
    intro he
    have := congrArg Tile.addr he
    simp only at this
    omega
  have hnew : (⟨t.addr, w, some n⟩ : Tile Nat) ∈ ts' := (hown _ rfl).mpr ⟨by simp, hdiff⟩
  refine ⟨s', hs, ⟨ts', w, ⟨hB.tiles, hB.coalesced, hB.aligned, hB.sizes, hB.linked, hB.start_size, hB.end_size, hB.end_next,
    hB.end_eq⟩, ?_, Nat.le_refl _, by omega, ?_⟩, ?_⟩
  · have hw' := hB.sizes _ hnew
    simp only at hw'
    rw [Counted]
    simp only
    rw [hw', hfree, hfs']
    simp only [HeapState.setSize_xFree, HeapState.setNext_xFree]
    rw [hcount, sub32_eq (by omega) (by omega)]
    omega
  · intro u hu
    have hne : u ≠ t := by
      rintro rfl
      rw [hu] at hf
      cases hf
    rw [hown u hu]
    simp only [List.mem_append, List.mem_cons, List.not_mem_nil, or_false, hne, false_or]
    constructor
    · rintro ⟨(h1 | h1) | h1 | h1, h2⟩
      · exact Or.inl (Or.inl h1)
      · exact Or.inr h1
      · exact absurd h1 h2
      · exact Or.inl (Or.inr h1)
    · -- the rest is not one of the owned blocks
      have hno : ∀ v ∈ xs ++ ys, v ≠ ⟨t.addr + w, rest, some n⟩ := by
        rintro v hv rfl
        rcases List.mem_append.mp hv with hv | hv
        · have := h.tiles.stop_le_of_mem_left hv
          simp only [Tile.stop] at this
          omega
        · have := h.tiles.le_addr_of_mem_right hv
          simp only [Tile.stop] at this
          omega
      rintro ((h1 | h1) | h1)
      · exact ⟨Or.inl (Or.inl h1), hno u (by simp [h1])⟩
      · exact ⟨Or.inr (Or.inr h1), hno u (by simp [h1])⟩
      · exact ⟨Or.inl (Or.inr h1), by rw [h1]; exact hdiff⟩
  · intro u hu huf v h1 h2
    have hne : u ≠ t := by
      rintro rfl
      rw [huf] at hf
      cases hf
    have hmem : u ∈ (xs ++ [⟨t.addr, w, some n⟩]) ++ ⟨t.addr + w, rest, some n⟩ :: ys := by
      rw [List.mem_append, List.mem_cons] at hu
      rcases hu with hu | hu | hu
      · simp [hu]
      · exact absurd hu hne
      · simp [hu]
    have hv := hkept u hmem v h1 h2
    simp only [HeapState.setSize, HeapState.setNext, HeapState.poke] at hv
    have hf1 := body_ne_link h hu h1 h2 front_link
    have hf2 := body_ne_link h hu h1 h2 (Or.inr ⟨t, by simp, rfl⟩)
    have hf3 : v ≠ t.addr + w + 4 := by
      simp only [Tile.stop] at h2
      rcases h.tiles.stop_le_or hu (by simp : t ∈ xs ++ t :: ys) hne with h3 | h3 <;> simp only [Tile.stop] at h3 <;> omega
    rw [if_neg hf2.2, if_neg hf3, if_neg hf1.1] at hv
    exact hv

/-- `pvPortMalloc` takes the block it has found. -/
theorem takeBlock_spec (h : Blocks L s (xs ++ t :: ys)) (hcount : Counted s (xs ++ t :: ys)) (hf : t.free = true) (hw : 0 < w)
    (hw8 : w % 8 = 0) (hfit : w ≤ t.size) (hprev : s.pxNextFreeBlock (front L xs) = t.addr) :
    ∃ s', takeBlock L s (front L xs) t.addr w = some (s', t.addr + 16) ∧ Taken L s s' (xs ++ t :: ys) t w n := by
  have htb := h.mem_bounds (t := t) (by simp)
  have hb := L.bounds
  have hsize : (s.setNext (front L xs) (s.pxNextFreeBlock t.addr)).xBlockSize t.addr = t.size := by
    rw [HeapState.setNext_size (L := L) h.node_front (h.node (by simp)), h.sizes t (by simp)]
  rw [takeBlock]
  simp only
  rw [hprev, hsize, heapStructSize_eq, heapMinimumBlockSize_eq, sub32_eq hfit (by omega), add32_eq (by omega : t.addr + 16 < 2 ^ 32),
    add32_eq (by omega : t.addr + w < 2 ^ 32)]
  split
  · obtain ⟨s', hs, hT⟩ := taken_split (n := n) (t.size - w) h hcount hf hw hw8 (by omega) (by omega)
    exact ⟨_, by rw [hs]; rfl, hT⟩
  · exact ⟨_, by rw [Option.map_some, hsize]; rfl, taken_whole h hcount hf hfit⟩

end

/-- A request that does not wrap is rounded up to whole units with room for the link. -/
theorem adjustedSize_spec {n : Nat} (hn : n ≤ mallocMax) (hpos : 0 < adjustedSize n) :
    n + 16 ≤ adjustedSize n ∧ adjustedSize n < n + 24 ∧ adjustedSize n % 8 = 0 ∧ 0 < n := by
  rw [mallocMax, heapStructSize_eq] at hn
  rw [adjustedSize] at hpos ⊢
  split at hpos
  · rename_i h0
    rw [if_pos h0]
    by_cases h : add32 n heapStructSize % portByteAlignment ≠ 0
    · rw [if_pos h] at hpos ⊢
      simp only [add32, heapStructSize_eq, portByteAlignment_eq] at h hpos ⊢
      omega
    · rw [if_neg h] at hpos ⊢
      simp only [add32, heapStructSize_eq, portByteAlignment_eq] at h hpos ⊢
      omega
  · exact absurd hpos ‹_›

/-- The first free block that is large enough. -/
theorem exists_first_fit {ts : List (Tile Nat)} {w : Nat} (h : ∃ t ∈ ts, t.free = true ∧ w ≤ t.size) :
    ∃ xs t ys, ts = xs ++ t :: ys ∧ t.free = true ∧ w ≤ t.size ∧ ∀ u ∈ xs, u.free = true → u.size < w := by
  induction ts with
  | nil =>
    obtain ⟨t, ht, -⟩ := h
    cases ht
  | cons a ts ih =>
    by_cases ha : a.free = true ∧ w ≤ a.size
    · exact ⟨[], a, ts, rfl, ha.1, ha.2, by simp⟩
    · obtain ⟨t, ht, hf, hw⟩ := h
      rcases List.mem_cons.mp ht with rfl | ht
      · exact absurd ⟨hf, hw⟩ ha
      · obtain ⟨xs, t, ys, rfl, h1, h2, h3⟩ := ih ⟨t, ht, hf, hw⟩
        refine ⟨a :: xs, t, ys, rfl, h1, h2, ?_⟩
        intro u hu huf
        rcases List.mem_cons.mp hu with rfl | hu
        · by_contra hlt
          exact ha ⟨huf, Nat.le_of_not_lt hlt⟩
        · exact h3 u hu huf

section

variable {L : HeapLayout} {s : HeapState} {ts : List (Tile Nat)} {n : Nat}

theorem Blocks.end_ne_zero (h : Blocks L s ts) : s.pxEnd ≠ 0 := by
  have h1 := L.pucAlignedHeap_bounds
  have h2 := L.pucHeapEnd_eq
  rw [h.end_eq]
  omega

/-- A request that no free block can serve returns `NULL` and changes nothing. -/
theorem pvPortMalloc_fail (h : Blocks L s ts)
    (hno : ¬(0 < adjustedSize n ∧ ∃ t ∈ ts, t.free = true ∧ adjustedSize n ≤ t.size)) : pvPortMalloc L s n = some (s, 0) := by
  rw [pvPortMalloc]
  simp only
  rw [if_neg h.end_ne_zero]
  split
  · rename_i hw
    have hsmall : ∀ u ∈ ts, u.free = true → u.size < adjustedSize n := by
      intro u hu huf
      by_contra hlt
      exact hno ⟨hw.1, u, hu, huf, Nat.le_of_not_lt hlt⟩
    have hwalk := walk_end h hsmall
    rw [show (fun b => decide (s.xBlockSize b < adjustedSize n) && decide (s.pxNextFreeBlock b ≠ 0)) = tooSmall s (adjustedSize n) from rfl,
      hwalk.1, Option.bind_some, hwalk.2, h.end_eq]
    simp
  · rfl

/-- A request that a free block can serve takes the first one. -/
theorem pvPortMalloc_take (h : Blocks L s ts) (hcount : Counted s ts) (hn : n ≤ mallocMax) (hpos : 0 < adjustedSize n)
    (hfit : ∃ t ∈ ts, t.free = true ∧ adjustedSize n ≤ t.size) :
    ∃ s' t, t ∈ ts ∧ t.free = true ∧ pvPortMalloc L s n = some (s', t.addr + 16) ∧ Taken L s s' ts t (adjustedSize n) n := by
  obtain ⟨xs, t, ys, rfl, hf, hw, hfirst⟩ := exists_first_fit hfit
  have htb := h.mem_bounds (t := t) (by simp)
  have hend := L.pucHeapEnd_eq
  obtain ⟨h1, h2⟩ := walk_fits h hf hw hfirst
  obtain ⟨s', hs, hT⟩ := takeBlock_spec (n := n) h hcount hf hpos (adjustedSize_spec hn hpos).2.2.1 hw h2
  refine ⟨s', t, by simp, hf, ?_, hT⟩
  rw [pvPortMalloc]
  simp only
  rw [if_neg h.end_ne_zero, if_pos ⟨hpos, by rw [xTotalHeapSize_eq]; omega⟩,
    show (fun b => decide (s.xBlockSize b < adjustedSize n) && decide (s.pxNextFreeBlock b ≠ 0)) = tooSmall s (adjustedSize n) from rfl,
    h1, Option.bind_some, h2, if_pos (by rw [h.end_eq]; omega), hs]

/-- The three links that `prvHeapInit` writes. -/
theorem init_links {L : HeapLayout} (s₀ s₂ : HeapState) {s₁ s₃ s₄ s : HeapState} {a e z : Nat} (ha : L.Node a) (he : L.Node e)
    (hxa : L.xStart ≠ a) (hxe : L.xStart ≠ e) (hea : e ≠ a) (h1 : s₁ = (s₀.setNext L.xStart a).setSize L.xStart 0)
    (h2 : s₂.mem = s₁.mem) (h3 : s₃ = (s₂.setSize e 0).setNext e 0) (h4 : s₄ = (s₃.setSize a z).setNext a e) (hs : s.mem = s₄.mem) :
    s.pxNextFreeBlock L.xStart = a ∧ s.xBlockSize L.xStart = 0 ∧ s.pxNextFreeBlock a = e ∧ s.xBlockSize a = z ∧
      s.pxNextFreeBlock e = 0 ∧ s.xBlockSize e = 0 := by
  have hx : L.Node L.xStart := L.node_start
  have h2n : ∀ b, s₂.pxNextFreeBlock b = s₁.pxNextFreeBlock b := fun b => congrFun h2 b
  have h2s : ∀ b, s₂.xBlockSize b = s₁.xBlockSize b := fun b => congrFun h2 (b + 4)
  have hn : ∀ b, s.pxNextFreeBlock b = s₄.pxNextFreeBlock b := fun b => congrFun hs b
  have hz : ∀ b, s.xBlockSize b = s₄.xBlockSize b := fun b => congrFun hs (b + 4)
  refine ⟨?_, ?_, ?_, ?_, ?_, ?_⟩
  · rw [hn, h4, HeapState.setNext_next_ne hxa, HeapState.setSize_next ha hx, h3, HeapState.setNext_next_ne hxe,
      HeapState.setSize_next he hx, h2n, h1, HeapState.setSize_next hx hx, HeapState.setNext_next_self]
  · rw [hz, h4, HeapState.setNext_size ha hx, HeapState.setSize_size_ne hxa, h3, HeapState.setNext_size he hx,
      HeapState.setSize_size_ne hxe, h2s, h1, HeapState.setSize_size_self]
  · rw [hn, h4, HeapState.setNext_next_self]
  · rw [hz, h4, HeapState.setNext_size ha ha, HeapState.setSize_size_self]
  · rw [hn, h4, HeapState.setNext_next_ne hea, HeapState.setSize_next ha he, h3, HeapState.setNext_next_self]
  · rw [hz, h4, HeapState.setNext_size ha he, HeapState.setSize_size_ne hea, h3, HeapState.setNext_size he he,
      HeapState.setSize_size_self]

/-- The heap after `prvHeapInit` is one free block. -/
theorem prvHeapInit_blocks (L : HeapLayout) (s : HeapState) (hs : s.xFreeBytesRemaining = xTotalHeapSize) :
    Blocks L (prvHeapInit L s) [⟨L.pucAlignedHeap, 16360, none⟩] ∧ Counted (prvHeapInit L s) [⟨L.pucAlignedHeap, 16360, none⟩] := by
  have h1 := L.pucAlignedHeap_mod
  have h2 := L.pucHeapEnd_eq
  have ha : L.Node L.pucAlignedHeap := Or.inr ⟨Nat.le_refl _, by omega, h1⟩
  have hsz : xTotalHeapSize - heapStructSize = 16360 := by rw [xTotalHeapSize_eq, heapStructSize_eq]
  obtain ⟨hxn, hxs, han, has, hen, hes⟩ := init_links s { (s.setNext L.xStart L.pucAlignedHeap).setSize L.xStart 0 with
    pxEnd := L.pucHeapEnd } (s := prvHeapInit L s) (z := xTotalHeapSize - heapStructSize) ha L.node_end
    (Ne.symm (L.xStart_ne (Nat.le_refl _) (by omega))) (Ne.symm (L.xStart_ne (by omega) (Nat.le_refl _))) (by omega) rfl rfl rfl rfl rfl
  constructor
  · refine ⟨⟨rfl, Nat.zero_lt_succ _, h2.symm⟩, List.isChain_singleton _, ?_, ?_, ?_, hxs, hes, hen, rfl⟩
    · intro t ht
      simp [List.mem_singleton.mp ht]
    · intro t ht
      rw [List.mem_singleton.mp ht]
      exact has.trans hsz
    · exact List.isChain_cons_cons.mpr ⟨hxn, List.isChain_cons_cons.mpr ⟨han, List.isChain_singleton _⟩⟩
  · have hc : (prvHeapInit L s).xFreeBytesRemaining = sub32 s.xFreeBytesRemaining heapStructSize := rfl
    rw [Counted, hc, hs, sub32_eq (by rw [xTotalHeapSize_eq, heapStructSize_eq]; omega) (by rw [xTotalHeapSize_eq]; omega), hsz]
    rfl

end

end SaymaFirmware
