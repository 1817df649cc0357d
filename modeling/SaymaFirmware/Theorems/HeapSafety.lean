import SaymaFirmware.Lemmas.HeapRun

/-!
# The heap over whole runs

Whatever the clients allocate, free and write, in any order: what they hold is theirs, a request fails only for lack of room, and
nothing is lost to fragmentation once everything is given back.
-/

namespace SaymaFirmware

open Tiling

/-- A place for the statics: the heap is not aligned, and the head of the list is below it. -/
def sampleLayout : HeapLayout where
  ucHeap := 0x10002005
  xStart := 0x10000010
  ucHeap_pos := by decide
  ucHeap_fits := by rw [configTotalHeapSize_eq]; decide
  xStart_aligned := by decide
  xStart_fits := by rw [sizeofXBlockLink_eq]; decide
  xStart_apart := by rw [sizeofXBlockLink_eq]; exact Or.inl (by decide)

/-- A first request for 100 bytes takes 120 from the heap. -/
theorem sample_first : ∃ σ, Reaches (heapStep sampleLayout) HeapOk (HeapSys.init fun _ => 0) σ ∧
    σ.live = setLive (fun _ => none) (sampleLayout.pucAlignedHeap + 16) (some 100) ∧
    σ.heap.xBlockSize sampleLayout.pucAlignedHeap = 120 ∧ xPortGetFreeHeapSize σ.heap = 16240 := by
  obtain ⟨⟨s, p⟩, hs, hfacts⟩ := (Option.any_eq_true (fun r : HeapState × Nat => decide (r.2 = sampleLayout.pucAlignedHeap + 16 ∧
    r.1.xBlockSize sampleLayout.pucAlignedHeap = 120 ∧ xPortGetFreeHeapSize r.1 = 16240))
    (pvPortMalloc sampleLayout (HeapSys.init fun _ => 0).heap 100)).mp (by decide +kernel)
  obtain ⟨rfl, hsize, hcount⟩ := of_decide_eq_true hfacts
  have hmax : 100 ≤ mallocMax := by
    rw [mallocMax, heapStructSize_eq]
    decide
  refine ⟨_, Reaches.next (.malloc 100) Reaches.start hmax (?_ : _ = some ⟨s, _⟩), rfl, hsize, hcount⟩
  rw [heapStep, hs, Option.map_some, if_neg (Nat.succ_ne_zero _)]
  rfl

/-! ## Allocations are apart -/

namespace HeapAux

variable {L : HeapLayout} {σ : HeapSys} {n p : Nat}

/-- What `pvPortMalloc` returns is held by nobody. -/
theorem malloc_unheld (h : HeapWf L σ) (hn : n ≤ mallocMax) {s : HeapState} (hs : pvPortMalloc L σ.heap n = some (s, p)) :
    σ.live p = none := by
  obtain ⟨ts, hO, heq⟩ := h.ready
  rw [heq n] at hs
  rcases pvPortMalloc_spec hO hn with ⟨-, hm⟩ | ⟨s', t, ht, hf, -, hm, -⟩
  · rw [hm] at hs
    cases hs
    exact h.live_zero
  · rw [hm] at hs
    cases hs
    exact hO.free_unheld ht hf

end HeapAux

open HeapAux in
/-- In every state reached, what a client holds is aligned, lies in `ucHeap`, and is at least a link away from everything else that is
held; no request returns a pointer that is held; and every allowed call returns. -/
theorem heap_allocations_apart (L : HeapLayout) (mem : Nat → Nat) (σ : HeapSys)
    (hrun : Reaches (heapStep L) HeapOk (HeapSys.init mem) σ) :
    (∀ p n, σ.live p = some n →
      p % portByteAlignment = 0 ∧ L.ucHeap + heapStructSize < p ∧ p + n ≤ L.ucHeap + configTotalHeapSize ∧
      ∀ q m, σ.live q = some m → q ≠ p → p + n + heapStructSize ≤ q ∨ q + m + heapStructSize ≤ p) ∧
    (∀ n s p, n ≤ mallocMax → pvPortMalloc L σ.heap n = some (s, p) → σ.live p = none) ∧
    ∀ a, HeapOk σ a → ∃ σ', heapStep L σ a = some σ' := by
  have hwf := heapWf_of_reaches hrun
  refine ⟨?_, fun n s p hn hs => malloc_unheld hwf hn hs, ?_⟩
  · intro p n hp
    rcases hwf with hf | ⟨ts, hO⟩
    · rw [hf.live_eq] at hp
      cases hp
    · obtain ⟨t, ht, rfl, hto⟩ := hO.held p n hp
      have hb := hO.held_bounds ht hto
      have h1 := L.pucAlignedHeap_bounds
      have h2 := L.bounds
      rw [portByteAlignment_eq, heapStructSize_eq, configTotalHeapSize_eq]
      refine ⟨by omega, by omega, by omega, ?_⟩
      intro q m hq hne
      obtain ⟨u, hu, rfl, huo⟩ := hO.held q m hq
      have hub := hO.held_bounds hu huo
      have hut : t ≠ u := by
        rintro rfl
        exact hne rfl
      rcases hO.blocks.tiles.stop_le_or ht hu hut with h | h <;> simp only [Tile.stop] at h <;> omega
  · intro a ha
    obtain ⟨σ', hs, -⟩ := step_spec hwf a ha
    exact ⟨σ', hs⟩

/-- A request for a few bytes. -/
def smallRequest : HeapAct → Bool
  | .malloc n => decide (n ≤ 100)
  | .free _ | .write _ _ _ => false

/-- After two requests, for 100 bytes and for 40, which are both held; a third one gets a pointer that is neither of the two. -/
theorem heap_allocations_apart_two : ∃ σ p q s r, Reaches (heapStep sampleLayout) HeapOk (HeapSys.init fun _ => 0) σ ∧
    σ.live p = some 100 ∧ σ.live q = some 40 ∧ p % portByteAlignment = 0 ∧ q % portByteAlignment = 0 ∧
    (p + 100 + heapStructSize ≤ q ∨ q + 40 + heapStructSize ≤ p) ∧
    pvPortMalloc sampleLayout σ.heap 24 = some (s, r) ∧ r ≠ 0 ∧ σ.live r = none := by
  have hmax : ∀ n, n ≤ 100 → n ≤ mallocMax := by
    intro n hn
    rw [mallocMax, heapStructSize_eq]
    omega
  obtain ⟨σ, hs, hp⟩ := exists_reaches_of_exec (heapStep sampleLayout) (fun _ => smallRequest)
    (HeapSys.init fun _ => 0) [.malloc 100, .malloc 40]
    (fun σ => decide (σ.live (sampleLayout.pucAlignedHeap + 16) = some 100 ∧ σ.live (sampleLayout.pucAlignedHeap + 136) = some 40) &&
      (pvPortMalloc sampleLayout σ.heap 24).any fun r : HeapState × Nat => decide (r.2 ≠ 0)) (by decide +kernel)
  obtain ⟨hheld, hthird⟩ := Bool.and_eq_true_iff.mp hp
  obtain ⟨h100, h40⟩ := of_decide_eq_true hheld
  obtain ⟨⟨s, r⟩, hm, hr⟩ := (Option.any_eq_true _ _).mp hthird
  have hreach : Reaches (heapStep sampleLayout) HeapOk (HeapSys.init fun _ => 0) σ := hs.mono fun σ a ha => by
    cases a with
    | malloc n => exact hmax n (of_decide_eq_true ha)
    | free pv => cases ha
    | write pv off v => cases ha
  obtain ⟨hapart, hnew, -⟩ := heap_allocations_apart sampleLayout _ σ hreach
  obtain ⟨hp8, -, -, hother⟩ := hapart _ _ h100
  exact ⟨σ, _, _, s, r, hreach, h100, h40, hp8, (hapart _ _ h40).1, hother _ _ h40 (by omega), hm, of_decide_eq_true hr,
    hnew 24 s r (hmax 24 (by decide)) hm⟩

/-! ## Contents -/

/-- The action is the holder's own. -/
def Touches (p : Nat) : HeapAct → Prop
  | .malloc _ => False
  | .free pv => pv = p
  | .write pv _ _ => pv = p

namespace HeapAux

variable {L : HeapLayout} {σ σ' : HeapSys} {p n : Nat}

/-- A request moves nothing that is held. -/
theorem malloc_kept (h : HeapWf L σ) {k : Nat} (hk : k ≤ mallocMax) (hs : heapStep L σ (.malloc k) = some σ') (hp : σ.live p = some n) :
    σ'.live p = some n ∧ ∀ w, p ≤ w → w < p + n → σ'.heap.mem w = σ.heap.mem w := by
  rcases h with h | ⟨ts, hO⟩
  · rw [h.live_eq] at hp
    cases hp
  · obtain ⟨u, hu, rfl, huo⟩ := hO.held p n hp
    have huf : u.free = false := free_eq_false.mpr ⟨n, huo⟩
    rw [heapStep] at hs
    rcases pvPortMalloc_spec hO hk with ⟨-, hm⟩ | ⟨s', t, ht, hf, hw, hm, hT⟩
    · rw [hm] at hs
      obtain rfl := Option.some.inj hs
      exact ⟨hp, fun _ _ _ => rfl⟩
    · rw [hm] at hs
      obtain rfl := Option.some.inj hs
      have hne : u.addr + 16 ≠ t.addr + 16 := by
        intro he
        have hut := hO.blocks.tiles.eq_of_addr_eq hu ht (by omega)
        rw [hut, hf] at huf
        cases huf
      exact ⟨(setLive_ne hne).trans hp, hO.kept_held hu huo (hT.kept u hu huf)⟩

/-- Freeing moves nothing else that is held. -/
theorem free_kept (h : HeapWf L σ) {pv : Nat} (hok : HeapOk σ (.free pv)) (hne : pv ≠ p)
    (hs : heapStep L σ (.free pv) = some σ') (hp : σ.live p = some n) :
    σ'.live p = some n ∧ ∀ w, p ≤ w → w < p + n → σ'.heap.mem w = σ.heap.mem w := by
  rcases h with h | ⟨ts, hO⟩
  · rw [h.live_eq] at hp
    cases hp
  · obtain ⟨u, hu, rfl, huo⟩ := hO.held p n hp
    rw [heapStep] at hs
    rcases hok with rfl | hlive
    · have hlive : setLive σ.live 0 none (u.addr + 16) = some n := (setLive_ne (Ne.symm hne)).trans hp
      obtain rfl := Option.some.inj hs
      exact ⟨hlive, fun _ _ _ => rfl⟩
    · obtain ⟨k, hk⟩ := Option.isSome_iff_exists.mp hlive
      obtain ⟨x, hx, rfl, hxo⟩ := hO.held pv k hk
      obtain ⟨s', ts', hf, hB, hC, hown, hkept⟩ := vPortFree_spec hO.blocks hO.counted hx (free_eq_false.mpr ⟨k, hxo⟩)
      rw [hf] at hs
      have hlive : setLive σ.live (x.addr + 16) none (u.addr + 16) = some n := (setLive_ne (Ne.symm hne)).trans hp
      obtain rfl := Option.some.inj hs
      exact ⟨hlive, hO.kept_held hu huo (hkept u hu)⟩

/-- A client writes nothing that another one holds. -/
theorem write_kept (h : HeapWf L σ) {pv off v : Nat} (hok : HeapOk σ (.write pv off v)) (hne : pv ≠ p)
    (hs : heapStep L σ (.write pv off v) = some σ') (hp : σ.live p = some n) :
    σ'.live p = some n ∧ ∀ w, p ≤ w → w < p + n → σ'.heap.mem w = σ.heap.mem w := by
  obtain ⟨k, hk, hoff⟩ := hok
  rcases h with h | ⟨ts, hO⟩
  · rw [h.live_eq] at hp
    cases hp
  · obtain ⟨u, hu, rfl, huo⟩ := hO.held p n hp
    obtain ⟨x, hx, rfl, hxo⟩ := hO.held pv k hk
    obtain rfl := Option.some.inj hs
    have hxb := hO.held_bounds hx hxo
    have hub := hO.held_bounds hu huo
    have hword := hO.write_word hx hxo hoff
    have hxu : x ≠ u := by
      rintro rfl
      exact hne rfl
    refine ⟨hp, fun w h1 h2 => if_neg ?_⟩
    rcases hO.blocks.tiles.stop_le_or hx hu hxu with h | h <;> simp only [Tile.stop] at h <;> omega

theorem step_kept (h : HeapWf L σ) {a : HeapAct} (hok : HeapOk σ a) (hs : heapStep L σ a = some σ') (hp : σ.live p = some n)
    (ha : ¬Touches p a) : σ'.live p = some n ∧ ∀ w, p ≤ w → w < p + n → σ'.heap.mem w = σ.heap.mem w := by
  cases a with
  | malloc k => exact malloc_kept h hok hs hp
  | free pv => exact free_kept h hok ha hs hp
  | write pv off v => exact write_kept h hok ha hs hp

end HeapAux

open HeapAux in
/-- As long as its holder neither writes nor frees it, an allocation stays held and keeps its content, whatever is allocated, freed
and written around it. -/
theorem heap_content_kept (L : HeapLayout) (mem : Nat → Nat) (σ σ' : HeapSys) (p n : Nat)
    (hrun : Reaches (heapStep L) HeapOk (HeapSys.init mem) σ) (hp : σ.live p = some n)
    (hrun' : Reaches (heapStep L) (fun σ a => HeapOk σ a ∧ ¬Touches p a) σ σ') :
    σ'.live p = some n ∧ ∀ w, p ≤ w → w < p + n → σ'.heap.mem w = σ.heap.mem w := by
  have h := hrun'.invariant (fun σ' => HeapWf L σ' ∧ σ'.live p = some n ∧ ∀ w, p ≤ w → w < p + n → σ'.heap.mem w = σ.heap.mem w)
    ⟨heapWf_of_reaches hrun, hp, fun _ _ _ => rfl⟩ ?_
  · exact h.2
  · rintro s a s' ⟨hwf, hlive, hmem⟩ ⟨hok, hnt⟩ hs
    obtain ⟨s₁, hs₁, hwf'⟩ := step_spec hwf a hok
    obtain rfl : s₁ = s' := Option.some.inj (hs₁.symm.trans hs)
    obtain ⟨h1, h2⟩ := step_kept hwf hok hs hlive hnt
    exact ⟨hwf', h1, fun w hw1 hw2 => (h2 w hw1 hw2).trans (hmem w hw1 hw2)⟩

/-- A second request leaves the words of the first one alone. -/
theorem heap_content_kept_second : ∃ σ σ' p, Reaches (heapStep sampleLayout) HeapOk (HeapSys.init fun _ => 0) σ ∧
    heapStep sampleLayout σ (.malloc 40) = some σ' ∧ σ.live p = some 100 ∧ σ'.live p = some 100 ∧ σ'.heap.mem p = σ.heap.mem p := by
  obtain ⟨σ, hσ, hlive⟩ := exists_first_malloc (n := 100) sampleLayout (fun _ => 0) (by decide) (by decide)
  have hp : σ.live (sampleLayout.pucAlignedHeap + 16) = some 100 := by rw [hlive]; exact setLive_self
  have hmax : 40 ≤ mallocMax := by rw [mallocMax, heapStructSize_eq]; decide
  obtain ⟨σ', hs, -⟩ := step_spec (heapWf_of_reaches hσ) (.malloc 40) hmax
  obtain ⟨h1, h2⟩ := heap_content_kept sampleLayout _ σ σ' _ 100 hσ hp (Reaches.next (.malloc 40) Reaches.start ⟨hmax, fun h => h⟩ hs)
  exact ⟨σ, σ', _, hσ, hs, hp, h1, h2 _ (Nat.le_refl _) (by omega)⟩

/-! ## Room -/

/-- The bytes a request takes from the heap: its link and itself, in units of eight. -/
def blockSizeFor (n : Nat) : Nat := (n + heapStructSize + 7) / 8 * 8

/-- The range of `w` bytes from `i` on is inside the heap, and no allocated block reaches into it. -/
def Gap (L : HeapLayout) (σ : HeapSys) (i w : Nat) : Prop :=
  L.pucAlignedHeap ≤ i ∧ i + w ≤ L.pucHeapEnd ∧
    ∀ q m, σ.live q = some m → q - heapStructSize + σ.heap.xBlockSize (q - heapStructSize) ≤ i ∨ i + w ≤ q - heapStructSize

namespace HeapAux

variable {L : HeapLayout} {σ : HeapSys} {n : Nat}

/-- The rounding of the source, and the requests it takes for nothing. -/
theorem adjustedSize_eq (hn : n ≤ mallocMax) (h0 : 0 < n) :
    adjustedSize n = blockSizeFor n ∨ (adjustedSize n = 0 ∧ 2 ^ 32 ≤ blockSizeFor n) := by
  rcases Nat.eq_zero_or_pos (adjustedSize n) with hz | hpos
  · refine Or.inr ⟨hz, ?_⟩
    rw [mallocMax, heapStructSize_eq] at hn
    rw [blockSizeFor, heapStructSize_eq]
    rw [adjustedSize, if_pos h0] at hz
    simp only at hz
    split at hz <;> rename_i h <;> simp only [add32, heapStructSize_eq, portByteAlignment_eq] at h hz <;> omega
  · obtain ⟨h1, h2, h3, -⟩ := adjustedSize_spec hn hpos
    refine Or.inl ?_
    rw [blockSizeFor, heapStructSize_eq]
    omega

/-- The gaps of the heap are its free blocks. -/
theorem exists_gap_iff {ts : List (Tile Nat)} (hO : Owned L σ.heap σ.live ts) {w : Nat} (hw : 0 < w) :
    (∃ i, Gap L σ i w) ↔ ∃ t ∈ ts, t.free = true ∧ w ≤ t.size := by
  constructor
  · rintro ⟨i, h1, h2, h3⟩
    obtain ⟨t, ht, hf, h4, h5⟩ := exists_free_of_gap hO.blocks.tiles hO.blocks.coalesced hw h1 h2 (by
      intro t ht hf
      obtain ⟨m, hm⟩ := free_eq_false.mp hf
      have hlive := h3 _ m (hO.owner t ht m hm).2
      rw [heapStructSize_eq, Nat.add_sub_cancel, hO.blocks.sizes t ht] at hlive
      exact hlive)
    simp only [Tile.stop] at h5
    exact ⟨t, ht, hf, by omega⟩
  · rintro ⟨t, ht, hf, hwt⟩
    have htb := hO.blocks.mem_bounds ht
    refine ⟨t.addr, htb.1, by omega, ?_⟩
    intro q m hq
    obtain ⟨u, hu, rfl, huo⟩ := hO.held q m hq
    rw [heapStructSize_eq, Nat.add_sub_cancel, hO.blocks.sizes u hu]
    have hne : u ≠ t := by
      rintro rfl
      rw [free_eq_false.mpr ⟨m, huo⟩] at hf
      cases hf
    rcases hO.blocks.tiles.stop_le_or hu ht hne with h | h <;> simp only [Tile.stop] at h
    · exact Or.inl h
    · exact Or.inr (by omega)

/-- Setting the heap up does not change its gaps: nothing is held before. -/
theorem gap_ready_iff (h : HeapWf L σ) {i w : Nat} : Gap L ⟨readyHeap L σ.heap, σ.live⟩ i w ↔ Gap L σ i w := by
  rcases h with h | ⟨ts, hO⟩
  · simp [Gap, h.live_eq]
  · rw [readyHeap, if_neg hO.blocks.end_ne_zero]

end HeapAux

open HeapAux in
/-- A request fails exactly when it is for nothing or no gap between the allocated blocks has room for it; a request that fails leaves
the heap as it was (set up, if it was not), and one that succeeds returns a pointer that nobody holds. -/
theorem pvPortMalloc_null_iff (L : HeapLayout) (mem : Nat → Nat) (σ : HeapSys)
    (hrun : Reaches (heapStep L) HeapOk (HeapSys.init mem) σ) (n : Nat) (hn : n ≤ mallocMax) :
    ∃ s' p, pvPortMalloc L σ.heap n = some (s', p) ∧
      (p = 0 ↔ n = 0 ∨ ∀ i, ¬Gap L σ i (blockSizeFor n)) ∧ (p = 0 → s' = readyHeap L σ.heap) ∧ σ.live p = none := by
  have hwf := heapWf_of_reaches hrun
  obtain ⟨ts, hO, heq⟩ := hwf.ready
  have hpos : 0 < blockSizeFor n := by
    rw [blockSizeFor, heapStructSize_eq]
    omega
  have hgap : (∃ i, Gap L σ i (blockSizeFor n)) ↔ ∃ t ∈ ts, t.free = true ∧ blockSizeFor n ≤ t.size := by
    rw [← exists_gap_iff (σ := ⟨readyHeap L σ.heap, σ.live⟩) hO hpos]
    simp only [gap_ready_iff hwf]
  rw [heq n]
  rcases pvPortMalloc_spec hO hn with ⟨hno, hm⟩ | ⟨s', t, ht, hf, hw, hm, hT⟩
  · refine ⟨_, 0, hm, ⟨?_, fun _ => rfl⟩, fun _ => rfl, hwf.live_zero⟩
    intro _
    rcases Nat.eq_zero_or_pos n with h0 | h0
    · exact Or.inl h0
    · refine Or.inr (not_exists.mp fun hg => hno ?_)
      obtain ⟨u, hu, huf, hus⟩ := hgap.mp hg
      rcases adjustedSize_eq hn h0 with he | ⟨-, he⟩
      · rw [he]
        exact ⟨hpos, u, hu, huf, hus⟩
      · -- a block is smaller than `2 ^ 32`
        have hub := hO.blocks.mem_bounds hu
        have hb := L.bounds
        omega
  · have hn0 := (adjustedSize_spec hn hw.1).2.2.2
    refine ⟨s', _, hm, ⟨fun h => absurd h (Nat.succ_ne_zero _), ?_⟩, fun h => absurd h (Nat.succ_ne_zero _), ?_⟩
    · rintro (h | h)
      · omega
      · rcases adjustedSize_eq hn hn0 with he | ⟨he, -⟩
        · obtain ⟨i, hi⟩ := hgap.mpr ⟨t, ht, hf, he ▸ hw.2⟩
          exact absurd hi (h i)
        · omega
    · exact hO.free_unheld ht hf

/-- With 100 bytes held, a request for 40 is served behind them, and one for 16300, for which the whole heap would have had room, is
refused. -/
theorem pvPortMalloc_null_second : ∃ σ s' p, Reaches (heapStep sampleLayout) HeapOk (HeapSys.init fun _ => 0) σ ∧
    σ.live (sampleLayout.pucAlignedHeap + 16) = some 100 ∧
    pvPortMalloc sampleLayout σ.heap 40 = some (s', p) ∧ p ≠ 0 ∧ σ.live p = none ∧
    pvPortMalloc sampleLayout σ.heap 16300 = some (readyHeap sampleLayout σ.heap, 0) := by
  obtain ⟨σ, hσ, hlive, hsize, -⟩ := sample_first
  have hheld : σ.live (sampleLayout.pucAlignedHeap + 16) = some 100 := by
    rw [hlive]
    exact setLive_self
  have honly : ∀ q m, σ.live q = some m → q = sampleLayout.pucAlignedHeap + 16 := by
    intro q m hq
    by_contra hne
    rw [hlive, setLive_ne hne] at hq
    cases hq
  have hend := sampleLayout.pucHeapEnd_eq
  have hmax : ∀ n, n ≤ 16300 → n ≤ mallocMax := by
    intro n hn
    rw [mallocMax, heapStructSize_eq]
    omega
  obtain ⟨s', p, hm, hiff, -, hnew⟩ := pvPortMalloc_null_iff sampleLayout _ σ hσ 40 (hmax 40 (by decide))
  obtain ⟨s'', p'', hm', hiff', hsame, -⟩ := pvPortMalloc_null_iff sampleLayout _ σ hσ 16300 (hmax 16300 (by decide))
  have hroom : Gap sampleLayout σ (sampleLayout.pucAlignedHeap + 120) (blockSizeFor 40) := by
    refine ⟨by omega, by rw [blockSizeFor, heapStructSize_eq]; omega, fun q m hq => Or.inl ?_⟩
    rw [honly q m hq, heapStructSize_eq, Nat.add_sub_cancel, hsize]
  have hnone : ∀ i, ¬Gap sampleLayout σ i (blockSizeFor 16300) := by
    rintro i ⟨h1, h2, h3⟩
    have h4 := h3 _ _ hheld
    rw [heapStructSize_eq, Nat.add_sub_cancel, hsize] at h4
    rw [blockSizeFor, heapStructSize_eq] at h2 h4
    omega
  have hp : p ≠ 0 := by
    intro h0
    rcases hiff.mp h0 with h | h
    · cases h
    · exact h _ hroom
  have hp'' : p'' = 0 := hiff'.mpr (Or.inr hnone)
  refine ⟨σ, s', p, hσ, hheld, hm, hp, hnew, ?_⟩
  rw [hm', hp'', hsame hp'']

/-! ## Nothing is lost -/

open Classical in
/-- Once the heap is set up, `xPortGetFreeHeapSize` is the number of its bytes that no allocated block covers. -/
theorem xPortGetFreeHeapSize_eq (L : HeapLayout) (mem : Nat → Nat) (σ : HeapSys)
    (hrun : Reaches (heapStep L) HeapOk (HeapSys.init mem) σ) (hset : σ.heap.pxEnd ≠ 0) :
    xPortGetFreeHeapSize σ.heap = ((Finset.Ico L.pucAlignedHeap L.pucHeapEnd).filter fun i => ∀ q m, σ.live q = some m →
      i < q - heapStructSize ∨ q - heapStructSize + σ.heap.xBlockSize (q - heapStructSize) ≤ i).card := by
  rcases heapWf_of_reaches hrun with h | ⟨ts, hO⟩
  · exact absurd h.end_eq hset
  · rw [xPortGetFreeHeapSize, hO.counted, hO.blocks.tiles.freeSize_eq_card]
    congr 1
    apply Finset.filter_congr
    intro i _
    constructor
    · intro h q m hq
      obtain ⟨t, ht, rfl, hto⟩ := hO.held q m hq
      rw [heapStructSize_eq, Nat.add_sub_cancel, hO.blocks.sizes t ht]
      exact h t ht (free_eq_false.mpr ⟨m, hto⟩)
    · intro h t ht hf
      obtain ⟨m, hm⟩ := free_eq_false.mp hf
      have hq := h _ m (hO.owner t ht m hm).2
      rwa [heapStructSize_eq, Nat.add_sub_cancel, hO.blocks.sizes t ht] at hq

open Classical in
/-- After a first request for 100 bytes. -/
theorem xPortGetFreeHeapSize_first : ∃ σ, Reaches (heapStep sampleLayout) HeapOk (HeapSys.init fun _ => 0) σ ∧
    σ.live (sampleLayout.pucAlignedHeap + 16) = some 100 ∧ xPortGetFreeHeapSize σ.heap = 16240 ∧
    ((Finset.Ico sampleLayout.pucAlignedHeap sampleLayout.pucHeapEnd).filter fun i => ∀ q m, σ.live q = some m →
      i < q - heapStructSize ∨ q - heapStructSize + σ.heap.xBlockSize (q - heapStructSize) ≤ i).card = 16240 := by
  obtain ⟨σ, hσ, hlive, -, hcount⟩ := sample_first
  have hp : σ.live (sampleLayout.pucAlignedHeap + 16) = some 100 := by rw [hlive]; exact setLive_self
  have hset : σ.heap.pxEnd ≠ 0 := by
    rcases heapWf_of_reaches hσ with h | ⟨ts, hO⟩
    · rw [h.live_eq] at hp
      cases hp
    · exact hO.blocks.end_ne_zero
  exact ⟨σ, hσ, hp, hcount, (xPortGetFreeHeapSize_eq sampleLayout _ σ hσ hset).symm.trans hcount⟩

/-- Once everything that was allocated has been freed, in whatever order, the heap is the one free block it started as: a request for
any size up to the whole of it succeeds, at the heap's first address, and every byte is counted. -/
theorem heap_restored (L : HeapLayout) (mem : Nat → Nat) (σ : HeapSys) (hrun : Reaches (heapStep L) HeapOk (HeapSys.init mem) σ)
    (hnone : ∀ p, σ.live p = none) :
    (readyHeap L σ.heap).xFreeBytesRemaining = xTotalHeapSize - heapStructSize ∧
    ∀ n, 0 < n → n + heapStructSize ≤ xTotalHeapSize - heapStructSize →
      ∃ s', pvPortMalloc L σ.heap n = some (s', L.pucAlignedHeap + heapStructSize) := by
  obtain ⟨ts, hO, heq⟩ := (heapWf_of_reaches hrun).ready
  have hend := L.pucHeapEnd_eq
  have hfree : ∀ t ∈ ts, t.free = true := by
    intro t ht
    by_contra hf
    obtain ⟨m, hm⟩ := free_eq_false.mp (Bool.not_eq_true _ ▸ hf)
    have := (hO.owner t ht m hm).2
    rw [hnone] at this
    cases this
  obtain ⟨t, rfl, htf, hta, hts⟩ := eq_singleton_of_free hO.blocks.tiles hO.blocks.coalesced (by omega) hfree
  have hsize : t.size = 16360 := by omega
  have htot : xTotalHeapSize - heapStructSize = 16360 := by rw [xTotalHeapSize_eq, heapStructSize_eq]
  refine ⟨?_, ?_⟩
  · rw [hO.counted, freeSize_cons_free htf, hsize, htot]
    rfl
  · intro n h0 hle
    rw [htot, heapStructSize_eq] at hle
    have hn : n ≤ mallocMax := by
      rw [mallocMax, heapStructSize_eq]
      omega
    rw [heq n]
    have hadj : 0 < adjustedSize n ∧ adjustedSize n ≤ 16360 := by
      have hbs : blockSizeFor n = (n + 16 + 7) / 8 * 8 := rfl
      rcases HeapAux.adjustedSize_eq hn h0 with he | ⟨-, he⟩
      · rw [he, hbs]
        omega
      · omega
    rcases pvPortMalloc_spec hO hn with ⟨hno, -⟩ | ⟨s', u, hu, -, -, hm, -⟩
    · exact absurd ⟨hadj.1, t, List.mem_singleton.mpr rfl, htf, by omega⟩ hno
    · rw [List.mem_singleton.mp hu, hta] at hm
      exact ⟨s', hm⟩

/-- A request and its release. -/
theorem heap_restored_first : ∃ σ σ' p s', Reaches (heapStep sampleLayout) HeapOk (HeapSys.init fun _ => 0) σ ∧
    σ.live p = some 100 ∧ heapStep sampleLayout σ (.free p) = some σ' ∧
    pvPortMalloc sampleLayout σ'.heap 16344 = some (s', sampleLayout.pucAlignedHeap + heapStructSize) := by
  obtain ⟨σ, hσ, hlive⟩ := exists_first_malloc (n := 100) sampleLayout (fun _ => 0) (by decide) (by decide)
  have hp : σ.live (sampleLayout.pucAlignedHeap + 16) = some 100 := by rw [hlive]; exact setLive_self
  have hok : HeapOk σ (.free (sampleLayout.pucAlignedHeap + 16)) := Or.inr (by rw [hp]; rfl)
  obtain ⟨σ', hs, -⟩ := step_spec (heapWf_of_reaches hσ) _ hok
  have hnone : ∀ q, σ'.live q = none := by
    intro q
    rw [live_of_free hs, hlive]
    by_cases hq : q = sampleLayout.pucAlignedHeap + 16
    · rw [hq, setLive_self]
    · rw [setLive_ne hq, setLive_ne hq]
  obtain ⟨-, h⟩ := heap_restored sampleLayout _ σ' (Reaches.next _ hσ hok hs) hnone
  obtain ⟨s', hm⟩ := h 16344 (by decide) (by rw [xTotalHeapSize_eq, heapStructSize_eq])
  exact ⟨σ, σ', _, s', hσ, hp, hs, hm⟩

end SaymaFirmware
