import SaymaFirmware.Lemmas.HeapCalls

/-!
# Runs of the heap

The invariant of the heap and its clients: the allocated tiles are what the clients hold (`Owned`), or nothing has been allocated yet
(`Fresh`). Every allowed action can be taken and keeps it (`step_spec`), and an action writes nothing inside what is held, the
client's own writes apart.
-/

namespace SaymaFirmware

open Tiling

/-- The tiles that are owned are what the clients hold, each with room for what was asked for. -/
structure Owned (L : HeapLayout) (s : HeapState) (live : Nat → Option Nat) (ts : List (Tile Nat)) : Prop where
  blocks : Blocks L s ts
  counted : Counted s ts
  owner : ∀ t ∈ ts, ∀ n, t.owner = some n → n + 16 ≤ t.size ∧ live (t.addr + 16) = some n
  held : ∀ p n, live p = some n → ∃ t ∈ ts, t.addr + 16 = p ∧ t.owner = some n

/-- Nothing has been allocated, and the heap is not set up. -/
structure Fresh (σ : HeapSys) : Prop where
  end_eq : σ.heap.pxEnd = 0
  free_eq : σ.heap.xFreeBytesRemaining = xTotalHeapSize
  live_eq : ∀ p, σ.live p = none

/-- The invariant of the runs. -/
def HeapWf (L : HeapLayout) (σ : HeapSys) : Prop := Fresh σ ∨ ∃ ts, Owned L σ.heap σ.live ts

theorem free_eq_false {t : Tile Nat} : t.free = false ↔ ∃ n, t.owner = some n := by
  rw [Tile.free, Option.isNone_eq_false_iff, Option.isSome_iff_exists]

/-- Outside one pointer, what is held stays. -/
theorem setLive_ne {live : Nat → Option Nat} {p q : Nat} {n : Option Nat} (h : q ≠ p) : setLive live p n q = live q := if_neg h

theorem setLive_self {live : Nat → Option Nat} {p : Nat} {n : Option Nat} : setLive live p n p = n := if_pos rfl

namespace Owned

variable {L : HeapLayout} {s : HeapState} {live : Nat → Option Nat} {ts : List (Tile Nat)} {n p : Nat}

/-- The block of an allocation. -/
theorem held_bounds (h : Owned L s live ts) {t : Tile Nat} (ht : t ∈ ts) (ho : t.owner = some n) :
    t.addr % 8 = 0 ∧ L.pucAlignedHeap ≤ t.addr ∧ t.addr + t.size ≤ L.pucHeapEnd ∧ n + 16 ≤ t.size := by
  have hb := h.blocks.mem_bounds ht
  exact ⟨hb.2.2.2, hb.1, hb.2.1, (h.owner t ht n ho).1⟩

/-- Taking a block for `n` bytes. -/
theorem of_taken (h : Owned L s live ts) {s' : HeapState} {t : Tile Nat} {w : Nat} (ht : t ∈ ts) (hf : t.free = true) (hw : n + 16 ≤ w)
    (hT : Taken L s s' ts t w n) : ∃ ts', Owned L s' (setLive live (t.addr + 16) (some n)) ts' := by
  obtain ⟨⟨ts', m, hB, hC, hwm, -, hown⟩, -⟩ := hT
  -- no allocation is at the block's address
  have hother : ∀ u ∈ ts, u.free = false → u.addr + 16 ≠ t.addr + 16 := by
    intro u hu huf he
    have := h.blocks.tiles.eq_of_addr_eq hu ht (by omega)
    rw [this, hf] at huf
    cases huf
  refine ⟨ts', hB, hC, ?_, ?_⟩
  · intro u hu k hk
    have huf : u.free = false := free_eq_false.mpr ⟨k, hk⟩
    rcases (hown u huf).mp hu with hu | rfl
    · rw [setLive_ne (hother u hu huf)]
      exact h.owner u hu k hk
    · obtain rfl := Option.some.inj hk
      exact ⟨by simp only; omega, setLive_self⟩
  · intro q k hq
    by_cases he : q = t.addr + 16
    · subst he
      rw [setLive_self] at hq
      exact ⟨⟨t.addr, m, some n⟩, (hown _ rfl).mpr (Or.inr rfl), rfl, hq⟩
    · rw [setLive_ne he] at hq
      obtain ⟨u, hu, hua, huo⟩ := h.held q k hq
      exact ⟨u, (hown u (free_eq_false.mpr ⟨k, huo⟩)).mpr (Or.inl hu), hua, huo⟩

/-- Handing a block back. -/
theorem of_freed (h : Owned L s live ts) {s' : HeapState} {ts' : List (Tile Nat)} {x : Tile Nat} (hx : x ∈ ts) (hB : Blocks L s' ts')
    (hC : Counted s' ts') (hown : ∀ t, t.free = false → (t ∈ ts' ↔ t ∈ ts ∧ t ≠ x)) :
    Owned L s' (setLive live (x.addr + 16) none) ts' := by
  refine ⟨hB, hC, ?_, ?_⟩
  · intro u hu k hk
    obtain ⟨hu, hne⟩ := (hown u (free_eq_false.mpr ⟨k, hk⟩)).mp hu
    have haddr : u.addr + 16 ≠ x.addr + 16 := fun he => hne (h.blocks.tiles.eq_of_addr_eq hu hx (by omega))
    rw [setLive_ne haddr]
    exact h.owner u hu k hk
  · intro q k hq
    by_cases he : q = x.addr + 16
    · subst he
      rw [setLive_self] at hq
      cases hq
    · rw [setLive_ne he] at hq
      obtain ⟨u, hu, hua, huo⟩ := h.held q k hq
      refine ⟨u, (hown u (free_eq_false.mpr ⟨k, huo⟩)).mpr ⟨hu, ?_⟩, hua, huo⟩
      rintro rfl
      exact he hua.symm

/-- The word a client may write is behind the link of its block and inside it. -/
theorem write_word (h : Owned L s live ts) {t : Tile Nat} (ht : t ∈ ts) (ho : t.owner = some n) {off : Nat} (hoff : off < n) :
    t.addr + 16 ≤ t.addr + 16 + off - (t.addr + 16 + off) % 4 ∧ t.addr + 16 + off - (t.addr + 16 + off) % 4 < t.addr + 16 + n := by
  have hb := h.held_bounds ht ho
  omega

/-- A write inside an allocation leaves the blocks as they are. -/
theorem of_write (h : Owned L s live ts) {off v : Nat} (hp : live p = some n) (hoff : off < n) :
    Owned L (s.poke (p + off - (p + off) % 4) v) live ts := by
  obtain ⟨t, ht, rfl, ho⟩ := h.held p n hp
  have hw := h.write_word ht ho hoff
  have hb := h.held_bounds ht ho
  generalize t.addr + 16 + off - (t.addr + 16 + off) % 4 = w at hw ⊢
  -- no link is written
  have hlink : ∀ b, (b = L.xStart ∨ ∃ u ∈ ts, u.addr = b) → b ≠ w ∧ b + 4 ≠ w := by
    intro b hbb
    have := body_ne_link h.blocks ht (w := w) (by omega) (by simp only [Tile.stop]; omega) hbb
    exact ⟨Ne.symm this.1, Ne.symm this.2⟩
  have hB := h.blocks
  have htile : ∀ u ∈ ts, u.addr ≠ w ∧ u.addr + 4 ≠ w := fun u hu => hlink _ (Or.inr ⟨u, hu, rfl⟩)
  have hend : L.pucHeapEnd ≠ w ∧ L.pucHeapEnd + 4 ≠ w := by omega
  refine ⟨⟨hB.tiles, hB.coalesced, hB.aligned, ?_, ?_, ?_, ?_, ?_, hB.end_eq⟩, h.counted, h.owner, h.held⟩
  · intro u hu
    exact (if_neg (htile u hu).2).trans (hB.sizes u hu)
  · apply hB.linked.congr
    intro b hb
    refine if_neg ?_
    rw [List.mem_append, List.mem_cons, List.mem_singleton] at hb
    rcases hb with (hb | hb) | hb
    · exact (hlink b (Or.inl hb)).1
    · obtain ⟨u, hu, -, rfl⟩ := mem_frees.mp hb
      exact (htile u hu).1
    · rw [hb]; exact hend.1
  · exact (if_neg (hlink _ (Or.inl rfl)).2).trans hB.start_size
  · exact (if_neg hend.2).trans hB.end_size
  · exact (if_neg hend.1).trans hB.end_next

end Owned

/-! ## Steps -/

section

variable {L : HeapLayout} {σ σ' : HeapSys} {n p : Nat}

/-- The first call sets the heap up. -/
theorem pvPortMalloc_fresh {s : HeapState} (h : s.pxEnd = 0) : pvPortMalloc L s n = pvPortMalloc L (prvHeapInit L s) n := by
  have he : (prvHeapInit L s).pxEnd ≠ 0 := by
    have h1 := L.pucAlignedHeap_bounds
    have h2 := L.pucHeapEnd_eq
    change L.pucHeapEnd ≠ 0
    omega
  rw [pvPortMalloc, pvPortMalloc]
  simp only
  rw [if_pos h, if_neg he]

/-- The heap that has just been set up. -/
theorem Fresh.owned (h : Fresh σ) : Owned L (prvHeapInit L σ.heap) σ.live [⟨L.pucAlignedHeap, 16360, none⟩] := by
  obtain ⟨hB, hC⟩ := prvHeapInit_blocks L σ.heap h.free_eq
  refine ⟨hB, hC, ?_, ?_⟩
  · intro t ht k hk
    rw [List.mem_singleton.mp ht] at hk
    cases hk
  · intro q k hq
    rw [h.live_eq q] at hq
    cases hq

/-- The state that `pvPortMalloc` works on: the heap, set up if it was not. -/
def readyHeap (L : HeapLayout) (s : HeapState) : HeapState := if s.pxEnd = 0 then prvHeapInit L s else s

theorem HeapWf.ready (h : HeapWf L σ) : ∃ ts, Owned L (readyHeap L σ.heap) σ.live ts ∧
    ∀ n, pvPortMalloc L σ.heap n = pvPortMalloc L (readyHeap L σ.heap) n := by
  rcases h with h | ⟨ts, h⟩
  · rw [readyHeap, if_pos h.end_eq]
    exact ⟨_, h.owned, fun n => pvPortMalloc_fresh h.end_eq⟩
  · rw [readyHeap, if_neg h.blocks.end_ne_zero]
    exact ⟨ts, h, fun n => rfl⟩

/-- Nobody holds `NULL`. -/
theorem HeapWf.live_zero (h : HeapWf L σ) : σ.live 0 = none := by
  rcases h with h | ⟨ts, h⟩
  · exact h.live_eq 0
  · cases hl : σ.live 0 with
    | none => rfl
    | some n =>
      obtain ⟨t, -, ht, -⟩ := h.held 0 n hl
      omega

/-- Nobody holds a free block. -/
theorem Owned.free_unheld {s : HeapState} {live : Nat → Option Nat} {ts : List (Tile Nat)} (h : Owned L s live ts) {t : Tile Nat}
    (ht : t ∈ ts) (hf : t.free = true) : live (t.addr + 16) = none := by
  cases hl : live (t.addr + 16) with
  | none => rfl
  | some m =>
    obtain ⟨u, hu, hua, huo⟩ := h.held _ m hl
    have hut := h.blocks.tiles.eq_of_addr_eq hu ht (by omega)
    rw [← hut, free_eq_false.mpr ⟨m, huo⟩] at hf
    cases hf

/-- What `pvPortMalloc` does: it returns `NULL` and changes nothing, or it takes a free block. -/
theorem pvPortMalloc_spec {s : HeapState} {live : Nat → Option Nat} {ts : List (Tile Nat)} (h : Owned L s live ts) (hn : n ≤ mallocMax) :
    (¬(0 < adjustedSize n ∧ ∃ t ∈ ts, t.free = true ∧ adjustedSize n ≤ t.size) ∧ pvPortMalloc L s n = some (s, 0)) ∨
    ∃ s' t, t ∈ ts ∧ t.free = true ∧ (0 < adjustedSize n ∧ adjustedSize n ≤ t.size) ∧ pvPortMalloc L s n = some (s', t.addr + 16) ∧
      Taken L s s' ts t (adjustedSize n) n := by
  by_cases hfit : 0 < adjustedSize n ∧ ∃ t ∈ ts, t.free = true ∧ adjustedSize n ≤ t.size
  · obtain ⟨s', t, ht, hf, hs, hT⟩ := pvPortMalloc_take h.blocks h.counted hn hfit.1 hfit.2
    obtain ⟨ts', m, -, -, h1, h2, -⟩ := hT.blocks
    exact Or.inr ⟨s', t, ht, hf, ⟨hfit.1, by omega⟩, hs, hT⟩
  · exact Or.inl ⟨hfit, pvPortMalloc_fail h.blocks hfit⟩

/-- An allowed action can be taken, and keeps the invariant. -/
theorem step_spec (h : HeapWf L σ) (a : HeapAct) (hok : HeapOk σ a) : ∃ σ', heapStep L σ a = some σ' ∧ HeapWf L σ' := by
  cases a with
  | malloc n =>
    obtain ⟨ts, hO, heq⟩ := h.ready
    rcases pvPortMalloc_spec hO hok with ⟨-, hs⟩ | ⟨s', t, ht, hf, hw, hs, hT⟩
    · refine ⟨⟨readyHeap L σ.heap, σ.live⟩, ?_, Or.inr ⟨ts, hO⟩⟩
      rw [heapStep, heq n, hs]
      rfl
    · refine ⟨⟨s', setLive σ.live (t.addr + 16) (some n)⟩, ?_, Or.inr (hO.of_taken ht hf (adjustedSize_spec hok hw.1).1 hT)⟩
      rw [heapStep, heq n, hs]
      rfl
  | free pv =>
    by_cases hpv : pv = 0
    · subst hpv
      have hsame : setLive σ.live 0 none = σ.live := by
        funext q
        by_cases hq : q = 0
        · rw [hq, setLive_self, h.live_zero]
        · exact setLive_ne hq
      refine ⟨⟨σ.heap, setLive σ.live 0 none⟩, rfl, ?_⟩
      rw [hsame]
      exact h
    · have hlive : (σ.live pv).isSome := by
        rcases hok with h0 | h0
        · exact absurd h0 hpv
        · exact h0
      obtain ⟨n, hn⟩ := Option.isSome_iff_exists.mp hlive
      rcases h with h | ⟨ts, hO⟩
      · rw [h.live_eq] at hn
        cases hn
      · obtain ⟨x, hx, rfl, hxo⟩ := hO.held pv n hn
        obtain ⟨s', ts', hs, hB, hC, hown, -⟩ := vPortFree_spec hO.blocks hO.counted hx (free_eq_false.mpr ⟨n, hxo⟩)
        refine ⟨⟨s', setLive σ.live (x.addr + 16) none⟩, ?_, Or.inr ⟨ts', hO.of_freed hx hB hC hown⟩⟩
        rw [heapStep, hs]
        rfl
  | write pv off v =>
    obtain ⟨n, hn, hoff⟩ := hok
    rcases h with h | ⟨ts, hO⟩
    · rw [h.live_eq] at hn
      cases hn
    · exact ⟨_, rfl, Or.inr ⟨ts, hO.of_write hn hoff⟩⟩

/-- The invariant holds in every state reached. -/
theorem heapWf_of_reaches {mem : Nat → Nat} (h : Reaches (heapStep L) HeapOk (HeapSys.init mem) σ) : HeapWf L σ := by
  refine h.invariant (HeapWf L) (Or.inl ⟨rfl, rfl, fun _ => rfl⟩) ?_
  intro s a s' hs hok hstep
  obtain ⟨s₁, hs₁, hwf⟩ := step_spec hs a hok
  rwa [Option.some.inj (hs₁.symm.trans hstep)] at hwf

/-- The words of an allocation are inside its block, behind the link. -/
theorem Owned.kept_held {s s' : HeapState} {live : Nat → Option Nat} {ts : List (Tile Nat)} (h : Owned L s live ts) {t : Tile Nat}
    (ht : t ∈ ts) (ho : t.owner = some n) (hk : Kept s s' t) : ∀ w, t.addr + 16 ≤ w → w < t.addr + 16 + n → s'.mem w = s.mem w := by
  intro w h1 h2
  have hb := h.held_bounds ht ho
  exact hk w (by omega) (by simp only [Tile.stop]; omega)

/-- The first request that fits in the heap is served at its first address. -/
theorem exists_first_malloc (L : HeapLayout) (mem : Nat → Nat) (h0 : 0 < n) (hn : n ≤ 16344) :
    ∃ σ, Reaches (heapStep L) HeapOk (HeapSys.init mem) σ ∧ σ.live = setLive (fun _ => none) (L.pucAlignedHeap + 16) (some n) := by
  have hf : Fresh (HeapSys.init mem) := ⟨rfl, rfl, fun _ => rfl⟩
  have hmax : n ≤ mallocMax := by
    rw [mallocMax, heapStructSize_eq]
    omega
  have hadj : 0 < adjustedSize n ∧ adjustedSize n ≤ 16360 := by
    rw [adjustedSize, if_pos h0]
    simp only
    split <;> rename_i h <;> simp only [add32, heapStructSize_eq, portByteAlignment_eq] at h ⊢ <;> omega
  rcases pvPortMalloc_spec (L := L) hf.owned hmax with ⟨hno, -⟩ | ⟨s', t, ht, -, -, hm, -⟩
  · exact absurd ⟨hadj.1, _, List.mem_singleton.mpr rfl, rfl, hadj.2⟩ hno
  · rw [List.mem_singleton.mp ht] at hm
    refine ⟨⟨s', setLive (fun _ => none) (L.pucAlignedHeap + 16) (some n)⟩, Reaches.next (.malloc n) Reaches.start hmax ?_, rfl⟩
    rw [heapStep, pvPortMalloc_fresh hf.end_eq, hm]
    rfl

/-- Freeing what is held leaves the pointer to nobody. -/
theorem live_of_free {pv : Nat} (hs : heapStep L σ (.free pv) = some σ') : σ'.live = setLive σ.live pv none := by
  rw [heapStep] at hs
  obtain ⟨s', -, rfl⟩ := Option.map_eq_some_iff.mp hs
  rfl

end

end SaymaFirmware
