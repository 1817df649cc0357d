import SaymaFirmware.Heap
import SaymaFirmware.Lib.Tiling

/-!
# The blocks of the heap

`Blocks L s ts` connects the allocator's words with a coalesced tiling of the heap: every tile's size stands in its link, the free
tiles are the free list in the order of their addresses, and the end marker closes it. The insertion of a block into the list is the
joining of a tile with its free neighbours (`insert_spec`).
-/

namespace SaymaFirmware

open Links Tiling

/-- The sizes of the configured build. -/
theorem heapStructSize_eq : heapStructSize = 16 := rfl
theorem heapMinimumBlockSize_eq : heapMinimumBlockSize = 32 := rfl
theorem xTotalHeapSize_eq : xTotalHeapSize = 16376 := rfl
theorem portByteAlignment_eq : portByteAlignment = 8 := rfl
theorem configTotalHeapSize_eq : configTotalHeapSize = 16384 := rfl
theorem sizeofXBlockLink_eq : sizeofXBlockLink = 8 := rfl

namespace HeapLayout

variable (L : HeapLayout)

/-- The heap starts at a multiple of eight. -/
theorem pucAlignedHeap_mod : L.pucAlignedHeap % 8 = 0 := by
  rw [pucAlignedHeap, portByteAlignment_eq]
  omega

/-- It starts within the first eight bytes of `ucHeap`. -/
theorem pucAlignedHeap_bounds : L.ucHeap < L.pucAlignedHeap ∧ L.pucAlignedHeap ≤ L.ucHeap + 8 := by
  rw [pucAlignedHeap, portByteAlignment_eq]
  omega

/-- What lies between its start and the marker at its end. -/
theorem pucHeapEnd_eq : L.pucHeapEnd = L.pucAlignedHeap + 16360 := by
  rw [pucHeapEnd, xTotalHeapSize_eq, heapStructSize_eq]
  omega

/-- The heap is below `2 ^ 32`, and the head of the list is not in it. -/
theorem bounds : L.pucHeapEnd + 8 ≤ L.ucHeap + 16384 ∧ L.ucHeap + 16384 < 2 ^ 32 ∧
    (L.xStart + 8 ≤ L.ucHeap ∨ L.ucHeap + 16384 ≤ L.xStart) := by
  have h1 := L.pucAlignedHeap_bounds
  refine ⟨?_, L.ucHeap_fits, L.xStart_apart⟩
  rw [pucHeapEnd_eq]
  omega

/-- An address where the allocator keeps a link. -/
def Node (b : Nat) : Prop := b = L.xStart ∨ (L.pucAlignedHeap ≤ b ∧ b ≤ L.pucHeapEnd ∧ b % 8 = 0)

/-- The head of the list is a node. -/
theorem node_start : L.Node L.xStart := Or.inl rfl

/-- So is the marker at the end. -/
theorem node_end : L.Node L.pucHeapEnd := by
  have h := L.pucAlignedHeap_mod
  have he := L.pucHeapEnd_eq
  exact Or.inr ⟨by omega, by omega, by omega⟩

/-- Links do not overlap. -/
theorem Node.add_four_ne {L : HeapLayout} {b c : Nat} (hb : L.Node b) (hc : L.Node c) : b + 4 ≠ c := by
  have h1 := L.pucAlignedHeap_bounds
  have h2 := L.bounds
  rcases hb with rfl | hb <;> rcases hc with rfl | hc <;> omega

/-- The head of the list is outside the heap. -/
theorem xStart_ne {b : Nat} (h1 : L.pucAlignedHeap ≤ b) (h2 : b ≤ L.pucHeapEnd) : b ≠ L.xStart := by
  have h3 := L.pucAlignedHeap_bounds
  have h4 := L.bounds
  omega

end HeapLayout

namespace HeapState

variable {L : HeapLayout} {s : HeapState} {b c v : Nat}

@[simp] theorem setNext_pxEnd : (s.setNext b v).pxEnd = s.pxEnd := rfl
@[simp] theorem setSize_pxEnd : (s.setSize b v).pxEnd = s.pxEnd := rfl
@[simp] theorem setNext_xFree : (s.setNext b v).xFreeBytesRemaining = s.xFreeBytesRemaining := rfl
@[simp] theorem setSize_xFree : (s.setSize b v).xFreeBytesRemaining = s.xFreeBytesRemaining := rfl

@[simp] theorem setNext_next_self : (s.setNext b v).pxNextFreeBlock b = v := if_pos rfl

@[simp] theorem setSize_size_self : (s.setSize b v).xBlockSize b = v := if_pos rfl

/-- A store to one link leaves those at other addresses. -/
theorem setNext_next_ne (h : c ≠ b) : (s.setNext b v).pxNextFreeBlock c = s.pxNextFreeBlock c := if_neg h

/-- So does a store to a size. -/
theorem setSize_size_ne (h : c ≠ b) : (s.setSize b v).xBlockSize c = s.xBlockSize c := if_neg (by omega)

/-- Links and sizes of nodes do not overlap. -/
theorem setNext_size (hb : L.Node b) (hc : L.Node c) : (s.setNext b v).xBlockSize c = s.xBlockSize c :=
  if_neg (hc.add_four_ne hb)

/-- Neither way round. -/
theorem setSize_next (hb : L.Node b) (hc : L.Node c) : (s.setSize b v).pxNextFreeBlock c = s.pxNextFreeBlock c :=
  if_neg (Ne.symm (hb.add_four_ne hc))

end HeapState

/-! ## The blocks -/

/-- The words of the heap are those of the tiling `ts`. -/
structure Blocks (L : HeapLayout) (s : HeapState) (ts : List (Tile Nat)) : Prop where
  tiles : Tiles L.pucAlignedHeap ts L.pucHeapEnd
  coalesced : Coalesced ts
  aligned : ∀ t ∈ ts, t.size % 8 = 0
  sizes : ∀ t ∈ ts, s.xBlockSize t.addr = t.size
  linked : Linked s.pxNextFreeBlock (L.xStart :: frees ts ++ [L.pucHeapEnd])
  start_size : s.xBlockSize L.xStart = 0
  end_size : s.xBlockSize L.pucHeapEnd = 0
  end_next : s.pxNextFreeBlock L.pucHeapEnd = 0
  end_eq : s.pxEnd = L.pucHeapEnd

namespace Blocks

variable {L : HeapLayout} {s : HeapState} {ts : List (Tile Nat)} {t : Tile Nat}

/-- A block is aligned, holds at least a link, and lies in the heap. -/
theorem mem_bounds (h : Blocks L s ts) (ht : t ∈ ts) :
    L.pucAlignedHeap ≤ t.addr ∧ t.addr + t.size ≤ L.pucHeapEnd ∧ 8 ≤ t.size ∧ t.addr % 8 = 0 := by
  obtain ⟨h1, h2, h3⟩ := h.tiles.bounds ht
  have h4 := h.aligned t ht
  have h5 := h.tiles.addr_mod L.pucAlignedHeap_mod h.aligned t ht
  simp only [Tile.stop] at h3
  omega

/-- Every block is a node. -/
theorem node (h : Blocks L s ts) (ht : t ∈ ts) : L.Node t.addr := by
  obtain ⟨h1, h2, h3, h4⟩ := h.mem_bounds ht
  exact Or.inr ⟨h1, by omega, h4⟩

/-- The addresses of the free list. -/
theorem mem_frees_bounds (h : Blocks L s ts) {b : Nat} (hb : b ∈ frees ts) :
    L.pucAlignedHeap ≤ b ∧ b < L.pucHeapEnd ∧ L.Node b := by
  obtain ⟨t, ht, -, rfl⟩ := mem_frees.mp hb
  obtain ⟨h1, h2, h3, -⟩ := h.mem_bounds ht
  exact ⟨h1, by omega, h.node ht⟩

/-- The free list is shorter than the fuel. -/
theorem frees_length_lt (h : Blocks L s ts) : (frees ts).length < heapFuel := by
  have h1 : (frees ts).length ≤ ts.length := by
    rw [frees, List.length_map]
    exact List.length_filter_le _ _
  have h2 := h.tiles.length_le
  have h3 := L.pucHeapEnd_eq
  rw [heapFuel, configTotalHeapSize_eq]
  omega

end Blocks

/-! ## Inserting a block -/

/-- What an insertion writes: the link of the block `y` and the pointer of the node `it` in front of it. -/
structure Inserted (L : HeapLayout) (s s' : HeapState) (it y n size : Nat) : Prop where
  next_self : s'.pxNextFreeBlock y = n
  next_front : it ≠ y → s'.pxNextFreeBlock it = y
  next_other : ∀ b, L.Node b → b ≠ y → b ≠ it → s'.pxNextFreeBlock b = s.pxNextFreeBlock b
  size_self : s'.xBlockSize y = size
  size_other : ∀ b, L.Node b → b ≠ y → s'.xBlockSize b = s.xBlockSize b
  words : ∀ w, w ≠ y → w ≠ y + 4 → w ≠ it → s'.mem w = s.mem w
  end_eq : s'.pxEnd = s.pxEnd
  free_eq : s'.xFreeBytesRemaining = s.xFreeBytesRemaining

/-- Writing the link of a node and the pointer in front of it. -/
theorem inserted_writes {L : HeapLayout} {s : HeapState} {it y : Nat} (hit : L.Node it) (hy : L.Node y) (n size : Nat) :
    Inserted L s (if it ≠ y then ((s.setSize y size).setNext y n).setNext it y else (s.setSize y size).setNext y n) it y n size := by
  have hne := hy.add_four_ne hy
  split
  · rename_i h
    refine ⟨?_, fun _ => HeapState.setNext_next_self, ?_, ?_, ?_, ?_, rfl, rfl⟩
    · rw [HeapState.setNext_next_ne (Ne.symm h), HeapState.setNext_next_self]
    · intro b hb h1 h2
      rw [HeapState.setNext_next_ne h2, HeapState.setNext_next_ne h1, HeapState.setSize_next hy hb]
    · rw [HeapState.setNext_size hit hy, HeapState.setNext_size hy hy, HeapState.setSize_size_self]
    · intro b hb h1
      rw [HeapState.setNext_size hit hb, HeapState.setNext_size hy hb, HeapState.setSize_size_ne h1]
    · intro w h1 h2 h3
      simp [HeapState.setNext, HeapState.setSize, HeapState.poke, h1, h2, h3]
  · refine ⟨HeapState.setNext_next_self, fun h => absurd h ‹_›, ?_, ?_, ?_, ?_, rfl, rfl⟩
    · intro b hb h1 _
      rw [HeapState.setNext_next_ne h1, HeapState.setSize_next hy hb]
    · rw [HeapState.setNext_size hy hy, HeapState.setSize_size_self]
    · intro b hb h1
      rw [HeapState.setNext_size hy hb, HeapState.setSize_size_ne h1]
    · intro w h1 h2 h3
      simp [HeapState.setNext, HeapState.setSize, HeapState.poke, h1, h2]

namespace Inserted

variable {L : HeapLayout} {s s₁ s' : HeapState} {it y n size : Nat}

/-- An insertion into a state that differs from `s` in the size of the block only. -/
theorem of_setSize {v : Nat} (hy : L.Node y) (h : Inserted L (s.setSize y v) s' it y n size) : Inserted L s s' it y n size where
  next_self := h.next_self
  next_front := h.next_front
  next_other b hb h1 h2 := by rw [h.next_other b hb h1 h2, HeapState.setSize_next hy hb]
  size_self := h.size_self
  size_other b hb h1 := by rw [h.size_other b hb h1, HeapState.setSize_size_ne h1]
  words w h1 h2 h3 := by rw [h.words w h1 h2 h3]; exact if_neg h2
  end_eq := h.end_eq
  free_eq := h.free_eq

end Inserted

/-- A size that is written back. -/
theorem HeapState.setSize_self (s : HeapState) (b : Nat) : s.setSize b (s.xBlockSize b) = s := by
  have hmem : (fun i => if i = b + 4 then s.mem (b + 4) else s.mem i) = s.mem := by
    funext i
    split
    · rename_i h; rw [h]
    · rfl
  rw [HeapState.setSize, HeapState.poke, HeapState.xBlockSize, hmem]

section

variable {L : HeapLayout} {s : HeapState} {it y : Nat} (hit : L.Node it) (hy : L.Node y)

include hit hy

/-- The block behind is adjacent, and it is not the end marker. -/
theorem insertBefore_merge (hc : L.Node (s.pxNextFreeBlock it)) (h1 : add32 y (s.xBlockSize y) = s.pxNextFreeBlock it)
    (h2 : s.pxNextFreeBlock it ≠ s.pxEnd) :
    Inserted L s (insertBefore s it y) it y (s.pxNextFreeBlock (s.pxNextFreeBlock it))
      (add32 (s.xBlockSize y) (s.xBlockSize (s.pxNextFreeBlock it))) := by
  simp only [insertBefore, h1, if_pos h2, if_true]
  rw [HeapState.setSize_next hy hit, HeapState.setSize_next hy hc]
  exact inserted_writes hit hy _ _

/-- The block behind is not adjacent, or it is the end marker. -/
theorem insertBefore_apart (h : add32 y (s.xBlockSize y) = s.pxNextFreeBlock it → s.pxNextFreeBlock it = s.pxEnd) :
    Inserted L s (insertBefore s it y) it y (s.pxNextFreeBlock it) (s.xBlockSize y) := by
  have hw := inserted_writes (s := s) hit hy (s.pxNextFreeBlock it) (s.xBlockSize y)
  rw [HeapState.setSize_self] at hw
  rw [insertBefore]
  by_cases h1 : add32 y (s.xBlockSize y) = s.pxNextFreeBlock it
  · simp only [h1, ← h h1, ne_eq, not_true_eq_false, if_true, if_false]
    exact hw
  · simp only [h1, if_false]
    exact hw

end

/-! ### The node in front -/

/-- The node of the free list in front of what follows the tiles `xs`. -/
def front (L : HeapLayout) (xs : List (Tile Nat)) : Nat := (L.xStart :: frees xs).getLast (List.cons_ne_nil _ _)

/-- The list in front of a place, cut before its last node. -/
theorem dropLast_append_front (L : HeapLayout) (xs : List (Tile Nat)) :
    (L.xStart :: frees xs).dropLast ++ [front L xs] = L.xStart :: frees xs := List.dropLast_append_getLast _

/-- The node in front of a place is the head or a free block. -/
theorem front_mem (L : HeapLayout) (xs : List (Tile Nat)) : front L xs = L.xStart ∨ front L xs ∈ frees xs :=
  List.mem_cons.mp (List.getLast_mem _)

/-- Behind a free block it is that block. -/
theorem front_concat_free (L : HeapLayout) (xs : List (Tile Nat)) {t : Tile Nat} (ht : t.free = true) :
    front L (xs ++ [t]) = t.addr := by
  simp [front, frees, ht]

namespace Blocks

variable {L : HeapLayout} {s : HeapState} {xs ys : List (Tile Nat)} {x t : Tile Nat}

/-- In any case it is a node. -/
theorem node_front (h : Blocks L s (xs ++ ys)) : L.Node (front L xs) := by
  rcases front_mem L xs with he | hm
  · rw [he]; exact L.node_start
  · exact (h.mem_frees_bounds (by rw [frees_append]; exact List.mem_append_left _ hm)).2.2

/-- The node in front of a tile is the list's head or a block before the tile. -/
theorem front_ne (h : Blocks L s (xs ++ x :: ys)) {b : Nat} (h1 : x.addr ≤ b) (h2 : b ≤ L.pucHeapEnd) : b ≠ front L xs := by
  have hx := (h.mem_bounds (t := x) (by simp)).1
  rcases front_mem L xs with he | hm
  · rw [he]; exact L.xStart_ne (by omega) h2
  · obtain ⟨t, ht, -, he⟩ := mem_frees.mp hm
    have hstop := h.tiles.stop_le_of_mem_left ht
    have hpos := (h.mem_bounds (t := t) (by simp [ht])).2.2.1
    simp only [Tile.stop] at hstop
    omega

/-- The head and the free blocks are different nodes. -/
theorem nodup (h : Blocks L s xs) : (L.xStart :: frees xs).Nodup := by
  refine List.nodup_cons.mpr ⟨?_, h.tiles.frees_sorted.imp Nat.ne_of_lt⟩
  intro hm
  obtain ⟨h1, h2, -⟩ := h.mem_frees_bounds hm
  exact L.xStart_ne h1 (Nat.le_of_lt h2) rfl

/-- The free list around an allocated block. -/
theorem linked_owned (h : Blocks L s (xs ++ x :: ys)) (hx : x.free = false) :
    Linked s.pxNextFreeBlock ((L.xStart :: frees xs) ++ (frees ys ++ [L.pucHeapEnd])) := by
  have hl := h.linked
  rwa [frees_append, frees_cons_owned hx, ← List.cons_append, List.append_assoc] at hl

/-- The free list around a free block. -/
theorem linked_free (h : Blocks L s (xs ++ x :: ys)) (hx : x.free = true) :
    Linked s.pxNextFreeBlock ((L.xStart :: frees xs) ++ x.addr :: (frees ys ++ [L.pucHeapEnd])) := by
  have hl := h.linked
  rwa [frees_append, frees_cons_free hx, ← List.cons_append, List.append_assoc] at hl

/-- The nodes in front of the front node. -/
theorem ne_front_of_mem_dropLast (h : Blocks L s (xs ++ ys)) {b : Nat} (hb : b ∈ (L.xStart :: frees xs).dropLast) :
    b ≠ front L xs := by
  have hn := h.nodup
  rw [frees_append, ← List.cons_append, ← dropLast_append_front] at hn
  rintro rfl
  exact (List.nodup_append.mp (List.nodup_append.mp hn).1).2.2 _ hb _ List.mem_cons_self rfl

end Blocks

end SaymaFirmware
