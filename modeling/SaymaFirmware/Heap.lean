import SaymaFirmware.Lib.Links
import SaymaFirmware.Lib.Machine
import SaymaFirmware.Lib.Word32

/-!
# The kernel's heap: `heap_4.c`

The allocator behind `pvPortMalloc` and `vPortFree`, from which the kernel takes its task stacks, queues and semaphores. Memory is
seen as the 32-bit words the allocator reads and writes: an `xBlockLink` at the address `b` is the word at `b` (`pxNextFreeBlock`) and
the one at `b + 4` (`xBlockSize`). `size_t` and pointers wrap at `2 ^ 32`.

Both loops of the source walk the free list and are given fuel; `none` is a walk that does not end. The scheduler is suspended inside
both functions, so a call is one step of the system. `configASSERT` is empty in this build, and the hook for a failed allocation is
left out.
-/

namespace SaymaFirmware

def configTotalHeapSize : Nat := 16 * 1024
def portByteAlignment : Nat := 8

/-- `sizeof( xBlockLink )`. -/
def sizeofXBlockLink : Nat := 8

def heapStructSize : Nat := sizeofXBlockLink + portByteAlignment - sizeofXBlockLink % portByteAlignment
def heapMinimumBlockSize : Nat := heapStructSize * 2
def configAdjustedHeapSize : Nat := configTotalHeapSize - portByteAlignment
def xTotalHeapSize : Nat := configAdjustedHeapSize - configAdjustedHeapSize % portByteAlignment

/-- Where the linker puts the allocator's two static objects. -/
structure HeapLayout where
  ucHeap : Nat
  xStart : Nat
  ucHeap_pos : 0 < ucHeap
  ucHeap_fits : ucHeap + configTotalHeapSize < 2 ^ 32
  xStart_aligned : xStart % 4 = 0
  xStart_fits : xStart + sizeofXBlockLink < 2 ^ 32
  xStart_apart : xStart + sizeofXBlockLink ≤ ucHeap ∨ ucHeap + configTotalHeapSize ≤ xStart

/-- The allocator's memory, its pointer to the end marker and its count of free bytes. -/
structure HeapState where
  mem : Nat → Nat
  pxEnd : Nat
  xFreeBytesRemaining : Nat

namespace HeapState

def pxNextFreeBlock (s : HeapState) (b : Nat) : Nat := s.mem b
def xBlockSize (s : HeapState) (b : Nat) : Nat := s.mem (b + 4)

/-- Write a word. -/
def poke (s : HeapState) (w v : Nat) : HeapState := { s with mem := fun i => if i = w then v else s.mem i }

def setNext (s : HeapState) (b v : Nat) : HeapState := s.poke b v
def setSize (s : HeapState) (b v : Nat) : HeapState := s.poke (b + 4) v

end HeapState

/-- `&ucHeap[ portBYTE_ALIGNMENT ]`, rounded down to the alignment. -/
def HeapLayout.pucAlignedHeap (L : HeapLayout) : Nat :=
  L.ucHeap + portByteAlignment - (L.ucHeap + portByteAlignment) % portByteAlignment

/-- The end marker's address, set by `prvHeapInit`. -/
def HeapLayout.pucHeapEnd (L : HeapLayout) : Nat := L.pucAlignedHeap + xTotalHeapSize - heapStructSize

def prvHeapInit (L : HeapLayout) (s : HeapState) : HeapState :=
  let s := (s.setNext L.xStart L.pucAlignedHeap).setSize L.xStart 0
  let s := { s with pxEnd := L.pucHeapEnd }
  let s := (s.setSize s.pxEnd 0).setNext s.pxEnd 0
  let s := (s.setSize L.pucAlignedHeap (xTotalHeapSize - heapStructSize)).setNext L.pucAlignedHeap s.pxEnd
  { s with xFreeBytesRemaining := sub32 s.xFreeBytesRemaining heapStructSize }

/-- The fuel of the two loops: the free list never has as many nodes as the heap has bytes. -/
def heapFuel : Nat := configTotalHeapSize

/-- The second half of `prvInsertBlockIntoFreeList`: merge with the block behind, and link the block. -/
def insertBefore (s : HeapState) (pxIterator pxBlockToInsert : Nat) : HeapState :=
  let pxNext := s.pxNextFreeBlock pxIterator
  let s :=
    if add32 pxBlockToInsert (s.xBlockSize pxBlockToInsert) = pxNext then
      if pxNext ≠ s.pxEnd then
        let s := s.setSize pxBlockToInsert (add32 (s.xBlockSize pxBlockToInsert) (s.xBlockSize pxNext))
        s.setNext pxBlockToInsert (s.pxNextFreeBlock (s.pxNextFreeBlock pxIterator))
      else s.setNext pxBlockToInsert s.pxEnd
    else s.setNext pxBlockToInsert pxNext
  -- a block merged with the one in front is already linked
  if pxIterator ≠ pxBlockToInsert then s.setNext pxIterator pxBlockToInsert else s

/-- `prvInsertBlockIntoFreeList` after its loop, which has ended with `pxIterator`: merge with the block in front, then go on. -/
def insertAfter (s : HeapState) (pxIterator pxBlockToInsert : Nat) : HeapState :=
  if add32 pxIterator (s.xBlockSize pxIterator) = pxBlockToInsert then
    insertBefore (s.setSize pxIterator (add32 (s.xBlockSize pxIterator) (s.xBlockSize pxBlockToInsert))) pxIterator pxIterator
  else insertBefore s pxIterator pxBlockToInsert

def prvInsertBlockIntoFreeList (L : HeapLayout) (s : HeapState) (pxBlockToInsert : Nat) : Option HeapState :=
  (Links.walk s.pxNextFreeBlock (fun b => decide (b < pxBlockToInsert)) heapFuel L.xStart).map fun pxIterator =>
    insertAfter s pxIterator pxBlockToInsert

/-- The block size `pvPortMalloc` looks for: room for the link, rounded up to the alignment. -/
def adjustedSize (xWantedSize : Nat) : Nat :=
  if 0 < xWantedSize then
    let w := add32 xWantedSize heapStructSize
    if w % portByteAlignment ≠ 0 then add32 w (portByteAlignment - w % portByteAlignment) else w
  else xWantedSize

/-- What `pvPortMalloc` does with the block it has found behind `pxPreviousBlock`: take it out of the list, and give back what it
does not need. -/
def takeBlock (L : HeapLayout) (s : HeapState) (pxPreviousBlock pxBlock xWantedSize : Nat) : Option (HeapState × Nat) :=
  let pvReturn := add32 (s.pxNextFreeBlock pxPreviousBlock) heapStructSize
  let s := s.setNext pxPreviousBlock (s.pxNextFreeBlock pxBlock)
  let rest := sub32 (s.xBlockSize pxBlock) xWantedSize
  let split :=
    if heapMinimumBlockSize < rest then
      let pxNewBlockLink := add32 pxBlock xWantedSize
      let s := s.setSize pxNewBlockLink rest
      let s := s.setSize pxBlock xWantedSize
      prvInsertBlockIntoFreeList L s pxNewBlockLink
    else some s
  split.map fun s => ({ s with xFreeBytesRemaining := sub32 s.xFreeBytesRemaining (s.xBlockSize pxBlock) }, pvReturn)

/-- The call returns the new state and `pvReturn`, which is 0 for `NULL`. In the loop `pxBlock` is always the block that
`pxPreviousBlock` points to. -/
def pvPortMalloc (L : HeapLayout) (s : HeapState) (xWantedSize : Nat) : Option (HeapState × Nat) :=
  let s := if s.pxEnd = 0 then prvHeapInit L s else s
  let xWantedSize := adjustedSize xWantedSize
  if 0 < xWantedSize ∧ xWantedSize < xTotalHeapSize then
    (Links.walk s.pxNextFreeBlock (fun b => decide (s.xBlockSize b < xWantedSize) && decide (s.pxNextFreeBlock b ≠ 0)) heapFuel
        L.xStart).bind fun pxPreviousBlock =>
      let pxBlock := s.pxNextFreeBlock pxPreviousBlock
      if pxBlock ≠ s.pxEnd then takeBlock L s pxPreviousBlock pxBlock xWantedSize else some (s, 0)
  else some (s, 0)

def vPortFree (L : HeapLayout) (s : HeapState) (pv : Nat) : Option HeapState :=
  if pv ≠ 0 then
    let pxLink := sub32 pv heapStructSize
    let s := { s with xFreeBytesRemaining := add32 s.xFreeBytesRemaining (s.xBlockSize pxLink) }
    prvInsertBlockIntoFreeList L s pxLink
  else some s

def xPortGetFreeHeapSize (s : HeapState) : Nat := s.xFreeBytesRemaining

/-! ## The heap and its clients -/

/-- The heap, and what its clients hold: the size asked for at each pointer that has been returned and not yet freed. A pointer returned
while it is held would take the place of the first one in `live`; that none is has to be shown. -/
structure HeapSys where
  heap : HeapState
  live : Nat → Option Nat

/-- What a client does: allocate, free, or write the word around the byte `off` of an allocation. -/
inductive HeapAct where
  | malloc (xWantedSize : Nat)
  | free (pv : Nat)
  | write (pv off v : Nat)

/-- The statics before the first call, over any memory. -/
def HeapSys.init (mem : Nat → Nat) : HeapSys where
  heap := ⟨mem, 0, xTotalHeapSize⟩
  live := fun _ => none

/-- Change what is held at one pointer. -/
def setLive (live : Nat → Option Nat) (pv : Nat) (n : Option Nat) : Nat → Option Nat := fun q => if q = pv then n else live q

def heapStep (L : HeapLayout) (σ : HeapSys) : HeapAct → Option HeapSys
  | .malloc n => (pvPortMalloc L σ.heap n).map fun r => ⟨r.1, if r.2 = 0 then σ.live else setLive σ.live r.2 (some n)⟩
  | .free pv => (vPortFree L σ.heap pv).map fun s => ⟨s, setLive σ.live pv none⟩
  | .write pv off v => some ⟨σ.heap.poke (pv + off - (pv + off) % 4) v, σ.live⟩

/-- Above this size, what `pvPortMalloc` adds to it wraps around to a small one; up to it the sum is no smaller, or it is zero, which is
refused. -/
def mallocMax : Nat := 2 ^ 32 - heapStructSize

/-- How the clients use the allocator: no request is above that size, only what is held (or `NULL`) is freed, and a write stays inside of
what was asked for. -/
def HeapOk (σ : HeapSys) : HeapAct → Prop
  | .malloc n => n ≤ mallocMax
  | .free pv => pv = 0 ∨ (σ.live pv).isSome
  | .write pv off _ => ∃ n, σ.live pv = some n ∧ off < n

end SaymaFirmware
