import SaymaFirmware.Lemmas.RxFrame
import SaymaFirmware.Lemmas.RxRing

/-!
# What the receive path hands over

The trace of a run read as five lists, what they should be for the frames that have arrived, and the invariant that they are, kept by
every step of a run whose frames are whole.
-/

namespace SaymaFirmware

/-! ## Frames -/

/-- A frame that fills one descriptor: LAST is set, the size field is its length less one, and the length with the CRC is between 18
and `EMAC_ETH_MAX_FLEN`. -/
def RxFrame.whole (f : RxFrame) : Bool :=
  f.info &&& emacRinfoLastFlag != 0 && (f.info &&& emacRinfoSize).toNat + 1 == f.bytes.length &&
    decide (18 ≤ f.bytes.length) && decide (f.bytes.length ≤ emacEthMaxFlen.toNat)

/-- A frame without its CRC. -/
def RxFrame.data (f : RxFrame) : List UInt8 := f.bytes.take (f.bytes.length - 4)

/-- The EtherType of a frame. -/
def RxFrame.type (f : RxFrame) : UInt16 := etherType (f.bytes.getD 12 0) (f.bytes.getD 13 0)

/-- A descriptor holds a frame. -/
def RxSlot.Holds (slot : RxSlot) (f : RxFrame) : Prop :=
  slot.info = f.info ∧ ∀ i < f.bytes.length, slot.mem i = f.bytes.getD i 0

theorem RxSlot.store_holds (slot : RxSlot) (f : RxFrame) : (slot.store f).Holds f := by
  refine ⟨rfl, ?_⟩
  intro i hi
  simp only [RxSlot.store, List.getD_eq_getElem _ _ hi]

/-! ## The trace -/

/-- What was passed to `netif->input`, with whether it returned `ERR_OK`. -/
def inputs (tr : List RxEvent) : List (List UInt8 × Bool) := tr.filterMap fun | .input _ bytes ok => some (bytes, ok) | _ => none
/-- Which calls of `pbuf_alloc` succeeded. -/
def allocResults (tr : List RxEvent) : List Bool := tr.filterMap fun | .alloc _ _ p => some p.isSome | _ => none
/-- The chains allocated. -/
def allocated (tr : List RxEvent) : List Nat := tr.filterMap fun | .alloc _ _ p => p | _ => none
/-- The chains `netif->input` took over. -/
def accepted (tr : List RxEvent) : List Nat := tr.filterMap fun | .input p _ true => some p | _ => none
/-- The chains freed. -/
def freed (tr : List RxEvent) : List Nat := tr.filterMap fun | .free p => some p | _ => none

@[simp] theorem inputs_append (tr tr' : List RxEvent) : inputs (tr ++ tr') = inputs tr ++ inputs tr' :=
  List.filterMap_append

@[simp] theorem allocResults_append (tr tr' : List RxEvent) :
    allocResults (tr ++ tr') = allocResults tr ++ allocResults tr' :=
  List.filterMap_append

@[simp] theorem allocated_append (tr tr' : List RxEvent) : allocated (tr ++ tr') = allocated tr ++ allocated tr' :=
  List.filterMap_append

@[simp] theorem accepted_append (tr tr' : List RxEvent) : accepted (tr ++ tr') = accepted tr ++ accepted tr' :=
  List.filterMap_append

@[simp] theorem freed_append (tr tr' : List RxEvent) : freed (tr ++ tr') = freed tr ++ freed tr' :=
  List.filterMap_append

/-- The `switch` allocates nothing, passes the chain up if its type is right, and leaves it with exactly one owner. -/
theorem deliver_lists (o : RxOracle) (p : Nat) (pkt : Packet) :
    allocResults (deliver o p pkt) = [] ∧ allocated (deliver o p pkt) = [] ∧
    inputs (deliver o p pkt) =
      (if ipOrArp (etherType (pkt.headerCell 12).byte (pkt.headerCell 13).byte) then [(pkt.payload, o.accepts)] else []) ∧
    accepted (deliver o p pkt) ++ freed (deliver o p pkt) = [p] := by
  unfold deliver
  split
  · cases o.accepts <;> exact ⟨rfl, rfl, rfl, rfl⟩
  · exact ⟨rfl, rfl, rfl, rfl⟩

/-! ## What should happen to the frames -/

/-- The pool has a chain for the frame without its CRC. -/
def hasChain (f : RxFrame) (o : RxOracle) : Bool := (o.alloc (UInt16.ofNat f.data.length)).isSome

/-- The frames handled for which the pool had a chain, when it was `asked` for the first frames one after another. -/
def carried (frames : List RxFrame) (asked : List RxOracle) : List RxFrame :=
  ((frames.zip asked).filter fun x => hasChain x.1 x.2).map Prod.fst

/-- What should go up for them: the ones of type IP or ARP, without their CRC, each with the answer of the stack it was `offered` to. -/
def handedUp (frames : List RxFrame) (offered : List RxOracle) : List (List UInt8 × Bool) :=
  ((frames.zip offered).filter fun x => ipOrArp x.1.type).map fun x => (x.1.data, x.2.accepts)

/-- A frame that has not had its turn changes nothing. -/
theorem zip_arrive {α β : Type} (l l' : List α) {xs : List β} (h : xs.length ≤ l.length) : (l ++ l').zip xs = l.zip xs := by
  induction l generalizing xs with
  | nil =>
    obtain rfl : xs = [] := by simpa using h
    rw [List.zip_nil_right, List.zip_nil_right]
  | cons a l ih =>
    cases xs with
    | nil => rw [List.zip_nil_right, List.zip_nil_right]
    | cons x xs => rw [List.cons_append, List.zip_cons_cons, List.zip_cons_cons, ih (by simpa using h)]

/-- The next frame has its turn. -/
theorem zip_snoc {α β : Type} {l : List α} {a : α} {xs : List β} (h : l[xs.length]? = some a) (x : β) :
    l.zip (xs ++ [x]) = l.zip xs ++ [(a, x)] := by
  induction xs generalizing l with
  | nil =>
    cases l with
    | nil => simp at h
    | cons b l =>
      obtain rfl : b = a := by simpa using h
      simp
  | cons y xs ih =>
    cases l with
    | nil => simp at h
    | cons b l => rw [List.cons_append, List.zip_cons_cons, List.zip_cons_cons, List.cons_append, ih (by simpa using h)]

theorem carried_arrive {frames : List RxFrame} {asked : List RxOracle} (h : asked.length ≤ frames.length) (f : RxFrame) :
    carried (frames ++ [f]) asked = carried frames asked := by
  rw [carried, zip_arrive _ _ h, carried]

theorem carried_snoc {frames : List RxFrame} {asked : List RxOracle} {f : RxFrame} (h : frames[asked.length]? = some f) (o : RxOracle) :
    carried frames (asked ++ [o]) = carried frames asked ++ if hasChain f o then [f] else [] := by
  rw [carried, zip_snoc h, List.filter_append, List.map_append, carried]
  cases hc : hasChain f o <;> simp [hc]

theorem handedUp_snoc {frames : List RxFrame} {offered : List RxOracle} (h : offered.length = frames.length) (f : RxFrame) (o : RxOracle) :
    handedUp (frames ++ [f]) (offered ++ [o]) = handedUp frames offered ++ if ipOrArp f.type then [(f.data, o.accepts)] else [] := by
  rw [handedUp, List.zip_append h.symm, List.filter_append, List.map_append, handedUp]
  cases ht : ipOrArp f.type <;> simp [ht]

/-! ## The invariant -/

/-- The trace `tr` of a run that has handled `r` frames and allocated `n` chains. -/
structure Handled (arrived : List RxFrame) (asked offered : List RxOracle) (n r : Nat) (tr : List RxEvent) : Prop where
  turns : asked.length = r
  results : allocResults tr = (arrived.zip asked).map fun x => hasChain x.1 x.2
  count : n = (carried arrived asked).length
  offers : offered.length = (carried arrived asked).length
  up : inputs tr = handedUp (carried arrived asked) offered
  chains : allocated tr = List.range n
  owned : ∀ p, (accepted tr).count p + (freed tr).count p = if p < n then 1 else 0

/-- The trace when the handler has filled chain `p` from the frame `f` and not yet decided what to do with it. -/
structure Delivering (arrived : List RxFrame) (asked offered : List RxOracle) (p r : Nat) (f : RxFrame) (pkt : Packet) (tr : List RxEvent) :
    Prop where
  turn : ∃ before o, asked = before ++ [o] ∧ hasChain f o = true ∧ before.length = r ∧
    allocResults tr = ((arrived.zip before).map fun x => hasChain x.1 x.2) ++ [true] ∧ p = (carried arrived before).length ∧
    offered.length = (carried arrived before).length ∧ inputs tr = handedUp (carried arrived before) offered
  chains : allocated tr = List.range (p + 1)
  owned : ∀ q, (accepted tr).count q + (freed tr).count q = if q < p then 1 else 0
  payload : pkt.payload = f.data
  type : etherType (pkt.headerCell 12).byte (pkt.headerCell 13).byte = f.type

/-- What the trace says at each point of the handler. -/
def TraceOk (s : RxState) : Prop :=
  match s.pc with
  | .deliver p pkt => s.pbufs = p + 1 ∧
      ∃ f, s.arrived[releases s.trace]? = some f ∧ Delivering s.arrived s.asked s.offered p (releases s.trace) f pkt s.trace
  | .release => Handled s.arrived s.asked s.offered s.pbufs (releases s.trace + 1) s.trace
  | _ => Handled s.arrived s.asked s.offered s.pbufs (releases s.trace) s.trace

/-- The invariant of the receive path: the frames are whole, each frame not yet released stands in its descriptor, and the trace is
that of the frames handled. -/
structure RxContent (s : RxState) : Prop where
  whole : ∀ f ∈ s.arrived, f.whole = true
  slots : ∀ k f, releases s.trace ≤ k → s.arrived[k]? = some f → (s.hw.slots (k % 3)).Holds f
  trace : TraceOk s

namespace RxContent

variable {s s' : RxState} {a : RxAct}

theorem init (mem : Nat → Nat → UInt8) : RxContent (rxInit mem) :=
  ⟨by simp [rxInit], by simp [rxInit], ⟨rfl, rfl, rfl, rfl, rfl, rfl, by simp [rxInit, accepted, freed]⟩⟩

/-- The frame the handler is at work on stands in the descriptor at `RxConsumeIndex`. -/
theorem current (h : RxContent s) (hring : RxRing s) (hpc : s.pc.inService = true) :
    ∃ f, s.arrived[releases s.trace]? = some f ∧ f.whole = true ∧ s.hw.current.Holds f := by
  have hlt := hring.busy hpc
  refine ⟨s.arrived[releases s.trace], List.getElem?_eq_getElem hlt, h.whole _ (List.getElem_mem hlt), ?_⟩
  rw [RxHw.current, hring.consume]
  exact h.slots _ _ (Nat.le_refl _) (List.getElem?_eq_getElem hlt)

end RxContent

/-! ## A whole frame through `prvLowLevelInput` -/

section WholeFrame

variable {h : RxHw} {f : RxFrame} (hw : f.whole = true) (hf : h.current.Holds f)

include hw hf

theorem frameLength_of_whole : frameLength h = f.bytes.length ∧ 18 ≤ f.bytes.length := by
  simp only [RxFrame.whole, Bool.and_eq_true, beq_iff_eq, decide_eq_true_eq] at hw
  refine ⟨?_, hw.1.2⟩
  rw [frameLength, RxHw.emacGetReceiveDataSize, hf.1, hw.1.1.2]

theorem last_of_whole : h.emacCheckReceiveDataStatus emacRinfoLastFlag = true := by
  simp only [RxFrame.whole, Bool.and_eq_true] at hw
  rw [RxHw.emacCheckReceiveDataStatus, hf.1]
  exact hw.1.1.1

/-- The chain filled from it holds its bytes without the CRC, and its type. -/
theorem filled_of_whole (c : PbufChain (ulDataLength h).toUInt16.toNat) :
    (c.filled h.emacNextPacketToRead).payload = f.data ∧
    etherType ((c.filled h.emacNextPacketToRead).headerCell 12).byte
      ((c.filled h.emacNextPacketToRead).headerCell 13).byte = f.type := by
  obtain ⟨hlen, h18⟩ := frameLength_of_whole hw hf
  have hreq := (request_eq (by omega : 4 ≤ frameLength h)).2
  have hmem : ∀ i < f.bytes.length, (h.emacNextPacketToRead i).byte = f.bytes.getD i 0 := fun i hi => hf.2 i hi
  constructor
  · rw [c.filled_payload, hreq, hlen, RxFrame.data]
    apply List.ext_getElem
    · simp
    · intro i h1 h2
      simp only [List.length_map, List.length_range] at h1
      rw [List.getElem_map, List.getElem_range, hmem i (by omega), List.getElem_take, List.getD_eq_getElem _ _ (by omega)]
  · have hhead := c.header
    rw [(c.headerCell_filled _ (by decide : 12 < 14)).1 (by omega), (c.headerCell_filled _ (by decide : 13 < 14)).1 (by omega),
      hmem 12 (by omega), hmem 13 (by omega), RxFrame.type]

/-- `prvLowLevelInput` on it asks once for a chain of the length of its data, and fills the one it gets. -/
theorem prvLowLevelInput_of_whole (o : RxOracle) (p : Nat) :
    (hasChain f o = false ∧ ∃ n length, prvLowLevelInput h o p = ([.alloc n length none], none)) ∨
    (hasChain f o = true ∧ ∃ n length pkt, prvLowLevelInput h o p = ([.alloc n length (some p)], some pkt) ∧ pkt.payload = f.data ∧
      etherType (pkt.headerCell 12).byte (pkt.headerCell 13).byte = f.type) := by
  obtain ⟨hlen, h18⟩ := frameLength_of_whole hw hf
  have hpos : ulDataLength h > 0 := (ulDataLength_pos_iff (by omega)).mpr (by omega)
  have hdata : f.data.length = frameLength h - 4 := by
    rw [RxFrame.data, List.length_take, hlen]
    omega
  have hreq : hasChain f o = (o.alloc (ulDataLength h).toUInt16).isSome := by
    rw [hasChain, hdata, ← (request_eq (by omega : 4 ≤ frameLength h)).1]
  rw [hreq]
  unfold prvLowLevelInput
  rw [if_pos hpos]
  cases o.alloc (ulDataLength h).toUInt16 with
  | none => exact Or.inl ⟨rfl, _, _, rfl⟩
  | some c => exact Or.inr ⟨rfl, _, _, _, rfl, filled_of_whole hw hf c⟩

end WholeFrame

/-! ## The steps -/

variable {arrived : List RxFrame} {asked offered : List RxOracle} {n r : Nat} {tr : List RxEvent}

/-- A frame that arrives does not change what has been handled. -/
theorem Handled.arrive (h : Handled arrived asked offered n r tr) (hr : r ≤ arrived.length) (f : RxFrame) :
    Handled (arrived ++ [f]) asked offered n r tr := by
  have hle : asked.length ≤ arrived.length := by rw [h.turns]; exact hr
  have hcarried := carried_arrive hle f
  exact ⟨h.turns, by rw [zip_arrive _ _ hle]; exact h.results, by rw [hcarried]; exact h.count, by rw [hcarried]; exact h.offers,
    by rw [hcarried]; exact h.up, h.chains, h.owned⟩

theorem Delivering.arrive {p : Nat} {f : RxFrame} {pkt : Packet} (h : Delivering arrived asked offered p r f pkt tr)
    (hr : r ≤ arrived.length) (g : RxFrame) : Delivering (arrived ++ [g]) asked offered p r f pkt tr := by
  obtain ⟨before, o, h1, h2, h3, h4, h5, h6, h7⟩ := h.turn
  have hle : before.length ≤ arrived.length := by rw [h3]; exact hr
  have hcarried := carried_arrive hle g
  refine ⟨⟨before, o, h1, h2, h3, ?_, ?_, ?_, ?_⟩, h.chains, h.owned, h.payload, h.type⟩
  · rw [zip_arrive _ _ hle, h4]
  · rw [hcarried, h5]
  · rw [hcarried, h6]
  · rw [hcarried, h7]

/-- A frame the pool has no chain for is handled with that. -/
theorem Handled.refuse (h : Handled arrived asked offered n r tr) {f : RxFrame} (hf : arrived[r]? = some f) {o : RxOracle}
    (hno : hasChain f o = false) (m : UInt32) (length : UInt16) :
    Handled arrived (asked ++ [o]) offered n (r + 1) (tr ++ [.alloc m length none]) := by
  rw [← h.turns] at hf
  have hcarried : carried arrived (asked ++ [o]) = carried arrived asked := by
    rw [carried_snoc hf, hno, if_neg Bool.false_ne_true, List.append_nil]
  refine ⟨by rw [List.length_append, h.turns]; rfl, ?_, by rw [hcarried]; exact h.count, by rw [hcarried]; exact h.offers, ?_, ?_, ?_⟩
  · rw [allocResults_append, h.results, zip_snoc hf, List.map_append, List.map_singleton, hno]
    rfl
  · rw [hcarried, ← h.up]
    simp [inputs]
  · rw [← h.chains]
    simp [allocated]
  · intro q
    rw [← h.owned q]
    simp [accepted, freed]

/-- A frame that gets a chain. -/
theorem Handled.allocate (h : Handled arrived asked offered n r tr) {f : RxFrame} {pkt : Packet} {o : RxOracle}
    (hyes : hasChain f o = true) (hp : pkt.payload = f.data)
    (ht : etherType (pkt.headerCell 12).byte (pkt.headerCell 13).byte = f.type) (m : UInt32) (length : UInt16) :
    Delivering arrived (asked ++ [o]) offered n r f pkt (tr ++ [.alloc m length (some n)]) := by
  refine ⟨⟨asked, o, rfl, hyes, h.turns, ?_, h.count, h.offers, ?_⟩, ?_, ?_, hp, ht⟩
  · rw [allocResults_append, h.results]
    rfl
  · rw [← h.up]
    simp [inputs]
  · rw [List.range_succ, ← h.chains]
    simp [allocated]
  · intro q
    rw [← h.owned q]
    simp [accepted, freed]

/-- And then goes up or not. -/
theorem Delivering.deliver {p : Nat} {f : RxFrame} {pkt : Packet} (h : Delivering arrived asked offered p r f pkt tr)
    (hf : arrived[r]? = some f) (o : RxOracle) :
    Handled arrived asked (offered ++ [o]) (p + 1) (r + 1) (tr ++ SaymaFirmware.deliver o p pkt) := by
  obtain ⟨before, o', rfl, hyes, hlen, hres, hcount, hoff, hup⟩ := h.turn
  obtain ⟨hr, hc, hp, how⟩ := deliver_lists o p pkt
  rw [← hlen] at hf
  have hcarried : carried arrived (before ++ [o']) = carried arrived before ++ [f] := by
    rw [carried_snoc hf, hyes, if_pos rfl]
  refine ⟨?_, ?_, ?_, ?_, ?_, ?_, ?_⟩
  · rw [List.length_append, hlen]
    rfl
  · rw [allocResults_append, hr, hres, List.append_nil, zip_snoc hf, List.map_append, List.map_singleton, hyes]
  · rw [hcarried, List.length_append, hcount]
    rfl
  · rw [hcarried, List.length_append, List.length_append, hoff]
    rfl
  · rw [hcarried, handedUp_snoc hoff, inputs_append, hup, hp, h.type, h.payload]
  · rw [allocated_append, hc, List.append_nil, h.chains]
  · -- the chain's one owner is new, every other chain has the one it had
    intro q
    have hcount : (accepted (SaymaFirmware.deliver o p pkt)).count q + (freed (SaymaFirmware.deliver o p pkt)).count q =
        if p = q then 1 else 0 := by
      rw [← List.count_append, how]
      simp only [List.count_singleton, beq_iff_eq]
    have hold := h.owned q
    rw [accepted_append, freed_append, List.count_append, List.count_append]
    split at hold <;> split at hcount <;> split <;> omega

/-- Releasing the descriptor adds nothing to what has been handled. -/
theorem Handled.release (h : Handled arrived asked offered n r tr) : Handled arrived asked offered n r (tr ++ [.release]) :=
  ⟨h.turns, by rw [← h.results]; simp [allocResults], h.count, h.offers, by rw [← h.up]; simp [inputs],
    by rw [← h.chains]; simp [allocated], fun q => by rw [← h.owned q]; simp [accepted, freed]⟩

namespace RxContent

variable {s s' : RxState} {a : RxAct}

/-- The descriptor a frame is stored in is not one that holds another. -/
theorem slots_store (h : RxContent s) (hring : RxRing s) (f : RxFrame) {k : Nat} {g : RxFrame} (hk : releases s.trace ≤ k)
    (hg : (s.arrived ++ [f])[k]? = some g) :
    (Function.update s.hw.slots s.hw.rxProduceIndex.toNat ((s.hw.slots s.hw.rxProduceIndex.toNat).store f) (k % 3)).Holds g := by
  rw [hring.produce]
  have hroom := hring.room
  have hlt : k < s.arrived.length + 1 := by
    have := (List.getElem?_eq_some_iff.mp hg).1
    simpa using this
  rcases Nat.lt_or_ge k s.arrived.length with hlt' | hge
  · rw [Function.update_of_ne (Ring.mod_ne_of_lt hlt' (by omega))]
    exact h.slots k g hk (by rwa [List.getElem?_append_left hlt'] at hg)
  · obtain rfl : k = s.arrived.length := by omega
    obtain rfl : f = g := by simpa using hg
    rw [Function.update_self]
    exact RxSlot.store_holds _ _

theorem traceOk_store (h : RxContent s) (hring : RxRing s) (f : RxFrame) (hw : RxHw) :
    TraceOk ⟨hw, s.masked, s.pc, s.arrived ++ [f], s.asked, s.offered, s.pbufs, s.trace⟩ := by
  have ht := h.trace
  unfold TraceOk at ht ⊢
  split
  · rename_i p pkt hpc
    have hlt := hring.busy (by rw [show s.pc = _ from hpc]; rfl)
    simp only [show s.pc = _ from hpc] at ht
    obtain ⟨hn, g, hg, hd⟩ := ht
    exact ⟨hn, g, by rw [List.getElem?_append_left hlt]; exact hg, hd.arrive hring.le f⟩
  · rename_i hpc
    have hlt := hring.busy (by rw [show s.pc = _ from hpc]; rfl)
    simp only [show s.pc = _ from hpc] at ht
    exact ht.arrive hlt f
  · rename_i h1 h2
    split at ht
    · rename_i hpc; exact absurd hpc (h1 _ _)
    · rename_i hpc; exact absurd hpc h2
    · exact ht.arrive hring.le f

theorem step (h : RxContent s) (hring : RxRing s) (hok : ∀ f, a = .frame f → f.whole = true) (hs : RxStep s a s') :
    RxContent s' := by
  have ht := h.trace
  cases hs with
  | stored f hfull =>
    refine ⟨?_, fun k g hk hg => h.slots_store hring f hk hg, h.traceOk_store hring f _⟩
    intro g hg
    rcases List.mem_append.mp hg with hg | hg
    · exact h.whole g hg
    · rw [List.mem_singleton.mp hg]; exact hok f rfl
  | lost f hfull => exact ⟨h.whole, h.slots, ht⟩
  | event bits hbits => exact ⟨h.whole, h.slots, ht⟩
  | mask b => exact ⟨h.whole, h.slots, ht⟩
  | allocated o ev pkt hpc he =>
    obtain ⟨f, hf, hw, hslot⟩ := h.current hring (by rw [hpc]; rfl)
    have hev := releases_prvLowLevelInput he
    refine ⟨h.whole, fun k g hk hg => h.slots k g (by simpa [hev] using hk) hg, rfl, f, by simpa [hev] using hf, ?_⟩
    simp only [TraceOk, hpc] at ht
    rcases prvLowLevelInput_of_whole hw hslot o s.pbufs with ⟨-, m, length, hno⟩ | ⟨hyes, m, length, pkt', hrun, hp, htype⟩
    · rw [hno] at he; cases he
    · rw [hrun] at he
      cases he
      simpa using ht.allocate hyes hp htype m length
  | refused o ev hpc he =>
    obtain ⟨f, hf, hw, hslot⟩ := h.current hring (by rw [hpc]; rfl)
    have hev := releases_prvLowLevelInput he
    refine ⟨h.whole, fun k g hk hg => h.slots k g (by simpa [hev] using hk) hg, ?_⟩
    simp only [TraceOk, hpc] at ht
    rcases prvLowLevelInput_of_whole hw hslot o s.pbufs with ⟨hno, m, length, hrun⟩ | ⟨-, m, length, pkt', hrun, -⟩
    · rw [hrun] at he
      cases he
      simpa [TraceOk] using ht.refuse hf hno m length
    · rw [hrun] at he; cases he
  | delivered o p pkt hpc =>
    simp only [TraceOk, hpc] at ht
    obtain ⟨hn, f, hf, hd⟩ := ht
    refine ⟨h.whole, fun k g hk hg => h.slots k g (by simpa using hk) hg, ?_⟩
    simpa [TraceOk, hn] using hd.deliver hf o
  | released o hpc =>
    simp only [TraceOk, hpc] at ht
    refine ⟨h.whole, fun k g hk hg => h.slots k g (by simp at hk; omega) hg, ?_⟩
    simpa [TraceOk] using ht.release
  | fragment o hpc hlast =>
    obtain ⟨f, hf, hw, hslot⟩ := h.current hring (by rw [hpc]; rfl)
    rw [last_of_whole hw hslot] at hlast
    nomatch hlast
  | enter hpc | pending o hpc | leave o hpc | clear o cause hpc | underrun o cause command hpc
  | nothing o cause hpc _ | found o cause hpc _ _ | last o hpc _ =>
    simp only [TraceOk, hpc] at ht
    exact ⟨h.whole, h.slots, ht⟩

end RxContent

end SaymaFirmware
