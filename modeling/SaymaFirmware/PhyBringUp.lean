import SaymaFirmware.EmacInit

/-!
# Bringing up the PHY over a MII that may time out

`EMAC_Init` against every sequence of outcomes of `read_PHY`. The three loops that wait for the PHY are one loop with its register, its
test and its delay (`pollPhy`).
-/

namespace SaymaFirmware

/-! ## Outcomes -/

/-- The outcome of each `read_PHY`, in the order of the reads: a 16-bit value, or none when it times out. -/
abbrev MiiOutcomes := Nat → Option UInt16

/-- What `read_PHY` returns: the value, or -1. -/
def miiWord : Option UInt16 → UInt32
  | some v => v.toUInt32
  | none => 0xFFFFFFFF

/-- Reads are answered with the outcomes one after another, every other operation as `other` says. -/
def miiAnswer (mii : MiiOutcomes) (other : InitOp → UInt32) (n : Nat) : InitOp → UInt32 × Nat
  | .readPhy _ => (miiWord (mii n), n + 1)
  | o => (other o, n)

/-- The return value of `EMAC_Init`: `true` for `SUCCESS`. -/
def emacInitResult (mii : MiiOutcomes) (other : InitOp → UInt32) : Bool := emacInit.result (miiAnswer mii other) 0

/-- What it did, with the answers. -/
def emacInitTrace (mii : MiiOutcomes) (other : InitOp → UInt32) : List (InitOp × UInt32) := emacInit.trace (miiAnswer mii other) 0

/-- A completed read of a register. -/
def completedRead (reg : UInt32) (v : UInt16) : InitOp × UInt32 := (.readPhy reg, v.toUInt32)

/-- `BMCR` has the reset and the power-down bit clear. -/
def bmcrClear (v : UInt32) : Bool := v &&& (emacPhyBmcrReset ||| emacPhyBmcrPowerdown) = 0

/-- `BMSR` has auto-negotiation done. -/
def bmsrAutoDone (v : UInt32) : Bool := v &&& emacPhyBmsrAutoDone ≠ 0

/-- `BMSR` has the link up. -/
def bmsrLink (v : UInt32) : Bool := v &&& emacPhyBmsrLinkStatus ≠ 0

/-- Completed reads showed, in this order, `BMCR` clear, auto-negotiation done and the link up. -/
def PhyShown (trace : List (InitOp × UInt32)) : Prop :=
  ∃ v₁ v₂ v₃ : UInt16, bmcrClear v₁.toUInt32 = true ∧ bmsrAutoDone v₂.toUInt32 = true ∧ bmsrLink v₃.toUInt32 = true ∧
    [completedRead emacPhyRegBmcr v₁, completedRead emacPhyRegBmsr v₂, completedRead emacPhyRegBmsr v₃].Sublist trace

/-- The receive and transmit paths are enabled: the two writes after the comment that says so. -/
def InitOp.enables (o : InitOp) : Prop := o = .setBits .command 0x03 ∨ o = .setBits .mac1 0x01

/-! ## The reads of a loop -/

/-- How many reads a loop makes with `tout` passes left, from outcome `n` on: up to the first whose word passes the test. -/
def pollReads (stop : UInt32 → Bool) (mii : MiiOutcomes) : (tout n : Nat) → Nat
  | 0, _ => 0
  | tout + 1, n => if stop (miiWord (mii n)) then 1 else pollReads stop mii tout (n + 1) + 1

/-- Outcome `n` is a value that passes the test. -/
def CompletedWith (p : UInt32 → Bool) (mii : MiiOutcomes) (n : Nat) : Prop := ∃ v, mii n = some v ∧ p v.toUInt32 = true

/-- The outcome that the first identifier read gets: the loop that waits for the reset reads before it. -/
def idOutcome (mii : MiiOutcomes) : Nat := pollReads bmcrClear mii emacPhyRespTout 0

/-- The identifier the two reads give is zero. -/
def IdZero (mii : MiiOutcomes) : Prop :=
  (miiWord (mii (idOutcome mii)) <<< 16) ||| (miiWord (mii (idOutcome mii + 1)) &&& 0xFFF0) = 0

/-- The first outcome of the loop that waits for auto-negotiation. -/
def autoOutcome (mii : MiiOutcomes) : Nat := idOutcome mii + 2

/-- How many outcomes it reads. -/
def autoReads (mii : MiiOutcomes) : Nat := pollReads bmsrAutoDone mii emacPhyRespTout (autoOutcome mii)

/-- The first outcome of the loop that waits for the link. -/
def linkOutcome (mii : MiiOutcomes) : Nat := autoOutcome mii + autoReads mii

/-- How many outcomes it reads. -/
def linkReads (mii : MiiOutcomes) : Nat := pollReads bmsrLink mii emacPhyRespTout (linkOutcome mii)

/-- A loop whose first outcome is `n` runs out: none of its reads passes its test. -/
def RunsOut (stop : UInt32 → Bool) (mii : MiiOutcomes) (n : Nat) : Prop := ∀ i < emacPhyRespTout, stop (miiWord (mii (n + i))) = false

/-- One of the three loops runs out; the last two are reached when the identifier is not zero. -/
def SomeLoopRunsOut (mii : MiiOutcomes) : Prop :=
  RunsOut bmcrClear mii 0 ∨
    ¬ IdZero mii ∧ (RunsOut bmsrAutoDone mii (autoOutcome mii) ∨ RunsOut bmsrLink mii (linkOutcome mii))

/-! ## What is asked of it -/

/-- `EMAC_Init` succeeds only when the PHY was shown to be up; when it was not, or a loop runs out, it returns `ERROR` and enables
nothing. -/
def ReportsFailure (mii : MiiOutcomes) (other : InitOp → UInt32) : Prop :=
  (emacInitResult mii other = true → PhyShown (emacInitTrace mii other)) ∧
  (¬ PhyShown (emacInitTrace mii other) ∨ SomeLoopRunsOut mii →
    emacInitResult mii other = false ∧ ∀ x ∈ emacInitTrace mii other, ¬ x.1.enables)

/-- Every loop ends before its count does, and the reads show what they should: one of the first outcomes is a completed read with the
reset over; a read of the auto-negotiation loop passes its test; the last read of the link loop is a completed one with the link up; and
a completed read before that one, in either of the last two loops, has auto-negotiation done. -/
def LoopsEndCompleted (mii : MiiOutcomes) : Prop :=
  (∃ i < emacPhyRespTout, CompletedWith bmcrClear mii i) ∧
  (∃ i < emacPhyRespTout, bmsrAutoDone (miiWord (mii (autoOutcome mii + i))) = true) ∧
  CompletedWith bmsrLink mii (linkOutcome mii + (linkReads mii - 1)) ∧
  ∃ i, i + 1 < autoReads mii + linkReads mii ∧ CompletedWith bmsrAutoDone mii (autoOutcome mii + i)

/-! ## The loops -/

/-- The loop the three waits are: read a register, stop when the word passes the test, else pause and read again. -/
def pollPhy (reg : UInt32) (stop : UInt32 → Bool) (pause : Init Unit) : (tout : Nat) → Init Bool
  | 0 => pure true
  | tout + 1 => do
    let regv ← Prog.op (.readPhy reg)
    if stop regv then pure true
    else do
      pause
      pollPhy reg stop pause tout

/-- The time-out tests within the loops are never reached with `tout` zero. -/
theorem waitReset_eq (tout : Nat) : waitReset tout = pollPhy emacPhyRegBmcr bmcrClear (Prog.op_ (.taskDelay 2)) tout := by
  induction tout with
  | zero => rfl
  | succ tout ih => simp only [waitReset, pollPhy, ih, bmcrClear, decide_eq_true_eq, Nat.succ_ne_zero, if_false]

theorem waitAutoNegotiation_eq (tout : Nat) :
    waitAutoNegotiation tout = pollPhy emacPhyRegBmsr bmsrAutoDone (Prog.op_ (.taskDelay 1000)) tout := by
  induction tout with
  | zero => rfl
  | succ tout ih => simp only [waitAutoNegotiation, pollPhy, ih, bmsrAutoDone, decide_eq_true_eq, Nat.succ_ne_zero, if_false]

theorem waitLink_eq (tout : Nat) : waitLink tout = pollPhy emacPhyRegBmsr bmsrLink (pure ()) tout := by
  induction tout with
  | zero => rfl
  | succ tout ih =>
    simp only [waitLink, pollPhy, ih, bmsrLink, decide_eq_true_eq, Nat.succ_ne_zero, if_false]
    rfl

end SaymaFirmware
