import SaymaFirmware.PhyBringUp

/-!
# The reads of `EMAC_Init`

A loop that runs out is left like one that ended with a `break`, so no loop fails, and `EMAC_Init` fails only for an identifier of zero.
The reads of its trace are given by the number of reads of each loop.
-/

namespace SaymaFirmware

namespace PhyAux

variable {mii : MiiOutcomes} {other : InitOp → UInt32}

/-- A read of a PHY register. -/
def isRead : InitOp → Bool
  | .readPhy _ => true
  | _ => false

/-- The reads of a trace. -/
def reads (trace : List (InitOp × UInt32)) : List (InitOp × UInt32) := trace.filter fun x => isRead x.1

@[simp] theorem reads_append (t t' : List (InitOp × UInt32)) : reads (t ++ t') = reads t ++ reads t' := List.filter_append ..

/-- `k` reads of a register from outcome `n` on. -/
def readsAt (mii : MiiOutcomes) (reg : UInt32) (n k : Nat) : List (InitOp × UInt32) :=
  (List.range' n k).map fun i => (.readPhy reg, miiWord (mii i))

theorem readsAt_add (mii : MiiOutcomes) (reg : UInt32) (n k l : Nat) :
    readsAt mii reg n (k + l) = readsAt mii reg n k ++ readsAt mii reg (n + k) l := by
  rw [readsAt, ← List.range'_append_1, List.map_append]
  rfl

/-- A program without reads gets no outcome. -/
theorem reads_of_avoids (mii : MiiOutcomes) (other : InitOp → UInt32) {α : Type} {p : Init α}
    (h : p.Avoids fun o => isRead o = true) (n : Nat) :
    reads (p.trace (miiAnswer mii other) n) = [] ∧ p.final (miiAnswer mii other) n = n := by
  constructor
  · exact List.filter_eq_nil_iff.mpr (h.not_of_mem_trace n)
  · refine h.final_eq ?_ n
    intro m o ho
    cases o with
    | readPhy reg => exact absurd rfl ho
    | _ => rfl

/-- A loop that reads `reg` until `stop` ends without error after its reads. -/
structure Polls (mii : MiiOutcomes) (other : InitOp → UInt32) (reg : UInt32) (stop : UInt32 → Bool) (tout n : Nat) (p : Init Bool) :
    Prop where
  result : p.result (miiAnswer mii other) n = true
  final : p.final (miiAnswer mii other) n = n + pollReads stop mii tout n
  trace : reads (p.trace (miiAnswer mii other) n) = readsAt mii reg n (pollReads stop mii tout n)

variable (mii other)

theorem polls_pollPhy (reg : UInt32) (stop : UInt32 → Bool) {pause : Init Unit} (hpause : pause.Avoids fun o => isRead o = true)
    (tout n : Nat) : Polls mii other reg stop tout n (pollPhy reg stop pause tout) := by
  induction tout generalizing n with
  | zero => exact ⟨rfl, rfl, rfl⟩
  | succ tout ih =>
    have hanswer : miiAnswer mii other n (.readPhy reg) = (miiWord (mii n), n + 1) := rfl
    cases hs : stop (miiWord (mii n)) with
    | true =>
      constructor <;>
        simp only [pollPhy, pollReads, Prog.result_bind, Prog.final_bind, Prog.trace_bind, Prog.result_op, Prog.final_op,
          Prog.trace_op, hanswer, hs] <;> rfl
    | false =>
      obtain ⟨hreads, hfinal⟩ := reads_of_avoids mii other hpause (n + 1)
      obtain ⟨hres, hfin, htr⟩ := ih (n + 1)
      constructor <;>
        simp only [pollPhy, pollReads, Prog.result_bind, Prog.final_bind, Prog.trace_bind, Prog.result_op, Prog.final_op,
          Prog.trace_op, hanswer, hs, Bool.false_eq_true, if_false, hfinal, hres, hfin, reads_append, hreads, htr]
      · omega
      · rw [readsAt, readsAt, List.range'_succ, List.map_cons]
        rfl

/-- The three loops of the source. -/
theorem polls_waitReset (tout n : Nat) : Polls mii other emacPhyRegBmcr bmcrClear tout n (waitReset tout) := by
  rw [waitReset_eq]
  exact polls_pollPhy mii other _ _ (Prog.Avoids.op_ (by simp [isRead])) tout n

theorem polls_waitAutoNegotiation (tout n : Nat) :
    Polls mii other emacPhyRegBmsr bmsrAutoDone tout n (waitAutoNegotiation tout) := by
  rw [waitAutoNegotiation_eq]
  exact polls_pollPhy mii other _ _ (Prog.Avoids.op_ (by simp [isRead])) tout n

theorem polls_waitLink (tout n : Nat) : Polls mii other emacPhyRegBmsr bmsrLink tout n (waitLink tout) := by
  rw [waitLink_eq]
  exact polls_pollPhy mii other _ _ Prog.Avoids.pure tout n

/-- What `EMAC_UpdatePHYStatus` does after its loop. -/
def configureMode (regv : UInt32) : Init Bool := do
  if regv &&& 0x10 ≠ 0 then
    Prog.op_ (.setBits .mac2 0x01)
    Prog.op_ (.setBits .command 0x400)
    Prog.op_ (.writeReg .ipgt 0x15)
  else
    Prog.op_ (.writeReg .ipgt 0x12)
  if regv &&& 0x08 ≠ 0 then
    Prog.op_ (.writeReg .supp 0x100)
  else
    Prog.op_ (.writeReg .supp 0)
  return true

theorem configureMode_result (regv : UInt32) (n : Nat) : (configureMode regv).result (miiAnswer mii other) n = true := by
  unfold configureMode
  dsimp only
  split <;> split <;> rfl

theorem configureMode_avoids (regv : UInt32) : (configureMode regv).Avoids fun o => isRead o = true := by
  unfold configureMode
  dsimp only
  split <;> split <;> simp [Prog.Avoids, isRead, Prog.op_, bind, Prog.bind, pure]

/-- `EMAC_UpdatePHYStatus` reads until its loop ends, then the extended status register, and never fails. -/
theorem updatePhyStatus_run (n : Nat) :
    emacUpdatePhyStatus.result (miiAnswer mii other) n = true ∧
      reads (emacUpdatePhyStatus.trace (miiAnswer mii other) n) =
        readsAt mii emacPhyRegBmsr n (pollReads bmsrLink mii emacPhyRespTout n) ++
          readsAt mii 0x1f (n + pollReads bmsrLink mii emacPhyRespTout n) 1 := by
  have heq : emacUpdatePhyStatus = (do
      if !(← waitLink emacPhyRespTout) then return false
      let regv ← Prog.op (.readPhy 0x1f)
      configureMode regv) := rfl
  obtain ⟨hres, hfin, htr⟩ := polls_waitLink mii other emacPhyRespTout n
  rw [heq]
  simp only [Prog.result_bind, Prog.trace_bind, hres, hfin, Bool.not_true, Bool.false_eq_true, if_false, Prog.result_op,
    Prog.final_op, Prog.trace_op, configureMode_result, reads_append, htr, (reads_of_avoids mii other (configureMode_avoids _) _).1,
    List.append_nil, true_and]
  rfl

/-- `EMAC_SetPHYMode` with an identifier of zero. -/
theorem setPhyMode_run_zero {n : Nat} (h : (miiWord (mii n) <<< 16) ||| (miiWord (mii (n + 1)) &&& 0xFFF0) = 0) :
    emacSetPhyMode.result (miiAnswer mii other) n = false ∧
      emacSetPhyMode.trace (miiAnswer mii other) n = readsAt mii emacPhyRegIdr1 n 1 ++ readsAt mii emacPhyRegIdr2 (n + 1) 1 := by
  have hanswer : ∀ m reg, miiAnswer mii other m (.readPhy reg) = (miiWord (mii m), m + 1) := fun _ _ => rfl
  unfold emacSetPhyMode
  simp only [Prog.result_bind, Prog.trace_bind, Prog.result_op, Prog.final_op, Prog.trace_op, hanswer, h, if_true]
  exact ⟨rfl, rfl⟩

/-- With any other it never fails. -/
theorem setPhyMode_run {n : Nat} (h : (miiWord (mii n) <<< 16) ||| (miiWord (mii (n + 1)) &&& 0xFFF0) ≠ 0) :
    emacSetPhyMode.result (miiAnswer mii other) n = true ∧
      reads (emacSetPhyMode.trace (miiAnswer mii other) n) =
        (readsAt mii emacPhyRegIdr1 n 1 ++ readsAt mii emacPhyRegIdr2 (n + 1) 1) ++
          (readsAt mii emacPhyRegBmsr (n + 2) (pollReads bmsrAutoDone mii emacPhyRespTout (n + 2)) ++
            reads (emacUpdatePhyStatus.trace (miiAnswer mii other)
              (n + 2 + pollReads bmsrAutoDone mii emacPhyRespTout (n + 2)))) := by
  have hanswer : ∀ m reg, miiAnswer mii other m (.readPhy reg) = (miiWord (mii m), m + 1) := fun _ _ => rfl
  have hwrite : (Prog.op_ (.writePhy emacPhyRegBmcr emacPhyAutoNeg) : Init Unit).Avoids fun o => isRead o = true :=
    Prog.Avoids.op_ (by simp [isRead])
  obtain ⟨hres, hfin, htr⟩ := polls_waitAutoNegotiation mii other emacPhyRespTout (n + 2)
  obtain ⟨hreads, hfinal⟩ := reads_of_avoids mii other hwrite (n + 2)
  unfold emacSetPhyMode
  simp only [Prog.result_bind, Prog.trace_bind, Prog.result_op, Prog.final_op, Prog.trace_op, hanswer, h, if_false,
    Nat.add_assoc, hfinal, hres, hfin, Bool.not_true, Bool.false_eq_true, (updatePhyStatus_run mii other _).1]
  refine ⟨rfl, ?_⟩
  simp only [reads_append, hreads, htr, List.nil_append, Prog.trace_pure]
  rw [show reads [] = [] from rfl, List.append_nil, List.append_assoc]
  rfl

/-- What `EMAC_Init` does before it waits for the reset. -/
def prologue : Init Unit := do
  Prog.op_ .configPower
  Prog.op_ (.writeReg .mac1 0xCF00)
  Prog.op_ (.writeReg .command 0x78)
  Prog.op_ (.taskDelay 2)
  Prog.op_ (.writeReg .mac1 0x02)
  Prog.op_ (.writeReg .mac2 0x30)
  Prog.op_ (.writeReg .maxf emacEthMaxFlen)
  let clock ← Prog.op .getCpuClock
  Prog.op_ (.writeReg .mcfg (mcfgClkSel clock ||| 0x8000))
  Prog.op_ (.clearBits .mcfg 0x8000)
  Prog.op_ (.writeReg .clrt 0x370F)
  Prog.op_ (.writeReg .ipgr 0x12)
  Prog.op_ (.writeReg .command 0x240)
  Prog.op_ (.writeReg .supp 0x800)
  Prog.op_ (.writeReg .supp 0)
  Prog.op_ (.writePhy emacPhyRegBmcr 0x8000)

/-- What it does once the PHY mode is set. -/
def epilogue : Init Bool := do
  Prog.op_ .setEmacAddr
  Prog.op_ .rxDescrInit
  Prog.op_ .txDescrInit
  Prog.op_ (.writeReg .rxFilterCtrl 0x26)
  Prog.op_ (.writeReg .intEnable 0x88)
  Prog.op_ (.writeReg .intClear 0xFFFF)
  Prog.op_ (.setBits .command 0x03)
  Prog.op_ (.setBits .mac1 0x01)
  return true

theorem emacInit_eq : emacInit = (do
    prologue
    if !(← waitReset emacPhyRespTout) then return false
    if !(← emacSetPhyMode) then return false
    epilogue) := rfl

theorem prologue_avoids : prologue.Avoids fun o => isRead o = true ∨ o.enables := by
  simp [prologue, Prog.Avoids, isRead, InitOp.enables, Prog.op_, Prog.op, bind, Prog.bind]

theorem epilogue_avoids : epilogue.Avoids fun o => isRead o = true := by
  simp [epilogue, Prog.Avoids, isRead, Prog.op_, bind, Prog.bind, pure]

theorem waitReset_avoids (tout : Nat) : (waitReset tout).Avoids InitOp.enables := by
  induction tout with
  | zero => trivial
  | succ tout ih =>
    refine Prog.Avoids.bind (Prog.Avoids.op (by simp [InitOp.enables])) ?_
    intro regv
    split
    · trivial
    · exact Prog.Avoids.bind (Prog.Avoids.op_ (by simp [InitOp.enables])) fun _ => ih

/-- The reads of `EMAC_Init` up to the identifier. -/
def headReads (mii : MiiOutcomes) : List (InitOp × UInt32) :=
  readsAt mii emacPhyRegBmcr 0 (idOutcome mii) ++
    (readsAt mii emacPhyRegIdr1 (idOutcome mii) 1 ++ readsAt mii emacPhyRegIdr2 (idOutcome mii + 1) 1)

/-- The reset loop of `EMAC_Init`. -/
theorem polls_reset :
    (waitReset emacPhyRespTout).result (miiAnswer mii other) 0 = true ∧
      (waitReset emacPhyRespTout).final (miiAnswer mii other) 0 = idOutcome mii ∧
      reads ((waitReset emacPhyRespTout).trace (miiAnswer mii other) 0) = readsAt mii emacPhyRegBmcr 0 (idOutcome mii) := by
  have hpoll := polls_waitReset mii other emacPhyRespTout 0
  exact ⟨hpoll.result, hpoll.final.trans (Nat.zero_add _), hpoll.trace⟩

variable {mii}

/-- With an identifier of zero it fails and enables nothing. -/
theorem emacInit_zero (h : IdZero mii) :
    emacInitResult mii other = false ∧ reads (emacInitTrace mii other) = headReads mii ∧
      ∀ x ∈ emacInitTrace mii other, ¬ x.1.enables := by
  obtain ⟨hpre, hprefin⟩ := reads_of_avoids mii other (prologue_avoids.mono fun _ => Or.inl) 0
  obtain ⟨hres, hfin, htr⟩ := polls_reset mii other
  obtain ⟨hset, hsettr⟩ := setPhyMode_run_zero mii other h
  have htrace : emacInitTrace mii other = prologue.trace (miiAnswer mii other) 0 ++
      ((waitReset emacPhyRespTout).trace (miiAnswer mii other) 0 ++
        (readsAt mii emacPhyRegIdr1 (idOutcome mii) 1 ++ readsAt mii emacPhyRegIdr2 (idOutcome mii + 1) 1)) := by
    simp only [emacInitTrace, emacInit_eq, Prog.trace_bind, hprefin, hres, hfin, Bool.not_true, Bool.false_eq_true, if_false, hset,
      hsettr, Bool.not_false, if_true, Prog.trace_pure, List.append_nil]
  refine ⟨?_, ?_, ?_⟩
  · simp only [emacInitResult, emacInit_eq, Prog.result_bind, hprefin, hres, hfin, Bool.not_true, Bool.false_eq_true, if_false, hset]
    rfl
  · rw [htrace, reads_append, reads_append, hpre, htr]
    rfl
  · rw [htrace]
    intro x hx
    rcases List.mem_append.mp hx with hx | hx
    · exact fun he => (prologue_avoids.not_of_mem_trace 0 x hx) (Or.inr he)
    · rcases List.mem_append.mp hx with hx | hx
      · exact (waitReset_avoids emacPhyRespTout).not_of_mem_trace 0 x hx
      · simp only [readsAt, List.range'_one, List.map_cons, List.map_nil, List.cons_append, List.nil_append, List.mem_cons,
          List.not_mem_nil, or_false] at hx
        rcases hx with rfl | rfl <;> simp [InitOp.enables]

/-- With any other identifier it succeeds. -/
theorem emacInit_nonzero (h : ¬ IdZero mii) :
    emacInitResult mii other = true ∧ reads (emacInitTrace mii other) =
      headReads mii ++ (readsAt mii emacPhyRegBmsr (autoOutcome mii) (autoReads mii + linkReads mii) ++
        readsAt mii 0x1f (linkOutcome mii + linkReads mii) 1) := by
  obtain ⟨hpre, hprefin⟩ := reads_of_avoids mii other (prologue_avoids.mono fun _ => Or.inl) 0
  obtain ⟨hres, hfin, htr⟩ := polls_reset mii other
  obtain ⟨hset, hsettr⟩ := setPhyMode_run mii other h
  constructor
  · simp only [emacInitResult, emacInit_eq, Prog.result_bind, hprefin, hres, hfin, Bool.not_true, Bool.false_eq_true, if_false, hset]
    rfl
  · simp only [emacInitTrace, emacInit_eq, Prog.trace_bind, reads_append, hpre, hprefin, hres, hfin, htr, Bool.not_true,
      Bool.false_eq_true, if_false, hset, hsettr, (reads_of_avoids mii other epilogue_avoids _).1, (updatePhyStatus_run mii other _).2]
    rw [show pollReads bmsrAutoDone mii emacPhyRespTout (idOutcome mii + 2) = autoReads mii from rfl,
      show idOutcome mii + 2 + autoReads mii = linkOutcome mii from rfl,
      show pollReads bmsrLink mii emacPhyRespTout (linkOutcome mii) = linkReads mii from rfl,
      show idOutcome mii + 2 = autoOutcome mii from rfl, readsAt_add,
      show autoOutcome mii + autoReads mii = linkOutcome mii from rfl, headReads]
    rw [List.nil_append, List.append_nil, List.append_assoc, List.append_assoc, List.append_assoc, List.append_assoc]

end PhyAux

end SaymaFirmware
