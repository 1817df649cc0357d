import SaymaFirmware.I2cTrace
import SaymaFirmware.Lemmas.Transfer
import SaymaFirmware.Lib.Flags

/-!
# The driver and the wrappers on the logging peripheral

An attempt performs its plan as an exchange (`pass_write`, `pass_read`), so a call of `I2C_MasterTransferData` is one exchange
and a STOP (`CallOf`). The rest is about the loop of the wrappers, on any peripheral: which calls it makes and what it returns.
-/

namespace SaymaFirmware

variable (answers : Nat → I2cAnswer)

/-! ## Exchanges on the log -/

/-- The exchange of a plan, logged. -/
def I2cTrace.perform (plan : List (PlanStep I2cOp I2cAnswer)) (w : I2cTrace) : I2cTrace where
  log := w.log ++ (Exchange.run answers plan w.answered).map .asked
  answered := w.answered + (Exchange.run answers plan w.answered).length

@[simp] theorem perform_nil (w : I2cTrace) : w.perform answers [] = w := by
  simp [I2cTrace.perform]

variable {answers}

theorem perform_cons_of_accepts {s : PlanStep I2cOp I2cAnswer} {plan : List (PlanStep I2cOp I2cAnswer)} {w : I2cTrace}
    (h : s.accepts (answers w.answered) = true) :
    w.perform answers (s :: plan) = (w.ask answers s.op).perform answers plan := by
  simp [I2cTrace.perform, Exchange.run_cons_of_accepts h, I2cTrace.ask, Nat.add_assoc, Nat.add_comm 1]

theorem perform_cons_of_not_accepts {s : PlanStep I2cOp I2cAnswer} {plan : List (PlanStep I2cOp I2cAnswer)} {w : I2cTrace}
    (h : s.accepts (answers w.answered) = false) : w.perform answers (s :: plan) = w.ask answers s.op := by
  simp [I2cTrace.perform, Exchange.run_cons_of_not_accepts h, I2cTrace.ask]

theorem accepts_i2cStep {o : I2cOp} {codes : List UInt32} {a : I2cAnswer} :
    (i2cStep o codes).accepts a = true ↔ a.code ∈ codes := by
  simp [i2cStep]

/-- The loop over the bytes to send. -/
theorem sendLoop_traced (answers : Nat → I2cAnswer) (xs : List UInt8) (w : I2cTrace) :
    ∃ st, i2cSendLoop (i2cTraced answers) xs w =
        (Exchange.accepted answers (xs.map i2cDataStep) w.answered, st, w.perform answers (xs.map i2cDataStep)) ∧
      (st = none ↔ Exchange.accepted answers (xs.map i2cDataStep) w.answered = xs.length) := by
  induction xs generalizing w with
  | nil => exact ⟨none, by simp [i2cSendLoop], by simp⟩
  | cons x xs ih =>
    have hsend : i2cSendByte (i2cTraced answers) x w = ((answers w.answered).code, w.ask answers (.send x)) := rfl
    cases h : (i2cDataStep x).accepts (answers w.answered) with
    | true =>
      obtain ⟨st, he, hst⟩ := ih (w.ask answers (.send x))
      have hcode : (answers w.answered).code = i2statTxDatAck := by simpa [i2cDataStep, accepts_i2cStep] using h
      refine ⟨st, ?_, ?_⟩
      · rw [i2cSendLoop, hsend, List.map_cons, perform_cons_of_accepts h, Exchange.accepted_cons_of_accepts h]
        simp only [hcode, ne_eq, not_true_eq_false, if_false, he]
        rfl
      · rw [hst, List.map_cons, Exchange.accepted_cons_of_accepts h, List.length_cons]
        exact Nat.succ_inj.symm
    | false =>
      have hcode : (answers w.answered).code ≠ i2statTxDatAck := by
        intro hc
        simp [i2cDataStep, i2cStep, hc] at h
      refine ⟨some (answers w.answered).code, ?_, ?_⟩
      · rw [i2cSendLoop, hsend, List.map_cons, perform_cons_of_not_accepts h, Exchange.accepted_cons_of_not_accepts h]
        simp only [ne_eq, hcode, not_false_eq_true, if_true]
        rfl
      · simp [Exchange.accepted_cons_of_not_accepts h]

@[simp] theorem length_i2cGetPlan (n : Nat) : (i2cGetPlan n).length = n := by
  induction n with
  | zero => rfl
  | succ n ih => rw [i2cGetPlan, List.length_cons, ih]

/-- The bytes of an exchange. -/
def answeredBytes (xs : List (I2cOp × I2cAnswer)) : List UInt8 := xs.map fun x => x.2.byte

theorem take_succ_set {l : List UInt8} {n : Nat} (h : n < l.length) (b : UInt8) : (l.set n b).take (n + 1) = l.take n ++ [b] := by
  rw [List.take_add_one, List.take_set_of_le (Nat.le_refl n), List.getElem?_set_self h]
  rfl

/-- The loop over the bytes to receive: the ones received with the right code are stored one after another. -/
theorem getLoop_traced (answers : Nat → I2cAnswer) (left pos : Nat) (buf : List UInt8) (w : I2cTrace) (hb : pos + left ≤ buf.length) :
    ∃ st, i2cGetLoop (i2cTraced answers) left pos buf w =
        (pos + Exchange.accepted answers (i2cGetPlan left) w.answered,
          buf.take pos ++ (answeredBytes (Exchange.run answers (i2cGetPlan left) w.answered)).take
              (Exchange.accepted answers (i2cGetPlan left) w.answered) ++
            buf.drop (pos + Exchange.accepted answers (i2cGetPlan left) w.answered),
          st, w.perform answers (i2cGetPlan left)) ∧
      (st = none ↔ Exchange.accepted answers (i2cGetPlan left) w.answered = left) := by
  induction left generalizing pos buf w with
  | zero => exact ⟨none, by simp [i2cGetLoop, i2cGetPlan, answeredBytes], by simp [i2cGetPlan]⟩
  | succ left ih =>
    have hget : i2cGetByte (i2cTraced answers) (decide (0 < left)) w =
        ((answers w.answered).byte, (answers w.answered).code, w.ask answers (.get (decide (0 < left)))) := rfl
    cases h : (i2cGetStep (decide (0 < left))).accepts (answers w.answered) with
    | true =>
      have hcode : (answers w.answered).code = if decide (0 < left) then i2statRxDatAck else i2statRxDatNack := by
        simpa [i2cGetStep, accepts_i2cStep] using h
      obtain ⟨st, he, hst⟩ := ih (pos + 1) (buf.set pos (answers w.answered).byte)
        (w.ask answers (.get (decide (0 < left)))) (by rw [List.length_set]; omega)
      refine ⟨st, ?_, ?_⟩
      · rw [i2cGetLoop, hget, i2cGetPlan, perform_cons_of_accepts h, Exchange.accepted_cons_of_accepts h,
          Exchange.run_cons_of_accepts h]
        simp only [hcode, ne_eq, not_true_eq_false, if_false, he]
        rw [take_succ_set (by omega), List.drop_set_of_lt (by omega)]
        simp only [answeredBytes, I2cTrace.ask, List.map_cons, List.take_succ_cons, List.append_assoc, List.cons_append,
          List.nil_append, Nat.add_assoc, Nat.add_comm 1]
        rfl
      · rw [hst, i2cGetPlan, Exchange.accepted_cons_of_accepts h]
        exact Nat.succ_inj.symm
    | false =>
      have hcode : (answers w.answered).code ≠ if decide (0 < left) then i2statRxDatAck else i2statRxDatNack := by
        intro hc
        simp [i2cGetStep, i2cStep, hc] at h
      refine ⟨some (answers w.answered).code, ?_, ?_⟩
      · rw [i2cGetLoop, hget, i2cGetPlan, perform_cons_of_not_accepts h, Exchange.accepted_cons_of_not_accepts h]
        simp only [ne_eq, hcode, not_false_eq_true, if_true, List.take_zero, List.append_nil, Nat.add_zero,
          List.take_append_drop]
        rfl
      · simp [i2cGetPlan, Exchange.accepted_cons_of_not_accepts h]

/-! ## One pass -/

/-- START and what follows it. -/
theorem startPhase_traced (next : I2cSetup → I2cTrace → I2cPass I2cTrace) (c : I2cSetup) (w : I2cTrace) :
    (i2cStartPhase (i2cTraced answers) c w).andThen next =
      if (i2cStep .start [i2statStart, i2statRestart]).accepts (answers w.answered) then next c (w.ask answers .start)
      else (some (answers w.answered).code, c, w.ask answers .start) := by
  have hstart : i2cStart (i2cTraced answers) w = ((answers w.answered).code, w.ask answers .start) := rfl
  rw [startPhase_andThen, hstart]
  simp only [accepts_i2cStep, List.mem_cons, List.not_mem_nil, or_false]
  split
  · rename_i h
    rw [if_neg (by tauto)]
  · rename_i h
    rw [if_pos (by tauto)]

theorem addressByte_write (addr : UInt8) : addr <<< 1 = i2cAddressByte addr false := by
  apply UInt8.toNat_inj.mp
  simp [i2cAddressByte, UInt8.toNat_shiftLeft, Nat.shiftLeft_eq, Nat.mul_comm]

theorem addressByte_read (addr : UInt8) : (addr <<< 1) ||| 1 = i2cAddressByte addr true := by
  refine forall_byte (P := fun addr => (addr <<< 1) ||| 1 = i2cAddressByte addr true) ?_ addr
  decide +kernel

/-- START, the address byte and then the data: when the driver goes on after the address byte as the data plan says, the whole is one
exchange. `after k xs` is the setup once `k` data bytes are done and `xs` was asked for them. -/
theorem head_traced {next : I2cSetup → I2cTrace → I2cPass I2cTrace} {c : I2cSetup} {addr : UInt8} {read : Bool}
    {data : List (PlanStep I2cOp I2cAnswer)} (after : Nat → List (I2cOp × I2cAnswer) → I2cSetup) (hzero : after 0 [] = c)
    (hrefused : ∀ v : I2cTrace, (answers v.answered).code ≠ (if read then i2statSlarAck else i2statSlawAck) →
      ∃ st, next c v = (some st, c, v.ask answers (.send (i2cAddressByte addr read))))
    (hdata : ∀ v : I2cTrace, (answers v.answered).code = (if read then i2statSlarAck else i2statSlawAck) →
      ∃ st, next c v =
          (st, after (Exchange.accepted answers data (v.answered + 1)) (Exchange.run answers data (v.answered + 1)),
            (v.ask answers (.send (i2cAddressByte addr read))).perform answers data) ∧
        (st = none ↔ Exchange.accepted answers data (v.answered + 1) = data.length))
    (w : I2cTrace) :
    ∃ st, (i2cStartPhase (i2cTraced answers) c w).andThen next =
        (st, after (Exchange.accepted answers (i2cHeadPlan addr read ++ data) w.answered - 2)
            ((Exchange.run answers (i2cHeadPlan addr read ++ data) w.answered).drop 2),
          w.perform answers (i2cHeadPlan addr read ++ data)) ∧
      (st = none ↔ Exchange.accepted answers (i2cHeadPlan addr read ++ data) w.answered =
        (i2cHeadPlan addr read ++ data).length) := by
  rw [startPhase_traced]
  unfold i2cHeadPlan
  simp only [List.cons_append, List.nil_append, List.length_cons]
  cases hs : (i2cStep .start [i2statStart, i2statRestart]).accepts (answers w.answered) with
  | false =>
    refine ⟨some (answers w.answered).code, ?_, ?_⟩
    · rw [perform_cons_of_not_accepts hs, Exchange.accepted_cons_of_not_accepts hs, Exchange.run_cons_of_not_accepts hs]
      simp only [Bool.false_eq_true, if_false, List.drop_succ_cons, List.drop_nil, Nat.zero_sub, hzero]
      rfl
    · simp [Exchange.accepted_cons_of_not_accepts hs]
  | true =>
    rw [perform_cons_of_accepts hs, Exchange.accepted_cons_of_accepts hs, Exchange.run_cons_of_accepts hs]
    simp only [if_true, List.drop_succ_cons, Nat.add_right_cancel_iff]
    cases ha : (i2cStep (.send (i2cAddressByte addr read)) [if read then i2statSlarAck else i2statSlawAck]).accepts
        (answers (w.answered + 1)) with
    | false =>
      obtain ⟨st, he⟩ := hrefused (w.ask answers .start) fun hc => by
        simp [i2cStep, show (answers (w.answered + 1)).code = _ from hc] at ha
      refine ⟨some st, ?_, ?_⟩
      · rw [perform_cons_of_not_accepts (show _ = false from ha), Exchange.accepted_cons_of_not_accepts ha,
          Exchange.run_cons_of_not_accepts ha]
        simp only [List.drop_succ_cons, List.drop_nil, Nat.zero_add, Nat.reduceSub, hzero]
        exact he
      · simp [Exchange.accepted_cons_of_not_accepts ha]
    | true =>
      obtain ⟨st, he, hst⟩ := hdata (w.ask answers .start)
        (show (answers (w.answered + 1)).code = _ by simpa [accepts_i2cStep] using ha)
      refine ⟨st, ?_, ?_⟩
      · rw [perform_cons_of_accepts (show _ = true from ha), Exchange.accepted_cons_of_accepts ha,
          Exchange.run_cons_of_accepts ha]
        exact he
      · rw [hst, Exchange.accepted_cons_of_accepts ha, Nat.add_right_cancel_iff]
        rfl

/-- An attempt to send performs the plan of a write. -/
theorem pass_write (answers : Nat → I2cAnswer) {x : I2cSetup} {buff : List UInt8} (htx : x.txData = some buff) (hrx : x.rxData = none)
    (hlen : x.txLength ≠ 0) (w : I2cTrace) {plan : List (PlanStep I2cOp I2cAnswer)}
    (hplan : plan = i2cWritePlan x.slAddr7bit (buff.take x.txLength)) :
    ∃ st, i2cPass (i2cTraced answers) x w =
        (st, { x with txCount := Exchange.accepted answers plan w.answered - 2, rxCount := 0 }, w.perform answers plan) ∧
      (st = none ↔ Exchange.accepted answers plan w.answered = plan.length) := by
  have hsend : ∀ v, i2cSendByte (i2cTraced answers) (x.slAddr7bit <<< 1) v =
      ((answers v.answered).code, v.ask answers (.send (i2cAddressByte x.slAddr7bit false))) := by
    intro v
    rw [addressByte_write]
    rfl
  subst hplan
  rw [pass_of_sends _ hrx]
  apply head_traced (fun k _ => { x with txCount := k, rxCount := 0 }) rfl
  · intro v hv
    refine ⟨(answers v.answered).code ||| i2cSetupStatusNoackf, ?_⟩
    simp only [i2cTxPhase, htx, if_neg hlen, hsend]
    rw [if_pos (by simpa using hv)]
  · intro v hv
    obtain ⟨st, he, hst⟩ := sendLoop_traced answers (buff.take x.txLength)
      (v.ask answers (.send (i2cAddressByte x.slAddr7bit false)))
    refine ⟨st.map (· ||| i2cSetupStatusNoackf), ?_, ?_⟩
    · simp only [i2cTxPhase, htx, if_neg hlen, hsend]
      rw [if_neg (by simpa using hv), he]
      rfl
    · rw [Option.map_eq_none_iff, hst, List.length_map]
      rfl

/-- An attempt to receive performs the plan of a read, and stores the bytes of the completed operations. -/
theorem pass_read (answers : Nat → I2cAnswer) {x : I2cSetup} {buff : List UInt8} (hrx : x.rxData = some buff) (htx : x.txData = none)
    (hlen : x.rxLength ≠ 0) (hle : x.rxLength ≤ buff.length) (w : I2cTrace) {plan : List (PlanStep I2cOp I2cAnswer)}
    (hplan : plan = i2cReadPlan x.slAddr7bit x.rxLength) :
    ∃ st, i2cPass (i2cTraced answers) x w =
        (st, { x with
          txCount := 0
          rxCount := Exchange.accepted answers plan w.answered - 2
          rxData := some ((answeredBytes ((Exchange.run answers plan w.answered).drop 2)).take
              (Exchange.accepted answers plan w.answered - 2) ++
            buff.drop (Exchange.accepted answers plan w.answered - 2)) }, w.perform answers plan) ∧
      (st = none ↔ Exchange.accepted answers plan w.answered = plan.length) := by
  have hsend : ∀ v, i2cSendByte (i2cTraced answers) ((x.slAddr7bit <<< 1) ||| 1) v =
      ((answers v.answered).code, v.ask answers (.send (i2cAddressByte x.slAddr7bit true))) := by
    intro v
    rw [addressByte_read]
    rfl
  subst hplan
  rw [pass_of_receives _ htx]
  apply head_traced (fun k xs =>
    { x with txCount := 0, rxCount := k, rxData := some ((answeredBytes xs).take k ++ buff.drop k) })
  · simp [hrx, answeredBytes]
  · intro v hv
    refine ⟨(answers v.answered).code ||| i2cSetupStatusNoackf, ?_⟩
    simp only [i2cRxPhase, hrx, if_neg hlen, hsend]
    rw [if_pos (by simpa using hv)]
  · intro v hv
    obtain ⟨st, he, hst⟩ := getLoop_traced answers x.rxLength 0 buff
      (v.ask answers (.send (i2cAddressByte x.slAddr7bit true))) (by omega)
    refine ⟨st, ?_, ?_⟩
    · simp only [i2cRxPhase, hrx, if_neg hlen, hsend]
      rw [if_neg (by simpa using hv), he]
      simp only [Nat.zero_add, List.take_zero, List.nil_append]
      rfl
    · rw [hst, length_i2cGetPlan]
      rfl

/-! ## One call -/

/-- The call is the exchange of a plan, then a STOP, and it returned `SUCCESS` when the plan was done. -/
structure CallOf (answers : Nat → I2cAnswer) (plan : List (PlanStep I2cOp I2cAnswer)) (c : I2cCall I2cTrace) : Prop where
  ok : c.ok = true ↔ Exchange.accepted answers plan c.before.answered = plan.length
  after : c.after = (i2cTraced answers).stop (c.before.perform answers plan)

namespace CallOf

variable {plan : List (PlanStep I2cOp I2cAnswer)} {c : I2cCall I2cTrace}

theorem log (h : CallOf answers plan c) :
    c.after.log = c.before.log ++ ((Exchange.run answers plan c.before.answered).map .asked ++ [.stop]) := by
  rw [h.after, ← List.append_assoc]
  rfl

/-- What it added to the log. -/
theorem events (h : CallOf answers plan c) :
    c.events = (Exchange.run answers plan c.before.answered).map .asked ++ [.stop] := by
  rw [I2cCall.events, h.log, List.drop_left]

/-- The operations it performed. -/
theorem asked (h : CallOf answers plan c) : c.asked = Exchange.run answers plan c.before.answered := by
  have hasked : ∀ xs : List (I2cOp × I2cAnswer), (xs.map I2cEvent.asked).filterMap I2cEvent.asked? = xs := by
    intro xs
    rw [List.filterMap_map]
    exact List.filterMap_some
  rw [I2cCall.asked, h.events, List.filterMap_append, hasked]
  exact List.append_nil _

/-- The data bytes it completed. -/
theorem data_countP {addr : UInt8} {read : Bool} {data : List (PlanStep I2cOp I2cAnswer)}
    (h : CallOf answers (i2cHeadPlan addr read ++ data) c)
    (hdata : ∀ s ∈ data, ∀ a, s.accepts a = i2cDataDone (s.op, a)) :
    c.data.countP i2cDataDone = Exchange.accepted answers (i2cHeadPlan addr read ++ data) c.before.answered - 2 := by
  have hdrop := Exchange.drop_run_append answers (i2cHeadPlan addr read) data c.before.answered
  have hsub := Exchange.accepted_append_sub answers (i2cHeadPlan addr read) data c.before.answered
  rw [show (i2cHeadPlan addr read).length = 2 from rfl] at hdrop hsub
  rw [I2cCall.data, h.asked, hdrop, hsub]
  split
  · exact Exchange.countP_run hdata _
  · rfl

end CallOf

/-! ## The loop of the wrappers -/

section Calls

variable {σ : Type} {P : I2cPeripheral σ}

theorem calls_ne_nil (n : Nat) (x : I2cSetup) (w : σ) : i2cCalls P (n + 1) x w ≠ [] := List.cons_ne_nil _ _

theorem length_calls_le (n : Nat) (x : I2cSetup) (w : σ) : (i2cCalls P n x w).length ≤ n := by
  induction n generalizing x w with
  | zero => exact Nat.le_refl 0
  | succ n ih =>
    simp only [i2cCalls, List.length_cons]
    split
    · exact Nat.succ_le_succ (Nat.zero_le n)
    · exact Nat.succ_le_succ (ih _ _)

/-- When every call failed, all attempts were made. -/
theorem length_calls_of_failed {n : Nat} {x : I2cSetup} {w : σ} (h : ∀ c ∈ i2cCalls P n x w, c.ok = false) :
    (i2cCalls P n x w).length = n := by
  induction n generalizing x w with
  | zero => rfl
  | succ n ih =>
    simp only [i2cCalls] at h ⊢
    have hfirst := h _ List.mem_cons_self
    simp only [hfirst, Bool.false_eq_true, if_false] at h ⊢
    rw [List.length_cons, ih fun c hc => h c (List.mem_cons_of_mem _ hc)]

/-- Every call but the last failed. -/
theorem failed_of_mem_dropLast {n : Nat} {x : I2cSetup} {w : σ} : ∀ c ∈ (i2cCalls P n x w).dropLast, c.ok = false := by
  induction n generalizing x w with
  | zero => exact fun c hc => nomatch hc
  | succ n ih =>
    intro c hc
    simp only [i2cCalls] at hc
    cases hok : (i2cCall P x w).ok with
    | true => simp [hok] at hc
    | false =>
      simp only [hok, Bool.false_eq_true, if_false] at hc
      cases hrest : i2cCalls P n (i2cCall P x w).setup (i2cCall P x w).after with
      | nil => rw [hrest] at hc; exact nomatch hc
      | cons r rs =>
        rw [hrest, List.dropLast_cons_cons] at hc
        rcases List.mem_cons.mp hc with rfl | hmem
        · exact hok
        · exact ih c (by rwa [hrest])

/-- A call that succeeded is the last. -/
theorem getLast?_of_ok {n : Nat} {x : I2cSetup} {w : σ} {c : I2cCall σ} (hc : c ∈ i2cCalls P n x w) (hok : c.ok = true) :
    (i2cCalls P n x w).getLast? = some c := by
  have hne : i2cCalls P n x w ≠ [] := List.ne_nil_of_mem hc
  rw [← List.dropLast_append_getLast hne] at hc
  rcases List.mem_append.mp hc with hmem | hmem
  · rw [failed_of_mem_dropLast c hmem] at hok
    exact nomatch hok
  · rw [List.mem_singleton.mp hmem, List.getLast?_eq_some_getLast hne]

theorem exists_ok_iff {n : Nat} {x : I2cSetup} {w : σ} {last : I2cCall σ} (hlast : (i2cCalls P n x w).getLast? = some last) :
    (∃ c ∈ i2cCalls P n x w, c.ok = true) ↔ last.ok = true := by
  constructor
  · rintro ⟨c, hc, hok⟩
    rwa [Option.some.inj (hlast.symm.trans (getLast?_of_ok hc hok))]
  · exact fun hok => ⟨last, List.mem_of_getLast? hlast, hok⟩

theorem attempts_succ (n : Nat) (x : I2cSetup) (w : σ) :
    i2cAttempts P (n + 1) x w =
      if (i2cCall P x w).ok then ((i2cCall P x w).setup, (i2cCall P x w).after)
      else i2cAttempts P n (i2cCall P x w).setup (i2cCall P x w).after := by
  rw [i2cAttempts]
  unfold i2cCall
  rcases i2cMasterTransferData P x w with ⟨_ | _, x', w'⟩ <;> rfl

/-- The loop leaves what its last call leaves. -/
theorem attempts_eq_last (n : Nat) (x : I2cSetup) (w : σ) :
    ∃ c, (i2cCalls P (n + 1) x w).getLast? = some c ∧ i2cAttempts P (n + 1) x w = (c.setup, c.after) := by
  induction n generalizing x w with
  | zero => exact ⟨i2cCall P x w, by simp [i2cCalls], by rw [attempts_succ]; split <;> rfl⟩
  | succ n ih =>
    rw [i2cCalls, attempts_succ]
    cases hok : (i2cCall P x w).ok with
    | true => exact ⟨i2cCall P x w, rfl, rfl⟩
    | false =>
      obtain ⟨c, hlast, heq⟩ := ih (i2cCall P x w).setup (i2cCall P x w).after
      exact ⟨c, by simp [List.getLast?_cons, hlast], heq⟩

/-- Each call starts from a setup with a property that calls keep. -/
theorem exists_of_mem_calls {I : I2cSetup → Prop} (hkeep : ∀ x w, I x → I (i2cCall P x w).setup) {n : Nat} {x : I2cSetup} {w : σ}
    (hx : I x) : ∀ c ∈ i2cCalls P n x w, ∃ x' w', I x' ∧ c = i2cCall P x' w' := by
  induction n generalizing x w with
  | zero => exact fun c hc => nomatch hc
  | succ n ih =>
    intro c hc
    rcases List.mem_cons.mp hc with rfl | hmem
    · exact ⟨x, w, hx, rfl⟩
    · split at hmem
      · exact nomatch hmem
      · exact ih (hkeep x w hx) c hmem

end Calls

/-- The log after the loop is the log before it and what the calls added. -/
theorem log_attempts {I : I2cSetup → Prop} (hkeep : ∀ x w, I x → I (i2cCall (i2cTraced answers) x w).setup)
    {plan : List (PlanStep I2cOp I2cAnswer)} (hcall : ∀ x w, I x → CallOf answers plan (i2cCall (i2cTraced answers) x w))
    (n : Nat) {x : I2cSetup} (w : I2cTrace) (hx : I x) :
    (i2cAttempts (i2cTraced answers) n x w).2.log =
      w.log ++ ((i2cCalls (i2cTraced answers) n x w).map I2cCall.events).flatten := by
  induction n generalizing x w with
  | zero => exact (List.append_nil _).symm
  | succ n ih =>
    have hlog : (i2cCall (i2cTraced answers) x w).after.log = w.log ++ (i2cCall (i2cTraced answers) x w).events := by
      rw [(hcall x w hx).events, (hcall x w hx).log]
      rfl
    rw [attempts_succ, i2cCalls]
    cases hok : (i2cCall (i2cTraced answers) x w).ok with
    | true => simp [hlog]
    | false => simp [ih _ (hkeep x w hx), hlog]

/-! ## The contract -/

/-- The result of the wrappers, computed in 32 bits and cut to 8, does not wrap around. -/
theorem toNat_result (len : UInt8) {k : Nat} (h : k ≤ len.toNat) :
    ((len.toUInt32 - UInt32.ofNat k).toUInt8).toNat = len.toNat - k := by
  have hlen := len.toNat_lt
  have hk : UInt32.ofNat k ≤ len.toUInt32 := by
    rw [UInt32.le_iff_toNat_le, UInt32.toNat_ofNat', UInt8.toNat_toUInt32]
    omega
  rw [UInt32.toNat_toUInt8, UInt32.toNat_sub_of_le _ _ hk, UInt32.toNat_ofNat', UInt8.toNat_toUInt32]
  omega

/-- What the loop does, from what each of its calls does: `count` is the counter of the setup the wrapper subtracts from `len`. -/
theorem contract_of_calls {I : I2cSetup → Prop} (count : I2cSetup → Nat)
    (hkeep : ∀ x w, I x → I (i2cCall (i2cTraced answers) x w).setup)
    {addr : UInt8} {read : Bool} {data : List (PlanStep I2cOp I2cAnswer)}
    (hcall : ∀ x w, I x → CallOf answers (i2cHeadPlan addr read ++ data) (i2cCall (i2cTraced answers) x w))
    (hdata : ∀ s ∈ data, ∀ a, s.accepts a = i2cDataDone (s.op, a))
    (hcount : ∀ x w, I x → count (i2cCall (i2cTraced answers) x w).setup =
      Exchange.accepted answers (i2cHeadPlan addr read ++ data) w.answered - 2)
    {len : UInt8} (hpos : len ≠ 0) (hlen : data.length = len.toNat) {x : I2cSetup} (w : I2cTrace) (hx : I x) :
    I2cContract (i2cHeadPlan addr read ++ data) len (i2cCalls (i2cTraced answers) i2cRetryCount x w)
      (len.toUInt32 - UInt32.ofNat (count (i2cAttempts (i2cTraced answers) i2cRetryCount x w).1)).toUInt8 w
      (i2cAttempts (i2cTraced answers) i2cRetryCount x w).2 := by
  have hof : ∀ c ∈ i2cCalls (i2cTraced answers) i2cRetryCount x w, CallOf answers (i2cHeadPlan addr read ++ data) c ∧
      count c.setup = Exchange.accepted answers (i2cHeadPlan addr read ++ data) c.before.answered - 2 := by
    intro c hc
    obtain ⟨x', w', hx', rfl⟩ := exists_of_mem_calls hkeep hx c hc
    exact ⟨hcall x' w' hx', hcount x' w' hx'⟩
  have hplan : (i2cHeadPlan addr read ++ data).length = len.toNat + 2 := by
    rw [List.length_append, hlen, Nat.add_comm]
    rfl
  obtain ⟨last, hlast, heq⟩ : ∃ c, (i2cCalls (i2cTraced answers) i2cRetryCount x w).getLast? = some c ∧
      i2cAttempts (i2cTraced answers) i2cRetryCount x w = (c.setup, c.after) := attempts_eq_last 9 x w
  obtain ⟨hlastof, hlastcount⟩ := hof last (List.mem_of_getLast? hlast)
  have hle := Exchange.accepted_le_length answers (i2cHeadPlan addr read ++ data) last.before.answered
  have hnat := toNat_result len (k := count last.setup) (by omega)
  refine ⟨⟨calls_ne_nil 9 x w, length_calls_le _ x w⟩, failed_of_mem_dropLast, ?_, ?_, ?_, ?_, ?_, ?_, ?_⟩
  · exact log_attempts hkeep hcall i2cRetryCount w hx
  · intro c hc
    rw [(hof c hc).1.asked]
    exact ⟨(hof c hc).1.events, Exchange.ops_run_begins _ _ _⟩
  · intro c hc
    rw [(hof c hc).1.ok, (hof c hc).1.asked, Exchange.done_run_iff]
  · intro c hc hfailed
    rw [(hof c hc).1.asked]
    refine Exchange.refused_run ?_
    intro hdone
    rw [(hof c hc).1.ok.mpr hdone] at hfailed
    cases hfailed
  · intro c hc hok
    rw [(hof c hc).1.asked]
    exact Exchange.ops_run_of_accepted ((hof c hc).1.ok.mp hok)
  · have hlen0 : len.toNat ≠ 0 := fun h => hpos (UInt8.toNat_inj.mp h)
    rw [exists_ok_iff hlast, hlastof.ok, heq, ← UInt8.toNat_inj, hnat, UInt8.toNat_zero]
    omega
  · intro hfailed
    refine ⟨length_calls_of_failed hfailed, ?_⟩
    intro c hc
    rw [Option.some.inj (hc.symm.trans hlast), hlastof.data_countP hdata, heq, hnat]
    omega

end SaymaFirmware
