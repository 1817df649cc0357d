import SaymaFirmware.Rtm

/-!
# The RTM's power and its bring-up

`main` brings the RTM up after switching it on, `vblinkIFTask` only switches it on. So a powered RTM has been brought up exactly as long
as it has been powered by `main` and never since switched on again.
-/

namespace SaymaFirmware

/-- `i2c_RTM_PWRON` and after it `i2c_setSI5324_RTM` have run since the last switch-on, and the RTM's JTAG port is selected. -/
def IoState.rtmBroughtUp (s : IoState) : Prop :=
  (∃ pre a b c : List RtmEvent,
    s.log = pre ++ RtmEvent.switchOn :: (a ++ RtmEvent.ran .i2cRtmPwron :: (b ++ RtmEvent.ran .i2cSetSi5324Rtm :: c)) ∧
    .switchOn ∉ a ∧ .switchOn ∉ b ∧ .switchOn ∉ c) ∧ s.rtmSelected = true

/-- At the end of every iteration of `vblinkIFTask` in which the RTM is powered, it has been brought up. -/
def RtmCoherent (i : RtmSamples) : Prop := ∀ n, (i.state (n + 1)).rtmPowered = true → (i.state (n + 1)).rtmBroughtUp

/-- In every iteration that finds the RTM present, `psu_init`, `main` and all earlier iterations have found it present too. -/
def RtmNeverReplugged (i : RtmSamples) : Prop :=
  ∀ n, rtmPresent (i.blink n).pin = true →
    rtmPresent i.psu = true ∧ rtmPresent i.main = true ∧ ∀ k < n, rtmPresent (i.blink k).pin = true

namespace RtmAux

/-! ### What concerns the RTM -/

/-- The three latches of the RTM, and what has happened. -/
structure RtmView where
  power12 : Bool
  powerMp : Bool
  selected : Bool
  log : List RtmEvent

def view (s : IoState) : RtmView := ⟨s.pin .gpio1 26, s.pin .gpio1 30, s.pin .gpio4 30, s.log⟩

/-- A latch after a statement that gives the pin the value `x`. -/
def RtmView.assign (v : RtmView) (port : Port) (bit : Nat) (x : Bool) : RtmView :=
  { v with
    power12 := if port = .gpio1 ∧ bit = 26 then x else v.power12
    powerMp := if port = .gpio1 ∧ bit = 30 then x else v.powerMp
    selected := if port = .gpio4 ∧ bit = 30 then x else v.selected }

def RtmView.apply (v : RtmView) : IoOp → RtmView
  | .output _ _ | .input _ _ => v
  | .set port bit => v.assign port bit true
  | .clr port bit => v.assign port bit false
  | .call routine => { v with log := v.log ++ [.ran routine] }

def RtmView.powered (v : RtmView) : Bool := v.power12 && v.powerMp

def RtmView.exec (v : RtmView) (op : IoOp) : RtmView :=
  if !v.powered && (v.apply op).powered then { v.apply op with log := (v.apply op).log ++ [.switchOn] } else v.apply op

/-- `SET` and `CLR` change the pin named and no other. -/
theorem pin_apply (s : IoState) (op : IoOp) (p : Port) {b : Nat} (hb : b < 32) :
    (s.apply op).pin p b = match op with
      | .set port bit => if port = p ∧ bit = b then true else s.pin p b
      | .clr port bit => if port = p ∧ bit = b then false else s.pin p b
      | _ => s.pin p b := by
  cases op with
  | output port bit | input port bit | call routine => rfl
  | set port bit | clr port bit =>
    by_cases hp : p = port
    · subst hp
      by_cases hbit : bit = b
      · simp [IoState.apply, IoState.pin, updatePort, hbit, hb]
      · simp [IoState.apply, IoState.pin, updatePort, hbit, Ne.symm hbit, hb]
    · simp [IoState.apply, IoState.pin, updatePort, hp, Ne.symm hp]

theorem view_apply (s : IoState) (op : IoOp) : view (s.apply op) = (view s).apply op := by
  unfold view
  rw [pin_apply s op .gpio1 (b := 26) (by decide), pin_apply s op .gpio1 (b := 30) (by decide),
    pin_apply s op .gpio4 (b := 30) (by decide)]
  cases op <;> rfl

theorem view_exec (s : IoState) (op : IoOp) : view (s.exec op) = (view s).exec op := by
  have hpow : ∀ s : IoState, s.rtmPowered = (view s).powered := fun _ => rfl
  unfold IoState.exec RtmView.exec
  rw [hpow, hpow, view_apply]
  split
  · rw [← view_apply]
    rfl
  · exact view_apply s op

/-- The statements act on the three latches and the log alone. -/
theorem view_run (s : IoState) (ops : List IoOp) : view (s.run ops) = ops.foldl RtmView.exec (view s) := by
  induction ops generalizing s with
  | nil => rfl
  | cons op ops ih =>
    show view ((s.exec op).run ops) = _
    rw [ih, view_exec]
    rfl

/-- A statement that may change the view. -/
def concernsRtm : IoOp → Bool
  | .output _ _ | .input _ _ => false
  | .set port bit | .clr port bit =>
    (port = .gpio1 ∧ bit = 26) || (port = .gpio1 ∧ bit = 30) || (port = .gpio4 ∧ bit = 30)
  | .call _ => true

section

variable (v : RtmView)

theorem assign_eq_self {port : Port} {bit : Nat} (x : Bool) (h : concernsRtm (.set port bit) = false) :
    v.assign port bit x = v := by
  simp only [concernsRtm, Bool.or_eq_false_iff, decide_eq_false_iff_not] at h
  unfold RtmView.assign
  rw [if_neg h.1.1, if_neg h.1.2, if_neg h.2]

theorem exec_of_not_concernsRtm {op : IoOp} (h : concernsRtm op = false) : v.exec op = v := by
  have happly : v.apply op = v := by
    cases op with
    | output port bit | input port bit => rfl
    | set port bit => exact assign_eq_self v true h
    | clr port bit => exact assign_eq_self v false h
    | call routine => nomatch h
  unfold RtmView.exec
  rw [happly]
  simp

/-- Only the statements that concern the RTM count. -/
theorem foldl_exec_filter (ops : List IoOp) :
    ops.foldl RtmView.exec v = (ops.filter concernsRtm).foldl RtmView.exec v := by
  induction ops generalizing v with
  | nil => rfl
  | cons op ops ih =>
    cases h : concernsRtm op with
    | false => rw [List.filter_cons_of_neg (by simp [h]), List.foldl_cons, exec_of_not_concernsRtm v h, ih]
    | true => rw [List.filter_cons_of_pos h, List.foldl_cons, List.foldl_cons, ih]

variable (power12 powerMp selected : Bool) (log : List RtmEvent)

@[simp] theorem exec_call (r : I2cRoutine) :
    RtmView.exec ⟨power12, powerMp, selected, log⟩ (.call r) = ⟨power12, powerMp, selected, log ++ [.ran r]⟩ := by
  cases power12 <;> cases powerMp <;> rfl

@[simp] theorem exec_select :
    RtmView.exec ⟨power12, powerMp, selected, log⟩ (.set .gpio4 30) = ⟨power12, powerMp, true, log⟩ := by
  cases power12 <;> cases powerMp <;> rfl

@[simp] theorem exec_unselect :
    RtmView.exec ⟨power12, powerMp, selected, log⟩ (.clr .gpio4 30) = ⟨power12, powerMp, false, log⟩ := by
  cases power12 <;> cases powerMp <;> rfl

/-- `3.3MP power off`, `12V power off`. -/
@[simp] theorem exec_powerOff :
    (RtmView.exec ⟨power12, powerMp, selected, log⟩ (.clr .gpio1 30)).exec (.clr .gpio1 26) = ⟨false, false, selected, log⟩ := by
  cases power12 <;> cases powerMp <;> rfl

/-- `3.3MP power on`, `12V power on`. -/
@[simp] theorem exec_powerOn :
    (RtmView.exec ⟨power12, powerMp, selected, log⟩ (.set .gpio1 30)).exec (.set .gpio1 26) =
      ⟨true, true, selected, log ++ if !(power12 && powerMp) then [.switchOn] else []⟩ := by
  cases power12 <;> cases powerMp <;> simp <;> rfl

end

/-! ### Boot and iterations -/

/-- After `main` the power follows its sample and the JTAG port that of `psu_init`, and an RTM that is powered has been brought up. -/
theorem view_main (psuPin pin : BitVec 32) :
    view (ioReset.run (mainInit psuPin pin)) = ⟨rtmPresent pin, rtmPresent pin, rtmPresent psuPin,
      .ran .i2cInit :: .ran .i2cSetSi5324 ::
        if rtmPresent pin then [.switchOn, .ran .i2cRtmPwron, .ran .i2cSetSi5324Rtm] else []⟩ := by
  have hops : (mainInit psuPin pin).filter concernsRtm =
      (if pinHigh psuPin 29 then .clr .gpio4 30 else .set .gpio4 30) :: .clr .gpio1 30 :: .clr .gpio1 26 ::
        .call .i2cInit :: .call .i2cSetSi5324 ::
        if pinHigh pin 29 then [.clr .gpio1 30, .clr .gpio1 26]
        else [.set .gpio1 30, .set .gpio1 26, .call .i2cRtmPwron, .call .i2cSetSi5324Rtm] := by
    unfold mainInit psuInit
    cases pinHigh psuPin 29 <;> cases pinHigh pin 29 <;> rfl
  rw [view_run, foldl_exec_filter, hops]
  have hreset : view ioReset = ⟨false, false, false, []⟩ := rfl
  unfold rtmPresent
  rw [hreset]
  cases pinHigh psuPin 29 <;> cases pinHigh pin 29 <;> simp

/-- An iteration sets the power after its sample, and logs a switch-on if the power was off. -/
theorem view_iteration (s : IoState) (i : BlinkInput) (p : Bool) (h12 : (view s).power12 = p) (hmp : (view s).powerMp = p) :
    view (s.run (vblinkIteration i)) = ⟨rtmPresent i.pin, rtmPresent i.pin, (view s).selected,
      (view s).log ++ if !p && rtmPresent i.pin then [.switchOn] else []⟩ := by
  have hops : (vblinkIteration i).filter concernsRtm =
      if pinHigh i.pin 29 then [.clr .gpio1 30, .clr .gpio1 26] else [.set .gpio1 30, .set .gpio1 26] := by
    unfold vblinkIteration
    cases pinHigh i.done 5 <;> cases pinHigh i.pin 29 <;> rfl
  rw [view_run, foldl_exec_filter, hops]
  generalize view s = v at h12 hmp ⊢
  obtain ⟨power12, powerMp, selected, log⟩ := v
  subst h12
  obtain rfl : powerMp = power12 := hmp
  unfold rtmPresent
  cases pinHigh i.pin 29 <;> simp

variable (i : RtmSamples)

/-- The last sample that set the power, before iteration `n`. -/
def lastPresent : Nat → Bool
  | 0 => rtmPresent i.main
  | n + 1 => rtmPresent (i.blink n).pin

/-- The RTM has been present since `main`. -/
def Held (n : Nat) : Prop := rtmPresent i.main = true ∧ ∀ k < n, rtmPresent (i.blink k).pin = true

theorem Held.succ {n : Nat} (h : Held i n) (hnow : lastPresent i (n + 1) = true) : Held i (n + 1) := by
  refine ⟨h.1, ?_⟩
  intro k hk
  rcases Nat.lt_succ_iff_lt_or_eq.mp hk with hk | rfl
  · exact h.2 k hk
  · exact hnow

theorem lastPresent_of_held {n : Nat} (h : Held i n) : lastPresent i n = true := by
  cases n with
  | zero => exact h.1
  | succ n => exact h.2 n (Nat.lt_succ_self n)

/-- The state between two iterations: an RTM that has been present since `main` was brought up then, one that came later was switched
on last. -/
structure Rtm (n : Nat) (v : RtmView) : Prop where
  power12 : v.power12 = lastPresent i n
  powerMp : v.powerMp = lastPresent i n
  selected : v.selected = rtmPresent i.psu
  held : Held i n → v.log = [.ran .i2cInit, .ran .i2cSetSi5324, .switchOn, .ran .i2cRtmPwron, .ran .i2cSetSi5324Rtm]
  late : lastPresent i n = true → ¬ Held i n → ∃ pre, v.log = pre ++ [.switchOn]

theorem rtm (n : Nat) : Rtm i n (view (i.state n)) := by
  induction n with
  | zero =>
    show Rtm i 0 (view (ioReset.run (mainInit i.psu i.main)))
    rw [view_main]
    refine ⟨rfl, rfl, rfl, ?_, ?_⟩
    · rintro ⟨hmain, -⟩
      simp [hmain]
    · intro hlast hheld
      exact absurd ⟨hlast, fun k hk => absurd hk (Nat.not_lt_zero k)⟩ hheld
  | succ n ih =>
    show Rtm i (n + 1) (view ((i.state n).run (vblinkIteration (i.blink n))))
    rw [view_iteration _ _ _ ih.power12 ih.powerMp]
    refine ⟨rfl, rfl, ih.selected, ?_, ?_⟩
    · rintro ⟨hmain, hblink⟩
      have hheld : Held i n := ⟨hmain, fun k hk => hblink k (Nat.lt_succ_of_lt hk)⟩
      simp [ih.held hheld, lastPresent_of_held i hheld]
    · intro hnow hheld
      cases hlast : lastPresent i n with
      | true =>
        -- the power stays on
        have hbefore : ¬ Held i n := fun h => hheld (h.succ i hnow)
        obtain ⟨pre, hpre⟩ := ih.late hlast hbefore
        exact ⟨pre, by simp [hpre]⟩
      | false =>
        have hpresent : rtmPresent (i.blink n).pin = true := hnow
        exact ⟨(view (i.state n)).log, by simp [hpresent]⟩

/-- Right after a switch-on nothing has been brought up. -/
theorem not_broughtUp {s : IoState} {pre : List RtmEvent} (h : s.log = pre ++ [.switchOn]) : ¬ s.rtmBroughtUp := by
  rintro ⟨⟨pre', a, b, c, hlog, -, -, hc⟩, -⟩
  have hlast := congrArg List.getLast? (h.symm.trans hlog)
  rcases List.eq_nil_or_concat c with rfl | ⟨c', e, rfl⟩
  · simp [List.getLast?_append, List.getLast?_cons] at hlast
  · simp [List.getLast?_append, List.getLast?_cons] at hlast hc
    exact hc.2 hlast

/-- A powered RTM has been brought up exactly if it has been present since `main`, and was when `psu_init` looked. -/
theorem broughtUp_iff {n : Nat} (hlast : lastPresent i n = true) :
    (i.state n).rtmBroughtUp ↔ rtmPresent i.psu = true ∧ Held i n := by
  have h := rtm i n
  by_cases hheld : Held i n
  · have hlog : (i.state n).log = _ := h.held hheld
    have hsel : (i.state n).rtmSelected = rtmPresent i.psu := h.selected
    constructor
    · intro hup
      exact ⟨hsel ▸ hup.2, hheld⟩
    · rintro ⟨hpsu, -⟩
      refine ⟨⟨[.ran .i2cInit, .ran .i2cSetSi5324], [], [], [], hlog, ?_, ?_, ?_⟩, hsel.trans hpsu⟩ <;> simp
  · obtain ⟨pre, hpre⟩ := h.late hlast hheld
    exact iff_of_false (not_broughtUp hpre) fun hup => hheld hup.2

end RtmAux

open RtmAux in
/-- For every sequence of samples: a powered RTM is always brought up exactly if the RTM is never found present after it was found
absent once. -/
theorem rtmCoherent_iff (i : RtmSamples) : RtmCoherent i ↔ RtmNeverReplugged i := by
  have hpowered : ∀ n, (i.state (n + 1)).rtmPowered = rtmPresent (i.blink n).pin := by
    intro n
    have h := rtm i (n + 1)
    show ((view (i.state (n + 1))).power12 && (view (i.state (n + 1))).powerMp) = _
    rw [h.power12, h.powerMp, Bool.and_self]
    rfl
  refine forall_congr' ?_
  intro n
  rw [hpowered]
  refine forall_congr' ?_
  intro hnow
  rw [broughtUp_iff i (n := n + 1) hnow]
  refine and_congr_right fun _ => and_congr_right ?_
  intro _
  constructor
  · intro h k hk
    exact h k (Nat.lt_succ_of_lt hk)
  · intro h k hk
    rcases Nat.lt_succ_iff_lt_or_eq.mp hk with hk | rfl
    · exact h k hk
    · exact hnow

/-- The RTM is there through the boot, is pulled before the first iteration and plugged in again before the second. -/
def replugged : RtmSamples := ⟨0, 0, fun n => ⟨0, if n = 0 then pinMask 29 else 0⟩⟩

/-- Nothing runs after the second switch-on. -/
theorem replugged_not_coherent : ¬ RtmCoherent replugged := by
  intro h
  have hlog : (replugged.state 2).log =
      ([.ran .i2cInit, .ran .i2cSetSi5324, .switchOn, .ran .i2cRtmPwron, .ran .i2cSetSi5324Rtm] : List RtmEvent) ++ [.switchOn] := by
    decide +kernel
  exact RtmAux.not_broughtUp hlog (h 1 (by decide +kernel))

end SaymaFirmware
