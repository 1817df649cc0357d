import SaymaFirmware.Lib.Machine
import SaymaFirmware.Lib.Word32

/-!
# The stack's timers: `lwip_timers.c`

The list of timeouts of the TCP/IP thread, in which each entry holds the time that separates it from the one before, and
`sys_timeouts_mbox_fetch`, which waits for messages and fires what falls due meanwhile. Times are milliseconds, which are ticks here
(`portTICK_RATE_MS` is 1), in 32 bits.

The list is the chain of the `next` pointers. What an entry is to call is left open (`α`): the source has a handler and its argument.
An entry is an element of the pool `MEMP_SYS_TIMEOUT`, which serves nothing else; when the pool is empty, `sys_timeout` fails an
assertion and the program aborts, here `none`.
-/

namespace SaymaFirmware

def mempNumSysTimeout : Nat := 300

/-- `SYS_ARCH_TIMEOUT`. -/
def sysArchTimeout : Nat := 0xffffffff

/-- `struct sys_timeo`. -/
structure SysTimeo (α : Type*) where
  time : Nat
  call : α
deriving DecidableEq, Repr

section

variable {α : Type*}

/-- The loop of `sys_timeout`: `timeout` goes behind `t` unless the entry after `t` is due before it or with it. -/
def sysTimeoutLoop (timeout : SysTimeo α) : List (SysTimeo α) → List (SysTimeo α)
  | [] => []
  | [t] => [t, { timeout with time := sub32 timeout.time t.time }]
  | t :: n :: rest =>
    let timeout := { timeout with time := sub32 timeout.time t.time }
    if timeout.time < n.time then t :: timeout :: { n with time := sub32 n.time timeout.time } :: rest
    else t :: sysTimeoutLoop timeout (n :: rest)

def sysTimeout (msecs : Nat) (call : α) (nextTimeout : List (SysTimeo α)) : Option (List (SysTimeo α)) :=
  if mempNumSysTimeout ≤ nextTimeout.length then none
  else
    match nextTimeout with
    | [] => some [⟨msecs, call⟩]
    | n :: rest =>
      if msecs < n.time then some (⟨msecs, call⟩ :: { n with time := sub32 n.time msecs } :: rest)
      else some (sysTimeoutLoop ⟨msecs, call⟩ (n :: rest))

/-- `sys_untimeout`, for the first entry that meets `p`. -/
def sysUntimeout (p : α → Bool) : List (SysTimeo α) → List (SysTimeo α)
  | [] => []
  | t :: rest =>
    if p t.call then
      match rest with
      | [] => []
      | n :: rest => { n with time := add32 n.time t.time } :: rest
    else t :: sysUntimeout p rest

/-- How one wait in `sys_timeouts_mbox_fetch` ends: with a message after some ticks, or without one after the time it waits for. -/
inductive FetchEnd where
  | message (ticks : Nat)
  | timeout (ticks : Nat)
deriving DecidableEq, Repr

/-- One pass of `sys_timeouts_mbox_fetch` from `again:` on: the list, what is called, and the ticks it took. A wait without an end in
sight (`timeout` 0) only ends with a message; a wait for `time` ticks ends without one only after them; and an entry that is due is
called without a wait. -/
def sysTimeoutsMboxFetch (nextTimeout : List (SysTimeo α)) : FetchEnd → Option (List (SysTimeo α) × Option α × Nat)
  | .message ticks =>
    match nextTimeout with
    | [] => some ([], none, ticks)
    | n :: rest =>
      if n.time = 0 then none
      else
        -- `xElapsed` of `sys_arch_mbox_fetch`
        let timeNeeded := ticks % 2 ^ 32
        if timeNeeded = sysArchTimeout then some (rest, some n.call, ticks)
        else if timeNeeded < n.time then some ({ n with time := sub32 n.time timeNeeded } :: rest, none, ticks)
        else some ({ n with time := 0 } :: rest, none, ticks)
  | .timeout ticks =>
    match nextTimeout with
    | [] => none
    | n :: rest => if n.time ≤ ticks then some (rest, some n.call, ticks) else none

end

/-! ## Runs -/

/-- What an entry calls, and when it was set: only the first two are the source's. -/
structure TimerCall where
  handler : Nat
  arg : Nat
  setAt : Nat
  msecs : Nat
deriving DecidableEq, Repr

/-- The list, the clock, and what has been called so far and when. -/
structure TimerSys where
  nextTimeout : List (SysTimeo TimerCall)
  now : Nat
  fired : List (TimerCall × Nat)

/-- What the thread does: set or take back a timeout, wait in the fetch, or spend time on a message or in a handler. -/
inductive TimerAct where
  | set (msecs handler arg : Nat)
  | unset (handler arg : Nat)
  | fetch (e : FetchEnd)
  | work (ticks : Nat)

def TimerSys.init : TimerSys := ⟨[], 0, []⟩

/-- The test of `sys_untimeout`. -/
def callIs (handler arg : Nat) (c : TimerCall) : Bool := c.handler == handler && c.arg == arg

def timerStep (s : TimerSys) : TimerAct → Option TimerSys
  | .set msecs handler arg => (sysTimeout msecs ⟨handler, arg, s.now, msecs⟩ s.nextTimeout).map fun l => { s with nextTimeout := l }
  | .unset handler arg => some { s with nextTimeout := sysUntimeout (callIs handler arg) s.nextTimeout }
  | .fetch e => (sysTimeoutsMboxFetch s.nextTimeout e).map fun r =>
      { nextTimeout := r.1, now := s.now + r.2.2, fired := s.fired ++ (r.2.1.map fun c => (c, s.now + r.2.2)).toList }
  | .work ticks => some { s with now := s.now + ticks }

/-- The times are 32-bit numbers. -/
def timerOk : TimerAct → Bool
  | .set msecs _ _ => decide (msecs < 2 ^ 32)
  | _ => true

/-! ## The stack's own timers -/

/-- The handlers of this build, and those that other code sets. -/
inductive StackTimer where
  | tcpipTcpTimer
  | ipReassTimer
  | arpTimer
  | dhcpTimerCoarse
  | dhcpTimerFine
  | client (n : Nat)
deriving DecidableEq, Repr

/-- `TCP_TMR_INTERVAL`, `IP_TMR_INTERVAL`, `ARP_TMR_INTERVAL`, `DHCP_COARSE_TIMER_MSECS` and `DHCP_FINE_TIMER_MSECS`. -/
def StackTimer.interval : StackTimer → Nat
  | tcpipTcpTimer => 250
  | ipReassTimer => 1000
  | arpTimer => 5000
  | dhcpTimerCoarse => 60 * 1000
  | dhcpTimerFine => 500
  | client _ => 0

/-- `sys_timeouts_init`. -/
def sysTimeoutsInit : Option (List (SysTimeo StackTimer)) := do
  let l ← sysTimeout StackTimer.ipReassTimer.interval .ipReassTimer []
  let l ← sysTimeout StackTimer.arpTimer.interval .arpTimer l
  let l ← sysTimeout StackTimer.dhcpTimerCoarse.interval .dhcpTimerCoarse l
  sysTimeout StackTimer.dhcpTimerFine.interval .dhcpTimerFine l

/-- The list, `tcpip_tcp_timer_active`, how many PCBs are in `tcp_active_pcbs` and `tcp_tw_pcbs`, and the handler that is running. -/
structure TimerThread where
  nextTimeout : List (SysTimeo StackTimer)
  tcpipTcpTimerActive : Bool
  pcbs : Nat
  running : Option StackTimer

/-- `tcp_timer_needed`. -/
def tcpTimerNeeded (s : TimerThread) : Option TimerThread :=
  if !s.tcpipTcpTimerActive && decide (s.pcbs ≠ 0) then
    (sysTimeout StackTimer.tcpipTcpTimer.interval .tcpipTcpTimer s.nextTimeout).map fun l =>
      { s with nextTimeout := l, tcpipTcpTimerActive := true }
  else some s

/-- The end of a handler, after the work it is for: set itself again. -/
def handlerEnd (s : TimerThread) : StackTimer → Option TimerThread
  | .tcpipTcpTimer =>
    if s.pcbs ≠ 0 then
      (sysTimeout StackTimer.tcpipTcpTimer.interval .tcpipTcpTimer s.nextTimeout).map fun l => { s with nextTimeout := l }
    else some { s with tcpipTcpTimerActive := false }
  | .client _ => some s
  | h => (sysTimeout h.interval h s.nextTimeout).map fun l => { s with nextTimeout := l }

/-- What the thread does. A PCB may be registered (`TCP_REG`) and removed (`TCP_RMV`) at any point, also inside a handler, and other
code sets and takes back timeouts of its own. -/
inductive ThreadAct where
  | fetch (e : FetchEnd)
  | handlerReturns
  | tcpReg
  | tcpRmv
  | set (msecs n : Nat)
  | unset (n : Nat)

def threadStep (s : TimerThread) : ThreadAct → Option TimerThread
  | .fetch e =>
    if s.running.isSome then none
    else (sysTimeoutsMboxFetch s.nextTimeout e).map fun r => { s with nextTimeout := r.1, running := r.2.1 }
  | .handlerReturns => s.running.bind fun h => (handlerEnd s h).map fun s => { s with running := none }
  | .tcpReg => tcpTimerNeeded { s with pcbs := s.pcbs + 1 }
  | .tcpRmv => if s.pcbs = 0 then none else some { s with pcbs := s.pcbs - 1 }
  | .set msecs n => (sysTimeout msecs (.client n) s.nextTimeout).map fun l => { s with nextTimeout := l }
  | .unset n => some { s with nextTimeout := sysUntimeout (· == .client n) s.nextTimeout }

def TimerThread.init : TimerThread := ⟨sysTimeoutsInit.getD [], false, 0, none⟩

/-- What is pending, first to last. -/
def TimerThread.calls (s : TimerThread) : List StackTimer := s.nextTimeout.map SysTimeo.call

/-- The timeout is not one of the stack's own. -/
def StackTimer.isClient : StackTimer → Bool
  | client _ => true
  | _ => false

/-- Other code leaves the stack the timeouts it needs. -/
def threadOk (s : TimerThread) : ThreadAct → Bool
  | .set msecs _ => decide (msecs < 2 ^ 32) && decide (s.calls.countP StackTimer.isClient + 5 < mempNumSysTimeout)
  | _ => true

end SaymaFirmware
