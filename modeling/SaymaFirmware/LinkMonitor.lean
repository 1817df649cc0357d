import SaymaFirmware.EmacInit
import SaymaFirmware.Lib.Machine

/-!
# The link monitor: the loop of `vSetupIFTask` and the TCP/IP thread

The loop reads the PHY's link status and, when it differs from the value remembered, remembers it and posts a callback to the TCP/IP
thread, whose result it drops. The TCP/IP thread runs the callbacks in order; they change `NETIF_FLAG_LINK_UP` of `net_iface`.
-/

namespace SaymaFirmware

/-! ## The functions -/

/-- `EMAC_CheckPHYStatus(EMAC_PHY_STAT_LINK)`, from what `read_PHY` returned. -/
def emacCheckPhyStatusLink (regv : UInt32) : Int := if regv &&& emacPhyBmsrLinkStatus ≠ 0 then 1 else 0

/-- The callbacks the loop posts. -/
inductive LinkCallback where
  | netifSetLinkUp
  | netifSetLinkDown
deriving DecidableEq, Repr

/-- The flags after `netif_set_link_up` or `netif_set_link_down`. -/
def LinkCallback.run (cb : LinkCallback) (flags : UInt8) : UInt8 :=
  match cb with
  | .netifSetLinkUp => if flags &&& netifFlagLinkUp = 0 then flags ||| netifFlagLinkUp else flags
  | .netifSetLinkDown => if flags &&& netifFlagLinkUp ≠ 0 then flags &&& ~~~netifFlagLinkUp else flags

/-- The body of the loop between the reading and the delay: the value remembered after it, and the callback to post. -/
def linkChange (phystsprev physts : Int) : Int × Option LinkCallback :=
  if physts ≠ phystsprev then (physts, some (if physts = 1 then .netifSetLinkUp else .netifSetLinkDown)) else (phystsprev, none)

/-! ## The machine -/

/-- Where the loop is. -/
inductive LinkPc where
  | check
  | compare (physts : Int)
  | post (physts : Int) (cb : LinkCallback)
  /-- At the delay, the end of the iteration. -/
  | delay (physts : Int)
deriving DecidableEq, Repr

/-- What one iteration meets: the word `read_PHY` returns, and whether `tcpip_callback_with_block` posts. -/
structure LinkInput where
  regv : UInt32
  posts : Bool

/-- The two threads: the loop with its iteration and the value it remembers, and the callbacks posted, the one that runs, and the
flags of `net_iface`. -/
structure LinkState where
  pc : LinkPc
  iteration : Nat
  phystsprev : Int
  posted : List LinkCallback
  running : Option LinkCallback
  flags : UInt8
deriving DecidableEq, Repr

/-- The loop is entered with the flags that `prvLowLevelInit` has set. -/
def linkInit : LinkState :=
  { pc := .check, iteration := 0, phystsprev := 0, posted := [], running := none, flags := lowLevelFlags }

/-- Which thread makes the next step. -/
inductive LinkAct where
  | monitor
  | tcpip
deriving DecidableEq, Repr

/-- The loop's next step. -/
def LinkState.monitor (input : Nat → LinkInput) (s : LinkState) : LinkState :=
  match s.pc with
  | .check => { s with pc := .compare (emacCheckPhyStatusLink (input s.iteration).regv) }
  | .compare physts =>
    { s with
      phystsprev := (linkChange s.phystsprev physts).1
      pc := match (linkChange s.phystsprev physts).2 with
        | some cb => .post physts cb
        | none => .delay physts }
  | .post physts cb => { s with posted := if (input s.iteration).posts then s.posted ++ [cb] else s.posted, pc := .delay physts }
  | .delay _ => { s with iteration := s.iteration + 1, pc := .check }

/-- The TCP/IP thread's next step: it takes a message or runs the one it has. -/
def LinkState.tcpip (s : LinkState) : Option LinkState :=
  match s.running, s.posted with
  | some cb, _ => some { s with running := none, flags := cb.run s.flags }
  | none, cb :: rest => some { s with running := some cb, posted := rest }
  | none, [] => none

/-- A step of one of the two threads. -/
def linkStep (input : Nat → LinkInput) (s : LinkState) : LinkAct → Option LinkState
  | .monitor => some (s.monitor input)
  | .tcpip => s.tcpip

/-- `NETIF_FLAG_LINK_UP` is set. -/
def LinkState.linkUp (s : LinkState) : Prop := s.flags &&& netifFlagLinkUp ≠ 0

instance (s : LinkState) : Decidable s.linkUp := inferInstanceAs (Decidable (_ ≠ _))

/-- No posted callback is still to be run. -/
def LinkState.settled (s : LinkState) : Prop := s.posted = [] ∧ s.running = none

end SaymaFirmware
