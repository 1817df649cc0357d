import SaymaFirmware.LinkMonitor

/-!
# Start-up: `vSetupIFTask` and the TCP/IP thread

`vSetupIFTask` starts the TCP/IP thread, which begins with `network_init`, polls the flag `tcpipdone` that `network_init` sets, starts the
HTTP server and then monitors the PHY link. The two threads may switch at any step; `network_init` is the program of `EmacInit.lean`.
-/

namespace SaymaFirmware

/-- What the two threads do that the other can notice. -/
inductive StartEvent where
  /-- `network_init` performs an operation and gets this answer. -/
  | init (o : InitOp) (r : UInt32)
  /-- `network_init` returns. -/
  | initReturned
  /-- `vSetupIFTask` calls `http_server_netconn_init`. -/
  | httpServerNetconnInit
  /-- `vSetupIFTask` reads the PHY's link status. -/
  | checkPhyStatus
  /-- `vSetupIFTask` posts a link callback. -/
  | post (cb : LinkCallback)
deriving DecidableEq, Repr

/-- An action of `vSetupIFTask` that is to follow `network_init`. -/
def StartEvent.afterInit : StartEvent → Bool
  | .httpServerNetconnInit | .checkPhyStatus => true
  | _ => false

/-- Where `vSetupIFTask` is. -/
inductive SetupPc where
  /-- At `tcpip_init`. -/
  | start
  /-- At the test of `tcpipdone`. -/
  | wait
  | waitDelay
  | http
  | check
  | compare (physts : Int)
  | post (cb : LinkCallback)
  | delay
deriving DecidableEq, Repr

/-- Where the TCP/IP thread is. -/
inductive TcpipPc where
  | notStarted
  /-- In `network_init`, with what is left of it. -/
  | init (p : Init Unit)
  /-- In its main loop. -/
  | loop

/-- Both threads, the flag, the value the monitor remembers, and what has happened. -/
structure StartState where
  setup : SetupPc
  tcpip : TcpipPc
  tcpipdone : Bool
  phystsprev : Int
  log : List StartEvent

/-- At the entry of `vSetupIFTask`. -/
def startInit : StartState := { setup := .start, tcpip := .notStarted, tcpipdone := false, phystsprev := 0, log := [] }

/-- The next step of one of the threads, with the answer to the operation it performs. -/
inductive StartAct where
  | setup (r : UInt32)
  | tcpip (r : UInt32)

/-- The next step of `vSetupIFTask`. -/
def StartState.stepSetup (s : StartState) (r : UInt32) : StartState :=
  match s.setup with
  | .start => { s with setup := .wait, tcpip := .init networkInit }
  | .wait => { s with setup := if s.tcpipdone then .http else .waitDelay }
  | .waitDelay => { s with setup := .wait }
  | .http => { s with setup := .check, phystsprev := 0, log := s.log ++ [.httpServerNetconnInit] }
  | .check => { s with setup := .compare (emacCheckPhyStatusLink r), log := s.log ++ [.checkPhyStatus] }
  | .compare physts =>
    { s with
      phystsprev := (linkChange s.phystsprev physts).1
      setup := match (linkChange s.phystsprev physts).2 with
        | some cb => .post cb
        | none => .delay }
  | .post cb => { s with setup := .delay, log := s.log ++ [.post cb] }
  | .delay => { s with setup := .check }

/-- The next step of the TCP/IP thread while it is in `network_init`. -/
def StartState.stepTcpip (s : StartState) (r : UInt32) : Option StartState :=
  match s.tcpip with
  | .notStarted => none
  | .init (.ret _) => some { s with tcpip := .loop, log := s.log ++ [.initReturned] }
  | .init (.perform o k) =>
    some { s with tcpip := .init (k r), tcpipdone := s.tcpipdone || o = .setDone, log := s.log ++ [.init o r] }
  | .loop => none

/-- A step of one of the threads. -/
def startStep (s : StartState) : StartAct → Option StartState
  | .setup r => some (s.stepSetup r)
  | .tcpip r => s.stepTcpip r

end SaymaFirmware
