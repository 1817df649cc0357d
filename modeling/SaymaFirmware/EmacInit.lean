import SaymaFirmware.Emac
import SaymaFirmware.Lib.Prog

/-!
# Bringing up the interface: `network_init` and what it calls

`network_init` of `main.c`, `netif_add` of lwIP's `netif.c`, `ethernetif_init` and `prvLowLevelInit` of `ethernetif.c`, and of
`lpc17xx_emac.c` the functions `EMAC_Init`, `EMAC_SetPHYMode` and `EMAC_UpdatePHYStatus`, in the configured variant (`IAR_LPC_1768`,
`LWIP_DHCP`). They are programs over the operations of `InitOp`; every answer is a 32-bit word, which stands for an `int32_t` where the
source uses one.
-/

namespace SaymaFirmware

/-! ## Operations -/

/-- The EMAC registers that are written. -/
inductive EmacReg where
  | mac1 | mac2 | maxf | mcfg | clrt | ipgr | ipgt | supp | command | rxFilterCtrl | intEnable | intClear
deriving DecidableEq, Repr

/-- The operations of the bring-up. A PHY register access is one operation: it is answered with the value read (0 for a write), or
with -1 when it times out. `mem_malloc` is answered with a pointer, and `dhcp_start` with an `err_t`. -/
inductive InitOp where
  /-- `*(s32_t *) arg = 1`. -/
  | setDone
  | memMalloc
  | netifFlags (flags : UInt8)
  | configPin (pin : Nat)
  | configPower
  | getCpuClock
  | writeReg (reg : EmacReg) (value : UInt32)
  | setBits (reg : EmacReg) (value : UInt32)
  | clearBits (reg : EmacReg) (value : UInt32)
  | writePhy (reg : UInt32) (value : UInt16)
  | readPhy (reg : UInt32)
  | taskDelay (ticks : Nat)
  | setEmacAddr
  | rxDescrInit
  | txDescrInit
  | enableIrq
  | netifListAdd
  | netifSetDefault (added : Bool)
  | netifSetStatusCallback
  | dhcpStart
deriving DecidableEq, Repr

/-- An access to a PHY register. -/
def InitOp.isPhy : InitOp → Bool
  | .writePhy _ _ | .readPhy _ => true
  | _ => false

/-- A program of the bring-up. -/
abbrev Init (α : Type) := Prog InitOp UInt32 α

/-! ## Constants of the PHY -/

/-- `EMAC_PHY_RESP_TOUT`. -/
def emacPhyRespTout : Nat := 0x100000
/-- `EMAC_PHY_REG_BMCR`. -/
def emacPhyRegBmcr : UInt32 := 0x00
/-- `EMAC_PHY_REG_BMSR`. -/
def emacPhyRegBmsr : UInt32 := 0x01
/-- `EMAC_PHY_REG_IDR1`. -/
def emacPhyRegIdr1 : UInt32 := 0x02
/-- `EMAC_PHY_REG_IDR2`. -/
def emacPhyRegIdr2 : UInt32 := 0x03
/-- `EMAC_PHY_BMCR_RESET`. -/
def emacPhyBmcrReset : UInt32 := 0x8000
/-- `EMAC_PHY_BMCR_POWERDOWN`. -/
def emacPhyBmcrPowerdown : UInt32 := 0x0800
/-- `EMAC_PHY_BMSR_AUTO_DONE`. -/
def emacPhyBmsrAutoDone : UInt32 := 0x0020
/-- `EMAC_PHY_BMSR_LINK_STATUS`. -/
def emacPhyBmsrLinkStatus : UInt32 := 0x0004
/-- `EMAC_PHY_AUTO_NEG`. -/
def emacPhyAutoNeg : UInt16 := 0x3000

/-! ## `lpc17xx_emac.c` -/

/-- `EMAC_clkdiv`. -/
def emacClkdiv : List UInt32 := [4, 6, 8, 10, 14, 20, 28, 36, 40, 44, 48, 52, 56, 60, 64]

/-- The field of `MCFG` that selects the MII clock, for a CPU clock: the place of the first divisor that is large enough, plus one. -/
def mcfgClkSel (clock : UInt32) : UInt32 :=
  let tmp := clock / 2500000
  let tout := UInt32.ofNat ((emacClkdiv.findIdx fun d => d ≥ tmp) + 1)
  (tout &&& 0x0F) <<< 2

/-- The loop that waits for the PHY's reset to end. `false` is the return of `ERROR` from within it. -/
def waitReset : (tout : Nat) → Init Bool
  | 0 => pure true
  | tout + 1 => do
    let regv ← Prog.op (.readPhy emacPhyRegBmcr)
    if regv &&& (emacPhyBmcrReset ||| emacPhyBmcrPowerdown) = 0 then pure true
    else if tout + 1 = 0 then pure false
    else do
      Prog.op_ (.taskDelay 2)
      waitReset tout

/-- The loop that waits for auto-negotiation. `false` is the return of -1 from within it. -/
def waitAutoNegotiation : (tout : Nat) → Init Bool
  | 0 => pure true
  | tout + 1 => do
    let regv ← Prog.op (.readPhy emacPhyRegBmsr)
    if regv &&& emacPhyBmsrAutoDone ≠ 0 then pure true
    else if tout + 1 = 0 then pure false
    else do
      Prog.op_ (.taskDelay 1000)
      waitAutoNegotiation tout

/-- The loop that waits for the link. `false` is the return of -1 from within it. -/
def waitLink : (tout : Nat) → Init Bool
  | 0 => pure true
  | tout + 1 => do
    let regv ← Prog.op (.readPhy emacPhyRegBmsr)
    if regv &&& emacPhyBmsrLinkStatus ≠ 0 then pure true
    else if tout + 1 = 0 then pure false
    else waitLink tout

/-- `EMAC_UpdatePHYStatus`: `true` for 0, `false` for -1. -/
def emacUpdatePhyStatus : Init Bool := do
  if !(← waitLink emacPhyRespTout) then return false
  let regv ← Prog.op (.readPhy 0x1f)
  if regv &&& 0x10 ≠ 0 then
    Prog.op_ (.setBits .mac2 0x01)
    Prog.op_ (.setBits .command 0x400)
    Prog.op_ (.writeReg .ipgt 0x15)
  else
    Prog.op_ (.writeReg .ipgt 0x12)
  if regv &&& 0x08 ≠ 0 then
    Prog.op_ (.writeReg .supp 0x100)
  else
    Prog.op_ (.writeReg .supp 0)
  return true

/-- `EMAC_SetPHYMode(EMAC_MODE_AUTO)`: `true` for 0, `false` for -1. -/
def emacSetPhyMode : Init Bool := do
  let id1 ← Prog.op (.readPhy emacPhyRegIdr1)
  let id2 ← Prog.op (.readPhy emacPhyRegIdr2)
  if (id1 <<< 16) ||| (id2 &&& 0xFFF0) = 0 then return false
  Prog.op_ (.writePhy emacPhyRegBmcr emacPhyAutoNeg)
  if !(← waitAutoNegotiation emacPhyRespTout) then return false
  if !(← emacUpdatePhyStatus) then return false
  return true

/-- `EMAC_Init` in the mode `EMAC_MODE_AUTO`: `true` for `SUCCESS`. -/
def emacInit : Init Bool := do
  Prog.op_ .configPower
  Prog.op_ (.writeReg .mac1 0xCF00)
  Prog.op_ (.writeReg .command 0x78)
  -- a short delay after reset
  Prog.op_ (.taskDelay 2)
  Prog.op_ (.writeReg .mac1 0x02)
  Prog.op_ (.writeReg .mac2 0x30)
  Prog.op_ (.writeReg .maxf emacEthMaxFlen)
  let clock ← Prog.op .getCpuClock
  Prog.op_ (.writeReg .mcfg (mcfgClkSel clock ||| 0x8000))
  Prog.op_ (.clearBits .mcfg 0x8000)
  Prog.op_ (.writeReg .clrt 0x370F)
  Prog.op_ (.writeReg .ipgr 0x12)
  Prog.op_ (.writeReg .command 0x240)
  Prog.op_ (.writeReg .supp 0x800)
  Prog.op_ (.writeReg .supp 0)
  Prog.op_ (.writePhy emacPhyRegBmcr 0x8000)
  if !(← waitReset emacPhyRespTout) then return false
  if !(← emacSetPhyMode) then return false
  Prog.op_ .setEmacAddr
  Prog.op_ .rxDescrInit
  Prog.op_ .txDescrInit
  Prog.op_ (.writeReg .rxFilterCtrl 0x26)
  Prog.op_ (.writeReg .intEnable 0x88)
  Prog.op_ (.writeReg .intClear 0xFFFF)
  -- enable the receive and transmit data paths
  Prog.op_ (.setBits .command 0x03)
  Prog.op_ (.setBits .mac1 0x01)
  return true

/-! ## `ethernetif.c`, `netif.c` and `main.c` -/

/-- `NETIF_FLAG_BROADCAST`. -/
def netifFlagBroadcast : UInt8 := 0x02
/-- `NETIF_FLAG_LINK_UP`. -/
def netifFlagLinkUp : UInt8 := 0x10
/-- `NETIF_FLAG_ETHARP`. -/
def netifFlagEtharp : UInt8 := 0x20
/-- `NETIF_FLAG_IGMP`. -/
def netifFlagIgmp : UInt8 := 0x80

/-- The flags `prvLowLevelInit` sets. -/
def lowLevelFlags : UInt8 := netifFlagBroadcast ||| netifFlagEtharp ||| netifFlagLinkUp

/-- `PINSEL_ConfigPin` for each Ethernet pin of port 1. -/
def configPins : List Nat → Init Unit
  | [] => pure ()
  | pin :: pins => do
    Prog.op_ (.configPin pin)
    configPins pins

/-- `prvLowLevelInit`. -/
def prvLowLevelInit : Init Unit := do
  Prog.op_ (.netifFlags lowLevelFlags)
  Prog.op_ (.netifFlags lowLevelFlags)
  configPins [0, 1, 4, 8, 9, 10, 14, 15, 16, 17]
  if ← emacInit then
    Prog.op_ .enableIrq

/-- `ethernetif_init`: `true` for `ERR_OK`, `false` for `ERR_MEM`. -/
def ethernetifInit : Init Bool := do
  let pxEthernetIf ← Prog.op .memMalloc
  if pxEthernetIf = 0 then return false
  Prog.op_ (.netifFlags (netifFlagBroadcast ||| netifFlagEtharp ||| netifFlagIgmp))
  prvLowLevelInit
  return true

/-- `netif_add` with `ethernetif_init`: `false` for `NULL`. -/
def netifAdd : Init Bool := do
  Prog.op_ (.netifFlags 0)
  if !(← ethernetifInit) then return false
  Prog.op_ .netifListAdd
  return true

/-- `network_init`. -/
def networkInit : Init Unit := do
  -- tell main thread TCP/IP init is done
  Prog.op_ .setDone
  let added ← netifAdd
  Prog.op_ (.netifSetDefault added)
  Prog.op_ .netifSetStatusCallback
  Prog.op_ .dhcpStart

end SaymaFirmware
