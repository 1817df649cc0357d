import Mathlib.Data.List.Basic

/-!
# Constants of the Ethernet driver

From `lpc17xx_emac.h`, `ethernetif.c` and lwIP's `etharp.h`.
-/

namespace SaymaFirmware

/-! ## The rings -/

/-- `EMAC_NUM_RX_FRAG`. -/
def emacNumRxFrag : UInt32 := 3
/-- `EMAC_NUM_TX_FRAG`. -/
def emacNumTxFrag : UInt32 := 2
/-- `EMAC_ETH_MAX_FLEN`, the size of a buffer of either ring. -/
def emacEthMaxFlen : UInt32 := 1536
/-- `netifMAX_TX_ATTEMPTS`. -/
def netifMaxTxAttempts : Nat := 5

/-! ## Status and control words -/

/-- `EMAC_RINFO_SIZE`: the field of the status word that holds the frame's length less one. -/
def emacRinfoSize : UInt32 := 0x000007FF
/-- `EMAC_RINFO_LAST_FLAG`. -/
def emacRinfoLastFlag : UInt32 := 0x40000000
/-- `EMAC_RINFO_CRC_ERR`. -/
def emacRinfoCrcErr : UInt32 := 0x00800000
/-- `EMAC_RINFO_ERR_MASK`: filter, CRC, symbol, length, alignment and overrun. -/
def emacRinfoErrMask : UInt32 :=
  0x00100000 ||| emacRinfoCrcErr ||| 0x01000000 ||| 0x02000000 ||| 0x08000000 ||| 0x10000000
/-- `EMAC_TCTRL_SIZE`: the field of the control word that holds the length less one. -/
def emacTctrlSize : UInt32 := 0x000007FF
/-- `EMAC_TCTRL_INT | EMAC_TCTRL_LAST`. -/
def emacTctrlIntLast : UInt32 := 0x80000000 ||| 0x40000000

/-! ## Interrupts and commands -/

/-- `EMAC_INT_RX_DONE`. -/
def emacIntRxDone : UInt32 := 0x00000008
/-- `EMAC_INT_TX_UNDERRUN`. -/
def emacIntTxUnderrun : UInt32 := 0x00000010
/-- `EMAC_CR_TX_RES`. -/
def emacCrTxRes : UInt32 := 0x00000010

/-! ## Frame types -/

/-- `ETHTYPE_IP`. -/
def ethtypeIp : UInt16 := 0x0800
/-- `ETHTYPE_ARP`. -/
def ethtypeArp : UInt16 := 0x0806

end SaymaFirmware
