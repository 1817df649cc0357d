import SaymaFirmware.Lib.OnesComplement
import SaymaFirmware.Lib.Word32

/-!
# Internet checksums: `inet_chksum.c`

The checksum of IP, ICMP, UDP and TCP over a piece of memory or a chain of pbufs. `lwip_standard_chksum` comes in three versions, of
which `LWIP_CHKSUM_ALGORITHM` selects one; the second is the one in use. The machine is little-endian and reads words only from even
addresses, so the address of the data matters.

`icmp_input` answers an echo request in place and corrects its checksum instead of computing it again.
-/

namespace SaymaFirmware

/-- `FOLD_U32T`. -/
def foldU32T (u : Nat) : Nat := Ones.fold u

/-- `SWAP_BYTES_IN_WORD`, and `htons` on this machine. -/
def swapBytesInWord (w : Nat) : Nat := Ones.swap w

/-- A 16-bit word in memory. -/
def word16 (a b : UInt8) : Nat := a.toNat + 256 * b.toNat

/-- A 32-bit word in memory. -/
def word32 (a b c d : UInt8) : Nat := word16 a b + 65536 * word16 c d

/-! ## The three versions -/

/-- The loop of the first version, over octets in network order. -/
def sumOctets : Nat → List UInt8 → Nat
  | acc, a :: b :: l => sumOctets (add32 acc (256 * a.toNat + b.toNat)) l
  | acc, [a] => add32 acc (256 * a.toNat)
  | acc, [] => acc

def lwipStandardChksum1 (data : List UInt8) : Nat :=
  let acc := foldU32T (sumOctets 0 data)
  let acc := if acc / 65536 ≠ 0 then foldU32T acc else acc
  swapBytesInWord (acc % 65536)

/-- The loop over 16-bit words. What is left is one byte, or nothing. -/
def sumWords : Nat → List UInt8 → Nat × List UInt8
  | sum, a :: b :: l => sumWords (add32 sum (word16 a b)) l
  | sum, l => (sum, l)

/-- Get aligned to 16 bits: the first byte goes into the upper half of `t`. -/
def alignWord (odd : Bool) : List UInt8 → Nat × List UInt8
  | b :: l => if odd then (256 * b.toNat, l) else (0, b :: l)
  | [] => (0, [])

/-- The left-over byte, if any. -/
def leftOver : List UInt8 → Nat
  | b :: _ => b.toNat
  | [] => 0

/-- Put the left-over byte into the lower half of `t`, add the end bytes, and bring the sum to 16 bits. -/
def finishSum (odd : Bool) (t : Nat) (sum : Nat × List UInt8) : Nat :=
  let sum := foldU32T (foldU32T (add32 sum.1 (t + leftOver sum.2)))
  (if odd then swapBytesInWord sum else sum) % 65536

/-- The version in use. -/
def lwipStandardChksum (addr : Nat) (data : List UInt8) : Nat :=
  let odd := addr % 2 = 1
  let head := alignWord odd data
  finishSum odd head.1 (sumWords 0 head.2)

/-- Add a word and add back the carry. -/
def addCarry (sum w : Nat) : Nat :=
  let tmp := add32 sum w
  if tmp < sum then add32 tmp 1 else tmp

/-- The loop over eight bytes at a time. -/
def sumLongs : Nat → List UInt8 → Nat × List UInt8
  | sum, a :: b :: c :: d :: e :: f :: g :: h :: l => sumLongs (addCarry (addCarry sum (word32 a b c d)) (word32 e f g h)) l
  | sum, l => (sum, l)

/-- Get aligned to 32 bits. -/
def alignLong (unaligned : Bool) : List UInt8 → Nat × List UInt8
  | a :: b :: l => if unaligned then (word16 a b, l) else (0, a :: b :: l)
  | l => (0, l)

def lwipStandardChksum3 (addr : Nat) (data : List UInt8) : Nat :=
  let odd := addr % 2 = 1
  let head := alignWord odd data
  let ps := if odd ∧ data ≠ [] then addr + 1 else addr
  let start := alignLong (ps % 4 ≠ 0) head.2
  let bulk := sumLongs start.1 start.2
  finishSum odd head.1 (sumWords (foldU32T bulk.1) bulk.2)

/-! ## Chains of pbufs -/

/-- What the checksum reads of a pbuf: where its payload is and the `len` bytes there. -/
structure PbufSeg where
  payload : Nat
  data : List UInt8

/-- The bytes of a chain. -/
def chainBytes (p : List PbufSeg) : List UInt8 := p.flatMap PbufSeg.data

/-- `~` on a 16-bit number. -/
def not16 (w : Nat) : Nat := 65535 - w % 65536

def inetChksum (addr : Nat) (data : List UInt8) : Nat := not16 (lwipStandardChksum addr data)

/-- One pbuf in a checksum loop, of which `data` is summed. -/
def chksumSeg (acc : Nat × Bool) (q : PbufSeg) (data : List UInt8) : Nat × Bool :=
  let sum := foldU32T (add32 acc.1 (lwipStandardChksum q.payload data))
  if q.data.length % 2 ≠ 0 then (swapBytesInWord sum, !acc.2) else (sum, acc.2)

/-- Swap back after the loop. -/
def unswap (acc : Nat × Bool) : Nat := if acc.2 then swapBytesInWord acc.1 else acc.1

def inetChksumPbuf (p : List PbufSeg) : Nat := not16 (unswap (p.foldl (fun acc q => chksumSeg acc q q.data) (0, false)))

/-- The pseudo header: the addresses as they stand in memory, the protocol, and the length of the data. -/
structure PseudoHdr where
  src : Nat
  dest : Nat
  proto : Nat
  protoLen : Nat

/-- What `inet_chksum_pseudo` adds after the loop. -/
def addPseudo (acc : Nat) (h : PseudoHdr) : Nat :=
  let acc := add32 acc (h.src % 65536)
  let acc := add32 acc (h.src / 65536 % 65536)
  let acc := add32 acc (h.dest % 65536)
  let acc := add32 acc (h.dest / 65536 % 65536)
  let acc := add32 acc (swapBytesInWord h.proto)
  add32 acc (swapBytesInWord h.protoLen)

def inetChksumPseudo (p : List PbufSeg) (h : PseudoHdr) : Nat :=
  not16 (foldU32T (foldU32T (addPseudo (unswap (p.foldl (fun acc q => chksumSeg acc q q.data) (0, false))) h)))

/-- The loop of `inet_chksum_pseudo_partial`, with its assertion. -/
def chksumPartial : Nat × Bool → Nat → List PbufSeg → Option (Nat × Bool)
  | acc, _, [] => some acc
  | acc, chksumLen, q :: p =>
    if chksumLen = 0 then some acc
    else
      let chklen := min q.data.length chksumLen
      let rest := chksumLen - chklen
      if rest < 0x7fff then chksumPartial (chksumSeg acc q (q.data.take chklen)) rest p else none

def inetChksumPseudoPartial (p : List PbufSeg) (h : PseudoHdr) (chksumLen : Nat) : Option Nat :=
  (chksumPartial (0, false) chksumLen p).map fun acc => not16 (foldU32T (foldU32T (addPseudo (unswap acc) h)))

/-! ## Echo replies -/

/-- An ICMP echo message without its type: the code, the checksum as a 16-bit number in memory, and the rest. -/
structure IcmpEcho where
  code : UInt8
  chksum : UInt16
  rest : List UInt8

/-- `ICMP_ECHO` and `ICMP_ER`. -/
def icmpEcho : UInt8 := 8
def icmpEr : UInt8 := 0

/-- A message in memory. -/
def IcmpEcho.bytes (type : UInt8) (m : IcmpEcho) : List UInt8 :=
  type :: m.code :: m.chksum.toUInt8 :: (m.chksum >>> 8).toUInt8 :: m.rest

/-- The checksum that `icmp_input` leaves in a reply. -/
def icmpReplyChksum (chksum : UInt16) : UInt16 :=
  if chksum ≥ 0xfff7 then chksum + (0x0008 + 1) else chksum + 0x0008

/-- The reply that `icmp_input` makes of a request. -/
def icmpReply (m : IcmpEcho) : IcmpEcho := { m with chksum := icmpReplyChksum m.chksum }

end SaymaFirmware
