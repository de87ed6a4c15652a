import ContikiAtsam.Net.Framer

/-!
# The GMAC example

`gmac_example.c`, a program of its own for the board: it answers ARP requests and pings. A received frame is turned into its answer in place, in the only buffer there is, and written out. Nothing of a frame is checked but the fields that select the answer, and the number of bytes received does not matter for a ping: the length field of its IP header is believed.

An access outside the buffer is a fault. The texts on the console are left out.
-/

namespace ContikiAtsam.GmacExample

/-- `GMAC_FRAME_LENTGH_MAX`, the size of `gs_uc_eth_buffer`. -/
def gmacFrameLentghMax : Nat := 1536

def ethHeaderSize : Nat := 14
def ethIpHeaderSize : Nat := 20

/-! Offsets of the fields of `arp_header_t`, `ip_header_t` and `icmp_echo_header_t`. -/

def arOp : Nat := 6
def arSha : Nat := 8
def arSpa : Nat := 14
def arTha : Nat := 18
def arTpa : Nat := 24

def ipLen : Nat := 2
def ipP : Nat := 9
def ipSrc : Nat := 12
def ipDst : Nat := 16

def icmpType : Nat := 0
def icmpCode : Nat := 1
def icmpCksum : Nat := 2

def arpRequest : UInt16 := 1
def arpReply : UInt16 := 2
def ipProtIcmp : UInt8 := 1
def icmpEchoReply : UInt8 := 0
def icmpEchoRequest : UInt8 := 8

/-- A word of the message, where it lies in the buffer. -/
def readWord (m : Memory) (p : Nat) : Except Fault UInt16 :=
  if p + 2 ≤ gmacFrameLentghMax then .ok (m.load16 p) else .error .outOfBounds

def writeByte (m : Memory) (p : Nat) (b : UInt8) : Except Fault Memory :=
  if p < gmacFrameLentghMax then .ok (m.store p [b]) else .error .outOfBounds

/-- The loop of `gmac_icmp_checksum`. -/
def sumWords (m : Memory) : Nat → Nat → UInt32 → Except Fault UInt32
  | _, 0, ulTmp => .ok ulTmp
  | pBuff, ulLen + 1, ulTmp =>
    match readWord m pBuff with
    | .error fault => .error fault
    | .ok word => sumWords m (pBuff + 2) ulLen (ulTmp + (swap16 word).toUInt32)

def gmacIcmpChecksum (m : Memory) (pBuff ulLen : Nat) : Except Fault UInt16 :=
  match sumWords m pBuff ulLen 0 with
  | .error fault => .error fault
  | .ok ulTmp =>
    let ulTmp : UInt32 := (ulTmp &&& (0xFFFF : UInt32)) + (ulTmp >>> (16 : UInt32))
    .ok (~~~ulTmp).toUInt16

/-- A turn of the loops that swap addresses: the sender at `src` becomes the receiver at `dst`, the node itself the sender. -/
def swapTurn {n : Nat} (own : Vector UInt8 n) (dst src : Nat) (m : Memory) (i : Nat) : Memory :=
  (m.store (dst + i) [m (src + i)]).store (src + i) [own.toList.getD i 0]

section Node

variable (gsUcMacAddress : Vector UInt8 6) (gsUcIpAddress : Vector UInt8 4)

/-- With the frame that is handed to `gmac_dev_write`, which takes any of at most `GMAC_TX_UNITSIZE` bytes. -/
def gmacProcessArpPacket (m : Memory) (ulSize : Nat) : Memory × Option (List UInt8) :=
  if swap16 (m.load16 (ethHeaderSize + arOp)) = arpRequest then
    let m := m.store (ethHeaderSize + arOp) (Memory.halfword (swap16 arpReply))
    let m := (List.range 6).foldl (fun m i =>
      swapTurn gsUcMacAddress (ethHeaderSize + arTha) (ethHeaderSize + arSha) (swapTurn gsUcMacAddress etDest etSrc m i) i) m
    let m := (List.range 4).foldl (swapTurn gsUcIpAddress (ethHeaderSize + arTpa) (ethHeaderSize + arSpa)) m
    (m, some (m.load 0 ulSize))
  else (m, none)

/-- `ul_icmp_len`, which wraps around where the length field says less than a header. -/
def ulIcmpLen (m : Memory) : UInt32 :=
  (swap16 (m.load16 (ethHeaderSize + ipLen))).toUInt32 - UInt32.ofNat ethIpHeaderSize

/-- The message made even, and the number of its words. -/
def padMessage (m : Memory) (icmpEcho : Nat) (ulIcmpLen : UInt32) : Except Fault (Memory × UInt32) :=
  if ulIcmpLen % 2 ≠ 0 then
    match writeByte m (icmpEcho + ulIcmpLen.toNat) 0 with
    | .error fault => .error fault
    | .ok m => .ok (m, (ulIcmpLen + 1) / 2)
  else .ok (m, ulIcmpLen / 2)

def gmacProcessIpPacket (m : Memory) : Except Fault (Memory × Option (List UInt8)) :=
  let icmpEcho := ethHeaderSize + ethIpHeaderSize
  if m (ethHeaderSize + ipP) = ipProtIcmp then
    if m (icmpEcho + icmpType) = icmpEchoRequest then
      let m := m.store (icmpEcho + icmpType) [icmpEchoReply]
      let m := m.store (icmpEcho + icmpCode) [0]
      let m := m.store (icmpEcho + icmpCksum) (Memory.halfword 0)
      match padMessage m icmpEcho (ulIcmpLen m) with
      | .error fault => .error fault
      | .ok (m, words) =>
        match gmacIcmpChecksum m icmpEcho words.toNat with
        | .error fault => .error fault
        | .ok cksum =>
          let m := m.store (icmpEcho + icmpCksum) (Memory.halfword (swap16 cksum))
          let m := (List.range 4).foldl (swapTurn gsUcIpAddress (ethHeaderSize + ipDst) (ethHeaderSize + ipSrc)) m
          let m := (List.range 6).foldl (swapTurn gsUcMacAddress etDest etSrc) m
          .ok (m, some (m.load 0 ((swap16 (m.load16 (ethHeaderSize + ipLen))).toNat + ethHeaderSize)))
    else .ok (m, none)
  else .ok (m, none)

def gmacProcessEthPacket (m : Memory) (ulSize : Nat) : Except Fault (Memory × Option (List UInt8)) :=
  let usPktFormat := swap16 (m.load16 etProtlen)
  if usPktFormat = ethProtArp then .ok (gmacProcessArpPacket gsUcMacAddress gsUcIpAddress m ulSize)
  else if usPktFormat = ethProtIp then gmacProcessIpPacket gsUcMacAddress gsUcIpAddress m
  else .ok (m, none)

/-- A turn of the main loop: a frame is read into the buffer, and the answer to it handed to `gmac_dev_write`, if there is one. -/
def exampleCall (m : Memory) (frame : List UInt8) : Except Fault (Option (List UInt8) × Memory) :=
  match gmacProcessEthPacket gsUcMacAddress gsUcIpAddress (m.store 0 frame) frame.length with
  | .error fault => .error fault
  | .ok (m, answer) => .ok (answer, m)

end Node

end ContikiAtsam.GmacExample
