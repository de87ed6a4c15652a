import ContikiAtsam.Net.Framer
import ContikiAtsam.Net.Input

/-!
# The network layer's output

`output` of `ieee8023_net.c` takes the IP packet in `uip_buf` to the packet buffer and calls `send_packet`, where the framer puts the header in front before the Ethernet driver is called. A packet that `packetbuf_copyfrom` has to cut is meant to be dropped. But the test compares `!packetbuf_copyfrom(..)` with `uip_len`, which are never equal for a packet that is not empty, so that nothing is ever dropped for its size.
-/

namespace ContikiAtsam

/-- The offset of the destination address in an IPv6 header. -/
def destipaddr : Nat := 24

def packetbufAttrPacketTypeData : UInt16 := 0

/-- What a call of `output` does: the value that it returns, the packet buffer that it leaves, and the packet buffers with which it calls `NETSTACK_0_MAC.send`. -/
structure Output where
  ret : UInt8
  pb : Packetbuf
  sends : List Packetbuf

/-- `eth_mcast_addr`. -/
def ethMcastAddr (uip : Uip) : Linkaddr6 :=
  let u8 := fun i => uip.mem (uipLlhLen + destipaddr + i)
  #v[0x33, 0x33, u8 12, u8 13, u8 14, u8 15]

/-- C's `!`. -/
def lnot (x : UInt16) : UInt16 := if x = 0 then 1 else 0

/-- The steps of `output` from its test to its call of `NETSTACK_0_MAC.send`; `localdest` is `none` for `NULL`. -/
def prepare (linkaddr6NodeAddr : Linkaddr6) (pb : Packetbuf) (uip : Uip) (localdest : Option Linkaddr6) : Packetbuf :=
  let pb := packetbufSetDatalen pb uip.len
  let pb := packetbufSetAddr pb .sender linkaddr6NodeAddr
  let pb :=
    match localdest with
    | some addr => packetbufSetAddr pb .receiver addr
    | none => packetbufSetAddr pb .receiver (ethMcastAddr uip)
  let pb := packetbufSetAttr pb .packetType packetbufAttrPacketTypeData
  packetbufSetAttr pb .ethProto ethProtIpv6

/-- `output`, on a node with the address `linkaddr6NodeAddr`. -/
def output (linkaddr6NodeAddr : Linkaddr6) (pb : Packetbuf) (uip : Uip) (localdest : Option Linkaddr6) : Output :=
  if uip.len = 0 then ⟨0, pb, []⟩
  else
    let copied := packetbufCopyfrom (packetbufClear pb) uip.mem uip.len
    -- the negation is of what was copied, not of the comparison
    if lnot copied.1 = uip.len then ⟨0, copied.2, []⟩
    else
      let pb := prepare linkaddr6NodeAddr copied.2 uip localdest
      ⟨1, pb, [pb]⟩

/-- `send_packet` of `ieee8023_mac.c`: the bytes with which the Ethernet driver is called, if it is. -/
def macSendPacket (pb : Packetbuf) : Option (List UInt8) :=
  let framed := create pb
  if framed.1 < 0 then none else some framed.2.frame

namespace Output

open Framer

variable {node : Linkaddr6} {pb : Packetbuf} {uip : Uip} {localdest : Option Linkaddr6}

/-- The packet is to be dropped: it is empty, or too large to be copied. -/
def Dropped (pb : Packetbuf) (uip : Uip) : Prop :=
  uip.len = 0 ∨ (packetbufCopyfrom (packetbufClear pb) uip.mem uip.len).1 ≠ uip.len

/-- The receiver's address: the one given, or that of the multicast group of the destination. -/
def destination (uip : Uip) (localdest : Option Linkaddr6) : List UInt8 :=
  match localdest with
  | some addr => addr.toList
  | none => [0x33, 0x33] ++ uip.mem.load (uipLlhLen + destipaddr + 12) 4

/-- The IP packet. -/
def packet (uip : Uip) : List UInt8 := uip.mem.load 0 uip.len.toNat

/-- The packet buffer that `NETSTACK_0_MAC.send` is called with, and the frame that the driver gets. -/
structure Carries (node : Linkaddr6) (uip : Uip) (localdest : Option Linkaddr6) (sent : Packetbuf) : Prop where
  data : sent.data = packet uip
  sender : packetbufAddr sent .sender = node
  receiver : (packetbufAddr sent .receiver).toList = destination uip localdest
  ethProto : packetbufAttr sent .ethProto = ethProtIpv6
  frame : ∀ frame ∈ macSendPacket sent, frame = destination uip localdest ++ node.toList ++ [0x86, 0xDD] ++ packet uip

/-- A packet is dropped or sent once. -/
structure Delivers (node : Linkaddr6) (pb : Packetbuf) (uip : Uip) (localdest : Option Linkaddr6) : Prop where
  drops : Dropped pb uip → (output node pb uip localdest).sends = [] ∧ (output node pb uip localdest).ret = 0
  sends : ¬ Dropped pb uip → ∃ sent, (output node pb uip localdest).sends = [sent] ∧ Carries node uip localdest sent

theorem copyfrom_fst (pb : Packetbuf) (src : Memory) {len : UInt16} (h : len.toNat ≤ packetbufSize) :
    (packetbufCopyfrom pb src len).1 = len := by
  rw [packetbufCopyfrom]
  exact if_neg (Nat.not_lt.mpr h)

theorem copyfrom_fst_of_gt (pb : Packetbuf) (src : Memory) {len : UInt16} (h : packetbufSize < len.toNat) :
    (packetbufCopyfrom pb src len).1 = UInt16.ofNat packetbufSize := by
  rw [packetbufCopyfrom]
  exact if_pos h

/-- The test of `output` never holds: of a packet that is not empty something is copied. -/
theorem lnot_copied_ne (pb : Packetbuf) (src : Memory) {len : UInt16} (h : len ≠ 0) :
    ¬ lnot (packetbufCopyfrom pb src len).1 = len := by
  have hcopied : (packetbufCopyfrom pb src len).1 ≠ 0 := by
    rcases Nat.lt_or_ge packetbufSize len.toNat with hlarge | hfits
    · rw [copyfrom_fst_of_gt pb src hlarge]
      decide
    · rwa [copyfrom_fst pb src hfits]
  rw [lnot, if_neg hcopied]
  exact fun hzero => h hzero.symm

/-- What is sent, whatever the size. -/
def sent (node : Linkaddr6) (pb : Packetbuf) (uip : Uip) (localdest : Option Linkaddr6) : Packetbuf :=
  prepare node (packetbufCopyfrom (packetbufClear pb) uip.mem uip.len).2 uip localdest

/-- **What `output` does**: a packet that is not empty is sent. -/
theorem output_of_ne (node : Linkaddr6) (pb : Packetbuf) (localdest : Option Linkaddr6) (h : uip.len ≠ 0) :
    output node pb uip localdest = ⟨1, sent node pb uip localdest, [sent node pb uip localdest]⟩ := by
  rw [output, if_neg h]
  simp only [lnot_copied_ne _ _ h, if_false]
  rfl

section Sent

variable (node : Linkaddr6) (pb : Packetbuf) (localdest : Option Linkaddr6)

theorem receiver_sent : packetbufAddr (sent node pb uip localdest) .receiver = localdest.getD (ethMcastAddr uip) := by
  cases localdest <;> rfl

theorem toList_getD (uip : Uip) : (localdest.getD (ethMcastAddr uip)).toList = destination uip localdest := by
  cases localdest <;> rfl

theorem outgoing_sent (h : uip.len.toNat ≤ packetbufSize) :
    Outgoing (sent node pb uip localdest) (packet uip) node (localdest.getD (ethMcastAddr uip)) := by
  have hcopy : (packetbufCopyfrom (packetbufClear pb) uip.mem uip.len).2.packetbuf =
      pb.packetbuf.store packetbufHdrSize (packet uip) := by
    rw [packetbufCopyfrom, if_neg (Nat.not_lt.mpr h)]
    rfl
  have hload := Memory.load_store_self pb.packetbuf packetbufHdrSize (packet uip)
  rw [← hcopy, packet, Memory.load_length, ← packet] at hload
  exact
    { hdrptr := by cases localdest <;> rfl
      bufptr := by cases localdest <;> rfl
      data := by cases localdest <;> exact hload
      sender := by cases localdest <;> rfl
      receiver := receiver_sent node pb localdest
      ethProto := by cases localdest <;> rfl }

/-- The driver gets the frame of a packet for which there is room for the header. -/
theorem macSendPacket_outgoing {pb : Packetbuf} {data : List UInt8} {sender receiver : Linkaddr6}
    (h : Outgoing pb data sender receiver) :
    macSendPacket pb =
      if data.length + hdrLength ≤ packetbufSize then some (ethernetFrame receiver sender (swap16 ethProtIpv6) data)
      else none := by
  rw [macSendPacket]
  by_cases hlen : data.length + hdrLength ≤ packetbufSize
  · obtain ⟨hresult, hframe⟩ := create_eq_frame h hlen
    rw [if_pos hlen]
    simp only [hresult, hframe]
    exact if_neg (by decide)
  · have hfailed : (create pb).1 = framerFailed := by
      rw [create, packetbufHdralloc, if_neg]
      rw [h.totlen]
      exact fun hroom => hlen hroom.2
    rw [if_neg hlen]
    simp only [hfailed]
    exact if_pos (by decide)

theorem carries_sent (h : uip.len.toNat ≤ packetbufSize) :
    Carries node uip localdest (sent node pb uip localdest) := by
  have hout := outgoing_sent node pb localdest h
  refine ⟨hout.data, hout.sender, ?_, hout.ethProto, ?_⟩
  · rw [hout.receiver, toList_getD]
  · intro frame hframe
    rw [macSendPacket_outgoing hout] at hframe
    split at hframe
    · obtain rfl := Option.some.inj hframe
      have htype : Memory.halfword (swap16 ethProtIpv6) = [0x86, 0xDD] := by decide
      rw [ethernetFrame, toList_getD, htype, List.append_assoc, List.append_assoc]
    · cases hframe

end Sent

theorem not_dropped_iff (pb : Packetbuf) (uip : Uip) (h : uip.len.toNat ≤ packetbufSize) :
    ¬ Dropped pb uip ↔ uip.len ≠ 0 := by
  rw [Dropped, copyfrom_fst _ _ h]
  simp

/-- **When `output` delivers**: exactly when the packet is not larger than the packet buffer. -/
theorem delivers_iff (node : Linkaddr6) (pb : Packetbuf) (uip : Uip) (localdest : Option Linkaddr6) :
    Delivers node pb uip localdest ↔ uip.len.toNat ≤ packetbufSize := by
  constructor
  · intro hdelivers
    by_contra hlarge
    have hlarge : packetbufSize < uip.len.toNat := Nat.lt_of_not_le hlarge
    have hne : uip.len ≠ 0 := by
      intro hzero
      rw [hzero] at hlarge
      exact absurd hlarge (by decide)
    have hdropped : Dropped pb uip := by
      right
      rw [copyfrom_fst_of_gt _ _ hlarge]
      intro hsize
      rw [← hsize] at hlarge
      exact absurd hlarge (by decide)
    have hnone := (hdelivers.drops hdropped).1
    rw [output_of_ne node pb localdest hne] at hnone
    cases hnone
  · intro hfits
    have hdropped := not_dropped_iff pb uip hfits
    constructor
    · intro h
      have hempty : uip.len = 0 := by
        by_contra hne
        exact hdropped.mpr hne h
      rw [output, if_pos hempty]
      exact ⟨rfl, rfl⟩
    · intro h
      rw [output_of_ne node pb localdest (hdropped.mp h)]
      exact ⟨_, rfl, carries_sent node pb localdest hfits⟩

/-- A packet of one byte more than the packet buffer has. -/
private def oversized : Uip := ⟨fun _ => 0, 1537⟩

/-- It is cut to 1536 bytes, and sent with a length of 1537. -/
theorem oversized_sent : (packetbufCopyfrom (packetbufClear .zeroed) oversized.mem oversized.len).1 = 1536 ∧
    (output linkaddr6Null .zeroed oversized none).ret = 1 ∧
      (output linkaddr6Null .zeroed oversized none).sends.map packetbufDatalen = [1537] ∧
        ¬ Delivers linkaddr6Null .zeroed oversized none := by
  have hcopied : (packetbufCopyfrom (packetbufClear .zeroed) oversized.mem oversized.len).1 = 1536 := by
    rw [copyfrom_fst_of_gt _ _ (by decide)]
    rfl
  have hsent := output_of_ne linkaddr6Null .zeroed none (show oversized.len ≠ 0 by decide)
  refine ⟨hcopied, by rw [hsent], by rw [hsent]; rfl, fun hdelivers => ?_⟩
  have hnone := (hdelivers.drops (Or.inr (by rw [hcopied]; decide))).1
  rw [hsent] at hnone
  cases hnone

end Output

end ContikiAtsam
