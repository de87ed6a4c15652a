import ContikiAtsam.Net.Packetbuf

/-!
# The 802.3 framer

`ieee8023_framer.c`: `create` puts an Ethernet header in front of the data of the packet buffer and `parse` checks and strips the header of a received frame. Both report an IPv6 multicast receiver as the null address to the layers above, each with a test of its own.

The two agree on every frame but one kind: `parse` takes every receiver address that starts with `33` for an IPv6 multicast address, `create` only those that start with `33:33`.
-/

namespace ContikiAtsam

/-- `sizeof(ethernet_header_t)`. -/
def hdrLength : Nat := 14

/-! Offsets of the fields of `ethernet_header_t`. -/

def etDest : Nat := 0
def etSrc : Nat := 6
def etProtlen : Nat := 12

def ethProtIp : UInt16 := 0x0800
def ethProtArp : UInt16 := 0x0806
def ethProtIpv6 : UInt16 := 0x86DD

/-- `FRAMER_FAILED`. -/
def framerFailed : Int := -1

/-- `SWAP16`. -/
def swap16 (x : UInt16) : UInt16 := ((x &&& 0xFF) <<< 8) ||| (x >>> 8)

/-- The test of `create` for an IPv6 multicast address. -/
def createMulticast (u8 : Linkaddr6) : Bool := u8[0] == 0x33 && u8[1] == 0x33

/-- The test of `parse` for an IPv6 multicast address, which looks at the first byte twice. -/
def parseMulticast (u8 : Linkaddr6) : Bool := u8[0] == 0x33 && u8[0] == 0x33

/-- `parse`, on a node with the address `linkaddr6NodeAddr`. -/
def parse (linkaddr6NodeAddr : Linkaddr6) (pb : Packetbuf) : Int × Packetbuf :=
  if (packetbufDatalen pb).toNat < hdrLength then (framerFailed, pb)
  else
    let hdr := packetbufHdrptr pb
    let srcaddr := pb.packetbuf.loadAddr (hdr + etSrc)
    let destaddr := pb.packetbuf.loadAddr (hdr + etDest)
    let pb := packetbufSetAddr pb .sender srcaddr
    if (destaddr[0] != 0x33 || destaddr[0] != 0x33) && !(destaddr == linkaddr6NodeAddr) then
      (framerFailed, pb)
    else
      let pb :=
        if parseMulticast destaddr then packetbufSetAddr pb .receiver linkaddr6Null
        else packetbufSetAddr pb .receiver linkaddr6NodeAddr
      let usPktFormat := swap16 (pb.packetbuf.load16 (hdr + etProtlen))
      if usPktFormat = ethProtArp then (framerFailed, pb)
      -- with IPv6 configured, IPv4 is not supported
      else if usPktFormat = ethProtIp then (framerFailed, pb)
      else if usPktFormat = ethProtIpv6 then
        match packetbufHdrreduce pb hdrLength with
        | (true, pb) => (hdrLength, pb)
        | (false, pb) => (framerFailed, pb)
      else (framerFailed, pb)

/-- The header that `create` writes at `hdr`, field by field over zeroes. -/
def fillHeader (pb : Packetbuf) : Packetbuf :=
  let hdr := packetbufHdrptr pb
  let m := pb.packetbuf.store hdr (List.replicate hdrLength 0)
  let m := m.store (hdr + etSrc) (packetbufAddr pb .sender).toList
  let m := m.store (hdr + etDest) (packetbufAddr pb .receiver).toList
  let m := m.store (hdr + etProtlen) (Memory.halfword (swap16 (packetbufAttr pb .ethProto)))
  { pb with packetbuf := m }

/-- The last step of `create`: the layers above see a multicast receiver as the null address. -/
def revertMulticast (pb : Packetbuf) : Packetbuf :=
  if createMulticast (packetbufAddr pb .receiver) then packetbufSetAddr pb .receiver linkaddr6Null else pb

/-- `create`. -/
def create (pb : Packetbuf) : Int × Packetbuf :=
  match packetbufHdralloc pb hdrLength with
  | (true, pb) => (hdrLength, revertMulticast (fillHeader pb))
  | (false, pb) => (framerFailed, revertMulticast pb)

/-! ### The round trip -/

namespace Framer

/-- An Ethernet frame as a list of bytes. -/
def ethernetFrame (dest src : Linkaddr6) (protlen : UInt16) (payload : List UInt8) : List UInt8 :=
  dest.toList ++ (src.toList ++ (Memory.halfword protlen ++ payload))

/-- An outgoing packet buffer before any header is allocated. -/
structure Outgoing (pb : Packetbuf) (data : List UInt8) (sender receiver : Linkaddr6) : Prop where
  hdrptr : pb.hdrptr = 48
  bufptr : pb.bufptr = 0
  data : pb.data = data
  sender : packetbufAddr pb .sender = sender
  receiver : packetbufAddr pb .receiver = receiver
  ethProto : packetbufAttr pb .ethProto = ethProtIpv6

/-- A packet buffer that holds a received frame and from which nothing has been stripped. -/
structure Incoming (pb : Packetbuf) (frame : List UInt8) : Prop where
  hdrptr : pb.hdrptr = 48
  bufptr : pb.bufptr = 0
  data : pb.data = frame

def Ipv6Multicast (addr : Linkaddr6) : Prop := addr[0] = 0x33 ∧ addr[1] = 0x33

/-- `create` on the sender and `parse` on the node `node` give back the data and the addresses, a multicast receiver as the null address. -/
def RoundTrip (node : Linkaddr6) (data : List UInt8) (sender receiver : Linkaddr6) : Prop :=
  ∀ pb pb', Outgoing pb data sender receiver → Incoming pb' (create pb).2.frame →
    (create pb).1 = hdrLength ∧ (parse node pb').1 = hdrLength ∧ (parse node pb').2.data = data ∧
      packetbufAddr (parse node pb').2 .sender = sender ∧
      (Ipv6Multicast receiver → packetbufAddr (parse node pb').2 .receiver = linkaddr6Null) ∧
      (¬ Ipv6Multicast receiver → packetbufAddr (parse node pb').2 .receiver = receiver)

/-! ### What `create` writes -/

section Create

variable {pb : Packetbuf} {data : List UInt8} {sender receiver : Linkaddr6}

theorem Outgoing.buflen (h : Outgoing pb data sender receiver) : pb.buflen.toNat = data.length := by
  rw [← h.data, Packetbuf.data, Memory.load_length, packetbufDatalen]

theorem Outgoing.load_data (h : Outgoing pb data sender receiver) :
    pb.packetbuf.load 48 data.length = data := by
  have hdata := h.data
  rwa [Packetbuf.data, packetbufDataptr, h.bufptr, packetbufDatalen, h.buflen] at hdata

theorem Outgoing.totlen (h : Outgoing pb data sender receiver) : (packetbufTotlen pb).toNat = data.length := by
  rw [packetbufTotlen, packetbufHdrlen, h.hdrptr, h.bufptr, packetbufDatalen, ← h.buflen]
  simp [packetbufHdrSize]

theorem hdralloc_eq (h : Outgoing pb data sender receiver) (hlen : data.length + 14 ≤ packetbufSize) :
    packetbufHdralloc pb hdrLength = (true, { pb with hdrptr := 34 }) := by
  have htot := h.totlen
  rw [packetbufHdralloc, if_pos ⟨by rw [h.hdrptr]; decide, by rw [htot]; exact hlen⟩, h.hdrptr]
  rfl

theorem load_fillHeader (pb : Packetbuf) :
    (fillHeader pb).packetbuf.load (packetbufHdrptr pb) hdrLength =
      (packetbufAddr pb .receiver).toList ++ ((packetbufAddr pb .sender).toList ++
        Memory.halfword (swap16 (packetbufAttr pb .ethProto))) := by
  set dest := (packetbufAddr pb .receiver).toList with hdest
  set src := (packetbufAddr pb .sender).toList with hsrc
  set prot := Memory.halfword (swap16 (packetbufAttr pb .ethProto)) with hprot
  have hdestLen : dest.length = 6 := by simp [hdest]
  have hsrcLen : src.length = 6 := by simp [hsrc]
  have hprotLen : prot.length = 2 := rfl
  have hmem : (fillHeader pb).packetbuf =
      (((pb.packetbuf.store (packetbufHdrptr pb) (List.replicate hdrLength 0)).store
        (packetbufHdrptr pb + 6) src).store (packetbufHdrptr pb) dest).store (packetbufHdrptr pb + 12) prot := rfl
  rw [hmem, show hdrLength = 6 + (6 + 2) from rfl, Memory.load_add, Memory.load_add, Nat.add_assoc _ 6 6]
  congr 1
  · rw [Memory.load_store_of_disjoint (Or.inl (by omega)), ← hdestLen, Memory.load_store_self]
  congr 1
  · rw [Memory.load_store_of_disjoint (Or.inl (by omega)), Memory.load_store_of_disjoint (Or.inr (by omega)),
      ← hsrcLen, Memory.load_store_self]
  · rw [← hprotLen, Memory.load_store_self]

theorem load_fillHeader_of_le (pb : Packetbuf) (base n : Nat) (h : packetbufHdrptr pb + hdrLength ≤ base) :
    (fillHeader pb).packetbuf.load base n = pb.packetbuf.load base n := by
  have hdest : (packetbufAddr pb .receiver).toList.length = 6 := by simp
  have hsrc : (packetbufAddr pb .sender).toList.length = 6 := by simp
  rw [hdrLength] at h
  simp only [fillHeader, etDest, etSrc, etProtlen, hdrLength]
  rw [Memory.load_store_of_disjoint (Or.inr (by rw [Memory.halfword_length]; omega)),
    Memory.load_store_of_disjoint (Or.inr (by omega)), Memory.load_store_of_disjoint (Or.inr (by omega)),
    Memory.load_store_of_disjoint (Or.inr (by rw [List.length_replicate]; omega))]

theorem revertMulticast_frame (pb : Packetbuf) : (revertMulticast pb).frame = pb.frame := by
  unfold revertMulticast
  split <;> rfl

/-- **What `create` produces.** -/
theorem create_eq_frame (h : Outgoing pb data sender receiver) (hlen : data.length + 14 ≤ packetbufSize) :
    (create pb).1 = hdrLength ∧
      (create pb).2.frame = ethernetFrame receiver sender (swap16 ethProtIpv6) data := by
  rw [create, hdralloc_eq h hlen]
  refine ⟨rfl, ?_⟩
  rw [revertMulticast_frame]
  set pb' : Packetbuf := { pb with hdrptr := 34 } with hpb'
  have hptr : packetbufHdrptr pb' = 34 := rfl
  have hsize : data.length + 14 ≤ 1536 := hlen
  have htot : (packetbufTotlen (fillHeader pb')).toNat = hdrLength + data.length := by
    have hhdrlen : packetbufHdrlen (fillHeader pb') = 14 := by simp [packetbufHdrlen, fillHeader, pb', packetbufHdrSize]
    have hbuflen : packetbufDatalen (fillHeader pb') = pb.buflen := rfl
    rw [packetbufTotlen, hhdrlen, hbuflen, UInt16.toNat_add, h.buflen]
    exact Nat.mod_eq_of_lt (by change 14 + data.length < 65536; omega)
  have hhdr := load_fillHeader pb'
  rw [hptr] at hhdr
  rw [Packetbuf.frame, htot, Memory.load_add]
  change (fillHeader pb').packetbuf.load 34 hdrLength ++ (fillHeader pb').packetbuf.load (34 + hdrLength) data.length = _
  rw [hhdr, load_fillHeader_of_le pb' _ _ (Nat.le_of_eq (by rw [hptr]))]
  change _ ++ pb.packetbuf.load 48 data.length = _
  rw [h.load_data]
  change (packetbufAddr pb .receiver).toList ++ ((packetbufAddr pb .sender).toList ++
    Memory.halfword (swap16 (packetbufAttr pb .ethProto))) ++ data = _
  rw [h.receiver, h.sender, h.ethProto, ethernetFrame, List.append_assoc, List.append_assoc]

end Create

/-! ### What `parse` reads -/

section Parse

variable {node : Linkaddr6} {pb : Packetbuf}

/-- The packet buffer after a successful `parse`. -/
def stripped (node : Linkaddr6) (pb : Packetbuf) : Packetbuf :=
  let src := pb.packetbuf.loadAddr (packetbufHdrptr pb + etSrc)
  let dest := pb.packetbuf.loadAddr (packetbufHdrptr pb + etDest)
  let pb := packetbufSetAddr pb .sender src
  let pb := packetbufSetAddr pb .receiver (if dest[0] = 0x33 then linkaddr6Null else node)
  { pb with bufptr := pb.bufptr + UInt16.ofNat hdrLength, buflen := pb.buflen - UInt16.ofNat hdrLength }

/-- What `parse` accepts: a receiver that starts with `33` or is the node's, and IPv6. -/
def Accepted (node : Linkaddr6) (pb : Packetbuf) : Prop :=
  hdrLength ≤ pb.buflen.toNat ∧
    ((pb.packetbuf.loadAddr (packetbufHdrptr pb + etDest))[0] = 0x33 ∨
      pb.packetbuf.loadAddr (packetbufHdrptr pb + etDest) = node) ∧
    swap16 (pb.packetbuf.load16 (packetbufHdrptr pb + etProtlen)) = ethProtIpv6

theorem parseMulticast_iff (addr : Linkaddr6) : parseMulticast addr = true ↔ addr[0] = 0x33 := by
  simp [parseMulticast]

theorem createMulticast_iff (addr : Linkaddr6) : createMulticast addr = true ↔ Ipv6Multicast addr := by
  simp [createMulticast, Ipv6Multicast]

private theorem setReceiver_eq (pb : Packetbuf) (dest node : Linkaddr6) :
    (if parseMulticast dest = true then packetbufSetAddr pb .receiver linkaddr6Null
      else packetbufSetAddr pb .receiver node) =
    packetbufSetAddr pb .receiver (if dest[0] = 0x33 then linkaddr6Null else node) := by
  simp only [parseMulticast_iff]
  split <;> rfl

private theorem filter_iff (dest node : Linkaddr6) :
    ((dest[0] != 0x33 || dest[0] != 0x33) && !(dest == node)) = true ↔ ¬ (dest[0] = 0x33 ∨ dest = node) := by
  simp

private theorem hdrreduce_of_le {n : Nat} (h : n ≤ pb.buflen.toNat) :
    packetbufHdrreduce pb n =
      (true, { pb with bufptr := pb.bufptr + UInt16.ofNat n, buflen := pb.buflen - UInt16.ofNat n }) := by
  rw [packetbufHdrreduce, if_neg (by omega)]

theorem parse_of_accepted (h : Accepted node pb) :
    parse node pb = ((hdrLength : Int), stripped node pb) := by
  obtain ⟨hlen, hdest, htype⟩ := h
  have harp : ¬ ethProtIpv6 = ethProtArp := by decide
  have hip : ¬ ethProtIpv6 = ethProtIp := by decide
  unfold parse
  rw [if_neg (by rw [packetbufDatalen]; omega)]
  simp only [filter_iff, setReceiver_eq, hdest, not_true_eq_false, if_false, Packetbuf.setAddr_packetbuf,
    htype, harp, hip, if_true]
  rw [hdrreduce_of_le (by simpa using hlen)]
  rfl

theorem parse_of_not_accepted (h : ¬ Accepted node pb) :
    (parse node pb).1 = framerFailed ∧ (parse node pb).2.bufptr = pb.bufptr ∧ (parse node pb).2.buflen = pb.buflen := by
  unfold parse
  by_cases hlen : (packetbufDatalen pb).toNat < hdrLength
  · rw [if_pos hlen]
    exact ⟨rfl, rfl, rfl⟩
  rw [if_neg hlen]
  simp only [filter_iff, setReceiver_eq, Packetbuf.setAddr_packetbuf]
  by_cases hdest : (pb.packetbuf.loadAddr (packetbufHdrptr pb + etDest))[0] = 0x33 ∨
      pb.packetbuf.loadAddr (packetbufHdrptr pb + etDest) = node
  · have htype : ¬ swap16 (pb.packetbuf.load16 (packetbufHdrptr pb + etProtlen)) = ethProtIpv6 :=
      fun htype => h ⟨Nat.le_of_not_lt hlen, hdest, htype⟩
    simp only [hdest, htype, not_true_eq_false, if_false]
    split_ifs <;> exact ⟨rfl, rfl, rfl⟩
  · simp only [hdest, not_false_eq_true, if_true]
    exact ⟨trivial, rfl, rfl⟩

theorem swap16_toNat (x : UInt16) : (swap16 x).toNat = x.toNat % 256 * 256 + x.toNat / 256 := by
  have hx := x.toNat_lt
  have hlow : (x &&& 0xFF).toNat = x.toNat % 256 := by
    rw [UInt16.toNat_and]
    exact Nat.and_two_pow_sub_one_eq_mod x.toNat 8
  have hhigh : (x >>> 8).toNat = x.toNat / 256 := by
    rw [UInt16.toNat_shiftRight]
    exact Nat.shiftRight_eq_div_pow x.toNat 8
  have hshift : ((x &&& 0xFF) <<< 8).toNat = (x.toNat % 256) <<< 8 := by
    rw [UInt16.toNat_shiftLeft, hlow]
    change (x.toNat % 256) <<< 8 % 65536 = _
    rw [Nat.shiftLeft_eq]
    omega
  rw [swap16, UInt16.toNat_or, hshift, hhigh, ← Nat.shiftLeft_add_eq_or_of_lt (by omega), Nat.shiftLeft_eq]

theorem swap16_eq_ipv6_iff (x : UInt16) : swap16 x = ethProtIpv6 ↔ Memory.halfword x = [0x86, 0xDD] := by
  have hx := x.toNat_lt
  rw [← UInt16.toNat_inj, swap16_toNat, Memory.halfword]
  simp only [List.cons.injEq, and_true, ← UInt8.toNat_inj, UInt8.toNat_ofNat']
  change _ = 34525 ↔ x.toNat % 256 = 134 ∧ x.toNat / 256 % 256 = 221
  omega

theorem eq_swap16_of_swap16 {x y : UInt16} (h : swap16 x = y) : x = swap16 y := by
  have hx := x.toNat_lt
  subst h
  rw [← UInt16.toNat_inj, swap16_toNat, swap16_toNat]
  omega

theorem toList_eq_cons (addr : Linkaddr6) : ∃ rest, addr.toList = addr[0] :: addr[1] :: rest := by
  obtain ⟨⟨xs⟩, hsize⟩ := addr
  match xs, hsize with
  | a :: b :: rest, _ => exact ⟨rest, rfl⟩

theorem head?_toList_iff (addr : Linkaddr6) : addr.toList.head? = some 0x33 ↔ addr[0] = 0x33 := by
  obtain ⟨rest, hlist⟩ := toList_eq_cons addr
  simp [hlist]

theorem take_toList_iff (addr : Linkaddr6) : addr.toList.take 2 = [0x33, 0x33] ↔ Ipv6Multicast addr := by
  obtain ⟨rest, hlist⟩ := toList_eq_cons addr
  simp [hlist, Ipv6Multicast]

theorem loadAddr_eq_of_load {m : Memory} {base : Nat} {addr : Linkaddr6} (h : m.load base 6 = addr.toList) :
    m.loadAddr base = addr := by
  apply Vector.toList_inj.mp
  rw [← h, Memory.loadAddr, Vector.toList_ofFn]
  rfl

theorem Incoming.buflen_eq {frame : List UInt8} (h : Incoming pb frame) : pb.buflen.toNat = frame.length := by
  rw [← h.data, Packetbuf.data, Memory.load_length, packetbufDatalen]

theorem Incoming.fields {dest src : Linkaddr6} {protlen : UInt16} {payload : List UInt8}
    (h : Incoming pb (ethernetFrame dest src protlen payload)) :
    pb.buflen.toNat = hdrLength + payload.length ∧ pb.packetbuf.loadAddr 48 = dest ∧
      pb.packetbuf.loadAddr 54 = src ∧ pb.packetbuf.load16 60 = protlen ∧
      pb.packetbuf.load 62 payload.length = payload := by
  have hdest : dest.toList.length = 6 := by simp
  have hsrc : src.toList.length = 6 := by simp
  have hprot := Memory.halfword_length protlen
  have hdata := h.data
  rw [Packetbuf.data, packetbufDataptr, h.bufptr, packetbufDatalen] at hdata
  have hlen := h.buflen_eq
  have htotal : (ethernetFrame dest src protlen payload).length = hdrLength + payload.length := by
    simp only [ethernetFrame, List.length_append, hdest, hsrc, hprot, hdrLength]
    omega
  rw [hlen, ethernetFrame, List.length_append, Memory.load_eq_append_iff, List.length_append,
    Memory.load_eq_append_iff, List.length_append, Memory.load_eq_append_iff, hdest, hsrc, hprot] at hdata
  obtain ⟨hloadDest, hloadSrc, hloadProt, hloadPayload⟩ := hdata
  exact ⟨hlen.trans htotal, loadAddr_eq_of_load hloadDest, loadAddr_eq_of_load hloadSrc,
    Memory.load16_eq_of_load hloadProt, hloadPayload⟩

theorem Incoming.hdrptr_eq {frame : List UInt8} (h : Incoming pb frame) : packetbufHdrptr pb = 48 := by
  rw [packetbufHdrptr, h.hdrptr]
  rfl

theorem Incoming.accepted {dest src : Linkaddr6} {payload : List UInt8}
    (h : Incoming pb (ethernetFrame dest src (swap16 ethProtIpv6) payload))
    (hdest : dest[0] = 0x33 ∨ dest = node) : Accepted node pb := by
  obtain ⟨hlen, hloadDest, -, hloadProt, -⟩ := h.fields
  refine ⟨by omega, ?_, ?_⟩
  · rwa [h.hdrptr_eq, show 48 + etDest = 48 from rfl, hloadDest]
  · rw [h.hdrptr_eq, show 48 + etProtlen = 60 from rfl, hloadProt]
    decide

/-- **What `parse` makes of an IPv6 frame** that is for the node, or whose receiver starts with `33`. -/
theorem parse_frame {dest src : Linkaddr6} {payload : List UInt8}
    (h : Incoming pb (ethernetFrame dest src (swap16 ethProtIpv6) payload))
    (hdest : dest[0] = 0x33 ∨ dest = node) :
    (parse node pb).1 = hdrLength ∧ (parse node pb).2.data = payload ∧
      packetbufAddr (parse node pb).2 .sender = src ∧
      packetbufAddr (parse node pb).2 .receiver = if dest[0] = 0x33 then linkaddr6Null else node := by
  obtain ⟨hlen, hloadDest, hloadSrc, -, hloadPayload⟩ := h.fields
  have hptr := h.hdrptr_eq
  have hbuflen : (pb.buflen - UInt16.ofNat hdrLength).toNat = payload.length := by
    have hle : UInt16.ofNat hdrLength ≤ pb.buflen := by
      rw [UInt16.le_iff_toNat_le, hlen]
      exact Nat.le_add_right _ _
    rw [UInt16.toNat_sub_of_le _ _ hle, hlen]
    exact Nat.add_sub_cancel_left _ _
  rw [parse_of_accepted (h.accepted hdest)]
  refine ⟨rfl, ?_, ?_, ?_⟩
  · change pb.packetbuf.load ((pb.bufptr + 14).toNat + 48) (pb.buflen - UInt16.ofNat hdrLength).toNat = _
    rw [h.bufptr, hbuflen]
    exact hloadPayload
  · change pb.packetbuf.loadAddr (packetbufHdrptr pb + etSrc) = src
    rw [hptr]
    exact hloadSrc
  · change (if (pb.packetbuf.loadAddr (packetbufHdrptr pb + etDest))[0] = 0x33 then linkaddr6Null else node) = _
    rw [hptr, show 48 + etDest = 48 from rfl, hloadDest]

end Parse

/-! ### The round trip -/

/-- A packet buffer with the bytes at its data. -/
def holding (bytes : List UInt8) : Packetbuf :=
  { packetbufClear .zeroed with
    packetbuf := Memory.store (fun _ => 0) 48 bytes
    buflen := UInt16.ofNat bytes.length }

theorem holding_data {bytes : List UInt8} (h : bytes.length < 65536) : (holding bytes).data = bytes := by
  have hlen : (holding bytes).buflen.toNat = bytes.length := by
    rw [holding, UInt16.toNat_ofNat']
    exact Nat.mod_eq_of_lt h
  rw [Packetbuf.data, packetbufDatalen, hlen]
  exact Memory.load_store_self _ _ _

theorem incoming_holding {bytes : List UInt8} (h : bytes.length < 65536) : Incoming (holding bytes) bytes where
  hdrptr := rfl
  bufptr := rfl
  data := holding_data h

theorem exists_outgoing {data : List UInt8} (h : data.length < 65536) (sender receiver : Linkaddr6) :
    ∃ pb, Outgoing pb data sender receiver := by
  refine ⟨packetbufSetAttr (packetbufSetAddr (packetbufSetAddr (holding data) .sender sender) .receiver receiver)
    .ethProto ethProtIpv6, ?_⟩
  exact { hdrptr := rfl, bufptr := rfl, data := holding_data h, sender := rfl, receiver := rfl, ethProto := rfl }

theorem roundTrip_of_agree {node : Linkaddr6} {data : List UInt8} {sender receiver : Linkaddr6}
    (hlen : data.length + 14 ≤ packetbufSize) (hreceiver : receiver = node ∨ Ipv6Multicast receiver)
    (hagree : receiver[0] = 0x33 → receiver[1] = 0x33) : RoundTrip node data sender receiver := by
  intro pb pb' hout hin
  obtain ⟨hcreate, hframe⟩ := create_eq_frame hout hlen
  rw [hframe] at hin
  have hdest : receiver[0] = 0x33 ∨ receiver = node := hreceiver.symm.imp (fun h => h.1) id
  obtain ⟨hparse, hdata, hsender, hrecv⟩ := parse_frame hin hdest
  refine ⟨hcreate, hparse, hdata, hsender, ?_, ?_⟩
  · intro hmulticast
    rw [hrecv, if_pos hmulticast.1]
  · intro hunicast
    have hfirst : ¬ receiver[0] = 0x33 := fun h => hunicast ⟨h, hagree h⟩
    rw [hrecv, if_neg hfirst]
    exact (hreceiver.resolve_right hunicast).symm

private theorem linkaddr6Null_first : ¬ linkaddr6Null[0] = 0x33 := by decide

theorem not_roundTrip {data : List UInt8} {sender receiver : Linkaddr6} (node : Linkaddr6)
    (hlen : data.length + 14 ≤ packetbufSize) (hfirst : receiver[0] = 0x33) (hsecond : receiver[1] ≠ 0x33) :
    ¬ RoundTrip node data sender receiver := by
  intro htrip
  have hsize : data.length + 14 ≤ 1536 := hlen
  obtain ⟨pb, hout⟩ := exists_outgoing (by omega : data.length < 65536) sender receiver
  obtain ⟨-, hframe⟩ := create_eq_frame hout hlen
  have hframeLen : (create pb).2.frame.length < 65536 := by
    rw [Packetbuf.frame, Memory.load_length]
    exact UInt16.toNat_lt _
  have hin := incoming_holding hframeLen
  have hunicast : ¬ Ipv6Multicast receiver := fun h => hsecond h.2
  have hrecv := (htrip pb _ hout hin).2.2.2.2.2 hunicast
  rw [hframe] at hin hrecv
  rw [(parse_frame hin (Or.inl hfirst)).2.2.2, if_pos hfirst] at hrecv
  rw [← hrecv] at hfirst
  exact linkaddr6Null_first hfirst

/-- **When the framer's two sides agree.** For a receiver that is the node or an IPv6 multicast address the round trip holds, and for any address `create` and `parse` agree on whether it is multicast, exactly when the address does not start with `33` followed by another byte. -/
theorem framer_round_trip_iff (node : Linkaddr6) (data : List UInt8) (sender receiver : Linkaddr6)
    (hlen : data.length + 14 ≤ packetbufSize) :
    (receiver = node ∨ Ipv6Multicast receiver →
      (RoundTrip node data sender receiver ↔ (receiver[0] = 0x33 → receiver[1] = 0x33))) ∧
    (createMulticast receiver = parseMulticast receiver ↔ (receiver[0] = 0x33 → receiver[1] = 0x33)) := by
  constructor
  · intro hreceiver
    refine ⟨?_, roundTrip_of_agree hlen hreceiver⟩
    intro htrip hfirst
    by_contra hsecond
    exact not_roundTrip node hlen hfirst hsecond htrip
  · rw [Bool.eq_iff_iff, createMulticast_iff, parseMulticast_iff, Ipv6Multicast]
    exact ⟨fun h hfirst => (h.mpr hfirst).2, fun h => ⟨And.left, fun hfirst => ⟨hfirst, h hfirst⟩⟩⟩

theorem framer_round_trip_iff_group :
    ((#v[0x33, 0x33, 0, 0, 0, 1] : Linkaddr6) = #v[2, 0, 0, 0, 0, 1] ∨
        Ipv6Multicast (#v[0x33, 0x33, 0, 0, 0, 1] : Linkaddr6) →
      (RoundTrip #v[2, 0, 0, 0, 0, 1] [0x60] #v[2, 0, 0, 0, 0, 2] #v[0x33, 0x33, 0, 0, 0, 1] ↔
        ((#v[0x33, 0x33, 0, 0, 0, 1] : Linkaddr6)[0] = 0x33 → (#v[0x33, 0x33, 0, 0, 0, 1] : Linkaddr6)[1] = 0x33))) ∧
    (createMulticast #v[0x33, 0x33, 0, 0, 0, 1] = parseMulticast #v[0x33, 0x33, 0, 0, 0, 1] ↔
      ((#v[0x33, 0x33, 0, 0, 0, 1] : Linkaddr6)[0] = 0x33 → (#v[0x33, 0x33, 0, 0, 0, 1] : Linkaddr6)[1] = 0x33)) :=
  framer_round_trip_iff #v[2, 0, 0, 0, 0, 1] [0x60] #v[2, 0, 0, 0, 0, 2] #v[0x33, 0x33, 0, 0, 0, 1] (by decide)

/-- A node whose address starts with `33:00`: a frame to it is taken for multicast. -/
theorem framer_not_round_trip :
    ¬ RoundTrip #v[0x33, 0, 0, 0, 0, 1] [0x60] #v[2, 0, 0, 0, 0, 2] #v[0x33, 0, 0, 0, 0, 1] ∧
      createMulticast #v[0x33, 0, 0, 0, 0, 1] ≠ parseMulticast #v[0x33, 0, 0, 0, 0, 1] :=
  ⟨not_roundTrip _ (by decide) rfl (by decide), by decide⟩

end Framer

end ContikiAtsam
