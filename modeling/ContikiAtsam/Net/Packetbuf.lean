import ContikiAtsam.Base.Memory

/-!
# The packet buffer

`net/packetbuf.c`, as configured for Ethernet: one array with `PACKETBUF_HDR_SIZE` bytes for headers in front of `PACKETBUF_SIZE` bytes for data. An outgoing packet grows downwards from the data by `packetbuf_hdralloc`, an incoming one is stripped from the front by `packetbuf_hdrreduce`. Of the attributes only those that the 802.3 stack sets are kept.
-/

namespace ContikiAtsam

/-- `linkaddr6_t`, and `linkaddr_t`, which has the same size here. -/
abbrev Linkaddr6 := Vector UInt8 6

def linkaddr6Null : Linkaddr6 := Vector.replicate 6 0

/-- The address whose bytes start at `base`. -/
def Memory.loadAddr (m : Memory) (base : Nat) : Linkaddr6 :=
  Vector.ofFn fun i => m (base + i)

inductive PacketbufAttr where
  | packetType
  | ethProto
  deriving DecidableEq

inductive PacketbufAddr where
  | sender
  | receiver
  deriving DecidableEq

/-- The static variables of `packetbuf.c`. -/
structure Packetbuf where
  packetbuf : Memory
  buflen : UInt16
  bufptr : UInt16
  hdrptr : UInt8
  attrs : PacketbufAttr → UInt16
  addrs : PacketbufAddr → Linkaddr6

/-- The static variables at start-up, before any `packetbuf_clear`. -/
def Packetbuf.zeroed : Packetbuf := ⟨fun _ => 0, 0, 0, 0, fun _ => 0, fun _ => linkaddr6Null⟩

def ethernetMaxFrameLen : Nat := 1536
def packetbufSize : Nat := ethernetMaxFrameLen
def packetbufHdrSize : Nat := 48

def packetbufAttrClear (pb : Packetbuf) : Packetbuf :=
  { pb with attrs := fun _ => 0, addrs := fun _ => linkaddr6Null }

def packetbufClear (pb : Packetbuf) : Packetbuf :=
  packetbufAttrClear { pb with buflen := 0, bufptr := 0, hdrptr := UInt8.ofNat packetbufHdrSize }

def packetbufCopyfrom (pb : Packetbuf) (src : Memory) (len : UInt16) : UInt16 × Packetbuf :=
  let pb := packetbufClear pb
  let l := if len.toNat > packetbufSize then UInt16.ofNat packetbufSize else len
  (l, { pb with packetbuf := pb.packetbuf.store packetbufHdrSize (src.load 0 l.toNat), buflen := l })

/-- The offset of the data in the array. -/
def packetbufDataptr (pb : Packetbuf) : Nat := pb.bufptr.toNat + packetbufHdrSize

/-- The offset of the headers in the array. -/
def packetbufHdrptr (pb : Packetbuf) : Nat := pb.hdrptr.toNat

def packetbufDatalen (pb : Packetbuf) : UInt16 := pb.buflen

def packetbufHdrlen (pb : Packetbuf) : UInt8 :=
  let hdrlen := UInt8.ofNat packetbufHdrSize - pb.hdrptr
  if hdrlen ≠ 0 then hdrlen else pb.bufptr.toUInt8

def packetbufTotlen (pb : Packetbuf) : UInt16 :=
  (packetbufHdrlen pb).toUInt16 + packetbufDatalen pb

def packetbufHdralloc (pb : Packetbuf) (size : Nat) : Bool × Packetbuf :=
  if pb.hdrptr.toNat ≥ size ∧ (packetbufTotlen pb).toNat + size ≤ packetbufSize then
    (true, { pb with hdrptr := pb.hdrptr - UInt8.ofNat size })
  else (false, pb)

def packetbufHdrreduce (pb : Packetbuf) (size : Nat) : Bool × Packetbuf :=
  if pb.buflen.toNat < size then (false, pb)
  else (true, { pb with bufptr := pb.bufptr + UInt16.ofNat size, buflen := pb.buflen - UInt16.ofNat size })

/-- The loop of `packetbuf_compact` goes upwards, so that what it overwrites has been moved. -/
def packetbufCompact (pb : Packetbuf) : Packetbuf :=
  if pb.bufptr > 0 then
    { pb with
      packetbuf := (List.range (packetbufDatalen pb).toNat).foldl
        (fun m i => m.store (packetbufHdrSize + i) [m (pb.bufptr.toNat + packetbufHdrSize + i)]) pb.packetbuf
      bufptr := 0 }
  else pb

def packetbufCopytoHdr (pb : Packetbuf) (dst : Memory) : Nat × Memory :=
  let hdrlen := packetbufHdrSize - pb.hdrptr.toNat
  (hdrlen, dst.store 0 (pb.packetbuf.load (packetbufHdrptr pb) hdrlen))

/-- The headers and then the data, wherever in the array they are; nothing of a packet that is too large. -/
def packetbufCopyto (pb : Packetbuf) (dst : Memory) : Nat × Memory :=
  let hdrlen := packetbufHdrSize - pb.hdrptr.toNat
  if hdrlen + pb.buflen.toNat > packetbufSize then (0, dst)
  else
    (hdrlen + pb.buflen.toNat, (dst.store 0 (pb.packetbuf.load (packetbufHdrptr pb) hdrlen)).store hdrlen
      (pb.packetbuf.load (packetbufDataptr pb) pb.buflen.toNat))

def packetbufHdrRemove (pb : Packetbuf) (size : Nat) : Packetbuf := { pb with hdrptr := pb.hdrptr + UInt8.ofNat size }

def packetbufClearHdr (pb : Packetbuf) : Packetbuf := { pb with hdrptr := UInt8.ofNat packetbufHdrSize }

def packetbufSetDatalen (pb : Packetbuf) (len : UInt16) : Packetbuf := { pb with buflen := len }

def packetbufSetAttr (pb : Packetbuf) (type : PacketbufAttr) (val : UInt16) : Packetbuf :=
  { pb with attrs := fun t => if t = type then val else pb.attrs t }

def packetbufAttr (pb : Packetbuf) (type : PacketbufAttr) : UInt16 := pb.attrs type

def packetbufSetAddr (pb : Packetbuf) (type : PacketbufAddr) (addr : Linkaddr6) : Packetbuf :=
  { pb with addrs := fun t => if t = type then addr else pb.addrs t }

def packetbufAddr (pb : Packetbuf) (type : PacketbufAddr) : Linkaddr6 := pb.addrs type

/-- `packetbuf_attr_copyfrom`; `packetbuf_attr_copyto` gives the attributes and the addresses as they are. -/
def packetbufAttrCopyfrom (pb : Packetbuf) (attrs : PacketbufAttr → UInt16) (addrs : PacketbufAddr → Linkaddr6) : Packetbuf :=
  { pb with attrs, addrs }

/-- The bytes of the packet as the layers above see it. -/
def Packetbuf.data (pb : Packetbuf) : List UInt8 :=
  pb.packetbuf.load (packetbufDataptr pb) (packetbufDatalen pb).toNat

/-- The bytes handed to the device driver, the headers first. -/
def Packetbuf.frame (pb : Packetbuf) : List UInt8 :=
  pb.packetbuf.load (packetbufHdrptr pb) (packetbufTotlen pb).toNat

namespace Packetbuf

variable (pb : Packetbuf)

@[simp] theorem setAddr_packetbuf (t : PacketbufAddr) (a : Linkaddr6) :
    (packetbufSetAddr pb t a).packetbuf = pb.packetbuf := rfl
@[simp] theorem setAddr_buflen (t : PacketbufAddr) (a : Linkaddr6) :
    (packetbufSetAddr pb t a).buflen = pb.buflen := rfl

end Packetbuf

end ContikiAtsam
