import ContikiAtsam.Base.Loop
import ContikiAtsam.Base.Memory

/-!
# Reading a frame from the receive ring

`gmac_dev_read` of `gmac_raw.c`. A frame lies in one or more buffers of `GMAC_RX_UNITSIZE` bytes, one for each descriptor of a circular list. The function walks over the descriptors that the hardware has given to the software, gathers the buffers of a frame and gives the descriptors back. `usRxIdx` is the first descriptor not yet given back, `usTmpIdx` the one the walk is at and `pRxTd` the one the code reads from.
-/

namespace ContikiAtsam

/-- The return codes of the GMAC functions. -/
inductive GmacStatus where
  | ok
  | timeout
  | txBusy
  | rxError
  | rxNoData
  | sizeTooSmall
  | param
  deriving DecidableEq, Repr

def gmacRxUnitsize : Nat := 128

def gmacRxdOwnership : UInt32 := 1
def gmacRxdWrap : UInt32 := 2
def gmacRxdAddrMask : UInt32 := 0xFFFFFFFC
def gmacRxdLenMask : UInt32 := 0xFFF
def gmacRxdSof : UInt32 := 0x4000
def gmacRxdEof : UInt32 := 0x8000

/-- `gmac_rx_descriptor_t`. -/
structure RxDescriptor where
  addr : UInt32
  status : UInt32

namespace RxDescriptor

def owned (d : RxDescriptor) : Bool := d.addr &&& gmacRxdOwnership == gmacRxdOwnership
def sof (d : RxDescriptor) : Bool := d.status &&& gmacRxdSof == gmacRxdSof
def eof (d : RxDescriptor) : Bool := d.status &&& gmacRxdEof == gmacRxdEof
def len (d : RxDescriptor) : Nat := (d.status &&& gmacRxdLenMask).toNat
def bufferAddr (d : RxDescriptor) : Nat := (d.addr &&& gmacRxdAddrMask).toNat

/-- The descriptor given back to the hardware. -/
def released (d : RxDescriptor) : RxDescriptor := { d with addr := d.addr &&& ~~~gmacRxdOwnership }

end RxDescriptor

/-- The receive part of `gmac_device_t`, and the memory that holds the buffers. -/
structure RxRing where
  pRxDscr : Nat → RxDescriptor
  usRxListSize : Nat
  usRxIdx : Nat
  ram : Memory

/-- `circ_inc`. -/
def circInc (headortail size : Nat) : Nat :=
  if headortail + 1 ≥ size then 0 else headortail + 1

theorem circInc_eq {i size : Nat} (h : i < size) : circInc i size = (i + 1) % size := by
  unfold circInc
  split
  · rw [show i + 1 = size by omega, Nat.mod_self]
  · rw [Nat.mod_eq_of_lt (by omega)]

theorem circInc_mod (i : Nat) {size : Nat} (h : 0 < size) : circInc (i % size) size = (i + 1) % size := by
  rw [circInc_eq (Nat.mod_lt i h), Nat.mod_add_mod]

namespace RxRing

/-- `gmac_reset_rx_mem`, for buffers from `pRxBuff` on. -/
def resetMem (dev : RxRing) (pRxBuff : UInt32) : RxRing :=
  let addr := fun i => (pRxBuff + UInt32.ofNat (i * gmacRxUnitsize)) &&& gmacRxdAddrMask
  let dscr := fun i => ⟨if i + 1 = dev.usRxListSize then addr i ||| gmacRxdWrap else addr i, 0⟩
  { dev with usRxIdx := 0, pRxDscr := fun i => if i < dev.usRxListSize then dscr i else dev.pRxDscr i }

def release (dev : RxRing) (i : Nat) : RxRing :=
  { dev with pRxDscr := Function.update dev.pRxDscr i (dev.pRxDscr i).released }

/-- One turn of the loops that give descriptors back. -/
def releaseNext (dev : RxRing) : RxRing :=
  { dev.release dev.usRxIdx with usRxIdx := circInc dev.usRxIdx dev.usRxListSize }

/-- The descriptors before `target` given back, and the last of them, or `pRxTd` if there are none. -/
def releaseUntil (target : Nat) : Nat → RxRing → Nat → RxRing × Nat
  | 0, dev, pRxTd => (dev, pRxTd)
  | fuel + 1, dev, pRxTd =>
    if dev.usRxIdx = target then (dev, pRxTd)
    else releaseUntil target fuel dev.releaseNext dev.usRxIdx

end RxRing

/-- The local variables of `gmac_dev_read`, with the device and the memory that the frame is copied to. -/
structure ReadState where
  dev : RxRing
  frame : Memory
  pRxTd : Nat
  usTmpIdx : Nat
  pTmpFrame : Nat
  tmpUlFrameSize : Nat
  cIsFrame : Bool

structure ReadResult where
  status : GmacStatus
  rcvSize : Nat
  dev : RxRing
  frame : Memory

/-- A start of frame: the fragments before it are given back and gathering starts anew. -/
def startFrame (pFrame : Nat) (s : ReadState) : ReadState :=
  let (dev, pRxTd) := s.dev.releaseUntil s.usTmpIdx s.dev.usRxListSize s.pRxTd
  { s with dev, pRxTd, pTmpFrame := pFrame, tmpUlFrameSize := 0, cIsFrame := true }

def copyBuffer (ulFrameSize : Nat) (s : ReadState) : ReadState :=
  let usBufferLength :=
    if s.tmpUlFrameSize + gmacRxUnitsize > ulFrameSize then ulFrameSize - s.tmpUlFrameSize else gmacRxUnitsize
  let src := (s.dev.pRxDscr s.pRxTd).bufferAddr
  { s with
    frame := s.frame.store s.pTmpFrame (s.dev.ram.load src usBufferLength)
    pTmpFrame := s.pTmpFrame + usBufferLength
    tmpUlFrameSize := s.tmpUlFrameSize + usBufferLength }

/-- The part of a turn for a descriptor inside a frame, `usTmpIdx` being at the next one already. -/
def gatherBuffer (ulFrameSize : Nat) (s : ReadState) : Turn ReadState ReadResult :=
  let size := s.dev.usRxListSize
  if s.usTmpIdx = s.dev.usRxIdx then
    -- a complete turn without an end of frame
    let dev := (s.dev.releaseNext.releaseUntil s.usTmpIdx size s.pRxTd).1
    .leave ⟨.rxError, 0, dev, s.frame⟩
  else
    let s := copyBuffer ulFrameSize s
    let td := s.dev.pRxDscr s.pRxTd
    if td.eof then
      let dev := (s.dev.releaseUntil s.usTmpIdx size s.pRxTd).1
      .leave ⟨if s.tmpUlFrameSize < td.len then .sizeTooSmall else .ok, td.len, dev, s.frame⟩
    else .again { s with pRxTd := s.usTmpIdx }

/-- The part of a turn for a descriptor outside any frame. -/
def skipBuffer (s : ReadState) : ReadState :=
  { s with dev := { s.dev.release s.pRxTd with usRxIdx := s.usTmpIdx }, pRxTd := s.usTmpIdx }

/-- One turn of the loop over the descriptors. -/
def readTurn (pFrame ulFrameSize : Nat) (s : ReadState) : Turn ReadState ReadResult :=
  let td := s.dev.pRxDscr s.pRxTd
  if !td.owned then .leave ⟨.rxNoData, 0, s.dev, s.frame⟩
  else
    let s := if td.sof then startFrame pFrame s else s
    let s := { s with usTmpIdx := circInc s.usTmpIdx s.dev.usRxListSize }
    if s.cIsFrame then gatherBuffer ulFrameSize s else .again (skipBuffer s)

/-- `gmac_dev_read` into the memory `frame` at `pFrame`; the loop takes at most one turn for each descriptor and one more. -/
def gmacDevRead (dev : RxRing) (frame : Memory) (pFrame ulFrameSize : Nat) : Option ReadResult :=
  Loop.run (readTurn pFrame ulFrameSize) (dev.usRxListSize + 1)
    { dev, frame, pRxTd := dev.usRxIdx, usTmpIdx := dev.usRxIdx, pTmpFrame := 0, tmpUlFrameSize := 0, cIsFrame := false }

end ContikiAtsam
