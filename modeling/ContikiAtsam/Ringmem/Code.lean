import ContikiAtsam.Base.Memory

/-!
# The ring memory

`lib/ringmem.c`: a FIFO of blocks of any length in one buffer. A block is a 16-bit length followed by the data, always on consecutive bytes; when the end of the buffer is too short for the next block, the block goes to the start and `wrapPtr` keeps where the blocks at the end stop. The fields are 16 bits wide and the arithmetic on them is the C code's own.

Every access to the buffer is checked against `size`, so that a call that reads or writes outside `[0, size)` ends in a fault.
-/

namespace ContikiAtsam

/-- `struct ringmem`. -/
structure Ringmem where
  data : Memory
  size : UInt16
  aLen : UInt16
  putPtr : UInt16
  getPtr : UInt16
  wrapPtr : UInt16

namespace Ringmem

/-- `RINGMEM_MAXSIZE`: no configuration sets `RINGMEM_CONF_MAXSIZE`. -/
def maxsize : UInt16 := 16383

def read16 (r : Ringmem) (ptr : Nat) : Except Fault UInt16 :=
  if ptr + 2 ≤ r.size.toNat then .ok (r.data.load16 ptr) else .error .outOfBounds

def write (r : Ringmem) (ptr : Nat) (bytes : List UInt8) : Except Fault Ringmem :=
  if ptr + bytes.length ≤ r.size.toNat then .ok { r with data := r.data.store ptr bytes }
  else .error .outOfBounds

/-- `RINGMEM_STORE`: the length prefix, then the copy of the data. -/
def storeBlock (r : Ringmem) (ptr : UInt16) (data : Memory) (len : UInt16) : Except Fault Ringmem := do
  let r ← r.write ptr.toNat (Memory.halfword len)
  r.write (ptr.toNat + 2) (data.load 0 len.toNat)

end Ringmem

open Ringmem

def ringmemInit (a : Memory) (len : UInt16) : Ringmem :=
  let size := if len > maxsize then maxsize else len
  { data := a, size, aLen := size, putPtr := 0, getPtr := 0, wrapPtr := 0 }

def ringmemAlloc (r : Ringmem) (data : Memory) (len : UInt16) : Except Fault (Nat × Ringmem) :=
  let tot : UInt32 := len.toUInt32 + 2
  if tot > r.aLen.toUInt32 then .ok (0, r)
  else
    -- place only on consecutive space
    let tot' := tot + r.putPtr.toUInt32
    if tot' > r.size.toUInt32 then
      if tot > r.getPtr.toUInt32 then .ok (0, r)
      else do
        let r := { r with wrapPtr := r.putPtr, putPtr := 0 }
        let r ← r.storeBlock r.putPtr data len
        let r := { r with putPtr := tot.toUInt16 }
        .ok (1, { r with aLen := r.getPtr - r.putPtr })
    else do
      let r ← r.storeBlock r.putPtr data len
      .ok (1, { r with putPtr := tot'.toUInt16, aLen := r.aLen - (len + 2) })

/-- The step of both readers at the end of the wrapped part: go on at the start of the buffer. -/
def leaveWrap (r : Ringmem) : Ringmem :=
  if r.getPtr = r.wrapPtr ∧ r.wrapPtr ≠ 0 then { r with getPtr := 0, wrapPtr := 0 } else r

/-- The block pointer is the offset of the block in the buffer, `none` for `NULL`. -/
def ringmemGetNextBlockPtr (r : Ringmem) : Option UInt16 × Ringmem :=
  if r.aLen = r.size then (none, r)
  else
    let r := leaveWrap r
    (some r.getPtr, r)

/-- The last step of `ringmem_free_block`, the free bytes counted anew. -/
def recount (r : Ringmem) : Ringmem :=
  if r.getPtr = r.putPtr then { r with getPtr := 0, putPtr := 0, aLen := r.size }
  else if r.getPtr < r.putPtr then { r with aLen := (r.size - r.putPtr) + r.getPtr }
  else { r with aLen := r.getPtr - r.putPtr }

def ringmemFreeBlock (r : Ringmem) : Except Fault Ringmem :=
  if r.aLen = r.size then .error .assertion
  else do
    let len ← r.read16 r.getPtr.toNat
    .ok (recount (leaveWrap { r with getPtr := r.getPtr + (len + 2) }))

end ContikiAtsam
