import ContikiAtsam.Base.Memory

/-!
# The ring buffer with 32-bit pointers

`lib/ringbuf32.c`: a FIFO of bytes in a buffer whose size is a power of two. `dataLen` is the length of the array behind `data`, which the C structure does not keep; an access past it is a fault. Results are C `int`s.
-/

namespace ContikiAtsam

/-- `struct ringbuf32`. -/
structure Ringbuf32 where
  data : Memory
  dataLen : Nat
  mask : UInt32
  putPtr : UInt32
  getPtr : UInt32

/-- `CC_ACCESS_NOW(uint8_t, x) = v` for a 32-bit `x`: the byte at the lowest address. -/
def ccAccessNow8 (x v : UInt32) : UInt32 :=
  (x &&& 0xFFFFFF00) ||| (v &&& 0xFF)

def ringbuf32Init (dataptr : Memory) (dataLen : Nat) (size : UInt32) : Ringbuf32 :=
  { data := dataptr, dataLen, mask := size - 1, putPtr := 0, getPtr := 0 }

def ringbuf32Put (r : Ringbuf32) (c : UInt8) : Except Fault (Int × Ringbuf32) :=
  if (r.putPtr - r.getPtr) &&& r.mask = r.mask then .ok (0, r)
  else if r.putPtr.toNat < r.dataLen then
    let r := { r with data := r.data.store r.putPtr.toNat [c] }
    .ok (1, { r with putPtr := ccAccessNow8 r.putPtr ((r.putPtr + 1) &&& r.mask) })
  else .error .outOfBounds

def ringbuf32Get (r : Ringbuf32) : Except Fault (Int × Ringbuf32) :=
  if (r.putPtr - r.getPtr) &&& r.mask > 0 then
    if r.getPtr.toNat < r.dataLen then
      let c := r.data r.getPtr.toNat
      .ok (c.toNat, { r with getPtr := (r.getPtr + 1) &&& r.mask })
    else .error .outOfBounds
  else .ok (-1, r)

def ringbuf32Size (r : Ringbuf32) : Int :=
  (r.mask + 1).toInt32.toInt

def ringbuf32Elements (r : Ringbuf32) : Int :=
  ((r.putPtr - r.getPtr) &&& r.mask).toInt32.toInt

end ContikiAtsam
