import ContikiAtsam.Base.Ring
import ContikiAtsam.Gmac.Rx

/-!
# The reader over a list of buffers

What `gmac_dev_read` does, told without indices. The descriptors that the software owns are a list of buffers, oldest first; `readList` walks along it with the buffers held since the last start of frame and the bytes gathered so far. At a start of frame it takes the bytes and the end-of-frame mark not from the buffer it is at but from the last one held, if any: the loop of the code that gives the earlier fragments back leaves the descriptor pointer there.
-/

namespace ContikiAtsam

/-- What a descriptor says of its buffer, and the bytes in it. -/
structure Buf where
  sof : Bool
  eof : Bool
  len : Nat
  bytes : List UInt8

def RxDescriptor.buf (d : RxDescriptor) (ram : Memory) : Buf :=
  ⟨d.sof, d.eof, d.len, ram.load d.bufferAddr gmacRxUnitsize⟩

namespace RxRing

/-- The descriptor `i` places after the first one not given back. -/
def nth (dev : RxRing) (i : Nat) : RxDescriptor :=
  dev.pRxDscr ((dev.usRxIdx + i) % dev.usRxListSize)

/-- The software owns exactly these buffers, in this order. -/
structure Shows (dev : RxRing) (bufs : List Buf) : Prop where
  two_le : 2 ≤ dev.usRxListSize
  idx_lt : dev.usRxIdx < dev.usRxListSize
  length_le : bufs.length ≤ dev.usRxListSize
  shown : ∀ i (hi : i < bufs.length), (dev.nth i).owned = true ∧ (dev.nth i).buf dev.ram = bufs[i]
  rest : ∀ i, bufs.length ≤ i → i < dev.usRxListSize → (dev.nth i).owned = false

/-- The same buffers behind the same descriptors, whoever owns them. -/
structure SameBuffers (dev dev' : RxRing) : Prop where
  size : dev'.usRxListSize = dev.usRxListSize
  ram : dev'.ram = dev.ram
  buf : ∀ i, (dev'.pRxDscr i).buf dev'.ram = (dev.pRxDscr i).buf dev.ram

theorem SameBuffers.refl (dev : RxRing) : SameBuffers dev dev := ⟨rfl, rfl, fun _ => rfl⟩

theorem SameBuffers.trans {dev dev' dev'' : RxRing} (h : SameBuffers dev dev')
    (h' : SameBuffers dev' dev'') : SameBuffers dev dev'' :=
  ⟨h'.size.trans h.size, h'.ram.trans h.ram, fun i => (h'.buf i).trans (h.buf i)⟩

end RxRing

theorem RxDescriptor.owned_released (d : RxDescriptor) : d.released.owned = false := by
  have hbit : (d.addr &&& ~~~gmacRxdOwnership) &&& gmacRxdOwnership = 0 := by
    rw [UInt32.and_assoc, show ~~~gmacRxdOwnership &&& gmacRxdOwnership = 0 by decide, UInt32.and_zero]
  rw [owned, released, hbit]
  decide

theorem RxDescriptor.buf_released (d : RxDescriptor) (ram : Memory) : d.released.buf ram = d.buf ram := by
  have haddr : d.released.bufferAddr = d.bufferAddr := by
    rw [bufferAddr, released, UInt32.and_assoc,
      show ~~~gmacRxdOwnership &&& gmacRxdAddrMask = gmacRxdAddrMask by decide, bufferAddr]
  rw [buf, haddr]
  rfl

namespace RxRing

variable {dev : RxRing} {b : Buf} {bufs held : List Buf}

theorem sameBuffers_releaseNext (dev : RxRing) : SameBuffers dev dev.releaseNext := by
  refine ⟨rfl, rfl, fun i => ?_⟩
  change (Function.update dev.pRxDscr dev.usRxIdx _ i).buf dev.ram = _
  by_cases hi : i = dev.usRxIdx
  · subst hi
    rw [Function.update_self, RxDescriptor.buf_released]
  · rw [Function.update_of_ne hi]

theorem Shows.releaseNext_idx (h : Shows dev bufs) :
    dev.releaseNext.usRxIdx = (dev.usRxIdx + 1) % dev.usRxListSize := circInc_eq h.idx_lt

theorem Shows.nth_releaseNext (h : Shows dev bufs) (i : Nat) :
    dev.releaseNext.nth i = Function.update dev.pRxDscr dev.usRxIdx (dev.pRxDscr dev.usRxIdx).released
      ((dev.usRxIdx + (i + 1)) % dev.usRxListSize) := by
  rw [nth, h.releaseNext_idx]
  change Function.update _ _ _ (((dev.usRxIdx + 1) % dev.usRxListSize + i) % dev.usRxListSize) = _
  rw [Ring.index_succ]

theorem Shows.nth_releaseNext_of_lt (h : Shows dev bufs) {i : Nat} (hi : i + 1 < dev.usRxListSize) :
    dev.releaseNext.nth i = dev.nth (i + 1) := by
  have hne : (dev.usRxIdx + (i + 1)) % dev.usRxListSize ≠ dev.usRxIdx := by
    intro heq
    have hzero : (dev.usRxIdx + (i + 1)) % dev.usRxListSize = (dev.usRxIdx + 0) % dev.usRxListSize := by
      rw [heq, Nat.add_zero, Nat.mod_eq_of_lt h.idx_lt]
    exact absurd (Ring.index_inj hi (by omega) hzero) (Nat.succ_ne_zero i)
  rw [h.nth_releaseNext, Function.update_of_ne hne, nth]

theorem Shows.releaseNext (h : Shows dev (b :: bufs)) : Shows dev.releaseNext bufs := by
  have hlen := h.length_le
  rw [List.length_cons] at hlen
  have hsize : dev.releaseNext.usRxListSize = dev.usRxListSize := rfl
  refine ⟨h.two_le, ?_, by omega, ?_, ?_⟩
  · rw [h.releaseNext_idx]
    exact Nat.mod_lt _ (by have := h.two_le; omega)
  · intro i hi
    rw [h.nth_releaseNext_of_lt (by omega)]
    exact h.shown (i + 1) (by simpa using hi)
  · intro i hi hlt
    by_cases hlast : i + 1 < dev.usRxListSize
    · rw [h.nth_releaseNext_of_lt hlast]
      exact h.rest (i + 1) (by simpa using hi) hlast
    · have hwrap : (dev.usRxIdx + (i + 1)) % dev.usRxListSize = dev.usRxIdx := by
        rw [show i + 1 = dev.usRxListSize by omega, Nat.add_mod_right, Nat.mod_eq_of_lt h.idx_lt]
      rw [h.nth_releaseNext, hwrap, Function.update_self]
      exact RxDescriptor.owned_released _

/-- What the loops that give descriptors back do: the held buffers are gone, and the pointer is left at the last of them. -/
theorem Shows.releaseUntil (h : Shows dev (held ++ bufs)) (fuel pRxTd : Nat)
    (hlt : held.length < dev.usRxListSize) (hfuel : held.length ≤ fuel) :
    ∃ dev', dev.releaseUntil ((dev.usRxIdx + held.length) % dev.usRxListSize) fuel pRxTd =
        (dev', if held = [] then pRxTd else (dev.usRxIdx + (held.length - 1)) % dev.usRxListSize) ∧
      Shows dev' bufs ∧ SameBuffers dev dev' ∧
      dev'.usRxIdx = (dev.usRxIdx + held.length) % dev.usRxListSize := by
  induction fuel generalizing dev held pRxTd with
  | zero =>
      obtain rfl : held = [] := List.eq_nil_of_length_eq_zero (by omega)
      exact ⟨dev, by simp [releaseUntil], h, .refl dev, by simp [Nat.mod_eq_of_lt h.idx_lt]⟩
  | succ fuel ih =>
      cases held with
      | nil =>
          have hidx : dev.usRxIdx = (dev.usRxIdx + 0) % dev.usRxListSize := by
            rw [Nat.add_zero, Nat.mod_eq_of_lt h.idx_lt]
          refine ⟨dev, ?_, h, .refl dev, hidx⟩
          rw [List.length_nil, RxRing.releaseUntil, if_pos hidx, if_pos rfl]
      | cons b held =>
          have hne : dev.usRxIdx ≠ (dev.usRxIdx + (b :: held).length) % dev.usRxListSize := by
            intro heq
            have hzero : (dev.usRxIdx + 0) % dev.usRxListSize =
                (dev.usRxIdx + (b :: held).length) % dev.usRxListSize := by
              rw [← heq, Nat.add_zero, Nat.mod_eq_of_lt h.idx_lt]
            have := Ring.index_inj (by omega) hlt hzero
            simp at this
          have hnext : Shows dev.releaseNext (held ++ bufs) := Shows.releaseNext h
          have htarget : (dev.releaseNext.usRxIdx + held.length) % dev.releaseNext.usRxListSize =
              (dev.usRxIdx + (b :: held).length) % dev.usRxListSize := by
            rw [h.releaseNext_idx]
            exact Ring.index_succ _
          rw [List.length_cons] at hlt hfuel
          have hlt' : held.length < dev.releaseNext.usRxListSize := Nat.lt_of_succ_lt hlt
          obtain ⟨dev', hrun, hshows, hsame, hidx⟩ := ih hnext dev.usRxIdx hlt' (by omega)
          rw [htarget] at hrun hidx
          refine ⟨dev', ?_, hshows, (sameBuffers_releaseNext dev).trans hsame, hidx⟩
          rw [RxRing.releaseUntil, if_neg hne, hrun, if_neg (List.cons_ne_nil b held), List.length_cons,
            Nat.add_sub_cancel]
          cases held with
          | nil => rw [if_pos rfl, List.length_nil, Nat.add_zero, Nat.mod_eq_of_lt h.idx_lt]
          | cons b' held =>
              rw [if_neg (List.cons_ne_nil b' held), h.releaseNext_idx, List.length_cons, Nat.add_sub_cancel]
              exact congrArg _ (Ring.index_succ _)

end RxRing

/-! ### The list reader -/

structure ListRead where
  status : GmacStatus
  bytes : List UInt8
  rest : List Buf

/-- The buffer that the bytes and the end-of-frame mark are taken from. -/
def Buf.source (b : Buf) (held : List Buf) : Buf := if b.sof then held.getLastD b else b

def Buf.hold (b : Buf) (held : List Buf) : List Buf := if b.sof then [b] else held ++ [b]

/-- The bytes gathered when the source is copied, as far as the frame buffer goes. -/
def Buf.gather (b : Buf) (cap : Nat) (held : List Buf) (acc : List UInt8) : List UInt8 :=
  let acc := if b.sof then [] else acc
  acc ++ (b.source held).bytes.take (cap - acc.length)

/-- The reader, with the buffers held since the last start of frame and the bytes gathered from them. -/
def readList (n cap : Nat) : List Buf → List Buf → List UInt8 → ListRead
  | [], held, _ => ⟨.rxNoData, [], held⟩
  | b :: bufs, held, acc =>
    if !b.sof && held.isEmpty then readList n cap bufs [] []
    else if (b.hold held).length = n then ⟨.rxError, [], []⟩
    else if (b.source held).eof then
      ⟨if (b.gather cap held acc).length < (b.source held).len then .sizeTooSmall else .ok,
        (b.gather cap held acc).take (b.source held).len, bufs⟩
    else readList n cap bufs (b.hold held) (b.gather cap held acc)

/-! ### The code reads like the list reader -/

/-- The state of the loop at its head: buffers held, bytes gathered, buffers to come. -/
structure Reading (pFrame cap : Nat) (s : ReadState) (bufs held : List Buf) (acc : List UInt8) : Prop where
  shows_bufs : s.dev.Shows (held ++ bufs)
  held_lt : held.length < s.dev.usRxListSize
  tmpIdx : s.usTmpIdx = (s.dev.usRxIdx + held.length) % s.dev.usRxListSize
  td : s.pRxTd = s.usTmpIdx
  isFrame : s.cIsFrame = !held.isEmpty
  tmpFrame : held ≠ [] → s.pTmpFrame = pFrame + acc.length
  tmpSize : held ≠ [] → s.tmpUlFrameSize = acc.length
  gathered : held ≠ [] → s.frame.load pFrame acc.length = acc
  acc_le : acc.length ≤ cap

/-- The state after a start of frame is dealt with: the buffer at `usTmpIdx` is the last one held, and `src` is the buffer to copy. -/
structure Gathering (pFrame cap : Nat) (s : ReadState) (bufs held : List Buf) (acc : List UInt8) (src : Buf) :
    Prop where
  shows_bufs : s.dev.Shows (held ++ bufs)
  held_pos : 0 < held.length
  tmpIdx : s.usTmpIdx = (s.dev.usRxIdx + (held.length - 1)) % s.dev.usRxListSize
  src : (s.dev.pRxDscr s.pRxTd).buf s.dev.ram = src
  isFrame : s.cIsFrame = true
  tmpFrame : s.pTmpFrame = pFrame + acc.length
  tmpSize : s.tmpUlFrameSize = acc.length
  gathered : s.frame.load pFrame acc.length = acc
  acc_le : acc.length ≤ cap

/-- The result of the code is that of the list reader. -/
structure Reads (pFrame : Nat) (dev : RxRing) (r : ReadResult) (lr : ListRead) : Prop where
  status : r.status = lr.status
  shows_rest : r.dev.Shows lr.rest
  same : RxRing.SameBuffers dev r.dev
  bytes : lr.status = .ok → r.frame.load pFrame r.rcvSize = lr.bytes

theorem Reads.of_same {pFrame : Nat} {dev dev' : RxRing} {r : ReadResult} {lr : ListRead}
    (h : Reads pFrame dev' r lr) (hsame : RxRing.SameBuffers dev dev') : Reads pFrame dev r lr :=
  ⟨h.status, h.shows_rest, hsame.trans h.same, h.bytes⟩

section Simulation

variable {pFrame cap : Nat} {s : ReadState} {b src : Buf} {bufs held : List Buf} {acc : List UInt8}

theorem Reading.current (h : Reading pFrame cap s (b :: bufs) held acc) :
    (s.dev.pRxDscr s.pRxTd).owned = true ∧ (s.dev.pRxDscr s.pRxTd).buf s.dev.ram = b := by
  have hi : held.length < (held ++ b :: bufs).length := by simp
  have hshown := h.shows_bufs.shown held.length hi
  rw [RxRing.nth, ← h.tmpIdx, ← h.td] at hshown
  simpa using hshown

theorem Reading.exhausted (h : Reading pFrame cap s [] held acc) :
    (s.dev.pRxDscr s.pRxTd).owned = false := by
  have hrest := h.shows_bufs.rest held.length (by simp) h.held_lt
  rwa [RxRing.nth, ← h.tmpIdx, ← h.td] at hrest

theorem sof_eq_of_buf {d : RxDescriptor} {ram : Memory} (h : d.buf ram = b) : d.sof = b.sof := congrArg Buf.sof h
theorem eof_eq_of_buf {d : RxDescriptor} {ram : Memory} (h : d.buf ram = b) : d.eof = b.eof := congrArg Buf.eof h
theorem len_eq_of_buf {d : RxDescriptor} {ram : Memory} (h : d.buf ram = b) : d.len = b.len := congrArg Buf.len h

/-- A start of frame gives the held buffers back and leaves the pointer at the last of them. -/
theorem Reading.started (h : Reading pFrame cap s (b :: bufs) held acc) :
    Gathering pFrame cap (startFrame pFrame s) bufs [b] [] (held.getLastD b) ∧
      RxRing.SameBuffers s.dev (startFrame pFrame s).dev ∧ (startFrame pFrame s).usTmpIdx = s.usTmpIdx := by
  obtain ⟨dev', hrun, hshows, hsame, hidx⟩ :=
    h.shows_bufs.releaseUntil s.dev.usRxListSize s.pRxTd h.held_lt (Nat.le_of_lt h.held_lt)
  rw [← h.tmpIdx] at hrun hidx
  have hstart : startFrame pFrame s =
      { s with dev := dev'
               pRxTd := if held = [] then s.pRxTd else (s.dev.usRxIdx + (held.length - 1)) % s.dev.usRxListSize
               pTmpFrame := pFrame
               tmpUlFrameSize := 0
               cIsFrame := true } := by
    rw [startFrame, hrun]
  rw [hstart]
  refine ⟨⟨hshows, Nat.succ_pos 0, ?_, ?_, rfl, rfl, rfl, rfl, Nat.zero_le _⟩, hsame, rfl⟩
  · rw [List.length_singleton, Nat.sub_self, Nat.add_zero, hidx, h.tmpIdx, hsame.size, Nat.mod_mod]
  · rw [hsame.buf]
    by_cases hheld : held = []
    · subst hheld
      rw [if_pos rfl, h.current.2]
      rfl
    · have hpos := List.length_pos_iff.mpr hheld
      have hi : held.length - 1 < (held ++ b :: bufs).length := by simp; omega
      have hlast := (h.shows_bufs.shown (held.length - 1) hi).2
      rw [if_neg hheld]
      rw [RxRing.nth] at hlast
      rw [hlast, List.getElem_append_left (by omega), List.getLastD_eq_getLast?, List.getLast?_eq_getElem?,
        List.getElem?_eq_getElem (by omega)]
      rfl

theorem Reading.continued (h : Reading pFrame cap s (b :: bufs) held acc) (hheld : held ≠ []) :
    Gathering pFrame cap s bufs (held ++ [b]) acc b where
  shows_bufs := by simpa using h.shows_bufs
  held_pos := by simp
  tmpIdx := by simpa using h.tmpIdx
  src := h.current.2
  isFrame := by simp [h.isFrame, hheld]
  tmpFrame := h.tmpFrame hheld
  tmpSize := h.tmpSize hheld
  gathered := h.gathered hheld
  acc_le := h.acc_le

theorem Reading.skipped (h : Reading pFrame cap s (b :: bufs) [] acc) :
    Reading pFrame cap (skipBuffer { s with usTmpIdx := circInc s.usTmpIdx s.dev.usRxListSize }) bufs [] [] ∧
      RxRing.SameBuffers s.dev (skipBuffer { s with usTmpIdx := circInc s.usTmpIdx s.dev.usRxListSize }).dev := by
  have hlt := h.shows_bufs.idx_lt
  have hidx : s.usTmpIdx = s.dev.usRxIdx := by
    rw [h.tmpIdx, List.length_nil, Nat.add_zero, Nat.mod_eq_of_lt hlt]
  have hdev : (skipBuffer { s with usTmpIdx := circInc s.usTmpIdx s.dev.usRxListSize }).dev =
      s.dev.releaseNext := by
    rw [skipBuffer, h.td, hidx]
    rfl
  have hnext : s.dev.releaseNext.Shows bufs := h.shows_bufs.releaseNext
  have htmp : circInc s.usTmpIdx s.dev.usRxListSize = s.dev.releaseNext.usRxIdx := by
    rw [hidx]
    rfl
  refine ⟨⟨?_, ?_, ?_, rfl, ?_, ?_, ?_, ?_, Nat.zero_le _⟩, ?_⟩
  · rwa [hdev]
  · rw [hdev]
    exact Nat.zero_lt_of_lt hnext.idx_lt
  · rw [hdev, List.length_nil, Nat.add_zero, Nat.mod_eq_of_lt hnext.idx_lt]
    exact htmp
  · exact h.isFrame
  · simp
  · simp
  · simp
  · rw [hdev]
    exact RxRing.sameBuffers_releaseNext _

theorem Gathering.next (h : Gathering pFrame cap s bufs held acc src) :
    circInc s.usTmpIdx s.dev.usRxListSize = (s.dev.usRxIdx + held.length) % s.dev.usRxListSize := by
  have hpos := h.held_pos
  have hlt : s.usTmpIdx < s.dev.usRxListSize := by
    rw [h.tmpIdx]
    exact Nat.mod_lt _ (Nat.zero_lt_of_lt h.shows_bufs.idx_lt)
  rw [circInc_eq hlt, h.tmpIdx, Nat.mod_add_mod, show s.dev.usRxIdx + (held.length - 1) + 1 =
    s.dev.usRxIdx + held.length by omega]

theorem Gathering.full (h : Gathering pFrame cap s bufs held acc src)
    (hfull : held.length = s.dev.usRxListSize) :
    ∃ r, gatherBuffer cap { s with usTmpIdx := circInc s.usTmpIdx s.dev.usRxListSize } = .leave r ∧
      Reads pFrame s.dev r ⟨.rxError, [], []⟩ := by
  have hidx := h.shows_bufs.idx_lt
  have hnext : circInc s.usTmpIdx s.dev.usRxListSize = s.dev.usRxIdx := by
    rw [h.next, hfull, Nat.add_mod_right, Nat.mod_eq_of_lt hidx]
  obtain rfl : bufs = [] := by
    have hlen := h.shows_bufs.length_le
    rw [List.length_append] at hlen
    exact List.eq_nil_of_length_eq_zero (by omega)
  cases held with
  | nil => exact absurd h.held_pos (Nat.lt_irrefl 0)
  | cons b held =>
      rw [List.length_cons] at hfull
      have hreleased : s.dev.releaseNext.Shows (held ++ []) := RxRing.Shows.releaseNext h.shows_bufs
      have hlt : held.length < s.dev.releaseNext.usRxListSize := Nat.lt_of_succ_le (Nat.le_of_eq hfull)
      obtain ⟨dev', hrun, hshows, hsame, -⟩ :=
        hreleased.releaseUntil s.dev.usRxListSize s.pRxTd hlt (Nat.le_of_lt hlt)
      have htarget : (s.dev.releaseNext.usRxIdx + held.length) % s.dev.releaseNext.usRxListSize = s.dev.usRxIdx := by
        rw [h.shows_bufs.releaseNext_idx]
        change ((s.dev.usRxIdx + 1) % s.dev.usRxListSize + held.length) % s.dev.usRxListSize = _
        rw [Ring.index_succ, hfull, Nat.add_mod_right, Nat.mod_eq_of_lt hidx]
      rw [htarget] at hrun
      refine ⟨⟨.rxError, 0, dev', s.frame⟩, ?_, rfl, hshows,
        (RxRing.sameBuffers_releaseNext _).trans hsame, fun hok => by simp at hok⟩
      simp only [gatherBuffer, hnext, if_true, hrun]

theorem Gathering.next_ne (h : Gathering pFrame cap s bufs held acc src)
    (hlt : held.length < s.dev.usRxListSize) : circInc s.usTmpIdx s.dev.usRxListSize ≠ s.dev.usRxIdx := by
  intro heq
  have hpos := h.held_pos
  have hzero : (s.dev.usRxIdx + held.length) % s.dev.usRxListSize = (s.dev.usRxIdx + 0) % s.dev.usRxListSize := by
    rw [← h.next, heq, Nat.add_zero, Nat.mod_eq_of_lt h.shows_bufs.idx_lt]
  have := Ring.index_inj hlt (by omega) hzero
  omega

theorem Gathering.copied (h : Gathering pFrame cap s bufs held acc src) :
    let acc' := acc ++ src.bytes.take (cap - acc.length)
    let s' := copyBuffer cap { s with usTmpIdx := circInc s.usTmpIdx s.dev.usRxListSize }
    s'.dev = s.dev ∧ s'.pRxTd = s.pRxTd ∧ s'.usTmpIdx = circInc s.usTmpIdx s.dev.usRxListSize ∧
      s'.cIsFrame = s.cIsFrame ∧ s'.pTmpFrame = pFrame + acc'.length ∧ s'.tmpUlFrameSize = acc'.length ∧
      s'.frame.load pFrame acc'.length = acc' ∧ acc'.length ≤ cap := by
  intro acc' s'
  have hacc := h.acc_le
  set len := if acc.length + gmacRxUnitsize > cap then cap - acc.length else gmacRxUnitsize with hlen
  have hchunk : s.dev.ram.load (s.dev.pRxDscr s.pRxTd).bufferAddr len = src.bytes.take (cap - acc.length) := by
    rw [← h.src, RxDescriptor.buf, hlen]
    split
    · rw [Memory.take_load _ _ _ _ (by omega)]
    · rw [List.take_of_length_le (by rw [Memory.load_length]; omega)]
  have hchunkLen : (src.bytes.take (cap - acc.length)).length = len := by
    rw [← hchunk, Memory.load_length]
  have hs' : s' = { s with usTmpIdx := circInc s.usTmpIdx s.dev.usRxListSize
                           frame := s.frame.store (pFrame + acc.length) (src.bytes.take (cap - acc.length))
                           pTmpFrame := pFrame + acc.length + len
                           tmpUlFrameSize := acc.length + len } := by
    simp only [s', copyBuffer, h.tmpSize, h.tmpFrame, ← hlen, hchunk]
  have hlength : acc'.length = acc.length + len := by rw [List.length_append, hchunkLen]
  have hle : len ≤ cap - acc.length := by
    rw [hlen]
    split <;> omega
  rw [hs', hlength]
  refine ⟨rfl, rfl, rfl, rfl, Nat.add_assoc _ _ _, rfl, ?_, by omega⟩
  rw [← hchunkLen]
  refine Memory.load_eq_append_iff.mpr ⟨?_, Memory.load_store_self _ _ _⟩
  change (s.frame.store _ _).load pFrame acc.length = acc
  rw [Memory.load_store_of_disjoint (Or.inl (Nat.le_refl _)), h.gathered]

theorem Gathering.finished (h : Gathering pFrame cap s bufs held acc src)
    (hlt : held.length < s.dev.usRxListSize) (heof : src.eof = true) :
    ∃ r, gatherBuffer cap { s with usTmpIdx := circInc s.usTmpIdx s.dev.usRxListSize } = .leave r ∧
      Reads pFrame s.dev r
        ⟨if (acc ++ src.bytes.take (cap - acc.length)).length < src.len then .sizeTooSmall else .ok,
          (acc ++ src.bytes.take (cap - acc.length)).take src.len, bufs⟩ := by
  obtain ⟨hdev, htd, htmp, -, -, hsize, hload, -⟩ := h.copied
  obtain ⟨dev', hrun, hshows, hsame, -⟩ :=
    h.shows_bufs.releaseUntil s.dev.usRxListSize s.pRxTd hlt (Nat.le_of_lt hlt)
  rw [← h.next] at hrun
  refine ⟨⟨_, src.len, dev', (copyBuffer cap
    { s with usTmpIdx := circInc s.usTmpIdx s.dev.usRxListSize }).frame⟩, ?_, rfl, hshows, hsame, ?_⟩
  · simp only [gatherBuffer, h.next_ne hlt, if_false, hdev, htd, htmp, hsize,
      eof_eq_of_buf h.src, len_eq_of_buf h.src, heof, if_true, hrun]
  · intro hok
    have hle : src.len ≤ (acc ++ src.bytes.take (cap - acc.length)).length := by
      by_contra hgt
      simp only [Nat.lt_of_not_le hgt, if_true, reduceCtorEq] at hok
    change Memory.load _ pFrame src.len = _
    rw [← hload, Memory.take_load _ _ _ _ hle]

theorem Gathering.goesOn (h : Gathering pFrame cap s bufs held acc src)
    (hlt : held.length < s.dev.usRxListSize) (heof : src.eof = false) :
    ∃ s', gatherBuffer cap { s with usTmpIdx := circInc s.usTmpIdx s.dev.usRxListSize } = .again s' ∧
      Reading pFrame cap s' bufs held (acc ++ src.bytes.take (cap - acc.length)) ∧
      RxRing.SameBuffers s.dev s'.dev := by
  obtain ⟨hdev, htd, htmp, hframe, htmpFrame, hsize, hload, hle⟩ := h.copied
  set t := copyBuffer cap { s with usTmpIdx := circInc s.usTmpIdx s.dev.usRxListSize } with ht
  have hne : held ≠ [] := List.length_pos_iff.mp h.held_pos
  refine ⟨{ t with pRxTd := t.usTmpIdx }, ?_, ⟨?_, ?_, ?_, rfl, ?_, fun _ => htmpFrame, fun _ => hsize,
    fun _ => hload, hle⟩, ?_⟩
  · simp only [gatherBuffer, h.next_ne hlt, if_false, ← ht, hdev, htd,
      eof_eq_of_buf h.src, heof, Bool.false_eq_true]
  · change t.dev.Shows _
    rw [hdev]
    exact h.shows_bufs
  · change _ < t.dev.usRxListSize
    rw [hdev]
    exact hlt
  · change t.usTmpIdx = (t.dev.usRxIdx + held.length) % t.dev.usRxListSize
    rw [htmp, hdev, h.next]
  · change t.cIsFrame = _
    rw [hframe, h.isFrame]
    simp [hne]
  · change RxRing.SameBuffers s.dev t.dev
    rw [hdev]
    exact .refl _

theorem Reading.turn (h : Reading pFrame cap s (b :: bufs) held acc) :
    readTurn pFrame cap s =
      let s' := if b.sof then startFrame pFrame s else s
      let s' := { s' with usTmpIdx := circInc s'.usTmpIdx s.dev.usRxListSize }
      if s'.cIsFrame then gatherBuffer cap s' else .again (skipBuffer s') := by
  obtain ⟨howned, hbuf⟩ := h.current
  have hsize : (startFrame pFrame s).dev.usRxListSize = s.dev.usRxListSize := h.started.2.1.size
  simp only [readTurn, howned, Bool.not_true, Bool.false_eq_true, if_false, sof_eq_of_buf hbuf]
  cases b.sof with
  | false => simp only [Bool.false_eq_true, if_false]
  | true => simp only [if_true, hsize]

theorem Reading.gathering (h : Reading pFrame cap s (b :: bufs) held acc) (hin : b.sof = true ∨ held ≠ []) :
    ∃ s', (if b.sof then startFrame pFrame s else s) = s' ∧
      Gathering pFrame cap s' bufs (b.hold held) (if b.sof then [] else acc) (b.source held) ∧
      RxRing.SameBuffers s.dev s'.dev := by
  refine ⟨_, rfl, ?_⟩
  unfold Buf.hold Buf.source
  cases hsof : b.sof with
  | true =>
      obtain ⟨hgathering, hsame, -⟩ := h.started
      exact ⟨by simpa using hgathering, by simpa using hsame⟩
  | false =>
      have hheld : held ≠ [] := hin.resolve_left (by simp [hsof])
      exact ⟨by simpa using h.continued hheld, .refl _⟩

end Simulation

/-- **`gmac_dev_read` refines the list reader**, from any state of its loop. -/
theorem reads_of_reading {pFrame cap n : Nat} :
    ∀ (bufs : List Buf) {s : ReadState} {held : List Buf} {acc : List UInt8} {fuel : Nat},
      Reading pFrame cap s bufs held acc → s.dev.usRxListSize = n → bufs.length < fuel →
      ∃ r, Loop.run (readTurn pFrame cap) fuel s = some r ∧ Reads pFrame s.dev r (readList n cap bufs held acc)
  | [], s, held, acc, fuel, h, hn, hfuel => by
      obtain ⟨fuel, rfl⟩ : ∃ k, fuel = k + 1 := ⟨fuel - 1, by omega⟩
      have hturn : readTurn pFrame cap s = .leave ⟨.rxNoData, 0, s.dev, s.frame⟩ := by
        simp only [readTurn, h.exhausted, Bool.not_false, if_true]
      refine ⟨_, Loop.run_leave hturn fuel, rfl, ?_, .refl _, fun hok => by simp [readList] at hok⟩
      simpa [readList] using h.shows_bufs
  | b :: bufs, s, held, acc, fuel, h, hn, hfuel => by
      obtain ⟨fuel, rfl⟩ : ∃ k, fuel = k + 1 := ⟨fuel - 1, by omega⟩
      rw [List.length_cons] at hfuel
      by_cases hin : b.sof = true ∨ held ≠ []
      · obtain ⟨s', hs', hg, hsame⟩ := h.gathering hin
        have hread : readList n cap (b :: bufs) held acc =
            if (b.hold held).length = n then ⟨.rxError, [], []⟩
            else if (b.source held).eof then
              ⟨if (b.gather cap held acc).length < (b.source held).len then .sizeTooSmall else .ok,
                (b.gather cap held acc).take (b.source held).len, bufs⟩
            else readList n cap bufs (b.hold held) (b.gather cap held acc) := by
          rw [readList, if_neg]
          rcases hin with hsof | hheld <;> simp [*]
        have hsize : s'.dev.usRxListSize = n := hsame.size.trans hn
        have hturn := h.turn
        rw [hs', ← hsame.size] at hturn
        dsimp only at hturn
        rw [if_pos hg.isFrame] at hturn
        rw [hread]
        by_cases hfull : (b.hold held).length = n
        · obtain ⟨r, hleave, hreads⟩ := hg.full (hfull.trans hsize.symm)
          rw [if_pos hfull]
          exact ⟨r, Loop.run_leave (hturn.trans hleave) fuel, hreads.of_same hsame⟩
        have hlt : (b.hold held).length < s'.dev.usRxListSize := by
          have hle := hg.shows_bufs.length_le
          rw [List.length_append] at hle
          omega
        rw [if_neg hfull]
        cases heof : (b.source held).eof with
        | true =>
            obtain ⟨r, hleave, hreads⟩ := hg.finished hlt heof
            exact ⟨r, Loop.run_leave (hturn.trans hleave) fuel, hreads.of_same hsame⟩
        | false =>
            obtain ⟨s'', hagain, hreading, hsame'⟩ := hg.goesOn hlt heof
            obtain ⟨r, hrun, hreads⟩ := reads_of_reading bufs hreading (hsame'.size.trans hsize) (Nat.lt_of_succ_lt_succ hfuel)
            exact ⟨r, (Loop.run_again (hturn.trans hagain) fuel).trans hrun,
              (hreads.of_same hsame').of_same hsame⟩
      · obtain ⟨hsof, rfl⟩ : b.sof = false ∧ held = [] := by simpa using hin
        obtain ⟨hreading, hsame⟩ := h.skipped
        have hframe : ¬ s.cIsFrame = true := by simp [h.isFrame]
        have hturn := h.turn
        simp only [hsof, Bool.false_eq_true, if_false] at hturn
        rw [if_neg hframe] at hturn
        obtain ⟨r, hrun, hreads⟩ := reads_of_reading bufs hreading (hsame.size.trans hn) (Nat.lt_of_succ_lt_succ hfuel)
        refine ⟨r, (Loop.run_again hturn fuel).trans hrun, ?_⟩
        have hread : readList n cap (b :: bufs) [] acc = readList n cap bufs [] [] := by
          rw [readList, if_pos (by simp [hsof])]
        rw [hread]
        exact hreads.of_same hsame

/-- **`gmac_dev_read` is the list reader** on the buffers that the software owns. -/
theorem gmacDevRead_spec {dev : RxRing} {bufs : List Buf} (h : dev.Shows bufs) (frame : Memory) (pFrame cap : Nat) :
    ∃ r, gmacDevRead dev frame pFrame cap = some r ∧
      Reads pFrame dev r (readList dev.usRxListSize cap bufs [] []) := by
  refine reads_of_reading bufs ⟨h, ?_, ?_, rfl, rfl, ?_, ?_, ?_, Nat.zero_le _⟩ rfl ?_
  · exact Nat.zero_lt_of_lt h.idx_lt
  · exact (Nat.mod_eq_of_lt h.idx_lt).symm
  · simp
  · simp
  · simp
  · exact Nat.lt_succ_of_le h.length_le

end ContikiAtsam
