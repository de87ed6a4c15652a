import ContikiAtsam.Gmac.Read

/-!
# Reading from any ring

`gmac_dev_read` with every access checked: a descriptor index outside the list, a byte written outside the frame buffer and a loop that goes round too often all end the call with a fault. The ring may hold anything, so the descriptors that the software owns need not lie together. What keeps the function safe is that its indices only move forward, past descriptors it has given back itself and will not read again: `usRxIdx` and `usTmpIdx` are `released` and `walked` places after the first descriptor, and the walk stops at the latest when it is back there.
-/

namespace ContikiAtsam

/-- What can go wrong in reading. -/
inductive ReadFault where
  | outOfRing
  | outOfFrame
  | endless
  deriving DecidableEq, Repr

namespace Checked

def dscr (dev : RxRing) (i : Nat) : Except ReadFault RxDescriptor :=
  if i < dev.usRxListSize then .ok (dev.pRxDscr i) else .error .outOfRing

def releaseNext (dev : RxRing) : Except ReadFault RxRing :=
  if dev.usRxIdx < dev.usRxListSize then .ok dev.releaseNext else .error .outOfRing

def releaseUntil (target : Nat) : Nat → RxRing → Nat → Except ReadFault (RxRing × Nat)
  | 0, dev, pRxTd => if dev.usRxIdx = target then .ok (dev, pRxTd) else .error .endless
  | fuel + 1, dev, pRxTd =>
    if dev.usRxIdx = target then .ok (dev, pRxTd)
    else do
      let dev' ← releaseNext dev
      releaseUntil target fuel dev' dev.usRxIdx

def startFrame (pFrame : Nat) (s : ReadState) : Except ReadFault ReadState := do
  let (dev, pRxTd) ← releaseUntil s.usTmpIdx s.dev.usRxListSize s.dev s.pRxTd
  return { s with dev, pRxTd, pTmpFrame := pFrame, tmpUlFrameSize := 0, cIsFrame := true }

/-- The number of bytes to copy; the difference is taken in 32 bits and assigned to 16. -/
def bufferLength (ulFrameSize tmpUlFrameSize : Nat) : Nat :=
  if tmpUlFrameSize + gmacRxUnitsize > ulFrameSize then
    (UInt32.ofNat ulFrameSize - UInt32.ofNat tmpUlFrameSize).toUInt16.toNat
  else gmacRxUnitsize

def copyBuffer (pFrame ulFrameSize : Nat) (s : ReadState) : Except ReadFault ReadState := do
  let usBufferLength := bufferLength ulFrameSize s.tmpUlFrameSize
  let td ← dscr s.dev s.pRxTd
  if pFrame ≤ s.pTmpFrame ∧ s.pTmpFrame + usBufferLength ≤ pFrame + ulFrameSize then
    return { s with
      frame := s.frame.store s.pTmpFrame (s.dev.ram.load td.bufferAddr usBufferLength)
      pTmpFrame := s.pTmpFrame + usBufferLength
      tmpUlFrameSize := s.tmpUlFrameSize + usBufferLength }
  else throw .outOfFrame

/-- What a call returns, and the number of bytes it copied of the frame. -/
structure Result extends ReadResult where
  copied : Nat

def gatherBuffer (pFrame ulFrameSize : Nat) (s : ReadState) : Except ReadFault (Turn ReadState Result) := do
  let size := s.dev.usRxListSize
  if s.usTmpIdx = s.dev.usRxIdx then
    let dev ← releaseNext s.dev
    let (dev, _) ← releaseUntil s.usTmpIdx size dev s.pRxTd
    return .leave ⟨⟨.rxError, 0, dev, s.frame⟩, s.tmpUlFrameSize⟩
  else
    let s ← copyBuffer pFrame ulFrameSize s
    let td ← dscr s.dev s.pRxTd
    if td.eof then
      let (dev, _) ← releaseUntil s.usTmpIdx size s.dev s.pRxTd
      let status := if s.tmpUlFrameSize < td.len then GmacStatus.sizeTooSmall else .ok
      return .leave ⟨⟨status, td.len, dev, s.frame⟩, s.tmpUlFrameSize⟩
    else return .again { s with pRxTd := s.usTmpIdx }

def skipBuffer (s : ReadState) : Except ReadFault ReadState := do
  let _ ← dscr s.dev s.pRxTd
  return { s with dev := { s.dev.release s.pRxTd with usRxIdx := s.usTmpIdx }, pRxTd := s.usTmpIdx }

def readTurn (pFrame ulFrameSize : Nat) (s : ReadState) : Except ReadFault (Turn ReadState Result) := do
  let td ← dscr s.dev s.pRxTd
  if !td.owned then return .leave ⟨⟨.rxNoData, 0, s.dev, s.frame⟩, 0⟩
  else
    let s ← (if td.sof then startFrame pFrame s else .ok s)
    let s := { s with usTmpIdx := circInc s.usTmpIdx s.dev.usRxListSize }
    if s.cIsFrame then gatherBuffer pFrame ulFrameSize s
    else
      let s ← skipBuffer s
      return .again s

def gmacDevRead (dev : RxRing) (frame : Memory) (pFrame ulFrameSize : Nat) : Except ReadFault Result :=
  Loop.runChecked (readTurn pFrame ulFrameSize) .endless (dev.usRxListSize + 1)
    { dev, frame, pRxTd := dev.usRxIdx, usTmpIdx := dev.usRxIdx, pTmpFrame := 0, tmpUlFrameSize := 0, cIsFrame := false }

/-! ### Descriptors given back -/

/-- The ring after `released` descriptors were given back from the first on, and nothing else was done to it. -/
structure Released (dev₀ : RxRing) (released : Nat) (dev : RxRing) : Prop where
  start : dev₀.usRxIdx < dev₀.usRxListSize
  size : dev.usRxListSize = dev₀.usRxListSize
  idx : dev.usRxIdx = (dev₀.usRxIdx + released) % dev₀.usRxListSize
  given : ∀ i < released, (dev.pRxDscr ((dev₀.usRxIdx + i) % dev₀.usRxListSize)).owned = false
  kept : ∀ i, (dev.pRxDscr i).owned = true → (dev₀.pRxDscr i).owned = true

variable {dev₀ dev : RxRing} {released : Nat}

theorem Released.refl (hidx : dev₀.usRxIdx < dev₀.usRxListSize) : Released dev₀ 0 dev₀ where
  start := hidx
  size := rfl
  idx := (Nat.mod_eq_of_lt hidx).symm
  given := fun i hi => absurd hi (Nat.not_lt_zero i)
  kept := fun _ h => h

theorem Released.size_pos (h : Released dev₀ released dev) : 0 < dev₀.usRxListSize :=
  Nat.zero_lt_of_lt h.start

theorem Released.idx_lt (h : Released dev₀ released dev) : dev.usRxIdx < dev₀.usRxListSize := by
  rw [h.idx]
  exact Nat.mod_lt _ h.size_pos

theorem Released.releaseNext (h : Released dev₀ released dev) :
    releaseNext dev = .ok dev.releaseNext ∧ Released dev₀ (released + 1) dev.releaseNext := by
  refine ⟨if_pos (by rw [h.size]; exact h.idx_lt), h.start, h.size, ?_, ?_, ?_⟩
  · change circInc dev.usRxIdx dev.usRxListSize = _
    rw [h.idx, h.size, circInc_mod _ h.size_pos, Nat.add_assoc]
  · intro i hi
    change (Function.update dev.pRxDscr dev.usRxIdx _ _).owned = false
    by_cases heq : (dev₀.usRxIdx + i) % dev₀.usRxListSize = dev.usRxIdx
    · rw [heq, Function.update_self]
      exact RxDescriptor.owned_released _
    · rw [Function.update_of_ne heq]
      have hne : i ≠ released := by
        rintro rfl
        exact heq h.idx.symm
      exact h.given i (by omega)
  · intro i hi
    change (Function.update dev.pRxDscr dev.usRxIdx _ i).owned = true at hi
    by_cases heq : i = dev.usRxIdx
    · rw [heq, Function.update_self, RxDescriptor.owned_released] at hi
      cases hi
    · rw [Function.update_of_ne heq] at hi
      exact h.kept i hi

/-- Less than a turn ahead, `usRxIdx` is at a place only when that many descriptors have been given back. -/
theorem Released.idx_eq_iff (h : Released dev₀ released dev) (target : Nat) (hle : released ≤ target)
    (hlt : target < released + dev₀.usRxListSize) :
    dev.usRxIdx = (dev₀.usRxIdx + target) % dev₀.usRxListSize ↔ released = target := by
  rw [h.idx]
  constructor
  · intro heq
    have hsame := Ring.eq_of_mod_eq (Nat.le_refl _) (by omega) (by omega) (by omega) heq
    omega
  · rintro rfl
    rfl

theorem Released.releaseUntil (h : Released dev₀ released dev) (target fuel : Nat) (hle : released ≤ target)
    (hlt : target < released + dev₀.usRxListSize) (hfuel : target ≤ released + fuel) {pRxTd : Nat} (htd : pRxTd < dev₀.usRxListSize) :
    ∃ dev' pRxTd', releaseUntil ((dev₀.usRxIdx + target) % dev₀.usRxListSize) fuel dev pRxTd = .ok (dev', pRxTd') ∧
      Released dev₀ target dev' ∧ pRxTd' < dev₀.usRxListSize := by
  have hreached := h.idx_eq_iff target hle hlt
  induction fuel generalizing dev released pRxTd with
  | zero =>
      obtain rfl : released = target := by omega
      exact ⟨dev, pRxTd, if_pos (hreached.mpr rfl), h, htd⟩
  | succ fuel ih =>
      rw [Checked.releaseUntil]
      by_cases heq : released = target
      · subst heq
        rw [if_pos (hreached.mpr rfl)]
        exact ⟨dev, pRxTd, rfl, h, htd⟩
      · rw [if_neg (mt hreached.mp heq)]
        obtain ⟨hnext, hreleased⟩ := h.releaseNext
        obtain ⟨dev', pRxTd', hrun, h', htd'⟩ := ih hreleased (by omega) (by omega) (by omega) h.idx_lt
          (hreleased.idx_eq_iff target (by omega) (by omega))
        exact ⟨dev', pRxTd', by rw [hnext]; exact hrun, h', htd'⟩

/-! ### One call -/

/-- What holds whenever a call looks at the next descriptor, `walked` places after the first. -/
structure Walk (dev₀ : RxRing) (frame₀ : Memory) (pFrame cap : Nat) (s : ReadState) (walked released : Nat) :
    Prop where
  ring : Released dev₀ released s.dev
  released_le : released ≤ walked
  walked_lt : walked < released + dev₀.usRxListSize
  walked_le : walked ≤ dev₀.usRxListSize
  tmpIdx : s.usTmpIdx = (dev₀.usRxIdx + walked) % dev₀.usRxListSize
  td : s.pRxTd = s.usTmpIdx
  first : 0 < walked → (dev₀.pRxDscr dev₀.usRxIdx).owned = true
  outside : s.cIsFrame = false → released = walked
  inside : s.cIsFrame = true → s.pTmpFrame = pFrame + s.tmpUlFrameSize ∧ s.tmpUlFrameSize ≤ cap
  frame : ∀ i, i < pFrame ∨ pFrame + cap ≤ i → s.frame i = frame₀ i

/-- What holds when a turn has stepped over a descriptor of a frame and is about to copy its buffer. -/
structure Gather (dev₀ : RxRing) (frame₀ : Memory) (pFrame cap : Nat) (s : ReadState) (walked released : Nat) :
    Prop where
  ring : Released dev₀ released s.dev
  released_le : released ≤ walked
  walked_lt : walked < released + dev₀.usRxListSize
  walked_le : walked < dev₀.usRxListSize
  tmpIdx : s.usTmpIdx = (dev₀.usRxIdx + (walked + 1)) % dev₀.usRxListSize
  td : s.pRxTd < dev₀.usRxListSize
  first : (dev₀.pRxDscr dev₀.usRxIdx).owned = true
  isFrame : s.cIsFrame = true
  inside : s.pTmpFrame = pFrame + s.tmpUlFrameSize ∧ s.tmpUlFrameSize ≤ cap
  frame : ∀ i, i < pFrame ∨ pFrame + cap ≤ i → s.frame i = frame₀ i

/-- What a call may do: it gives descriptors back, at least one of them if it returns a frame, writes to the frame buffer only, and copies at least as many bytes as it reports. -/
structure Safe (dev₀ : RxRing) (frame₀ : Memory) (pFrame cap : Nat) (r : Result) : Prop where
  size : r.dev.usRxListSize = dev₀.usRxListSize
  idx_lt : r.dev.usRxIdx < dev₀.usRxListSize
  kept : ∀ i, (r.dev.pRxDscr i).owned = true → (dev₀.pRxDscr i).owned = true
  gives : r.status = .ok →
    (dev₀.pRxDscr dev₀.usRxIdx).owned = true ∧ (r.dev.pRxDscr dev₀.usRxIdx).owned = false
  rcvSize_le : r.status = .ok → r.rcvSize ≤ r.copied
  copied_le : r.copied ≤ cap
  frame : ∀ i, i < pFrame ∨ pFrame + cap ≤ i → r.frame i = frame₀ i

section Turn

variable {frame₀ : Memory} {pFrame cap : Nat} {s : ReadState} {walked : Nat}

theorem bufferLength_eq {cap tmp : Nat} (hcap : cap < 4294967296) (hle : tmp ≤ cap) :
    bufferLength cap tmp = if tmp + gmacRxUnitsize > cap then cap - tmp else gmacRxUnitsize := by
  unfold bufferLength
  split
  · rename_i hgt
    have hsub : (UInt32.ofNat cap - UInt32.ofNat tmp).toNat = cap - tmp := by
      rw [UInt32.toNat_sub, UInt32.toNat_ofNat_of_lt' hcap, UInt32.toNat_ofNat_of_lt' (by omega : tmp < 4294967296)]
      omega
    have hunit : gmacRxUnitsize = 128 := rfl
    rw [UInt32.toNat_toUInt16, hsub]
    change (cap - tmp) % 65536 = cap - tmp
    omega
  · rfl

theorem bufferLength_le {cap tmp : Nat} (hcap : cap < 4294967296) (hle : tmp ≤ cap) :
    tmp + bufferLength cap tmp ≤ cap := by
  rw [bufferLength_eq hcap hle]
  split <;> omega

theorem dscr_eq (h : Released dev₀ released dev) {i : Nat} (hi : i < dev₀.usRxListSize) :
    dscr dev i = .ok (dev.pRxDscr i) :=
  if_pos (by rw [h.size]; exact hi)

theorem Gather.copyBuffer (hcap : cap < 4294967296) (h : Gather dev₀ frame₀ pFrame cap s walked released) :
    ∃ s', copyBuffer pFrame cap s = .ok s' ∧ s'.dev = s.dev ∧ s'.usTmpIdx = s.usTmpIdx ∧
      Gather dev₀ frame₀ pFrame cap s' walked released := by
  obtain ⟨hptr, htmp⟩ := h.inside
  have hlen := bufferLength_le hcap htmp
  have hroom : pFrame ≤ s.pTmpFrame ∧ s.pTmpFrame + bufferLength cap s.tmpUlFrameSize ≤ pFrame + cap := by omega
  set len := bufferLength cap s.tmpUlFrameSize with hlength
  refine ⟨{ s with
    frame := s.frame.store s.pTmpFrame (s.dev.ram.load (s.dev.pRxDscr s.pRxTd).bufferAddr len)
    pTmpFrame := s.pTmpFrame + len
    tmpUlFrameSize := s.tmpUlFrameSize + len }, ?_, rfl, rfl, ?_⟩
  · simp only [Checked.copyBuffer, dscr_eq h.ring h.td, bind, Except.bind, ← hlength, if_pos hroom]
    rfl
  · refine { h with inside := ⟨?_, hlen⟩, frame := fun i hi => ?_ }
    · dsimp only
      omega
    · dsimp only
      rw [Memory.store_of_outside (by rw [Memory.load_length]; omega), h.frame i hi]

theorem Gather.full (h : Gather dev₀ frame₀ pFrame cap s walked released) (hturn : s.usTmpIdx = s.dev.usRxIdx) :
    ∃ r, gatherBuffer pFrame cap s = .ok (.leave r) ∧ Safe dev₀ frame₀ pFrame cap r := by
  have hle := h.released_le
  have hfull : walked + 1 = released + dev₀.usRxListSize := by
    by_contra hne
    have hlt := h.walked_lt
    have := (h.ring.idx_eq_iff (walked + 1) (by omega) (by omega)).mp (by rw [← hturn, h.tmpIdx])
    omega
  obtain ⟨hnext, hreleased⟩ := h.ring.releaseNext
  obtain ⟨dev', pRxTd', hrun, h', -⟩ := hreleased.releaseUntil (walked + 1) s.dev.usRxListSize
    (by omega) (by omega) (by rw [h.ring.size]; omega) h.td
  rw [← h.tmpIdx] at hrun
  refine ⟨⟨⟨.rxError, 0, dev', s.frame⟩, s.tmpUlFrameSize⟩, ?_, ?_⟩
  · simp only [Checked.gatherBuffer, if_pos hturn, hnext, hrun, bind, Except.bind]
    rfl
  · exact ⟨h'.size, h'.idx_lt, h'.kept, nofun, nofun, h.inside.2, h.frame⟩

theorem Gather.copied (hcap : cap < 4294967296) (h : Gather dev₀ frame₀ pFrame cap s walked released)
    (hbefore : walked + 1 < released + dev₀.usRxListSize) :
    (∃ s', gatherBuffer pFrame cap s = .ok (.again s') ∧ Walk dev₀ frame₀ pFrame cap s' (walked + 1) released) ∨
      ∃ r, gatherBuffer pFrame cap s = .ok (.leave r) ∧ Safe dev₀ frame₀ pFrame cap r := by
  have hle := h.released_le
  have hturn : s.usTmpIdx ≠ s.dev.usRxIdx := by
    intro heq
    have := (h.ring.idx_eq_iff (walked + 1) (by omega) hbefore).mp (by rw [← heq, h.tmpIdx])
    omega
  obtain ⟨s', hcopy, hdev, htmp, hg⟩ := h.copyBuffer hcap
  have hdscr := dscr_eq hg.ring hg.td
  by_cases heof : (s'.dev.pRxDscr s'.pRxTd).eof = true
  · right
    obtain ⟨dev', pRxTd', hrun, h', -⟩ := hg.ring.releaseUntil (walked + 1) s.dev.usRxListSize
      (by omega) (by omega) (by rw [h.ring.size]; omega) hg.td
    rw [← hg.tmpIdx] at hrun
    set len := (s'.dev.pRxDscr s'.pRxTd).len with hlen
    refine ⟨⟨⟨if s'.tmpUlFrameSize < len then .sizeTooSmall else .ok, len, dev', s'.frame⟩,
      s'.tmpUlFrameSize⟩, ?_, ?_⟩
    · simp only [Checked.gatherBuffer, if_neg hturn, hcopy, hdscr, if_pos heof, hrun, bind, Except.bind, ← hlen]
      rfl
    · have hgiven := h'.given 0 (by omega)
      have hfirst : (dev₀.usRxIdx + 0) % dev₀.usRxListSize = dev₀.usRxIdx := Nat.mod_eq_of_lt h.ring.start
      refine ⟨h'.size, h'.idx_lt, h'.kept, fun _ => ⟨hg.first, ?_⟩, ?_, hg.inside.2, hg.frame⟩
      · rwa [hfirst] at hgiven
      · intro hok
        dsimp only at hok ⊢
        by_contra hgt
        rw [if_pos (by omega)] at hok
        cases hok
  · left
    refine ⟨{ s' with pRxTd := s'.usTmpIdx }, ?_, ?_⟩
    · simp only [Checked.gatherBuffer, if_neg hturn, hcopy, hdscr, if_neg heof, bind, Except.bind]
      rfl
    · exact {
        ring := hg.ring
        released_le := by omega
        walked_lt := hbefore
        walked_le := h.walked_le
        tmpIdx := hg.tmpIdx
        td := rfl
        first := fun _ => h.first
        outside := fun hout => by rw [hg.isFrame] at hout; cases hout
        inside := fun _ => hg.inside
        frame := hg.frame }

theorem Gather.gatherBuffer (hcap : cap < 4294967296) (h : Gather dev₀ frame₀ pFrame cap s walked released) :
    (∃ s', gatherBuffer pFrame cap s = .ok (.again s') ∧ Walk dev₀ frame₀ pFrame cap s' (walked + 1) released) ∨
      ∃ r, gatherBuffer pFrame cap s = .ok (.leave r) ∧ Safe dev₀ frame₀ pFrame cap r := by
  have hlt := h.walked_lt
  by_cases hbefore : walked + 1 < released + dev₀.usRxListSize
  · exact h.copied hcap hbefore
  · have hwrap : walked + 1 = released + dev₀.usRxListSize := by omega
    exact .inr (h.full (by rw [h.tmpIdx, h.ring.idx, hwrap, ← Nat.add_assoc, Nat.add_mod_right]))

theorem Walk.td_lt (h : Walk dev₀ frame₀ pFrame cap s walked released) : s.pRxTd < dev₀.usRxListSize := by
  rw [h.td, h.tmpIdx]
  exact Nat.mod_lt _ h.ring.size_pos

/-- The walk does not pass the first descriptor again, for when it is back there that has been given back. -/
theorem Walk.walked_lt_size (h : Walk dev₀ frame₀ pFrame cap s walked released)
    (howned : (s.dev.pRxDscr s.pRxTd).owned = true) : walked < dev₀.usRxListSize := by
  by_contra hge
  have hwrap : walked = dev₀.usRxListSize := Nat.le_antisymm h.walked_le (Nat.le_of_not_lt hge)
  have hround : s.pRxTd = (dev₀.usRxIdx + 0) % dev₀.usRxListSize := by
    rw [h.td, h.tmpIdx, hwrap, Nat.add_zero, Nat.add_mod_right]
  have hgiven := h.ring.given 0 (by have := h.walked_lt; omega)
  rw [← hround, howned] at hgiven
  cases hgiven

theorem Walk.first_owned (h : Walk dev₀ frame₀ pFrame cap s walked released)
    (howned : (s.dev.pRxDscr s.pRxTd).owned = true) : (dev₀.pRxDscr dev₀.usRxIdx).owned = true := by
  rcases Nat.eq_zero_or_pos walked with hzero | hpos
  · have hidx : s.pRxTd = dev₀.usRxIdx := by
      rw [h.td, h.tmpIdx, hzero, Nat.add_zero, Nat.mod_eq_of_lt h.ring.start]
    rw [← hidx]
    exact h.ring.kept _ howned
  · exact h.first hpos

theorem Walk.next (h : Walk dev₀ frame₀ pFrame cap s walked released) :
    circInc s.usTmpIdx s.dev.usRxListSize = (dev₀.usRxIdx + (walked + 1)) % dev₀.usRxListSize := by
  rw [h.tmpIdx, h.ring.size, circInc_mod _ h.ring.size_pos, Nat.add_assoc]

theorem Walk.startFrame (h : Walk dev₀ frame₀ pFrame cap s walked released)
    (hlt : walked < dev₀.usRxListSize) (hfirst : (dev₀.pRxDscr dev₀.usRxIdx).owned = true) :
    ∃ s', startFrame pFrame s = .ok s' ∧ s'.dev.usRxListSize = dev₀.usRxListSize ∧
      Gather dev₀ frame₀ pFrame cap { s' with usTmpIdx := circInc s'.usTmpIdx s'.dev.usRxListSize } walked walked := by
  obtain ⟨dev', pRxTd', hrun, h', htd'⟩ := h.ring.releaseUntil walked s.dev.usRxListSize
    h.released_le h.walked_lt (by rw [h.ring.size]; omega) h.td_lt
  rw [← h.tmpIdx] at hrun
  refine ⟨{ s with dev := dev', pRxTd := pRxTd', pTmpFrame := pFrame, tmpUlFrameSize := 0, cIsFrame := true },
    ?_, h'.size, ?_⟩
  · simp only [Checked.startFrame, hrun, bind, Except.bind]
    rfl
  · exact {
      ring := h'
      released_le := Nat.le_refl _
      walked_lt := by omega
      walked_le := hlt
      tmpIdx := by
        dsimp only
        rw [h.tmpIdx, h'.size, circInc_mod _ h.ring.size_pos, Nat.add_assoc]
      td := htd'
      first := hfirst
      isFrame := rfl
      inside := ⟨rfl, Nat.zero_le _⟩
      frame := h.frame }

theorem Walk.skipBuffer (h : Walk dev₀ frame₀ pFrame cap s walked released) (hframe : s.cIsFrame = false)
    (howned : (s.dev.pRxDscr s.pRxTd).owned = true) :
    ∃ s', skipBuffer { s with usTmpIdx := circInc s.usTmpIdx s.dev.usRxListSize } = .ok s' ∧
      Walk dev₀ frame₀ pFrame cap s' (walked + 1) (walked + 1) := by
  obtain rfl := h.outside hframe
  have hidx : s.pRxTd = s.dev.usRxIdx := by rw [h.td, h.tmpIdx, h.ring.idx]
  have hreleased := h.ring.releaseNext.2
  have hdev : { s.dev.release s.pRxTd with usRxIdx := circInc s.usTmpIdx s.dev.usRxListSize } =
      s.dev.releaseNext := by
    rw [hidx, ← h.td, hidx]
    rfl
  refine ⟨{ s with usTmpIdx := circInc s.usTmpIdx s.dev.usRxListSize
                   dev := s.dev.releaseNext
                   pRxTd := circInc s.usTmpIdx s.dev.usRxListSize }, ?_, ?_⟩
  · rw [← hdev]
    simp only [Checked.skipBuffer, dscr_eq h.ring h.td_lt, bind, Except.bind]
    rfl
  · exact {
      ring := hreleased
      released_le := Nat.le_refl _
      walked_lt := by have := h.ring.size_pos; omega
      walked_le := h.walked_lt_size howned
      tmpIdx := h.next
      td := rfl
      first := fun _ => h.first_owned howned
      outside := fun _ => rfl
      inside := fun hin => by rw [hframe] at hin; cases hin
      frame := h.frame }

/-- A turn goes on one descriptor further, or leaves safely. -/
theorem Walk.turn (hcap : cap < 4294967296) (h : Walk dev₀ frame₀ pFrame cap s walked released) :
    (∃ s' released', readTurn pFrame cap s = .ok (.again s') ∧
      Walk dev₀ frame₀ pFrame cap s' (walked + 1) released') ∨
      ∃ r, readTurn pFrame cap s = .ok (.leave r) ∧ Safe dev₀ frame₀ pFrame cap r := by
  have hdscr := dscr_eq h.ring h.td_lt
  by_cases howned : (s.dev.pRxDscr s.pRxTd).owned = true
  swap
  · right
    refine ⟨⟨⟨.rxNoData, 0, s.dev, s.frame⟩, 0⟩, ?_, h.ring.size, h.ring.idx_lt, h.ring.kept, nofun, nofun,
      Nat.zero_le _, h.frame⟩
    simp only [readTurn, hdscr, howned, bind, Except.bind]
    rfl
  have hlt := h.walked_lt_size howned
  have hfirst := h.first_owned howned
  cases hsof : (s.dev.pRxDscr s.pRxTd).sof with
  | true =>
      obtain ⟨s', hstart, hsize, hg⟩ := h.startFrame hlt hfirst
      have hturn : readTurn pFrame cap s =
          gatherBuffer pFrame cap { s' with usTmpIdx := circInc s'.usTmpIdx s'.dev.usRxListSize } := by
        have hframe : s'.cIsFrame = true := hg.isFrame
        simp only [readTurn, hdscr, howned, hsof, hstart, hframe, bind, Except.bind, Bool.not_true,
          Bool.false_eq_true, if_false, if_true]
      rw [hturn]
      rcases hg.gatherBuffer hcap with ⟨s'', hagain, hw⟩ | hleave
      · exact .inl ⟨s'', walked, hagain, hw⟩
      · exact .inr hleave
  | false =>
      cases hframe : s.cIsFrame with
      | true =>
          have hg : Gather dev₀ frame₀ pFrame cap
              { s with usTmpIdx := circInc s.usTmpIdx s.dev.usRxListSize } walked released :=
            { h with walked_le := hlt, tmpIdx := h.next, td := h.td_lt, first := hfirst, isFrame := hframe
                     inside := h.inside hframe }
          have hturn : readTurn pFrame cap s =
              gatherBuffer pFrame cap { s with usTmpIdx := circInc s.usTmpIdx s.dev.usRxListSize } := by
            simp only [readTurn, hdscr, howned, hsof, hframe, bind, Except.bind, pure, Except.pure, Bool.not_true,
              Bool.false_eq_true, if_false, if_true]
          rw [hturn]
          rcases hg.gatherBuffer hcap with ⟨s'', hagain, hw⟩ | hleave
          · exact .inl ⟨s'', released, hagain, hw⟩
          · exact .inr hleave
      | false =>
          obtain ⟨s', hskip, hw⟩ := h.skipBuffer hframe howned
          refine .inl ⟨s', walked + 1, ?_, hw⟩
          simp only [hframe] at hskip
          simp only [readTurn, hdscr, howned, hsof, hframe, hskip, bind, Except.bind, pure, Except.pure, Bool.not_true,
            Bool.false_eq_true, if_false]

theorem Walk.init (hidx : dev₀.usRxIdx < dev₀.usRxListSize) :
    Walk dev₀ frame₀ pFrame cap
      { dev := dev₀, frame := frame₀, pRxTd := dev₀.usRxIdx, usTmpIdx := dev₀.usRxIdx, pTmpFrame := 0
        tmpUlFrameSize := 0, cIsFrame := false } 0 0 where
  ring := .refl hidx
  released_le := Nat.le_refl 0
  walked_lt := by omega
  walked_le := Nat.zero_le _
  tmpIdx := (Nat.mod_eq_of_lt hidx).symm
  td := rfl
  first := fun h => absurd h (Nat.lt_irrefl 0)
  outside := fun _ => rfl
  inside := fun h => by cases h
  frame := fun _ _ => rfl

/-- **Any ring can be read from.** -/
theorem gmacDevRead_safe (hcap : cap < 4294967296) (hidx : dev₀.usRxIdx < dev₀.usRxListSize) :
    ∃ r, gmacDevRead dev₀ frame₀ pFrame cap = .ok r ∧ Safe dev₀ frame₀ pFrame cap r := by
  refine Loop.runChecked_of_variant ReadFault.endless
    (fun s k => ∃ walked released, Walk dev₀ frame₀ pFrame cap s walked released ∧ k + walked = dev₀.usRxListSize)
    (Safe dev₀ frame₀ pFrame cap) ?_ (k := dev₀.usRxListSize) ?_ (Nat.lt_succ_self _)
  · rintro s k ⟨walked, released, hw, hk⟩
    rcases hw.turn hcap with ⟨s', released', hagain, hw'⟩ | hleave
    · have hle := hw'.walked_le
      exact .inl ⟨s', k - 1, hagain, ⟨walked + 1, released', hw', by omega⟩, by omega⟩
    · exact .inr hleave
  · exact ⟨0, 0, .init hidx, rfl⟩

end Turn

/-! ### The unchecked reader

A call without a fault does what `gmacDevRead` says. -/

theorem bind_eq_ok {α β : Type} {x : Except ReadFault α} {f : α → Except ReadFault β} {b : β} :
    (x >>= f) = .ok b ↔ ∃ a, x = .ok a ∧ f a = .ok b := by
  cases x with
  | error e => simp [bind, Except.bind]
  | ok a => simp [bind, Except.bind]

/-- The turn without the count of the bytes copied. -/
def plain : Turn ReadState Result → Turn ReadState ReadResult
  | .again s => .again s
  | .leave r => .leave r.toReadResult

theorem eq_of_dscr {i : Nat} {td : RxDescriptor} (h : dscr dev i = .ok td) : td = dev.pRxDscr i := by
  unfold dscr at h
  split at h
  · exact (Except.ok.inj h).symm
  · cases h

theorem eq_of_releaseNext {dev' : RxRing} (h : Checked.releaseNext dev = .ok dev') : dev' = dev.releaseNext := by
  unfold Checked.releaseNext at h
  split at h
  · exact (Except.ok.inj h).symm
  · cases h

theorem eq_of_releaseUntil {target fuel pRxTd : Nat} {r : RxRing × Nat}
    (h : Checked.releaseUntil target fuel dev pRxTd = .ok r) : dev.releaseUntil target fuel pRxTd = r := by
  induction fuel generalizing dev pRxTd with
  | zero =>
      rw [Checked.releaseUntil] at h
      split at h
      · exact Except.ok.inj h
      · cases h
  | succ fuel ih =>
      rw [Checked.releaseUntil] at h
      rw [RxRing.releaseUntil]
      split at h
      · rename_i heq
        rw [if_pos heq]
        exact Except.ok.inj h
      · rename_i hne
        obtain ⟨dev', hnext, hrest⟩ := bind_eq_ok.mp h
        rw [if_neg hne, ← eq_of_releaseNext hnext]
        exact ih hrest

variable {pFrame cap : Nat} {s : ReadState}

theorem eq_of_startFrame {s' : ReadState} (h : startFrame pFrame s = .ok s') :
    ContikiAtsam.startFrame pFrame s = s' := by
  obtain ⟨⟨dev', pRxTd'⟩, hrun, hret⟩ := bind_eq_ok.mp h
  rw [ContikiAtsam.startFrame, eq_of_releaseUntil hrun]
  exact Except.ok.inj hret

theorem eq_of_copyBuffer {s' : ReadState} (hcap : cap < 4294967296) (htmp : s.tmpUlFrameSize ≤ cap)
    (h : copyBuffer pFrame cap s = .ok s') : ContikiAtsam.copyBuffer cap s = s' := by
  obtain ⟨td, hdscr, hret⟩ := bind_eq_ok.mp h
  obtain rfl := eq_of_dscr hdscr
  split at hret
  · rw [ContikiAtsam.copyBuffer, ← bufferLength_eq hcap htmp]
    exact Except.ok.inj hret
  · cases hret

theorem eq_of_gatherBuffer {t : Turn ReadState Result} (hcap : cap < 4294967296) (htmp : s.tmpUlFrameSize ≤ cap)
    (h : gatherBuffer pFrame cap s = .ok t) : ContikiAtsam.gatherBuffer cap s = plain t := by
  unfold Checked.gatherBuffer at h
  unfold ContikiAtsam.gatherBuffer
  dsimp only at h ⊢
  split at h
  · rename_i hturn
    obtain ⟨dev', hnext, h⟩ := bind_eq_ok.mp h
    obtain ⟨⟨dev'', pRxTd'⟩, hrun, hret⟩ := bind_eq_ok.mp h
    rw [if_pos hturn, ← eq_of_releaseNext hnext, eq_of_releaseUntil hrun]
    obtain rfl := Except.ok.inj hret
    rfl
  · rename_i hturn
    obtain ⟨s', hcopy, h⟩ := bind_eq_ok.mp h
    obtain ⟨td, hdscr, h⟩ := bind_eq_ok.mp h
    obtain rfl := eq_of_dscr hdscr
    rw [if_neg hturn, eq_of_copyBuffer hcap htmp hcopy]
    split at h
    · rename_i heof
      obtain ⟨⟨dev'', pRxTd'⟩, hrun, hret⟩ := bind_eq_ok.mp h
      rw [if_pos heof, eq_of_releaseUntil hrun]
      obtain rfl := Except.ok.inj hret
      rfl
    · rename_i heof
      rw [if_neg heof]
      obtain rfl := Except.ok.inj h
      rfl

theorem eq_of_readTurn {t : Turn ReadState Result} (hcap : cap < 4294967296)
    (htmp : s.cIsFrame = true → s.tmpUlFrameSize ≤ cap) (h : readTurn pFrame cap s = .ok t) :
    ContikiAtsam.readTurn pFrame cap s = plain t := by
  obtain ⟨td, hdscr, h⟩ := bind_eq_ok.mp h
  obtain rfl := eq_of_dscr hdscr
  unfold ContikiAtsam.readTurn
  dsimp only
  split at h
  · rename_i howned
    rw [if_pos howned]
    obtain rfl := Except.ok.inj h
    rfl
  · rename_i howned
    rw [if_neg howned]
    obtain ⟨s', hs', h⟩ := bind_eq_ok.mp h
    have hstarted : (if (s.dev.pRxDscr s.pRxTd).sof then ContikiAtsam.startFrame pFrame s else s) = s' ∧
        (s'.cIsFrame = true → s'.tmpUlFrameSize ≤ cap) := by
      split at hs'
      · rename_i hsof
        have heq := eq_of_startFrame hs'
        rw [if_pos hsof]
        refine ⟨heq, fun _ => ?_⟩
        rw [← heq]
        exact Nat.zero_le _
      · rename_i hsof
        obtain rfl := Except.ok.inj hs'
        exact ⟨if_neg hsof, htmp⟩
    rw [hstarted.1]
    dsimp only at h
    split at h
    · rename_i hframe
      rw [if_pos hframe]
      exact eq_of_gatherBuffer hcap (hstarted.2 hframe) h
    · rename_i hframe
      obtain ⟨s'', hskip, hret⟩ := bind_eq_ok.mp h
      obtain ⟨_, _, hskip⟩ := bind_eq_ok.mp hskip
      rw [if_neg hframe]
      obtain rfl := Except.ok.inj hskip
      obtain rfl := Except.ok.inj hret
      rfl

/-- **A call without a fault is a call of `gmacDevRead`.** -/
theorem eq_of_gmacDevRead {r : Result} {frame : Memory} (hcap : cap < 4294967296)
    (hidx : dev.usRxIdx < dev.usRxListSize) (h : gmacDevRead dev frame pFrame cap = .ok r) :
    ContikiAtsam.gmacDevRead dev frame pFrame cap = some r.toReadResult := by
  have hloop : ∀ (fuel : Nat) {s : ReadState} {walked released : Nat},
      Walk dev frame pFrame cap s walked released →
      Loop.runChecked (readTurn pFrame cap) .endless fuel s = .ok r →
      Loop.run (ContikiAtsam.readTurn pFrame cap) fuel s = some r.toReadResult := by
    intro fuel
    induction fuel with
    | zero => intro s walked released _ h; cases h
    | succ fuel ih =>
        intro s walked released hw h
        have hturn : ∀ t, readTurn pFrame cap s = .ok t → ContikiAtsam.readTurn pFrame cap s = plain t :=
          fun t => eq_of_readTurn hcap fun hframe => (hw.inside hframe).2
        rw [Loop.runChecked] at h
        rcases hw.turn hcap with ⟨s', released', hagain, hw'⟩ | ⟨r', hleave, _⟩
        · rw [hagain] at h
          rw [Loop.run_again (hturn _ hagain)]
          exact ih hw' h
        · rw [hleave] at h
          obtain rfl := Except.ok.inj h
          exact Loop.run_leave (hturn _ hleave) fuel
  exact hloop _ (.init hidx) h

end Checked

end ContikiAtsam
