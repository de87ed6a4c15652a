import ContikiAtsam.Base.Bits
import ContikiAtsam.Gmac.Read

/-!
# Frames arriving in the receive ring

The other side of the receive ring: the controller stores an arriving frame buffer by buffer, each in the descriptor that its queue pointer is at, as long as this one is not owned by the software. It marks the first and the last buffer, notes the length in the last one, and goes back to the first descriptor behind the one with the wrap bit. So the software may read while a frame is only partly there.
-/

namespace ContikiAtsam

/-- The controller's receiver: the ring, the descriptor that the queue pointer is at, and the frame that is arriving, with the number of its buffers that are stored. -/
structure Receiver where
  dev : RxRing
  queue : Nat
  arriving : Option (List UInt8 × Nat)

/-- The status word of a stored buffer. -/
def rxStatus (first last : Bool) (len : Nat) : UInt32 :=
  (if first then gmacRxdSof else 0) ||| (if last then gmacRxdEof ||| UInt32.ofNat len else 0)

namespace RxRing

/-- Bytes stored in the buffer of a descriptor, which then belongs to the software. -/
def fill (dev : RxRing) (i : Nat) (bytes : List UInt8) (status : UInt32) : RxRing :=
  { dev with
    ram := dev.ram.store (dev.pRxDscr i).bufferAddr bytes
    pRxDscr := Function.update dev.pRxDscr i ⟨(dev.pRxDscr i).addr ||| gmacRxdOwnership, status⟩ }

/-- `gmac_dev_rx_buf_used`. -/
def bufUsed (dev : RxRing) : Nat :=
  (List.range dev.usRxListSize).foldl (fun used i => if (dev.pRxDscr i).owned then used + 1 else used) 0

end RxRing

namespace Receiver

/-- The next buffer of the arriving frame is stored, if there is one to store and a descriptor for it. -/
def store (r : Receiver) : Receiver :=
  match r.arriving with
  | none => r
  | some (frame, k) =>
    let d := r.dev.pRxDscr r.queue
    if d.owned then r
    else
      let last := decide (frame.length ≤ gmacRxUnitsize * (k + 1))
      { dev := r.dev.fill r.queue ((frame.drop (gmacRxUnitsize * k)).take gmacRxUnitsize)
          (rxStatus (k == 0) last frame.length)
        queue := if d.addr &&& gmacRxdWrap = 0 then r.queue + 1 else 0
        arriving := if last then none else some (frame, k + 1) }

end Receiver

/-! ### Descriptor words -/

section Words

variable {first last : Bool} {len : Nat}

theorem and_lenMask (hlen : len < 4096) : UInt32.ofNat len &&& gmacRxdLenMask = UInt32.ofNat len := by
  rw [← UInt32.toNat_inj, UInt32.toNat_and, UInt32.toNat_ofNat']
  change len % 4294967296 &&& 4095 = len % 4294967296
  rw [Nat.mod_eq_of_lt (by omega)]
  exact (Nat.and_two_pow_sub_one_eq_mod len 12).trans (Nat.mod_eq_of_lt hlen)

theorem and_mask_len {mask : UInt32} (hlen : len < 4096) (hmask : gmacRxdLenMask &&& mask = 0) :
    UInt32.ofNat len &&& mask = 0 := by
  rw [← and_lenMask hlen, UInt32.and_assoc, hmask, UInt32.and_zero]

theorem rxStatus_and {mask : UInt32} (hlen : len < 4096) (hmask : gmacRxdLenMask &&& mask = 0) :
    rxStatus first last len &&& mask =
      (if first then gmacRxdSof &&& mask else 0) ||| (if last then gmacRxdEof &&& mask else 0) := by
  rw [rxStatus, Bits.or_and]
  cases first <;> cases last <;> simp [Bits.or_and, and_mask_len hlen hmask]

theorem sof_rxStatus (hlen : len < 4096) (addr : UInt32) : (RxDescriptor.mk addr (rxStatus first last len)).sof = first := by
  rw [RxDescriptor.sof, rxStatus_and hlen (by decide)]
  cases first <;> cases last <;> decide

theorem eof_rxStatus (hlen : len < 4096) (addr : UInt32) : (RxDescriptor.mk addr (rxStatus first last len)).eof = last := by
  rw [RxDescriptor.eof, rxStatus_and hlen (by decide)]
  cases first <;> cases last <;> decide

theorem len_rxStatus (hlen : len < 4096) (addr : UInt32) :
    (RxDescriptor.mk addr (rxStatus first true len)).len = len := by
  have hrest : (if first then gmacRxdSof else 0) &&& gmacRxdLenMask = 0 := by cases first <;> decide
  have heof : gmacRxdEof &&& gmacRxdLenMask = 0 := by decide
  rw [RxDescriptor.len, rxStatus, Bits.or_and, hrest, if_pos rfl, Bits.or_and, heof, and_lenMask hlen, UInt32.zero_or, UInt32.zero_or,
    UInt32.toNat_ofNat']
  exact Nat.mod_eq_of_lt (by omega)

/-- Two address words that differ at most in their owner. -/
def SameAddr (a b : UInt32) : Prop := a ||| gmacRxdOwnership = b ||| gmacRxdOwnership

theorem SameAddr.and_eq {a b mask : UInt32} (h : SameAddr a b) (hmask : gmacRxdOwnership &&& mask = 0) :
    a &&& mask = b &&& mask := by
  have hand := congrArg (· &&& mask) h
  simpa only [Bits.or_and, hmask, UInt32.or_zero] using hand

theorem sameAddr_released (d : RxDescriptor) : SameAddr d.released.addr d.addr := by
  rw [SameAddr, RxDescriptor.released, ← UInt32.toBitVec_inj]
  simp only [UInt32.toBitVec_or, UInt32.toBitVec_and, UInt32.toBitVec_not]
  ext i hi
  simp only [BitVec.getElem_or, BitVec.getElem_and, BitVec.getElem_not]
  cases gmacRxdOwnership.toBitVec[i] <;> simp

theorem sameAddr_owned (a : UInt32) : SameAddr (a ||| gmacRxdOwnership) a := by
  rw [SameAddr, UInt32.or_assoc, UInt32.or_self]

theorem owned_or (a status : UInt32) : (RxDescriptor.mk (a ||| gmacRxdOwnership) status).owned = true := by
  have hbit : (a ||| gmacRxdOwnership) &&& gmacRxdOwnership = gmacRxdOwnership := by
    rw [← UInt32.toBitVec_inj, UInt32.toBitVec_and, UInt32.toBitVec_or]
    ext i hi
    simp only [BitVec.getElem_and, BitVec.getElem_or]
    cases gmacRxdOwnership.toBitVec[i] <;> simp
  rw [RxDescriptor.owned, hbit]
  decide

theorem and_addrMask {a : UInt32} (h : a.toNat % 4 = 0) : a &&& gmacRxdAddrMask = a := by
  have hlow : a &&& 3 = 0 := by
    rw [← UInt32.toNat_inj, UInt32.toNat_and]
    exact (Nat.and_two_pow_sub_one_eq_mod a.toNat 2).trans h
  have hbits := congrArg UInt32.toBitVec hlow
  rw [show gmacRxdAddrMask = ~~~ 3 by decide, ← UInt32.toBitVec_inj, UInt32.toBitVec_and, UInt32.toBitVec_not]
  rw [UInt32.toBitVec_and] at hbits
  ext i hi
  have hbit := congrArg (·[i]) hbits
  simp only [BitVec.getElem_and, BitVec.getElem_not] at hbit ⊢
  cases ha : a.toBitVec[i] <;> simp_all

end Words

/-! ### The addresses stay -/

namespace RxRing

/-- The same buffers behind the same descriptors, as far as the address words say. -/
structure SameAddrs (dev dev' : RxRing) : Prop where
  size : dev'.usRxListSize = dev.usRxListSize
  addr : ∀ i, SameAddr (dev'.pRxDscr i).addr (dev.pRxDscr i).addr

theorem SameAddrs.refl (dev : RxRing) : SameAddrs dev dev := ⟨rfl, fun _ => rfl⟩

theorem SameAddrs.trans {dev dev' dev'' : RxRing} (h : SameAddrs dev dev') (h' : SameAddrs dev' dev'') :
    SameAddrs dev dev'' :=
  ⟨h'.size.trans h.size, fun i => (h'.addr i).trans (h.addr i)⟩

theorem sameAddrs_release (dev : RxRing) (i : Nat) : SameAddrs dev (dev.release i) := by
  refine ⟨rfl, fun j => ?_⟩
  change SameAddr (Function.update dev.pRxDscr i _ j).addr _
  by_cases hj : j = i
  · subst hj
    rw [Function.update_self]
    exact sameAddr_released _
  · rw [Function.update_of_ne hj]
    rfl

theorem sameAddrs_releaseNext (dev : RxRing) : SameAddrs dev dev.releaseNext :=
  ⟨rfl, (sameAddrs_release dev dev.usRxIdx).addr⟩

theorem sameAddrs_releaseUntil (target fuel : Nat) (dev : RxRing) (pRxTd : Nat) :
    SameAddrs dev (dev.releaseUntil target fuel pRxTd).1 := by
  induction fuel generalizing dev pRxTd with
  | zero => exact .refl dev
  | succ fuel ih =>
      rw [releaseUntil]
      split
      · exact .refl dev
      · exact (sameAddrs_releaseNext dev).trans (ih _ _)

theorem sameAddrs_fill (dev : RxRing) (i : Nat) (bytes : List UInt8) (status : UInt32) :
    SameAddrs dev (dev.fill i bytes status) := by
  refine ⟨rfl, fun j => ?_⟩
  change SameAddr (Function.update dev.pRxDscr i _ j).addr _
  by_cases hj : j = i
  · subst hj
    rw [Function.update_self]
    exact sameAddr_owned _
  · rw [Function.update_of_ne hj]
    rfl

end RxRing

theorem sameAddrs_startFrame (pFrame : Nat) (s : ReadState) : RxRing.SameAddrs s.dev (startFrame pFrame s).dev :=
  RxRing.sameAddrs_releaseUntil ..

/-- Where a turn of the reader ends, the addresses are as they were in `dev`. -/
def EndsAt (dev : RxRing) : Turn ReadState ReadResult → Prop
  | .again s => RxRing.SameAddrs dev s.dev
  | .leave r => RxRing.SameAddrs dev r.dev

theorem endsAt_gatherBuffer {ulFrameSize : Nat} {dev : RxRing} {s : ReadState} (h : RxRing.SameAddrs dev s.dev) :
    EndsAt dev (gatherBuffer ulFrameSize s) := by
  have hcopied : (copyBuffer ulFrameSize s).dev = s.dev := rfl
  unfold gatherBuffer
  dsimp only
  split
  · exact (h.trans (RxRing.sameAddrs_releaseNext _)).trans (RxRing.sameAddrs_releaseUntil ..)
  · split
    · exact h.trans (hcopied ▸ RxRing.sameAddrs_releaseUntil ..)
    · exact h

theorem endsAt_readTurn {pFrame ulFrameSize : Nat} {dev : RxRing} {s : ReadState} (h : RxRing.SameAddrs dev s.dev) :
    EndsAt dev (readTurn pFrame ulFrameSize s) := by
  unfold readTurn
  dsimp only
  split
  · exact h
  · have hstarted : RxRing.SameAddrs dev (if (s.dev.pRxDscr s.pRxTd).sof = true then startFrame pFrame s else s).dev := by
      split
      · exact h.trans (sameAddrs_startFrame pFrame s)
      · exact h
    generalize (if (s.dev.pRxDscr s.pRxTd).sof = true then startFrame pFrame s else s) = s₁ at hstarted ⊢
    split
    · exact endsAt_gatherBuffer hstarted
    · exact hstarted.trans ⟨rfl, (RxRing.sameAddrs_release s₁.dev s₁.pRxTd).addr⟩

theorem sameAddrs_gmacDevRead {dev : RxRing} {frame : Memory} {pFrame ulFrameSize : Nat} {r : ReadResult}
    (hread : gmacDevRead dev frame pFrame ulFrameSize = some r) : RxRing.SameAddrs dev r.dev := by
  apply Loop.run_of_invariant (RxRing.SameAddrs dev ·.dev) (RxRing.SameAddrs dev ·.dev) _ _ _ hread
  · intro s s' h hturn
    have hends : EndsAt dev (readTurn pFrame ulFrameSize s) := endsAt_readTurn h
    rwa [hturn] at hends
  · intro s r h hturn
    have hends : EndsAt dev (readTurn pFrame ulFrameSize s) := endsAt_readTurn h
    rwa [hturn] at hends
  · exact .refl dev

/-! ### Where the buffers lie -/

namespace RxRing

/-- The buffers lie one after the other from `base` on, and the last descriptor wraps around. -/
structure Laid (dev : RxRing) (base : Nat) : Prop where
  addr : ∀ i < dev.usRxListSize, (dev.pRxDscr i).bufferAddr = base + gmacRxUnitsize * i
  wrap : ∀ i < dev.usRxListSize, (dev.pRxDscr i).addr &&& gmacRxdWrap = 0 ↔ i + 1 ≠ dev.usRxListSize

variable {dev dev' : RxRing} {base : Nat} {bufs : List Buf}

theorem Laid.same (h : Laid dev base) (hsame : SameAddrs dev dev') : Laid dev' base := by
  constructor
  · intro i hi
    rw [RxDescriptor.bufferAddr, (hsame.addr i).and_eq (by decide)]
    exact h.addr i (hsame.size ▸ hi)
  · intro i hi
    rw [(hsame.addr i).and_eq (by decide), hsame.size]
    exact h.wrap i (hsame.size ▸ hi)

theorem Laid.next (h : Laid dev base) {i : Nat} (hi : i < dev.usRxListSize) :
    (if (dev.pRxDscr i).addr &&& gmacRxdWrap = 0 then i + 1 else 0) = (i + 1) % dev.usRxListSize := by
  by_cases hlast : i + 1 = dev.usRxListSize
  · rw [if_neg (mt (h.wrap i hi).mp (not_not.mpr hlast)), hlast, Nat.mod_self]
  · rw [if_pos ((h.wrap i hi).mpr hlast), Nat.mod_eq_of_lt (by omega)]

theorem laid_resetMem (dev : RxRing) {pRxBuff : UInt32} (halign : pRxBuff.toNat % 8 = 0)
    (hend : pRxBuff.toNat + gmacRxUnitsize * dev.usRxListSize ≤ 4294967296) : Laid (dev.resetMem pRxBuff) pRxBuff.toNat := by
  have hplace : ∀ i < dev.usRxListSize,
      (pRxBuff + UInt32.ofNat (i * gmacRxUnitsize)).toNat = pRxBuff.toNat + gmacRxUnitsize * i := by
    intro i hi
    rw [gmacRxUnitsize] at hend ⊢
    rw [UInt32.toNat_add, UInt32.toNat_ofNat', Nat.mul_comm i]
    change (pRxBuff.toNat + 128 * i % 4294967296) % 4294967296 = _
    omega
  have haligned : ∀ i < dev.usRxListSize,
      (pRxBuff + UInt32.ofNat (i * gmacRxUnitsize)) &&& gmacRxdAddrMask = pRxBuff + UInt32.ofNat (i * gmacRxUnitsize) := by
    intro i hi
    apply and_addrMask
    rw [hplace i hi, gmacRxUnitsize]
    omega
  constructor
  · intro i hi
    change i < dev.usRxListSize at hi
    have haddr : ((dev.resetMem pRxBuff).pRxDscr i).addr &&& gmacRxdAddrMask = pRxBuff + UInt32.ofNat (i * gmacRxUnitsize) := by
      simp only [resetMem, if_pos hi]
      split
      · rw [Bits.or_and, UInt32.and_assoc, UInt32.and_self, haligned i hi, show gmacRxdWrap &&& gmacRxdAddrMask = 0 by decide,
          UInt32.or_zero]
      · rw [UInt32.and_assoc, UInt32.and_self, haligned i hi]
    rw [RxDescriptor.bufferAddr, haddr, hplace i hi]
  · intro i hi
    change i < dev.usRxListSize at hi
    change ((dev.resetMem pRxBuff).pRxDscr i).addr &&& gmacRxdWrap = 0 ↔ i + 1 ≠ dev.usRxListSize
    simp only [resetMem, if_pos hi]
    have hmask : gmacRxdAddrMask &&& gmacRxdWrap = 0 := by decide
    by_cases hlast : i + 1 = dev.usRxListSize
    · rw [if_pos hlast, Bits.or_and, UInt32.and_assoc, hmask, UInt32.and_zero, UInt32.zero_or, UInt32.and_self]
      exact iff_of_false (by decide) (not_not.mpr hlast)
    · rw [if_neg hlast, UInt32.and_assoc, hmask, UInt32.and_zero]
      exact iff_of_true rfl hlast

theorem shows_resetMem (dev : RxRing) (pRxBuff : UInt32) (htwo : 2 ≤ dev.usRxListSize) : (dev.resetMem pRxBuff).Shows [] := by
  refine ⟨htwo, Nat.zero_lt_of_lt htwo, Nat.zero_le _, fun i hi => absurd hi (Nat.not_lt_zero i), fun i _ hi => ?_⟩
  change i < dev.usRxListSize at hi
  change ((dev.resetMem pRxBuff).pRxDscr ((0 + i) % dev.usRxListSize)).owned = false
  rw [Nat.zero_add, Nat.mod_eq_of_lt hi, RxDescriptor.owned]
  have hmask : gmacRxdAddrMask &&& gmacRxdOwnership = 0 := by decide
  have hwrap : gmacRxdWrap &&& gmacRxdOwnership = 0 := by decide
  simp only [resetMem, if_pos hi]
  split
  · rw [Bits.or_and, UInt32.and_assoc, hmask, hwrap, UInt32.and_zero, UInt32.zero_or]
    decide
  · rw [UInt32.and_assoc, hmask, UInt32.and_zero]
    decide

/-! ### Storing a buffer -/

/-- **A stored buffer** is one more behind those that the software owns. -/
theorem Shows.fill (h : Shows dev bufs) (hlaid : Laid dev base) (hroom : bufs.length < dev.usRxListSize) {i : Nat}
    (hi : i = (dev.usRxIdx + bufs.length) % dev.usRxListSize) {bytes : List UInt8} (hlen : bytes.length ≤ gmacRxUnitsize)
    (status : UInt32) :
    Shows (dev.fill i bytes status) (bufs ++ [((dev.fill i bytes status).pRxDscr i).buf (dev.fill i bytes status).ram]) := by
  have hlt : i < dev.usRxListSize := hi ▸ Nat.mod_lt _ (Nat.zero_lt_of_lt h.idx_lt)
  have hself : (dev.fill i bytes status).pRxDscr i = ⟨(dev.pRxDscr i).addr ||| gmacRxdOwnership, status⟩ :=
    Function.update_self ..
  -- the other descriptors and their buffers
  have hothers : ∀ j < dev.usRxListSize, j ≠ i → (dev.fill i bytes status).pRxDscr j = dev.pRxDscr j ∧
      ((dev.fill i bytes status).pRxDscr j).buf (dev.fill i bytes status).ram = (dev.pRxDscr j).buf dev.ram := by
    intro j hj hne
    have hdscr : (dev.fill i bytes status).pRxDscr j = dev.pRxDscr j := Function.update_of_ne hne ..
    refine ⟨hdscr, ?_⟩
    rw [hdscr, RxDescriptor.buf, RxDescriptor.buf]
    congr 1
    change (dev.ram.store (dev.pRxDscr i).bufferAddr bytes).load _ _ = _
    rw [hlaid.addr i hlt, hlaid.addr j hj, gmacRxUnitsize] at *
    apply Memory.load_store_of_disjoint
    rcases Nat.lt_or_gt_of_ne hne with hbefore | hbehind
    · left
      omega
    · right
      omega
  have hnth : ∀ j < dev.usRxListSize, j ≠ bufs.length → (dev.usRxIdx + j) % dev.usRxListSize ≠ i := by
    rintro j hj hne heq
    rw [hi] at heq
    exact hne (Ring.index_inj hj hroom heq)
  have hplace : ∀ j, (dev.usRxIdx + j) % dev.usRxListSize < dev.usRxListSize :=
    fun j => Nat.mod_lt _ (Nat.zero_lt_of_lt h.idx_lt)
  refine ⟨h.two_le, h.idx_lt, ?_, ?_, ?_⟩
  · rw [List.length_append, List.length_singleton]
    exact hroom
  · intro j hj
    rw [List.length_append, List.length_singleton] at hj
    rcases Nat.lt_or_ge j bufs.length with hold | hnew
    · obtain ⟨hdscr, hbuf⟩ := hothers _ (hplace j) (hnth j (by omega) (by omega))
      have hshown := h.shown j hold
      rw [nth] at hshown
      rw [List.getElem_append_left hold]
      constructor
      · rw [nth]
        change ((dev.fill i bytes status).pRxDscr ((dev.usRxIdx + j) % dev.usRxListSize)).owned = true
        rw [hdscr]
        exact hshown.1
      · rw [← hshown.2]
        exact hbuf
    · obtain rfl : j = bufs.length := by omega
      have hnthi : (dev.fill i bytes status).nth bufs.length = (dev.fill i bytes status).pRxDscr i := by
        rw [nth]
        exact congrArg _ hi.symm
      rw [List.getElem_concat_length rfl, hnthi]
      refine ⟨?_, rfl⟩
      rw [hself]
      exact owned_or _ _
  · intro j hj hlt'
    rw [List.length_append, List.length_singleton] at hj
    have hrest := h.rest j (by omega) hlt'
    rw [nth] at hrest ⊢
    change ((dev.fill i bytes status).pRxDscr ((dev.usRxIdx + j) % dev.usRxListSize)).owned = false
    rw [(hothers _ (hplace j) (hnth j hlt' (by omega))).1]
    exact hrest

end RxRing

end ContikiAtsam
