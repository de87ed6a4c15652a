import ContikiAtsam.Gmac.Rx
import Mathlib.Algebra.Ring.Int.Defs
import Mathlib.Algebra.Ring.Divisibility.Basic

/-!
# The transmit ring

The transmit part of `gmac_device_t` with the registers that report on it. Each descriptor holds one frame; the status word of a descriptor that belongs to the software has `GMAC_TXD_USED` set. `usTxHead` is where the next frame is written and `usTxTail` the oldest frame not yet reported by the handler. Buffers and their addresses are left out, they never change.
-/

namespace ContikiAtsam

def gmacTxUnitsize : Nat := 1518

def gmacTxdUsed : UInt32 := 0x80000000
def gmacTxdWrap : UInt32 := 0x40000000
def gmacTxdLast : UInt32 := 0x8000
def gmacTxdLenMask : UInt32 := 0x1FFF

def gmacTsrCol : UInt32 := 0x02
def gmacTsrRle : UInt32 := 0x04
def gmacTsrTxcomp : UInt32 := 0x20
def gmacTsrUnd : UInt32 := 0x40

def gmacRsrBna : UInt32 := 0x01
def gmacRsrRec : UInt32 := 0x02
def gmacRsrRxovr : UInt32 := 0x04

/-! ### The registers -/

/-- The bits of `GMAC_ISR` that the handler tests. -/
structure Isr where
  rcomp : Bool
  tcomp : Bool
  deriving DecidableEq, Repr

/-- The bits of `GMAC_RSR`; `frameRec` is `REC`. -/
structure Rsr where
  frameRec : Bool
  rxovr : Bool
  bna : Bool
  deriving DecidableEq, Repr

/-- The bits of `GMAC_TSR`. -/
structure Tsr where
  txcomp : Bool
  rle : Bool
  col : Bool
  und : Bool
  deriving DecidableEq, Repr

namespace Rsr

def none : Rsr := ⟨false, false, false⟩

def union (r r' : Rsr) : Rsr := ⟨r.frameRec || r'.frameRec, r.rxovr || r'.rxovr, r.bna || r'.bna⟩

/-- `ul_rx_status_flag` in `gmac_handler`. -/
def statusFlag (r : Rsr) : UInt32 :=
  let flag := gmacRsrRec
  let flag := if r.rxovr then flag ||| gmacRsrRxovr else flag
  if r.bna then flag ||| gmacRsrBna else flag

/-- `gmac_clear_rx_status`. -/
def clear (r : Rsr) (flag : UInt32) : Rsr :=
  ⟨r.frameRec && flag &&& gmacRsrRec == 0, r.rxovr && flag &&& gmacRsrRxovr == 0, r.bna && flag &&& gmacRsrBna == 0⟩

end Rsr

namespace Tsr

def none : Tsr := ⟨false, false, false, false⟩

def union (t t' : Tsr) : Tsr := ⟨t.txcomp || t'.txcomp, t.rle || t'.rle, t.col || t'.col, t.und || t'.und⟩

/-- `ul_tx_status_flag` in `gmac_handler`. -/
def statusFlag (t : Tsr) : UInt32 :=
  let flag := if t.rle then gmacTsrRle else gmacTsrTxcomp
  let flag := if t.col then flag ||| gmacTsrCol else flag
  if t.und then flag ||| gmacTsrUnd else flag

/-- `gmac_clear_tx_status`. -/
def clear (t : Tsr) (flag : UInt32) : Tsr :=
  ⟨t.txcomp && flag &&& gmacTsrTxcomp == 0, t.rle && flag &&& gmacTsrRle == 0, t.col && flag &&& gmacTsrCol == 0,
    t.und && flag &&& gmacTsrUnd == 0⟩

end Tsr

/-! ### The ring -/

/-- The transmit part of `gmac_device_t`, of each descriptor the status word and of each callback whether it is set. -/
structure TxRing where
  pTxDscr : Nat → UInt32
  funcTxCbList : Nat → Bool
  usTxListSize : Nat
  usTxHead : Nat
  usTxTail : Nat

/-- `CIRC_CNT`; the operands are promoted to `int`. -/
def circCnt (head tail size : Nat) : Int := ((head : Int) - tail).tmod size

/-- `CIRC_SPACE`. -/
def circSpace (head tail size : Nat) : Int := circCnt tail (head + 1) size

/-- An index that equals `size` stands for 0, as it does inside `circ_inc`. -/
theorem circCnt_eq_zero_iff {head tail size : Nat} (hhead : head ≤ size) (htail : tail < size) :
    circCnt head tail size = 0 ↔ head = tail ∨ head = size ∧ tail = 0 := by
  rw [circCnt, ← Int.dvd_iff_tmod_eq_zero]
  constructor
  · rintro ⟨k, hk⟩
    have hle : k < 2 := by
      by_contra hge
      have := Int.mul_le_mul_of_nonneg_left (show 2 ≤ k by omega) (Int.natCast_nonneg size)
      omega
    have hge : -1 < k := by
      by_contra hlt
      have := Int.mul_le_mul_of_nonneg_left (show k ≤ -1 by omega) (Int.natCast_nonneg size)
      omega
    obtain rfl | rfl : k = 0 ∨ k = 1 := by omega
    · left
      omega
    · right
      omega
  · rintro (rfl | ⟨rfl, rfl⟩)
    · simp
    · simp

theorem circSpace_eq_zero_iff {head tail size : Nat} (hhead : head < size) (htail : tail < size) :
    circSpace head tail size = 0 ↔ (head + 1) % size = tail := by
  have hcomm : circSpace head tail size = 0 ↔ circCnt (head + 1) tail size = 0 := by
    rw [circSpace, circCnt, circCnt, ← Int.dvd_iff_tmod_eq_zero, ← Int.dvd_iff_tmod_eq_zero, dvd_sub_comm]
  rw [hcomm, circCnt_eq_zero_iff hhead htail]
  rcases Nat.lt_or_ge (head + 1) size with hin | hend
  · rw [Nat.mod_eq_of_lt hin]
    omega
  · rw [show head + 1 = size by omega, Nat.mod_self]
    omega

private theorem gmacTxdUsed_bit : ∀ k (hk : k < 32), gmacTxdUsed.toBitVec[k] = decide (k = 31) := by
  decide

theorem and_gmacTxdUsed_eq_zero (w : UInt32) : w &&& gmacTxdUsed = 0 ↔ w.toBitVec[31] = false := by
  rw [← UInt32.toBitVec_inj, UInt32.toBitVec_and]
  constructor
  · intro h
    have hbit := congrArg (fun b => b[31]) h
    rw [BitVec.getElem_and, gmacTxdUsed_bit] at hbit
    simpa using hbit
  · intro h
    ext k hk
    rw [BitVec.getElem_and, gmacTxdUsed_bit k hk]
    by_cases hlast : k = 31
    · subst hlast
      simp [h]
    · simp [hlast]

namespace TxRing

def used (dev : TxRing) (i : Nat) : Bool := dev.pTxDscr i &&& gmacTxdUsed != 0

/-- The status word of a descriptor handed to the hardware. -/
def handedWord (ulSize : Nat) (wrap : Bool) : UInt32 :=
  let word := (UInt32.ofNat ulSize &&& gmacTxdLenMask) ||| gmacTxdLast
  if wrap then word ||| gmacTxdWrap else word

def hand (dev : TxRing) (i ulSize : Nat) (wrap : Bool) : TxRing :=
  { dev with pTxDscr := Function.update dev.pTxDscr i (handedWord ulSize wrap) }

/-- `gmac_dev_write`, with the interrupt held off. -/
def gmacDevWrite (dev : TxRing) (ulSize : Nat) : GmacStatus × TxRing :=
  let head := dev.usTxHead
  if ulSize > gmacTxUnitsize then (.param, dev)
  -- the second test is on pTxTd[usTxHead], where pTxTd is already at the head
  else if circSpace head dev.usTxTail dev.usTxListSize = 0 ∧ dev.used (head + head) = true then (.txBusy, dev)
  else
    (.ok,
      { dev.hand head ulSize (head + 1 == dev.usTxListSize) with
        funcTxCbList := Function.update dev.funcTxCbList head true
        usTxHead := circInc head dev.usTxListSize })

/-- What the hardware does to the descriptor of a frame it has finished. -/
def finish (dev : TxRing) (i : Nat) : TxRing :=
  { dev with pTxDscr := Function.update dev.pTxDscr i (dev.pTxDscr i ||| gmacTxdUsed) }

/-- `gmac_reset_tx_mem`. -/
def resetMem (dev : TxRing) : TxRing :=
  let word := fun i => if i + 1 = dev.usTxListSize then gmacTxdUsed ||| gmacTxdWrap else gmacTxdUsed
  { dev with
    pTxDscr := fun i => if i < dev.usTxListSize then word i else dev.pTxDscr i
    usTxHead := 0
    usTxTail := 0 }

@[simp] theorem resetMem_usTxHead (dev : TxRing) : dev.resetMem.usTxHead = 0 := rfl
@[simp] theorem resetMem_usTxTail (dev : TxRing) : dev.resetMem.usTxTail = 0 := rfl

theorem used_hand (dev : TxRing) (i j ulSize : Nat) (wrap : Bool) :
    (dev.hand i ulSize wrap).used j = if j = i then false else dev.used j := by
  by_cases h : j = i
  · cases wrap <;>
      simp [used, hand, h, handedWord, and_gmacTxdUsed_eq_zero, gmacTxdLenMask, gmacTxdLast, gmacTxdWrap]
  · simp [used, hand, h]

theorem gmacDevWrite_eq (dev : TxRing) (ulSize : Nat) :
    (dev.gmacDevWrite ulSize).1 = .ok ∨
      (dev.gmacDevWrite ulSize).1 ∈ [.txBusy, .param] ∧ (dev.gmacDevWrite ulSize).2 = dev := by
  unfold gmacDevWrite
  dsimp only
  split_ifs
  · exact Or.inr ⟨by simp, rfl⟩
  · exact Or.inr ⟨by simp, rfl⟩
  · exact Or.inl rfl

theorem used_finish (dev : TxRing) (i j : Nat) :
    (dev.finish i).used j = if j = i then true else dev.used j := by
  by_cases h : j = i
  · simp [used, finish, h, and_gmacTxdUsed_eq_zero, gmacTxdUsed_bit]
  · simp [used, finish, h]

theorem used_resetMem (dev : TxRing) (i : Nat) :
    dev.resetMem.used i = if i < dev.usTxListSize then true else dev.used i := by
  by_cases h : i < dev.usTxListSize
  · have hused : gmacTxdUsed ≠ 0 := by decide
    by_cases hlast : i + 1 = dev.usTxListSize <;>
      simp [used, resetMem, h, hlast, hused, and_gmacTxdUsed_eq_zero, gmacTxdUsed_bit]
  · simp [used, resetMem, h]

end TxRing

end ContikiAtsam
