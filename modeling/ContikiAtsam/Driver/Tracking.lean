import ContikiAtsam.Base.Ring
import ContikiAtsam.Driver.Coherent

/-!
# The ring and the list in step

Frames are counted as they are handed to the hardware: `H` have been handed over, the hardware has finished the first `F` of them and the handler has acknowledged the first `T`. The `i`-th frame lies in descriptor `i % n`. The head is the one that `gmac_dev_write` has reached, which lags behind between the write of a descriptor and the store of the head.
-/

namespace ContikiAtsam

/-- The stages at which the frame of the call is handed over and its element not in the list. -/
def SendStage.handedOver : SendStage → Bool
  | .incLoad _ | .incStore _ _ | .incTest _ | .incWrap _ | .start | .link => true
  | _ => false

/-- The descriptor that the call has handed over while the head has not moved. -/
def SendStage.handed : SendStage → Option Nat
  | .incLoad td | .incStore td _ => some td
  | _ => none

/-- The stage whose step hands the descriptor over. -/
def SendStage.hands : SendStage → Bool
  | .hand _ _ => true
  | _ => false

/-- What a call knows about the ring when `H` frames have been handed over. -/
def SendStage.Fits (dev : TxRing) (H : Nat) : SendStage → Prop
  | .spaceTail td | .spaceHead td _ | .busyHead td | .busyDscr td _ | .slot td =>
    dev.usTxHead = H % dev.usTxListSize ∧ td = dev.usTxHead
  | .fill td i => dev.usTxHead = H % dev.usTxListSize ∧ td = dev.usTxHead ∧ i = dev.usTxHead
  | .lastDscr td | .hand td _ =>
    dev.usTxHead = H % dev.usTxListSize ∧ td = dev.usTxHead ∧ dev.funcTxCbList td = true
  | .incLoad td => dev.usTxHead = (H - 1) % dev.usTxListSize ∧ td = dev.usTxHead
  | .incStore td v => dev.usTxHead = (H - 1) % dev.usTxListSize ∧ td = dev.usTxHead ∧ v = dev.usTxHead
  | .incTest _ => dev.usTxHead = (H - 1) % dev.usTxListSize + 1
  | .incWrap _ => dev.usTxHead = dev.usTxListSize ∧ (H - 1) % dev.usTxListSize + 1 = dev.usTxListSize
  | _ => dev.usTxHead = H % dev.usTxListSize

theorem SendStage.Fits.head {dev : TxRing} {H : Nat} {stage : SendStage} (h : stage.Fits dev H)
    (htest : ∀ td, stage ≠ .incTest td) (hwrap : ∀ td, stage ≠ .incWrap td) :
    dev.usTxHead = (H - if stage.handed.isSome then 1 else 0) % dev.usTxListSize := by
  cases stage with
  | incTest td => exact absurd rfl (htest td)
  | incWrap td => exact absurd rfl (hwrap td)
  | alloc | write | start | link | free | notify => exact h
  | _ => exact h.1

theorem SendStage.Fits.handed {dev : TxRing} {H td : Nat} {stage : SendStage} (h : stage.Fits dev H)
    (hhanded : stage.handed = some td) : td = (H - 1) % dev.usTxListSize := by
  cases stage with
  | incLoad td' =>
      obtain rfl := Option.some.inj hhanded
      exact h.2.trans h.1
  | incStore td' v =>
      obtain rfl := Option.some.inj hhanded
      exact h.2.1.trans h.1
  | _ => cases hhanded

namespace Sys

variable {s s' : Sys} {e : Event} {T F H : Nat}

def handedOver (s : Sys) : Nat :=
  match s.sending with
  | some f => if f.stage.handedOver then 1 else 0
  | none => 0

def hidden (s : Sys) : Nat :=
  match s.sending with
  | some f => if f.stage.handed.isSome then 1 else 0
  | none => 0

theorem hidden_congr (hsending : s'.sending = s.sending) : s'.hidden = s.hidden := by rw [hidden, hidden, hsending]

def fits (s : Sys) (H : Nat) : Prop :=
  match s.sending with
  | some f => f.stage.Fits s.tx H
  | none => s.tx.usTxHead = H % s.tx.usTxListSize

structure Tracks (s : Sys) (T F H : Nat) : Prop where
  acked : T ≤ F
  finished : F ≤ H
  room : H < T + s.tx.usTxListSize
  tail : s.tx.usTxTail = T % s.tx.usTxListSize
  hwTx : s.hwTx = F % s.tx.usTxListSize
  used : ∀ i, F ≤ i → i < F + s.tx.usTxListSize → (s.tx.used (i % s.tx.usTxListSize) = true ↔ H ≤ i)
  callback : ∀ i, T ≤ i → i < H → s.tx.funcTxCbList (i % s.tx.usTxListSize) = true
  list : H = T + (unacked s.pending + s.handedOver)
  fits : s.fits H

theorem tracks_init (board : Board) : Tracks (init board) 0 0 0 := by
  have hpos := Nat.lt_trans Nat.zero_lt_one board.one_lt_txListSize
  refine ⟨Nat.le_refl _, Nat.le_refl _, ?_, ?_, ?_, ?_, ?_, rfl, ?_⟩
  · change 0 < 0 + board.txListSize
    omega
  · exact (Nat.zero_mod _).symm
  · exact (Nat.zero_mod _).symm
  · intro i _ _
    have hused := TxRing.used_resetMem ⟨board.words, fun _ => false, board.txListSize, 0, 0⟩ (i % board.txListSize)
    rw [if_pos (Nat.mod_lt _ hpos)] at hused
    exact iff_of_true hused (Nat.zero_le _)
  · intro i _ hi
    omega
  · exact (Nat.zero_mod _).symm

namespace Tracks

theorem size_pos (hs : Tracks s T F H) : 0 < s.tx.usTxListSize := by
  have := hs.acked
  have := hs.finished
  have := hs.room
  omega

theorem hidden_le (s : Sys) : s.hidden ≤ s.handedOver := by
  unfold Sys.hidden Sys.handedOver
  split
  · next f _ => cases f.stage <;> simp [SendStage.handed, SendStage.handedOver]
  · exact Nat.le_refl _

/-- The descriptor of a frame between tail and head is used when the hardware has finished the frame. -/
theorem used_iff (hs : Tracks s T F H) {i : Nat} (hi : T ≤ i) (hi' : i < H) :
    s.tx.used (i % s.tx.usTxListSize) = true ↔ i < F := by
  have hacked := hs.acked
  have hfinished := hs.finished
  have hroom := hs.room
  rcases Nat.lt_or_ge i F with hlt | hge
  · have hnext := hs.used (i + s.tx.usTxListSize) (by omega) (by omega)
    rw [Nat.add_mod_right] at hnext
    rw [hnext]
    omega
  · rw [hs.used i hge (by omega)]
    omega

theorem used_tail_iff (hs : Tracks s T F H) (hlt : T < H) : s.tx.used s.tx.usTxTail = true ↔ T < F := by
  rw [hs.tail]
  exact hs.used_iff (Nat.le_refl T) hlt

theorem callback_tail (hs : Tracks s T F H) (hlt : T < H) : s.tx.funcTxCbList s.tx.usTxTail = true := by
  rw [hs.tail]
  exact hs.callback T (Nat.le_refl T) hlt

theorem head_mod (hs : Tracks s T F H) :
    s.tx.usTxHead ≤ s.tx.usTxListSize ∧ s.tx.usTxHead % s.tx.usTxListSize = (H - s.hidden) % s.tx.usTxListSize ∧
      (s.tx.usTxHead = s.tx.usTxListSize → T < H - s.hidden) := by
  have hpos := hs.size_pos
  have hlist := hs.list
  have hfits := hs.fits
  unfold Sys.fits at hfits
  unfold Sys.handedOver at hlist
  unfold Sys.hidden
  have hplain (k : Nat) (h : s.tx.usTxHead = (H - k) % s.tx.usTxListSize) :
      s.tx.usTxHead ≤ s.tx.usTxListSize ∧ s.tx.usTxHead % s.tx.usTxListSize = (H - k) % s.tx.usTxListSize ∧
        (s.tx.usTxHead = s.tx.usTxListSize → T < H - k) := by
    have hlt := Nat.mod_lt (H - k) hpos
    rw [← h] at hlt
    exact ⟨by omega, by rw [h, Nat.mod_mod], by omega⟩
  cases hf : s.sending with
  | none =>
      rw [hf] at hfits
      exact hplain 0 hfits
  | some f =>
      rw [hf] at hfits hlist
      obtain ⟨call, size, addr, stage⟩ := f
      by_cases htest : ∃ td, stage = .incTest td
      · obtain ⟨td, rfl⟩ := htest
        have hhead : s.tx.usTxHead = (H - 1) % s.tx.usTxListSize + 1 := hfits
        have hlt := Nat.mod_lt (H - 1) hpos
        simp only [SendStage.handedOver, SendStage.handed, Option.isSome_none, if_true, Bool.false_eq_true, if_false] at hlist ⊢
        refine ⟨by omega, ?_, by omega⟩
        rw [hhead, Nat.mod_add_mod, show H - 1 + 1 = H by omega]
        rfl
      by_cases hwrap : ∃ td, stage = .incWrap td
      · obtain ⟨td, rfl⟩ := hwrap
        obtain ⟨hhead, hend⟩ : s.tx.usTxHead = s.tx.usTxListSize ∧ (H - 1) % s.tx.usTxListSize + 1 = s.tx.usTxListSize :=
          hfits
        simp only [SendStage.handedOver, SendStage.handed, Option.isSome_none, if_true, Bool.false_eq_true, if_false] at hlist ⊢
        refine ⟨by omega, ?_, by omega⟩
        rw [show H - 0 = H - 1 + 1 by omega, ← Nat.mod_add_mod, hend, hhead]
      · exact hplain _ (SendStage.Fits.head hfits (fun td h => htest ⟨td, h⟩) (fun td h => hwrap ⟨td, h⟩))

/-- `H` counts one frame more than the handler sees while the head lags behind. -/
theorem le_visible (hs : Tracks s T F H) : T ≤ H - s.hidden := by
  have hlist := hs.list
  have hhidden := hidden_le s
  have hone : s.handedOver ≤ 1 := by
    unfold Sys.handedOver
    split
    · split <;> omega
    · omega
  omega

/-- The handler's tests for an empty ring are right. -/
theorem circCnt_iff (hs : Tracks s T F H) {t : Nat} (ht : T ≤ t) (ht' : t ≤ H - s.hidden) :
    circCnt s.tx.usTxHead (t % s.tx.usTxListSize) s.tx.usTxListSize = 0 ↔ H - s.hidden = t := by
  obtain ⟨hle, hmod, _⟩ := hs.head_mod
  have hroom := hs.room
  have hlt := Nat.mod_lt t hs.size_pos
  rw [circCnt_eq_zero_iff hle hlt]
  have hcell : s.tx.usTxHead = t % s.tx.usTxListSize ∨ s.tx.usTxHead = s.tx.usTxListSize ∧ t % s.tx.usTxListSize = 0 ↔
      s.tx.usTxHead % s.tx.usTxListSize = t % s.tx.usTxListSize := by
    rcases Nat.lt_or_ge s.tx.usTxHead s.tx.usTxListSize with hin | hend
    · rw [Nat.mod_eq_of_lt hin]
      omega
    · rw [show s.tx.usTxHead = s.tx.usTxListSize by omega, Nat.mod_self]
      omega
  rw [hcell, hmod]
  constructor
  · exact Ring.eq_of_mod_eq hs.le_visible (by omega) ht (by omega)
  · intro h
    rw [h]

theorem empty_iff (hs : Tracks s T F H) : s.tx.usTxHead = s.tx.usTxTail ↔ H - s.hidden = T := by
  obtain ⟨hle, hmod, hend⟩ := hs.head_mod
  have hlt := Nat.mod_lt T hs.size_pos
  rw [← hs.circCnt_iff (Nat.le_refl T) hs.le_visible, circCnt_eq_zero_iff hle hlt, hs.tail]
  constructor
  · exact Or.inl
  · rintro (h | ⟨h, hzero⟩)
    · exact h
    · have hcnt := (hs.circCnt_iff (Nat.le_refl T) hs.le_visible).mp
        ((circCnt_eq_zero_iff hle hlt).mpr (Or.inr ⟨h, hzero⟩))
      have := hend h
      omega

theorem releaseTail_handler (hs : Tracks s T F H) {flag : UInt32} (hlt : T < H - s.hidden) (htx : s'.tx = s.tx) :
    (s'.releaseTail flag).handler = if H - s.hidden = T + 1 then .idle else .txLoop flag := by
  have hempty : circCnt s'.tx.usTxHead (circInc s'.tx.usTxTail s'.tx.usTxListSize) s'.tx.usTxListSize = 0 ↔
      H - s.hidden = T + 1 := by
    rw [htx, hs.tail, circInc_mod T hs.size_pos]
    exact hs.circCnt_iff (Nat.le_succ T) hlt
  by_cases hlast : H - s.hidden = T + 1
  · rw [if_pos hlast]
    exact if_neg (not_not.mpr (hempty.mpr hlast))
  · rw [if_neg hlast]
    exact if_pos fun h => hlast (hempty.mp h)

theorem move (hs : Tracks s T F H) (hsize : s'.tx.usTxListSize = s.tx.usTxListSize)
    (htail : s'.tx.usTxTail = s.tx.usTxTail) (hhw : s'.hwTx = s.hwTx)
    (hused : ∀ i < s.tx.usTxListSize, s'.tx.used i = s.tx.used i)
    (hcb : ∀ i, s.tx.funcTxCbList i = true → s'.tx.funcTxCbList i = true)
    (hlist : unacked s'.pending + s'.handedOver = unacked s.pending + s.handedOver) (hfits : s'.fits H) :
    Tracks s' T F H := by
  refine ⟨hs.acked, hs.finished, ?_, ?_, ?_, ?_, ?_, ?_, hfits⟩
  · rw [hsize]
    exact hs.room
  · rw [htail, hsize]
    exact hs.tail
  · rw [hhw, hsize]
    exact hs.hwTx
  · rw [hsize]
    intro i hi hi'
    rw [hused _ (Nat.mod_lt i hs.size_pos)]
    exact hs.used i hi hi'
  · rw [hsize]
    exact fun i hi hi' => hcb _ (hs.callback i hi hi')
  · rw [hlist]
    exact hs.list

theorem congr (hs : Tracks s T F H) (htx : s'.tx = s.tx) (hhw : s'.hwTx = s.hwTx) (hsending : s'.sending = s.sending)
    (hpending : unacked s'.pending = unacked s.pending) : Tracks s' T F H := by
  refine hs.move (by rw [htx]) (by rw [htx]) hhw (by rw [htx]; exact fun _ _ => rfl) (by rw [htx]; exact fun _ h => h) ?_ ?_
  · rw [hpending, Sys.handedOver, hsending]
    rfl
  · rw [Sys.fits, hsending, htx]
    exact hs.fits

theorem finish (hs : Tracks s T F H) (hbusy : s.tx.used s.hwTx = false) (outcome : Tsr) :
    Tracks (s.hwTxFinish outcome) T (F + 1) H := by
  have hacked := hs.acked
  have hfinished := hs.finished
  have hroom := hs.room
  have hpos := hs.size_pos
  have hlt : F < H := by
    have hcell := hs.used F (Nat.le_refl _) (by omega)
    rw [← hs.hwTx, hbusy] at hcell
    simp only [Bool.false_eq_true, false_iff] at hcell
    omega
  refine ⟨by omega, hlt, hroom, hs.tail, ?_, ?_, hs.callback, hs.list, hs.fits⟩
  · change circInc s.hwTx s.tx.usTxListSize = (F + 1) % s.tx.usTxListSize
    rw [hs.hwTx, circInc_mod F hpos]
  · intro i hi hi'
    change (s.tx.finish s.hwTx).used (i % s.tx.usTxListSize) = true ↔ H ≤ i
    change i < F + 1 + s.tx.usTxListSize at hi'
    rw [TxRing.used_finish]
    split
    · next hcell =>
      rw [hs.hwTx] at hcell
      have heq : i = F + s.tx.usTxListSize := by
        apply Ring.eq_of_mod_eq hi (by omega) (by omega) (by omega)
        rw [hcell, Nat.add_mod_right]
      simp only [true_iff]
      omega
    · next hcell =>
      apply hs.used i (by omega)
      have hne : i ≠ F + s.tx.usTxListSize := by
        rintro rfl
        exact hcell (by rw [Nat.add_mod_right, hs.hwTx])
      omega

theorem release (hs : Tracks s T F H) {flag : UInt32} (hlt : T < F) (htx : s'.tx = s.tx) (hhw : s'.hwTx = s.hwTx)
    (hsending : s'.sending = s.sending) (hpending : unacked s.pending = unacked s'.pending + 1) :
    Tracks (s'.releaseTail flag) (T + 1) F H := by
  have hroom := hs.room
  have hlist := hs.list
  have htx' : (s'.releaseTail flag).tx = { s.tx with usTxTail := circInc s.tx.usTxTail s.tx.usTxListSize } := by
    rw [← htx]
    rfl
  have hsending' : (s'.releaseTail flag).sending = s.sending := hsending
  refine ⟨hlt, hs.finished, ?_, ?_, ?_, ?_, ?_, ?_, ?_⟩
  · rw [htx']
    change H < T + 1 + s.tx.usTxListSize
    omega
  · rw [htx']
    change circInc s.tx.usTxTail s.tx.usTxListSize = (T + 1) % s.tx.usTxListSize
    rw [hs.tail, circInc_mod T hs.size_pos]
  · rw [htx', show (s'.releaseTail flag).hwTx = s.hwTx from hhw]
    exact hs.hwTx
  · rw [htx']
    exact hs.used
  · rw [htx']
    exact fun i hi hi' => hs.callback i (by omega) hi'
  · rw [Sys.handedOver, hsending']
    change H = T + 1 + (unacked s'.pending + s.handedOver)
    omega
  · have hfits := hs.fits
    unfold Sys.fits at hfits ⊢
    rw [hsending', htx']
    cases hf : s.sending with
    | none =>
        rw [hf] at hfits
        exact hfits
    | some f =>
        rw [hf] at hfits
        obtain ⟨call, size, addr, stage⟩ := f
        cases stage <;> exact hfits

theorem goto (hs : Tracks s T F H) {f f' : Sending} (hf : s.sending = some f) (htx : s'.tx = s.tx)
    (hhw : s'.hwTx = s.hwTx) (hpending : s'.pending = s.pending) (hf' : s'.sending = some f')
    (hover : f'.stage.handedOver = f.stage.handedOver) (hfits : f'.stage.Fits s.tx H) : Tracks s' T F H := by
  refine hs.move (by rw [htx]) (by rw [htx]) hhw (by rw [htx]; exact fun _ _ => rfl) (by rw [htx]; exact fun _ h => h) ?_ ?_
  · simp only [Sys.handedOver, hf, hf', hover, hpending]
  · rw [Sys.fits, hf', htx]
    exact hfits

theorem hand (hs : Tracks s T F H) {call size : Nat} {addr : Linkaddr6} {td : Nat} {wrap : Bool}
    (hf : s.sending = some ⟨call, size, addr, .hand td wrap⟩)
    (hspace : circSpace s.tx.usTxHead s.tx.usTxTail s.tx.usTxListSize ≠ 0) :
    Tracks (s.sendStep ⟨call, size, addr, .hand td wrap⟩) T F (H + 1) := by
  have hacked := hs.acked
  have hfinished := hs.finished
  have hroom := hs.room
  have hlist := hs.list
  have hfits := hs.fits
  simp only [Sys.fits, Sys.handedOver, hf] at hfits hlist
  obtain ⟨hhead, htd, hcb⟩ := hfits
  have hcell : td = H % s.tx.usTxListSize := htd.trans hhead
  have hnext : H + 1 ≠ T + s.tx.usTxListSize := by
    intro heq
    apply hspace
    rw [circSpace_eq_zero_iff (by rw [hhead]; exact Nat.mod_lt H hs.size_pos) (by rw [hs.tail]; exact Nat.mod_lt T hs.size_pos),
      hhead, Nat.mod_add_mod, heq, Nat.add_mod_right, hs.tail]
  refine ⟨hacked, by omega, ?_, hs.tail, hs.hwTx, ?_, ?_, ?_, ?_⟩
  · change H + 1 < T + s.tx.usTxListSize
    omega
  · intro i hi hi'
    change (s.tx.hand td size wrap).used (i % s.tx.usTxListSize) = true ↔ H + 1 ≤ i
    change i < F + s.tx.usTxListSize at hi'
    rw [TxRing.used_hand, hcell]
    split
    · next hsame =>
      have := Ring.eq_of_mod_eq hi hi' hfinished (by omega) hsame
      simp only [Bool.false_eq_true, false_iff]
      omega
    · next hother =>
      have hne : i ≠ H := by
        rintro rfl
        exact hother rfl
      rw [hs.used i hi hi']
      omega
  · intro i hi hi'
    change s.tx.funcTxCbList (i % s.tx.usTxListSize) = true
    rcases Nat.lt_succ_iff_lt_or_eq.mp hi' with hold | rfl
    · exact hs.callback i hi hold
    · rw [← hcell]
      exact hcb
  · change H + 1 = T + (unacked s.pending + 1)
    simp only [SendStage.handedOver, Bool.false_eq_true, if_false] at hlist
    omega
  · exact ⟨hhead, htd⟩

theorem sendStep (hs : Tracks s T F H) {f : Sending} (hf : s.sending = some f)
    (hspace : ∀ td wrap, f.stage = .hand td wrap → circSpace s.tx.usTxHead s.tx.usTxTail s.tx.usTxListSize ≠ 0) :
    Tracks (s.sendStep f) T F (if f.stage.hands then H + 1 else H) := by
  have hpos := hs.size_pos
  have hlist := hs.list
  have hfits := hs.fits
  obtain ⟨call, size, addr, stage⟩ := f
  simp only [Sys.fits, Sys.handedOver, hf] at hfits hlist
  cases stage with
  | alloc | write | spaceHead | busyDscr =>
      change Tracks _ T F H
      unfold Sys.sendStep
      dsimp only
      split <;> exact hs.goto hf rfl rfl rfl rfl rfl (by first | exact hfits | exact ⟨hfits, rfl⟩ | exact hfits.1)
  | spaceTail | busyHead | lastDscr | start | free => exact hs.goto hf rfl rfl rfl rfl rfl hfits
  | slot => exact hs.goto hf rfl rfl rfl rfl rfl ⟨hfits.1, hfits.2, rfl⟩
  | fill td i =>
      obtain ⟨hhead, htd, hi⟩ := hfits
      refine hs.move rfl rfl rfl (fun _ _ => rfl) ?_ ?_ ⟨hhead, htd, ?_⟩
      · intro j hj
        change Function.update s.tx.funcTxCbList i true j = true
        rw [Function.update_apply]
        split
        · rfl
        · exact hj
      · simp only [Sys.handedOver, hf]
        rfl
      · change Function.update s.tx.funcTxCbList i true td = true
        rw [htd, hi, Function.update_self]
  | hand td wrap => exact hs.hand hf (hspace td wrap rfl)
  | incLoad td => exact hs.goto hf rfl rfl rfl rfl rfl ⟨hfits.1, hfits.2, rfl⟩
  | incStore td v =>
      obtain ⟨hhead, _, hv⟩ := hfits
      refine hs.move rfl rfl rfl (fun _ _ => rfl) (fun _ h => h) ?_ ?_
      · simp only [Sys.handedOver, hf]
        rfl
      · change v + 1 = (H - 1) % s.tx.usTxListSize + 1
        rw [hv, hhead]
  | incTest td =>
      change s.tx.usTxHead = (H - 1) % s.tx.usTxListSize + 1 at hfits
      have hlast := Nat.mod_lt (H - 1) hpos
      change Tracks _ T F H
      unfold Sys.sendStep
      dsimp only
      split
      · next hend => exact hs.goto hf rfl rfl rfl rfl rfl ⟨by omega, by omega⟩
      · next hin =>
        refine hs.goto hf rfl rfl rfl rfl rfl ?_
        change s.tx.usTxHead = H % s.tx.usTxListSize
        simp only [SendStage.handedOver, if_true] at hlist
        rw [show H = H - 1 + 1 by omega, ← Nat.mod_add_mod, Nat.mod_eq_of_lt (by omega)]
        exact hfits
  | incWrap td =>
      obtain ⟨_, hend⟩ : s.tx.usTxHead = s.tx.usTxListSize ∧ (H - 1) % s.tx.usTxListSize + 1 = s.tx.usTxListSize := hfits
      refine hs.move rfl rfl rfl (fun _ _ => rfl) (fun _ h => h) ?_ ?_
      · simp only [Sys.handedOver, hf]
        rfl
      · change 0 = H % s.tx.usTxListSize
        simp only [SendStage.handedOver, if_true] at hlist
        rw [show H = H - 1 + 1 by omega, ← Nat.mod_add_mod, hend, Nat.mod_self]
  | link =>
      refine hs.move rfl rfl rfl (fun _ _ => rfl) (fun _ h => h) ?_ hfits
      change unacked (s.pending ++ [_]) + 0 = unacked s.pending + s.handedOver
      rw [unacked_append rfl]
      simp only [Sys.handedOver, hf]
      rfl
  | notify =>
      refine hs.move rfl rfl rfl (fun _ _ => rfl) (fun _ h => h) ?_ hfits
      simp only [Sys.handedOver, hf]
      rfl

theorem sendPacket (hs : Tracks s T F H) (pb : Packetbuf) (hup : s.runsUpper) : Tracks (s.sendPacket pb) T F H := by
  have hfits := hs.fits
  rw [Sys.fits, hup.2.1] at hfits
  have hover : (s.sendPacket pb).handedOver = s.handedOver := by
    simp only [handedOver, Sys.sendPacket, hup.2.1]
    split <;> rfl
  have hfits' : (s.sendPacket pb).fits H := by
    unfold Sys.fits Sys.sendPacket
    dsimp only
    split <;> exact hfits
  refine hs.move rfl rfl rfl (fun _ _ => rfl) (fun _ h => h) ?_ hfits'
  rw [hover]
  rfl

theorem clobber (hs : Tracks s T F H) {i : Nat} (word : UInt32) (hi : s.tx.usTxListSize ≤ i) :
    Tracks { s with tx := { s.tx with pTxDscr := Function.update s.tx.pTxDscr i word } } T F H := by
  refine hs.move rfl rfl rfl ?_ (fun _ h => h) rfl hs.fits
  intro j hj
  have hne : j ≠ i := by omega
  simp [TxRing.used, Function.update_of_ne hne]

end Tracks

/-- The poll handler removes only elements that are acknowledged. -/
theorem Coherent.unacked_thread (hs : Coherent s) (h : Thread s s') : unacked s'.pending = unacked s.pending := by
  cases h with
  | txPop hpc =>
      obtain ⟨x, hx, hacked⟩ := hs.pops (by rw [hpc]; rfl)
      obtain ⟨xs, hp⟩ := List.head?_eq_some_iff.mp hx
      change unacked s.pending.tail = unacked s.pending
      rw [hp]
      exact (unacked_tail hacked).symm
  | _ => rfl

end Sys

end ContikiAtsam
