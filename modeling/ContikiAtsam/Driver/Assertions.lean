import ContikiAtsam.Driver.Coherent

/-!
# The assertions of the driver

The interrupt acknowledges one element of the pending list for each frame it finds finished, so the list must hold an unacknowledged element for each entry of the transmit ring. An element is linked only after its frame has been handed over, and for that time the ring may be one ahead of the list. The poll handler relies on `PENDING_TX` for an acknowledged element at the front of the list, which the handler breaks by reporting a frame while the list is being emptied.
-/

namespace ContikiAtsam

/-- The turns that the loop of the handler can still take. The head may stand at the end of the list until `circ_inc` has wrapped it. -/
def TxRing.remaining (dev : TxRing) : Nat :=
  if dev.usTxTail ≤ dev.usTxHead then dev.usTxHead - dev.usTxTail
  else dev.usTxHead + dev.usTxListSize - dev.usTxTail

/-- The stages at which the frame of the call is in the ring and its element not in the list. -/
def SendStage.unlinked : SendStage → Bool
  | .incTest _ | .incWrap _ | .start | .link => true
  | _ => false

/-- In the TX branch with an acknowledged element at the front of the list. -/
def ThreadPc.holdsAcked : ThreadPc → Bool
  | .txTest false => false
  | pc => pc.drains

namespace Sys

variable {s s' : Sys} {e : Event}

/-- How many frames are in the ring with no element in the list. -/
def unlinked (s : Sys) : Nat :=
  match s.sending with
  | some f => if f.stage.unlinked then 1 else 0
  | none => 0

/-- The interrupt stays out of the windows in which the driver is not ready for it: it reports no received frame between the installation of the RX callback and the store of `GMAC_DRV_STATE_IDLE`, and it finds no transmission finished during start-up, while the poll handler empties the pending list, or when that transmission is the one whose element is not linked yet. It does not move the head inside an increment either. -/
def undisturbed (s : Sys) : Event → Prop
  | .handler =>
    match s.handler with
    | .rxPart isr rsr _ => s.thread = .setIdle → (isr.rcomp || rsr.frameRec) = false
    | .txLoop _ => s.tx.used s.tx.usTxTail = true →
        s.thread.starting = false ∧ s.thread.drains = false ∧ ¬ (s.unlinked = 1 ∧ s.tx.remaining = 1)
    | _ => True
  | .thread =>
    match s.sending with
    | some f => match f.stage with
      | .incStore _ v => s.tx.usTxHead = v
      | _ => True
    | none => True
  | _ => True

/-- Ring and list are in step: the list, with the element still to be linked, has an unacknowledged element for each entry of the ring. -/
structure RingRoom (s : Sys) : Prop where
  one_lt : 1 < s.tx.usTxListSize
  tail : s.tx.usTxTail < s.tx.usTxListSize
  head : s.tx.usTxHead < s.tx.usTxListSize ∨ s.tx.usTxHead = s.tx.usTxListSize ∧
    ∃ f td, s.sending = some f ∧ (f.stage = .incTest td ∨ f.stage = .incWrap td)
  wrap : ∀ f td, s.sending = some f → f.stage = .incWrap td →
    s.tx.usTxHead = s.tx.usTxListSize ∨ s.tx.usTxHead = 0
  room : s.tx.remaining ≤ unacked s.pending + s.unlinked

/-- What holds of ring, list and flags in every state of such a run. -/
structure Ready (s : Sys) : Prop extends Coherent s, RingRoom s where
  loop : ∀ flag, s.handler = .txLoop flag → 1 ≤ s.tx.remaining ∧ ∃ tsr : Tsr, flag = tsr.statusFlag
  pendingTx : s.state.pendingTx = true → s.HeadAcked ∧ s.thread.drains = false
  entering : ∀ reg, s.thread = .load .tx ∨ s.thread = .store .tx reg → s.state.pendingTx = true
  holdsAcked : s.thread.holdsAcked = true → s.HeadAcked
  needspoll : s.needspoll = true →
    s.state.pendingRx = true ∨ s.state.pendingTx = true ∨ ∃ b, s.thread = .disable b ∨ s.thread = .unpoll b
  pollEntry : s.thread = .pollEntry → s.state.pendingRx = true ∨ s.state.pendingTx = true

/-! ### The status words -/

theorem txStatusFlag_known (t : Tsr) : t.statusFlag = gmacTsrTxcomp ∨ t.statusFlag = gmacTsrRle ∨
    (gmacTsrUnd ||| gmacTsrCol) &&& t.statusFlag ≠ 0 := by
  obtain ⟨txcomp, rle, col, und⟩ := t
  cases rle <;> cases col <;> cases und <;> decide +revert

theorem rxStatusFlag_known (r : Rsr) : r.statusFlag = gmacRsrRec ∨ gmacRsrBna &&& r.statusFlag = gmacRsrBna ∨
    gmacRsrRxovr &&& r.statusFlag = gmacRsrRxovr := by
  obtain ⟨frameRec, rxovr, bna⟩ := r
  cases rxovr <;> cases bna <;> decide +revert

/-- The TX callback fails only for want of an unacknowledged element, once start-up is over. -/
theorem gmacDevTxCallback_error {flag : UInt32} {a : Assertion} (h : s.gmacDevTxCallback flag = .error a)
    (hinit : s.state.notInitialized = false) (hreset : s.state.pendingReset = false)
    (hflag : ∃ tsr : Tsr, flag = tsr.statusFlag) : unacked s.pending = 0 := by
  obtain ⟨tsr, rfl⟩ := hflag
  by_contra hunacked
  cases hack : acknowledge tsr.statusFlag s.pending with
  | none => exact hunacked (acknowledge_eq_none.mp hack)
  | some pending =>
      unfold gmacDevTxCallback at h
      rw [if_neg (by simp [hinit, hreset]), if_neg (by have := txStatusFlag_known tsr; tauto)] at h
      cases hp : s.pending with
      | nil => simp [hp, acknowledge] at hack
      | cons x xs =>
          rw [hp] at hack
          simp [hp, hack] at h

theorem gmacDevRxCallback_error {a : Assertion} {rsr : Rsr} (h : s.gmacDevRxCallback rsr.statusFlag = .error a) :
    s.state.notInitialized = true ∨ s.state.pendingReset = true := by
  unfold gmacDevRxCallback at h
  split at h
  · next hstate => simpa using hstate
  dsimp only at h
  split at h
  · cases h
  next hrec =>
  split at h
  · cases h
  next hbna =>
  split at h
  · cases h
  next hovr =>
  rcases rxStatusFlag_known rsr with hknown | hknown | hknown
  · exact absurd hknown hrec
  · exact absurd hknown hbna
  · exact absurd hknown hovr

/-! ### The ring and the list -/

theorem unlinked_le (s : Sys) : s.unlinked ≤ 1 := by
  unfold unlinked
  split
  · split <;> omega
  · omega

theorem unlinked_none (hnone : s.sending = none) : s.unlinked = 0 := by
  simp [unlinked, hnone]

theorem unlinked_some {f : Sending} (hf : s.sending = some f) : s.unlinked = if f.stage.unlinked then 1 else 0 := by
  simp [unlinked, hf]

theorem RingRoom.head_lt (hs : RingRoom s)
    (hstage : ∀ f td, s.sending = some f → f.stage ≠ .incTest td ∧ f.stage ≠ .incWrap td) :
    s.tx.usTxHead < s.tx.usTxListSize := by
  rcases hs.head with hlt | ⟨_, f, td, hf, hpc⟩
  · exact hlt
  · obtain ⟨htest, hwrap⟩ := hstage f td hf
    exact absurd hpc (by simp [htest, hwrap])

theorem RingRoom.same (hs : RingRoom s) (htx : s'.tx = s.tx) (hsending : s'.sending = s.sending)
    (hpending : unacked s'.pending = unacked s.pending) : RingRoom s' := by
  refine ⟨?_, ?_, ?_, ?_, ?_⟩
  · rw [htx]
    exact hs.one_lt
  · rw [htx]
    exact hs.tail
  · rw [htx, hsending]
    exact hs.head
  · rw [htx, hsending]
    exact hs.wrap
  · rw [htx, hpending, unlinked, hsending]
    exact hs.room

theorem RingRoom.congr (hs : RingRoom s) (hhead : s'.tx.usTxHead = s.tx.usTxHead)
    (htail : s'.tx.usTxTail = s.tx.usTxTail) (hsize : s'.tx.usTxListSize = s.tx.usTxListSize)
    (hpending : unacked s.pending ≤ unacked s'.pending) (hunlinked : s'.unlinked = s.unlinked)
    (hlt : s.tx.usTxHead < s.tx.usTxListSize)
    (hwrap : ∀ f td, s'.sending = some f → f.stage ≠ .incWrap td) : RingRoom s' := by
  have hroom := hs.room
  have hremaining : s'.tx.remaining = s.tx.remaining := by
    unfold TxRing.remaining
    rw [hhead, htail, hsize]
  refine ⟨?_, ?_, Or.inl ?_, ?_, ?_⟩
  · rw [hsize]
    exact hs.one_lt
  · rw [htail, hsize]
    exact hs.tail
  · rw [hhead, hsize]
    exact hlt
  · intro f td hf hpc
    exact absurd hpc (hwrap f td hf)
  · rw [hremaining, hunlinked]
    omega

theorem RingRoom.sendStep (hs : RingRoom s) {f : Sending} (hf : s.sending = some f)
    (hguard : ∀ td v, f.stage = .incStore td v → s.tx.usTxHead = v) : RingRoom (s.sendStep f) := by
  have hroom := hs.room
  have htail := hs.tail
  have hunlinked := unlinked_some hf
  have hlt (h : ∀ td, f.stage ≠ .incTest td ∧ f.stage ≠ .incWrap td) : s.tx.usTxHead < s.tx.usTxListSize := by
    apply hs.head_lt
    intro f' td hf'
    obtain rfl := Option.some.inj (hf.symm.trans hf')
    exact h td
  cases hstage : f.stage with
  | incStore td v =>
      have hhead := hguard td v hstage
      have hlt := hlt (by simp [hstage])
      rw [hstage] at hunlinked
      simp only [Sys.sendStep, hstage, goto]
      refine ⟨hs.one_lt, hs.tail, ?_, ?_, ?_⟩
      · rcases Nat.lt_or_ge (v + 1) s.tx.usTxListSize with hin | hend
        · exact Or.inl hin
        · exact Or.inr ⟨by change v + 1 = s.tx.usTxListSize; omega, _, td, rfl, Or.inl rfl⟩
      · intro f' td' hf' hpc
        obtain rfl := Option.some.inj hf'
        cases hpc
      · rw [hunlinked] at hroom
        change TxRing.remaining { s.tx with usTxHead := v + 1 } ≤ unacked s.pending + 1
        simp only [TxRing.remaining, SendStage.unlinked, Bool.false_eq_true, if_false] at hroom ⊢
        split_ifs at hroom ⊢ <;> omega
  | incTest td =>
      rw [hstage] at hunlinked
      simp only [Sys.sendStep, hstage, goto]
      split
      · next hge =>
        have hhead : s.tx.usTxHead = s.tx.usTxListSize := by
          rcases hs.head with hlt | ⟨heq, _⟩
          · omega
          · exact heq
        refine ⟨hs.one_lt, hs.tail, Or.inr ⟨hhead, _, td, rfl, Or.inr rfl⟩, fun _ _ _ _ => Or.inl hhead, ?_⟩
        rw [hunlinked] at hroom
        exact hroom
      · next hlt =>
        refine ⟨hs.one_lt, hs.tail, Or.inl (Nat.lt_of_not_ge hlt), ?_, ?_⟩
        · intro f' td' hf' hpc
          obtain rfl := Option.some.inj hf'
          cases hpc
        · rw [hunlinked] at hroom
          exact hroom
  | incWrap td =>
      have hone := hs.one_lt
      have hwrap := hs.wrap f td hf hstage
      rw [hstage] at hunlinked
      simp only [Sys.sendStep, hstage, goto]
      refine ⟨hs.one_lt, hs.tail, Or.inl (by change 0 < s.tx.usTxListSize; omega), ?_, ?_⟩
      · intro f' td' hf' hpc
        obtain rfl := Option.some.inj hf'
        cases hpc
      · rw [hunlinked] at hroom
        change TxRing.remaining { s.tx with usTxHead := 0 } ≤ unacked s.pending + 1
        simp only [TxRing.remaining, SendStage.unlinked, if_true] at hroom ⊢
        split_ifs at hroom ⊢ <;> omega
  | link =>
      have hlt := hlt (by simp [hstage])
      rw [hstage] at hunlinked
      simp only [Sys.sendStep, hstage]
      refine ⟨hs.one_lt, hs.tail, Or.inl hlt, ?_, ?_⟩
      · intro f' td' hf' hpc
        cases hf'
      · rw [hunlinked] at hroom
        change s.tx.remaining ≤ unacked (s.pending ++ [⟨f.call, f.addr, false, 0⟩]) + 0
        rw [unacked_append rfl]
        exact hroom
  | notify =>
      have hlt := hlt (by simp [hstage])
      rw [hstage] at hunlinked
      simp only [Sys.sendStep, hstage]
      refine hs.congr rfl rfl rfl (Nat.le_refl _) hunlinked.symm hlt ?_
      intro f' td' hf'
      cases hf'
  | _ =>
      have hlt := hlt (by simp [hstage])
      rw [hstage] at hunlinked
      simp only [Sys.sendStep, hstage, goto]
      try split
      all_goals
        refine hs.congr rfl rfl rfl (Nat.le_refl _) hunlinked.symm hlt ?_
        intro f' td' hf'
        obtain rfl := Option.some.inj hf'
        simp

/-- A turn of the handler's loop takes one entry out of the ring, and one acknowledgement out of the list. -/
theorem RingRoom.releaseTail (hs : RingRoom s) (s' : Sys) (flag : UInt32) (hloop : 1 ≤ s.tx.remaining)
    (hlast : ¬ (s.unlinked = 1 ∧ s.tx.remaining = 1)) (hsame : s'.tx = s.tx) (hsending : s'.sending = s.sending)
    (hacked : unacked s.pending ≤ unacked s'.pending + 1) :
    RingRoom (s'.releaseTail flag) ∧
      ∀ flag', (s'.releaseTail flag).handler = .txLoop flag' → 1 ≤ (s'.releaseTail flag).tx.remaining ∧ flag' = flag := by
  have hroom := hs.room
  have htail := hs.tail
  have hone := hs.one_lt
  have hhead : s.tx.usTxHead ≤ s.tx.usTxListSize := by
    rcases hs.head with hlt | ⟨heq, _⟩ <;> omega
  have hend (h : s.tx.usTxHead = s.tx.usTxListSize) : s.unlinked = 1 := by
    rcases hs.head with hlt | ⟨_, f, td, hf, hpc⟩
    · omega
    · rw [unlinked_some hf]
      rcases hpc with hpc | hpc <;> rw [hpc] <;> rfl
  have htail' : circInc s.tx.usTxTail s.tx.usTxListSize < s.tx.usTxListSize := by
    unfold circInc
    split <;> omega
  have hremaining : TxRing.remaining { s.tx with usTxTail := circInc s.tx.usTxTail s.tx.usTxListSize } + 1 =
      s.tx.remaining := by
    simp only [TxRing.remaining, circInc] at hloop hlast ⊢
    split_ifs at hloop hlast ⊢ <;> omega
  have hunlinked : (s'.releaseTail flag).unlinked = s.unlinked := by
    unfold unlinked
    rw [show (s'.releaseTail flag).sending = s.sending from hsending]
  have htx : (s'.releaseTail flag).tx = { s.tx with usTxTail := circInc s.tx.usTxTail s.tx.usTxListSize } := by
    rw [← hsame]
    rfl
  refine ⟨⟨?_, ?_, ?_, ?_, ?_⟩, ?_⟩
  · rw [htx]
    exact hone
  · rw [htx]
    exact htail'
  · rw [htx, show (s'.releaseTail flag).sending = s.sending from hsending]
    exact hs.head
  · rw [htx, show (s'.releaseTail flag).sending = s.sending from hsending]
    exact hs.wrap
  · rw [htx, hunlinked]
    change _ ≤ unacked s'.pending + s.unlinked
    omega
  · intro flag' hpc
    rw [htx]
    unfold Sys.releaseTail at hpc
    rw [hsame] at hpc
    dsimp only at hpc
    split at hpc
    · next hcnt =>
      rw [ne_eq, circCnt_eq_zero_iff hhead htail'] at hcnt
      refine ⟨?_, (HandlerPc.txLoop.inj hpc).symm⟩
      simp only [TxRing.remaining]
      split <;> omega
    · cases hpc

/-- The start of the handler's TX part, which resets the ring after a retry limit. -/
theorem RingRoom.reportTx (hs : RingRoom s) (tsr : Tsr) :
    RingRoom (s.reportTx tsr) ∧
      ∀ flag, (s.reportTx tsr).handler = .txLoop flag →
        1 ≤ (s.reportTx tsr).tx.remaining ∧ flag = tsr.statusFlag := by
  have hone := hs.one_lt
  have htail := hs.tail
  unfold Sys.reportTx
  cases tsr.rle with
  | true =>
      simp only [if_true]
      refine ⟨⟨hone, ?_, Or.inl ?_, fun _ _ _ _ => Or.inr rfl, Nat.zero_le _⟩, ?_⟩
      · exact Nat.lt_trans Nat.zero_lt_one hone
      · exact Nat.lt_trans Nat.zero_lt_one hone
      · intro flag hpc
        cases hpc
  | false =>
      simp only [Bool.false_eq_true, if_false]
      refine ⟨⟨hone, htail, hs.head, hs.wrap, hs.room⟩, ?_⟩
      intro flag hpc
      split at hpc
      · next hne =>
        refine ⟨?_, (HandlerPc.txLoop.inj hpc).symm⟩
        unfold TxRing.remaining
        split <;> omega
      · cases hpc

/-! ### The steps -/

theorem Ready.handler (hs : Ready s) (hguard : s.undisturbed .handler) (h : Handler s s') :
    Ready s' ∧ s'.halted = s.halted := by
  have hcoherent := hs.toCoherent.handler h
  have hring : RingRoom s := hs.toRingRoom
  unfold undisturbed at hguard
  cases h with
  | rxReport isr rsr tsr stats hpc =>
      refine ⟨⟨hcoherent, hring.same rfl rfl rfl, ?_, hs.pendingTx,
        hs.entering, hs.holdsAcked, fun _ => Or.inl rfl, fun _ => Or.inl rfl⟩, rfl⟩
      intro flag h
      cases h
  | rxHalt isr rsr tsr a hpc hrec hcb herr =>
      exfalso
      rw [hpc] at hguard
      have hheard := hs.funcRxCb
      rw [hcb] at hheard
      rcases gmacDevRxCallback_error herr with hstate | hstate
      · have hstarting : s.thread.starting = true := by rw [← hs.notInitialized]; exact hstate
        have hthread : s.thread = .setIdle := by
          cases hthread : s.thread <;> simp [hthread, ThreadPc.starting, ThreadPc.unheard] at hstarting hheard
          rfl
        have hnone := hguard hthread
        rw [hrec] at hnone
        cases hnone
      · have := hs.pendingReset
        rw [show s.state.pendingReset = true from hstate] at this
        cases this
  | txReport isr tsr hpc hcomp =>
      obtain ⟨hring', hloop⟩ := hring.reportTx tsr
      refine ⟨⟨hcoherent, hring', ?_, hs.pendingTx, hs.entering, hs.holdsAcked, hs.needspoll, hs.pollEntry⟩, rfl⟩
      intro flag h
      exact ⟨(hloop flag h).1, tsr, (hloop flag h).2⟩
  | txSkip flag hpc hused hcb =>
      rw [hpc] at hguard
      obtain ⟨hremaining, htsr⟩ := hs.loop flag hpc
      obtain ⟨_, _, hlast⟩ := hguard hused
      obtain ⟨hring', hloop⟩ := hring.releaseTail s flag hremaining hlast rfl rfl (Nat.le_succ _)
      refine ⟨⟨hcoherent, hring', ?_, hs.pendingTx, hs.entering, hs.holdsAcked, hs.needspoll, hs.pollEntry⟩, rfl⟩
      intro flag' h
      obtain ⟨hremaining', rfl⟩ := hloop flag' h
      exact ⟨hremaining', htsr⟩
  | txAck flag stats pending hpc hused hcb hinit hack =>
      rw [hpc] at hguard
      obtain ⟨hremaining, htsr⟩ := hs.loop flag hpc
      obtain ⟨_, hdrains, hlast⟩ := hguard hused
      obtain ⟨hring', hloop⟩ := hring.releaseTail
        { s with stats, pending, state := s.state.set .tx, needspoll := true } flag
        hremaining hlast rfl rfl (Nat.le_of_eq (acknowledge_unacked hack))
      refine ⟨⟨hcoherent, hring', ?_, fun _ => ⟨acknowledge_head hack, hdrains⟩, fun _ _ => rfl,
        fun _ => acknowledge_head hack, fun _ => Or.inr (Or.inl rfl), fun _ => Or.inr rfl⟩, rfl⟩
      intro flag' h
      obtain ⟨hremaining', rfl⟩ := hloop flag' h
      exact ⟨hremaining', htsr⟩
  | txHalt flag a hpc hused hcb herr =>
      exfalso
      rw [hpc] at hguard
      obtain ⟨hremaining, htsr⟩ := hs.loop flag hpc
      obtain ⟨hstarting, _, hlast⟩ := hguard hused
      have hunacked := gmacDevTxCallback_error herr (hs.notInitialized.trans hstarting) hs.pendingReset htsr
      have hroom := hring.room
      have hle := unlinked_le s
      omega
  | _ =>
      refine ⟨⟨hcoherent, hring.same rfl rfl rfl, ?_, hs.pendingTx,
        hs.entering, hs.holdsAcked, hs.needspoll, hs.pollEntry⟩, rfl⟩
      intro flag h
      cases h

theorem Ready.sendStep (hs : Ready s) (hguard : s.undisturbed .thread) {f : Sending} (hf : s.sending = some f)
    (hidle : s.handler = .idle) : Ready (s.sendStep f) := by
  have hsends := sendStep_sends s f
  have hring : RingRoom (s.sendStep f) := by
    apply hs.toRingRoom.sendStep hf
    intro td v hstage
    unfold undisturbed at hguard
    simpa only [hf, hstage] using hguard
  refine ⟨hs.toCoherent.sendStep f, hring, ?_, ?_, ?_, ?_, ?_, ?_⟩
  · intro flag h
    rw [hsends.handler, hidle] at h
    cases h
  · rw [hsends.state, hsends.thread]
    intro h
    exact ⟨(hs.pendingTx h).1.sendStep f, (hs.pendingTx h).2⟩
  · rw [hsends.state, hsends.thread]
    exact hs.entering
  · rw [hsends.thread]
    exact fun h => (hs.holdsAcked h).sendStep f
  · rw [hsends.needspoll, hsends.state, hsends.thread]
    exact hs.needspoll
  · rw [hsends.thread, hsends.state]
    exact hs.pollEntry

theorem Ready.congr (hs : Ready s) (hcoherent : Coherent s') (htx : s'.tx = s.tx) (hsending : s'.sending = s.sending)
    (hhandler : s'.handler = s.handler) (hstate : s'.state = s.state) (hneeds : s'.needspoll = s.needspoll)
    (hpending : s'.pending = s.pending) (hdrains : s.thread.drains = false → s'.thread.drains = false)
    (hentering : ∀ reg, s'.thread = .load .tx ∨ s'.thread = .store .tx reg → s.state.pendingTx = true)
    (hholds : s'.thread.holdsAcked = true → s.HeadAcked)
    (hunpolled : (∃ b, s.thread = .disable b ∨ s.thread = .unpoll b) →
      ∃ b, s'.thread = .disable b ∨ s'.thread = .unpoll b)
    (hentry : s'.thread ≠ .pollEntry) : Ready s' := by
  refine ⟨hcoherent, hs.toRingRoom.same htx hsending (by rw [hpending]), ?_, ?_, ?_, ?_, ?_, ?_⟩
  · rw [hhandler, htx]
    exact hs.loop
  · rw [hstate, HeadAcked, hpending]
    exact fun h => ⟨(hs.pendingTx h).1, hdrains (hs.pendingTx h).2⟩
  · rw [hstate]
    exact hentering
  · rw [HeadAcked, hpending]
    exact hholds
  · rw [hneeds, hstate]
    exact fun h => (hs.needspoll h).imp_right fun h => h.imp_right hunpolled
  · intro h
    exact absurd h hentry

theorem Ready.thread (hs : Ready s) (h : Thread s s') :
    Ready s' ∧ (s'.halted = s.halted ∨ s'.halted = some .pollStatus) := by
  have hcoherent := hs.toCoherent.thread h
  have hring : RingRoom s := hs.toRingRoom
  have hholds := hs.holdsAcked
  have hentering := hs.entering
  cases h with
  | setIdle hpc =>
      obtain ⟨_, hrx, htx⟩ := hs.silent (by rw [hpc]; rfl)
      refine ⟨⟨hcoherent, hring.same rfl rfl rfl, hs.loop, ?_, ?_, ?_, ?_, ?_⟩, Or.inl rfl⟩
      · intro h
        cases h
      · rintro reg (h | h) <;> cases h
      · intro h
        cases h
      · intro h
        have := hs.needspoll h
        simp [hrx, htx, hpc] at this
      · intro h
        cases h
  | pollHalt hpc hflag =>
      exfalso
      rw [Bool.or_eq_false_iff] at hflag
      rcases hs.pollEntry hpc with h | h
      · rw [hflag.1] at h
        cases h
      · rw [hflag.2] at h
        cases h
  | enter b hpc hflag =>
      refine ⟨hs.congr hcoherent rfl rfl rfl rfl rfl rfl ?_ ?_ ?_ ?_ ?_, Or.inl rfl⟩
      · intro _
        rfl
      · rintro reg (h | h)
        · obtain rfl := ThreadPc.load.inj h
          exact hflag
        · cases h
      · intro h
        cases h
      · simp [hpc]
      · simp
  | load b hpc =>
      refine ⟨hs.congr hcoherent rfl rfl rfl rfl rfl rfl ?_ ?_ ?_ ?_ ?_, Or.inl rfl⟩
      · intro _
        rfl
      · rintro reg (h | h)
        · cases h
        · obtain ⟨rfl, _⟩ := ThreadPc.store.inj h
          exact hentering s.state (Or.inl hpc)
      · intro h
        cases h
      · simp [hpc]
      · simp
  | store b reg hpc =>
      obtain ⟨_, _, hle⟩ := hs.reg b reg hpc
      refine ⟨⟨hcoherent, hring.same rfl rfl rfl, hs.loop, ?_, ?_, ?_, ?_, ?_⟩, Or.inl rfl⟩
      · intro h
        cases b with
        | rx => exact ⟨(hs.pendingTx (hle .tx h)).1, rfl⟩
        | tx => cases h
      · rintro reg' (h | h) <;> cases h
      · intro h
        cases b with
        | rx => cases h
        | tx => exact (hs.pendingTx (hentering reg (Or.inr hpc))).1
      · intro _
        exact Or.inr (Or.inr ⟨b, Or.inl rfl⟩)
      · intro h
        cases h
  | unpoll b hpc =>
      refine ⟨⟨hcoherent, hring.same rfl rfl rfl, hs.loop, ?_, ?_, ?_, ?_, ?_⟩, Or.inl rfl⟩
      · intro h
        refine ⟨(hs.pendingTx h).1, ?_⟩
        have := (hs.pendingTx h).2
        rw [hpc] at this
        cases b <;> exact this
      · rintro reg' (h | h) <;> cases h
      · rw [hpc] at hholds
        cases b <;> exact hholds
      · intro h
        have hany := (Bool.and_eq_true_iff.mp h).2
        rw [Bool.or_eq_true_iff] at hany
        exact hany.imp_right Or.inl
      · intro h
        cases h
  | txHeadHalt hpc hp =>
      exfalso
      rw [hpc] at hholds
      obtain ⟨x, hx, _⟩ := hholds rfl
      rw [hp] at hx
      cases hx
  | txLeaveHalt hpc hp =>
      exfalso
      rw [hpc] at hholds
      obtain ⟨x, hx, hacked⟩ := hholds rfl
      rw [hp x hx] at hacked
      cases hacked
  | txSwitchHalt x xs hpc hp hstatus =>
      exact ⟨⟨hcoherent, hring.same rfl rfl rfl, hs.loop, hs.pendingTx,
        hs.entering, hs.holdsAcked, hs.needspoll, hs.pollEntry⟩, Or.inr rfl⟩
  | txEnter notFound x xs hpc hp hacked =>
      refine ⟨hs.congr hcoherent rfl rfl rfl rfl rfl rfl ?_ ?_ ?_ ?_ ?_, Or.inl rfl⟩
      · simp [hpc, ThreadPc.drains]
      · simp
      · intro _
        exact ⟨x, by rw [hp]; rfl, hacked⟩
      · simp [hpc]
      · simp
  | txPop hpc =>
      rw [hpc] at hholds
      obtain ⟨x, hx, hacked⟩ := hholds rfl
      obtain ⟨xs, hp⟩ := List.head?_eq_some_iff.mp hx
      have hunacked : unacked s.pending.tail = unacked s.pending := by
        rw [hp]
        exact (unacked_tail hacked).symm
      refine ⟨⟨hcoherent, hring.same rfl rfl hunacked, hs.loop, ?_, ?_, ?_, ?_, ?_⟩, Or.inl rfl⟩
      · intro h
        have := (hs.pendingTx h).2
        rw [hpc] at this
        cases this
      · rintro reg' (h | h) <;> cases h
      · intro h
        cases h
      · intro h
        have := hs.needspoll h
        simpa [hpc] using this
      · intro h
        cases h
  | flush r hpc pc hpc' =>
      rcases hpc' with rfl | rfl <;>
        exact ⟨hs.congr hcoherent rfl rfl rfl rfl rfl rfl (fun _ => rfl) (by simp)
          (by simp [ThreadPc.holdsAcked, ThreadPc.drains]) (by simp [hpc]) (by simp), Or.inl rfl⟩
  | disable b hpc =>
      refine ⟨hs.congr hcoherent rfl rfl rfl rfl rfl rfl ?_ ?_ ?_ ?_ ?_, Or.inl rfl⟩
      · cases b <;> simp [hpc, ThreadPc.drains]
      · simp
      · rw [hpc] at hholds
        cases b <;> exact hholds
      · intro _
        exact ⟨b, Or.inr rfl⟩
      · simp
  | enableTx hpc | txHead hpc | txSwitch _ _ _ hpc | txCall _ _ _ hpc | txCalled hpc | txFree hpc =>
      rw [hpc] at hholds
      exact ⟨hs.congr hcoherent rfl rfl rfl rfl rfl rfl (by simp [hpc, ThreadPc.drains]) (by simp)
        (fun _ => hholds rfl) (by simp [hpc]) (by simp), Or.inl rfl⟩
  | _ =>
      exact ⟨hs.congr hcoherent rfl rfl rfl rfl rfl rfl (by simp [ThreadPc.drains]) (by simp)
        (by simp [ThreadPc.holdsAcked, ThreadPc.drains]) (by simp [*]) (by simp), Or.inl rfl⟩

/-- No assertion about the state or the queue has failed; what may have failed is the one about the status of a frame. -/
def AssertionsHold (s : Sys) : Prop :=
  s.halted = none ∨ s.halted = some .pollStatus

theorem ready_step (hs : Ready s ∧ s.AssertionsHold) (hguard : s.undisturbed e) (h : step s e = some s') :
    Ready s' ∧ s'.AssertionsHold := by
  obtain ⟨hs, _⟩ := hs
  have hcoherent := coherent_step hs.toCoherent h
  have hring : RingRoom s := hs.toRingRoom
  obtain ⟨hrunning, hstep⟩ := step_cases h
  cases hstep with
  | send f hidle hf =>
      refine ⟨hs.sendStep hguard hf hidle, Or.inl ?_⟩
      rw [(sendStep_sends s f).halted, hrunning]
  | thread s' _ _ h =>
      obtain ⟨hs', hhalted⟩ := hs.thread (threadStep_cases h)
      rw [hrunning] at hhalted
      exact ⟨hs', hhalted⟩
  | handler s' h =>
      obtain ⟨hs', hhalted⟩ := hs.handler hguard (handlerStep_cases h)
      rw [hrunning] at hhalted
      exact ⟨hs', Or.inl hhalted⟩
  | poll reset hidle hnone hwait hpoll =>
      have hany : s.state.pendingRx = true ∨ s.state.pendingTx = true := by
        rcases hs.needspoll hpoll with h | h | ⟨b, h⟩
        · exact Or.inl h
        · exact Or.inr h
        · simp [hwait] at h
      refine ⟨⟨hcoherent, hring.same rfl rfl rfl, hs.loop, ?_, ?_, ?_, ?_, ?_⟩, Or.inl hrunning⟩
      · exact fun h => ⟨(hs.pendingTx h).1, rfl⟩
      · rintro reg (h | h) <;> cases h
      · intro h
        cases h
      · exact fun _ => hany.imp_right Or.inl
      · exact fun _ => hany
  | upper pb _ =>
      exact ⟨⟨hcoherent, hring.same rfl rfl rfl, hs.loop, hs.pendingTx,
        hs.entering, hs.holdsAcked, hs.needspoll, hs.pollEntry⟩, Or.inl hrunning⟩
  | sendPacket pb hup =>
      have hnone := hup.2.1
      have hlt : s.tx.usTxHead < s.tx.usTxListSize := by
        apply hring.head_lt
        intro f td hf
        rw [hnone] at hf
        cases hf
      have hunlinked : (s.sendPacket pb).unlinked = s.unlinked := by
        rw [unlinked_none hnone, unlinked_some (s := s.sendPacket pb) rfl]
        dsimp only
        split <;> rfl
      refine ⟨⟨hcoherent, hring.congr rfl rfl rfl (Nat.le_refl _) hunlinked hlt ?_, hs.loop, hs.pendingTx, hs.entering,
        hs.holdsAcked, hs.needspoll, hs.pollEntry⟩, Or.inl hrunning⟩
      intro f td hf
      obtain rfl := Option.some.inj hf
      dsimp only
      split <;> simp
  | interrupt hidle _ =>
      refine ⟨⟨hcoherent, hring.same rfl rfl rfl, ?_, hs.pendingTx,
        hs.entering, hs.holdsAcked, hs.needspoll, hs.pollEntry⟩, Or.inl hrunning⟩
      intro flag h
      cases h
  | _ =>
      exact ⟨⟨hcoherent, ⟨hring.one_lt, hring.tail, hring.head, hring.wrap, hring.room⟩, hs.loop, hs.pendingTx,
        hs.entering, hs.holdsAcked, hs.needspoll, hs.pollEntry⟩, Or.inl hrunning⟩

theorem ready_init (board : Board) : Ready (init board) := by
  have hpos := Nat.lt_trans Nat.zero_lt_one board.one_lt_txListSize
  refine ⟨coherent_init board, ⟨board.one_lt_txListSize, hpos, Or.inl hpos, ?_, Nat.zero_le _⟩, ?_, ?_, ?_, ?_, ?_, ?_⟩
  · intro f td hf
    cases hf
  · intro flag h
    cases h
  · intro h
    cases h
  · rintro reg (h | h) <;> cases h
  · intro h
    cases h
  · intro h
    cases h
  · intro h
    cases h

/-- **The queue and state assertions.** In every run in which the interrupt stays out of the windows named above, none of them fails. -/
theorem assertions_hold (board : Board) (es : List Event) (s : Sys)
    (hguard : Along step undisturbed (init board) es) (hrun : run step (init board) es = some s) :
    s.AssertionsHold :=
  (invariant_along undisturbed (fun s => Ready s ∧ s.AssertionsHold) (fun _ _ _ => ready_step) es
    ⟨ready_init board, Or.inl rfl⟩ hguard hrun).2

instance (s : Sys) : Decidable s.AssertionsHold :=
  inferInstanceAs (Decidable (_ ∨ _))

instance (s : Sys) (e : Event) : Decidable (s.undisturbed e) :=
  let atHandler (pc : HandlerPc) : Decidable (match pc with
      | .rxPart isr rsr _ => s.thread = .setIdle → (isr.rcomp || rsr.frameRec) = false
      | .txLoop _ => s.tx.used s.tx.usTxTail = true →
          s.thread.starting = false ∧ s.thread.drains = false ∧ ¬ (s.unlinked = 1 ∧ s.tx.remaining = 1)
      | _ => True) :=
    match pc with
    | .rxPart _ _ _ | .txLoop _ => inferInstanceAs (Decidable (_ → _))
    | .idle | .readRsr _ | .readTsr _ _ | .txPart _ _ => isTrue trivial
  let atStage (stage : SendStage) : Decidable (match stage with
      | .incStore _ v => s.tx.usTxHead = v
      | _ => True) :=
    match stage with
    | .incStore _ v => inferInstanceAs (Decidable (s.tx.usTxHead = v))
    | .alloc | .write | .spaceTail _ | .spaceHead _ _ | .busyHead _ | .busyDscr _ _ | .slot _ | .fill _ _ | .lastDscr _
    | .hand _ _ | .incLoad _ | .incTest _ | .incWrap _ | .start | .link | .free _ | .notify _ _ => isTrue trivial
  let atSending (sending : Option Sending) : Decidable (match sending with
      | some f => match f.stage with
        | .incStore _ v => s.tx.usTxHead = v
        | _ => True
      | none => True) :=
    match sending with
    | some f => atStage f.stage
    | none => isTrue trivial
  match e with
  | .handler => atHandler s.handler
  | .thread => atSending s.sending
  | .poll _ | .upper _ | .send _ | .interrupt | .txFinish _ | .txRaise | .rxFill _ _ | .rxRaise _ _ | .clobber _ _ =>
    isTrue trivial

/-- One frame sent, finished, reported and polled. -/
private def frameSent : List Event :=
  startUp ++ sendOne (packetTo 0x0A) ++ [.txFinish .none, .txRaise] ++ interrupted 5 ++ .poll true :: threadSteps 16

theorem assertions_hold_frameSent :
    ∃ s, run step (init sam4expro) frameSent = some s ∧ s.sent.length = 1 ∧ s.AssertionsHold := by
  have hrun : (run step (init sam4expro) frameSent).any (fun s => s.sent.length == 1) = true := by
    decide +kernel
  obtain ⟨s, hs, hsent⟩ := exists_run hrun
  exact ⟨s, hs, by simpa using hsent, assertions_hold sam4expro frameSent s (by decide +kernel) hs⟩

/-- The frame is finished and reported after its descriptor has been handed over and before `list_add`. -/
private def finishedEarly : List Event :=
  startUp ++ .send (packetTo 0x0A) :: threadSteps 12 ++ [.txFinish .none, .txRaise] ++ interrupted 5

/-- The TX callback finds the pending list empty. -/
theorem assertion_fails : ∃ es s, run step (init sam4expro) es = some s ∧ ¬ s.AssertionsHold := by
  have hrun : (run step (init sam4expro) finishedEarly).any (fun s => !decide s.AssertionsHold) = true := by
    decide +kernel
  obtain ⟨s, hs, hfailed⟩ := exists_run hrun
  exact ⟨finishedEarly, s, hs, by simpa using hfailed⟩

end Sys

end ContikiAtsam
