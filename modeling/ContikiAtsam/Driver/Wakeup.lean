import ContikiAtsam.Driver.Acked
import ContikiAtsam.Gmac.Arrival
import ContikiAtsam.Gmac.Unread

/-!
# Wake-ups

A frame that the handler has reported is taken care of by the poll handler, and the poll handler runs because a pending flag and `needspoll` are set. The poll handler clears a flag with a load and a store, so a flag that the handler sets in between is lost. Its receive loop ends at the first read that returns no frame: if there is none, the ring holds no complete frame any more, but a frame that is cut off or too long ends the loop, too, with those behind it still there.
-/

namespace ContikiAtsam

def Branch.other : Branch → Branch
  | .rx => .tx
  | .tx => .rx

/-- The thread will go on reading the receive ring until a read returns no frame. -/
def ThreadPc.reads : ThreadPc → Bool
  | .paused | .flush | .disable .rx | .unpoll .rx | .enable .rx | .rxClear | .rxRead | .rxInput => true
  | .rxTest rxStatus _ => decide (rxStatus = .ok)
  | _ => false

namespace Sys

variable {s s' : Sys} {e : Event}

/-- The receive ring holds a complete frame. -/
def HoldsFrame (s : Sys) : Prop := ∃ i < s.rx.usRxListSize, ∃ len < s.rx.usRxListSize, s.rx.Frame i len

/-- The receive ring holds a complete frame whose interrupt has been served. -/
def ServedFrame (s : Sys) : Prop :=
  ∃ i < s.rx.usRxListSize, ∃ len < s.rx.usRxListSize, s.rx.Frame i len ∧
    ∀ k ≤ len, s.served ((i + k) % s.rx.usRxListSize) = true

/-- No complete frame whose interrupt has been served lies in the ring behind one that is cut off, or too long for its buffers or for the packet buffer. -/
def Unobstructed (s : Sys) : Prop :=
  ∀ p < s.rx.usRxListSize, ∀ len < s.rx.usRxListSize, p + len < s.rx.usRxListSize → s.rx.FrameAt p len →
    (∀ k ≤ len, s.served ((s.rx.usRxIdx + (p + k)) % s.rx.usRxListSize) = true) → s.rx.ClearTo ethernetMaxFrameLen p

/-- **No wake-up is lost.** Outside the poll handler and the interrupt handler, what waits for the poll handler has its flag set, and `needspoll`. -/
def WakesUp (s : Sys) : Prop :=
  s.thread = .waiting → s.handler = .idle →
    (s.AckedElement → s.state.pendingTx = true ∧ s.needspoll = true) ∧
    (s.ServedFrame → s.state.pendingRx = true ∧ s.needspoll = true)

/-- Where a wake-up can be lost: a clear of one pending flag stores the other as it is at that time; `gmac_dev_read` is not called, by the flush loop or by the receive loop with `PENDING_RX` clear, when a frame stands in the way of one whose interrupt has been served; and between the flush loop and `gmac_dev_set_rx_callback` the handler serves no complete frame. -/
def keepsFlags (s : Sys) : Event → Prop
  | .thread => s.sending = none →
    match s.thread with
    | .store b reg => reg.pending b.other = s.state.pending b.other
    | .flush => s.Unobstructed
    | .rxRead => s.state.pendingRx = false → s.Unobstructed
    | _ => True
  | .handler => s.thread = .setRxCallback →
    match s.handler with
    | .rxPart isr rsr _ => (isr.rcomp || rsr.frameRec) = true → ¬ s.HoldsFrame
    | _ => True
  | _ => True

/-! ### The software's part of the ring -/

/-- The buffers that the software owns reach from the index of `gmac_dev_read` to where the hardware stores the next one. -/
def Filled (s : Sys) : Prop :=
  ∃ bufs, s.rx.Shows bufs ∧ s.hwRx = (s.rx.usRxIdx + bufs.length) % s.rx.usRxListSize

theorem filled_init (board : Board) : Filled (init board) := by
  refine ⟨[], RxRing.shows_resetMem _ _ board.one_lt_rxListSize, ?_⟩
  exact (Nat.zero_mod _).symm

theorem Filled.of_eq (h : s.Filled) (hrx : s'.rx = s.rx) (hhw : s'.hwRx = s.hwRx) : s'.Filled := by
  unfold Filled
  rw [hrx, hhw]
  exact h

theorem Filled.fill (h : s.Filled) (hfree : (s.rx.pRxDscr s.hwRx).owned = false) (status : UInt32) (bytes : List UInt8) :
    (s.hwRxFill status bytes).Filled := by
  obtain ⟨bufs, hshows, hhw⟩ := h
  have hpos : 0 < s.rx.usRxListSize := Nat.zero_lt_of_lt hshows.idx_lt
  have hlt : bufs.length < s.rx.usRxListSize := by
    by_contra hfull
    have hown := (hshows.shown 0 (by omega)).1
    have hall : bufs.length = s.rx.usRxListSize := Nat.le_antisymm hshows.length_le (Nat.le_of_not_lt hfull)
    rw [hhw, hall, Nat.add_mod_right] at hfree
    rw [RxRing.nth, Nat.add_zero, hfree] at hown
    cases hown
  have hstays : (s.hwRxFill status bytes).rx.usRxIdx < (s.hwRxFill status bytes).rx.usRxListSize := hshows.idx_lt
  have howned : ∀ i < (s.hwRxFill status bytes).rx.usRxListSize,
      ((s.hwRxFill status bytes).rx.nth i).owned = decide (i < bufs.length + 1) := by
    intro i hi
    change (Function.update s.rx.pRxDscr s.hwRx _ ((s.rx.usRxIdx + i) % s.rx.usRxListSize)).owned = _
    by_cases hself : i = bufs.length
    · rw [hself, ← hhw, Function.update_self, owned_or, decide_eq_true (Nat.lt_succ_self _)]
    · have hne : (s.rx.usRxIdx + i) % s.rx.usRxListSize ≠ s.hwRx := fun heq =>
        hself (Ring.index_inj hi hlt (heq.trans hhw))
      rw [Function.update_of_ne hne]
      exact (hshows.owned_eq hi).trans (decide_eq_decide.mpr (by omega))
  have htwo : 2 ≤ (s.hwRxFill status bytes).rx.usRxListSize := hshows.two_le
  obtain ⟨bufs', hlen, hshows'⟩ := RxRing.shows_of_owned htwo hstays hlt howned
  refine ⟨bufs', hshows', ?_⟩
  change circInc s.hwRx s.rx.usRxListSize = (s.rx.usRxIdx + bufs'.length) % s.rx.usRxListSize
  rw [hhw, circInc_mod _ hpos, hlen, Nat.add_assoc]

section Read

variable {frame : Memory} {pFrame : Nat} {r : ReadResult}

theorem Filled.read (h : s.Filled) (hread : gmacDevRead s.rx frame pFrame ethernetMaxFrameLen = some r)
    (hrx : s'.rx = r.dev) (hhw : s'.hwRx = s.hwRx) : s'.Filled := by
  obtain ⟨bufs, hshows, hhwRx⟩ := h
  obtain ⟨rest, hrest, hshows', hsize, _⟩ := gmacDevRead_rest hshows hread
  have hidx := gmacDevRead_idx hshows hread
  rw [← hrest] at hidx
  refine ⟨rest, hrx ▸ hshows', ?_⟩
  rw [hhw, hrx, hsize, hidx, hhwRx]

/-- **A read that returns no frame drains the ring**: what is left of frames whose interrupt has been served lay behind an obstruction. -/
theorem Filled.drained (h : s.Filled) (hread : gmacDevRead s.rx frame pFrame ethernetMaxFrameLen = some r)
    (hstatus : r.status ≠ .ok) (hclear : s.Unobstructed) (hrx : s'.rx = r.dev) (hserved : s'.served = s.served) :
    ¬ s'.ServedFrame := by
  obtain ⟨bufs, hshows, _⟩ := h
  obtain ⟨_, _, _, hsize, _⟩ := gmacDevRead_rest hshows hread
  rintro ⟨i, hi, len, hlen, hframe, hmarks⟩
  rw [hrx] at hi hlen hframe hmarks
  rw [hsize] at hi hlen hmarks
  rw [hserved] at hmarks
  obtain ⟨p, hp, hfound, hblocked, hplace⟩ := gmacDevRead_leaves hshows hread hstatus hi hframe
  refine hblocked (hclear p (by omega) len hlen hp hfound fun k hk => ?_)
  rw [hplace k]
  exact hmarks k hk

end Read

/-! ### Invariant -/

theorem keepsPendingTx_of_keepsFlags (h : s.keepsFlags e) : s.keepsPendingTx e := by
  cases e with
  | thread =>
      intro hnone
      have hflags := h hnone
      split
      · next reg hpc =>
        rw [hpc] at hflags
        exact hflags
      · trivial
  | _ => trivial

structure Awake (s : Sys) : Prop extends Announced s where
  filled : s.Filled
  rx : s.ServedFrame → s.state.pendingRx = true ∨ s.thread.reads = true
  polled : ∀ b, s.state.pending b = true → s.needspoll = true ∨ s.thread.beforeClear b = true

theorem Awake.wakesUp (hs : Awake s) : WakesUp s := by
  intro hwaiting _
  constructor
  · intro hacked
    have htx := hs.acked hacked
    have hpolled := hs.polled .tx
    simp only [hwaiting, ThreadPc.drains, ThreadPc.beforeClear, ThreadPc.receives, Bool.false_eq_true, or_false]
      at htx hpolled
    exact ⟨htx, hpolled htx⟩
  · intro hserved
    have hrx := hs.rx hserved
    have hpolled := hs.polled .rx
    simp only [hwaiting, ThreadPc.reads, ThreadPc.beforeClear, Bool.false_eq_true, or_false] at hrx hpolled
    exact ⟨hrx, hpolled hrx⟩

theorem awake_init (board : Board) : Awake (init board) := by
  refine ⟨announced_init board, filled_init board, ?_, ?_⟩
  · rintro ⟨i, _, len, _, _, hserved⟩
    cases hserved 0 (Nat.zero_le _)
  · intro b h
    cases b <;> cases h

/-- Filling a buffer completes no frame that the handler has served. -/
theorem servedFrame_of_fill {status : UInt32} {bytes : List UInt8} (h : (s.hwRxFill status bytes).ServedFrame) :
    s.ServedFrame := by
  obtain ⟨i, hi, len, hlen, hframe, hserved⟩ := h
  have hne (k : Nat) (hk : k ≤ len) : (i + k) % s.rx.usRxListSize ≠ s.hwRx := by
    intro heq
    have := hserved k hk
    change Function.update s.served s.hwRx false ((i + k) % s.rx.usRxListSize) = true at this
    rw [heq, Function.update_self] at this
    cases this
  refine ⟨i, hi, len, hlen, ?_, ?_⟩
  · intro k hk
    have hold : (s.hwRxFill status bytes).rx.pRxDscr ((i + k) % s.rx.usRxListSize) =
        s.rx.pRxDscr ((i + k) % s.rx.usRxListSize) := Function.update_of_ne (hne k hk) _ _
    have hpart : ((s.hwRxFill status bytes).rx.pRxDscr ((i + k) % s.rx.usRxListSize)).Part k len := hframe k hk
    rwa [hold] at hpart
  · intro k hk
    have hmark : Function.update s.served s.hwRx false ((i + k) % s.rx.usRxListSize) = true := hserved k hk
    rwa [Function.update_of_ne (hne k hk)] at hmark

theorem Awake.sendStep (hs : Awake s) (f : Sending) : Awake (s.sendStep f) := by
  have hsends := sendStep_sends s f
  refine ⟨hs.toAnnounced.sendStep f, hs.filled.of_eq hsends.rx hsends.hwRx, ?_, ?_⟩
  · unfold ServedFrame
    rw [hsends.state, hsends.thread, hsends.rx, hsends.served]
    exact hs.rx
  · rw [hsends.state, hsends.thread, hsends.needspoll]
    exact hs.polled

theorem Awake.handler (hs : Awake s) (hkeeps : s.keepsFlags .handler) (h : Handler s s') : Awake s' := by
  have hannounced := hs.toAnnounced.handler h
  cases h with
  | rxUnheard isr rsr tsr hpc hrec hcb =>
      refine ⟨hannounced, hs.filled, ?_, hs.polled⟩
      rintro ⟨i, hi, len, hlen, hframe, _⟩
      right
      change s.thread.reads = true
      have hunheard := hs.funcRxCb
      rw [hcb] at hunheard
      cases hthread : s.thread with
      | paused | flush => rfl
      | setRxCallback =>
          have hnone := hkeeps hthread
          rw [hpc] at hnone
          exact absurd ⟨i, hi, len, hlen, hframe⟩ (hnone hrec)
      | _ => simp [hthread, ThreadPc.unheard] at hunheard
  | rxReport => exact ⟨hannounced, hs.filled, fun _ => Or.inl rfl, fun _ _ => Or.inl rfl⟩
  | txAck => exact ⟨hannounced, hs.filled, hs.rx, fun _ _ => Or.inl rfl⟩
  | _ => exact ⟨hannounced, hs.filled, hs.rx, hs.polled⟩

theorem Awake.congr (hs : Awake s) (hannounced : Announced s') (hstate : s'.state = s.state)
    (hneeds : s'.needspoll = s.needspoll) (hrx : s'.rx = s.rx) (hhw : s'.hwRx = s.hwRx) (hserved : s'.served = s.served)
    (hreads : s.thread.reads = true → s'.thread.reads = true)
    (hbefore : ∀ b, s.thread.beforeClear b = true → s'.thread.beforeClear b = true) : Awake s' := by
  refine ⟨hannounced, hs.filled.of_eq hrx hhw, ?_, ?_⟩
  · unfold ServedFrame
    rw [hstate, hrx, hserved]
    exact fun h => (hs.rx h).imp_right hreads
  · rw [hstate, hneeds]
    exact fun b h => (hs.polled b h).imp_right (hbefore b)

theorem Awake.thread (hs : Awake s) (hnone : s.sending = none) (hkeeps : s.keepsFlags .thread) (h : Thread s s') :
    Awake s' := by
  have hannounced := hs.toAnnounced.thread hnone (keepsPendingTx_of_keepsFlags hkeeps) h
  have hkeeps := hkeeps hnone
  have hrx := hs.rx
  have hpolled := hs.polled
  cases h with
  | flush r hpc pc hpc' hread hlast =>
      rw [hpc] at hkeeps hpolled
      refine ⟨hannounced, hs.filled.read hread rfl rfl, fun hserved => ?_, ?_⟩
      · rcases hpc' with rfl | rfl
        · exact Or.inr rfl
        · exact absurd hserved (hs.filled.drained hread (hlast rfl) hkeeps rfl rfl)
      · intro b h
        apply (hpolled b h).imp_right
        cases b <;> simp [ThreadPc.beforeClear, ThreadPc.receives]
  | setIdle hpc =>
      have hsilent := hs.silent (by rw [hpc]; rfl)
      rw [hpc] at hrx
      refine ⟨hannounced, hs.filled, fun h => ?_, ?_⟩
      · rcases hrx h with hflag | hreads
        · exact absurd (hflag.symm.trans hsilent.2.1) (by decide)
        · cases hreads
      · intro b h
        cases b <;> cases h
  | skipRx hpc hflag =>
      rw [hpc] at hrx
      refine ⟨hannounced, hs.filled, hrx, ?_⟩
      intro b h
      cases b with
      | rx => exact absurd (h.symm.trans hflag) (by simp)
      | tx => exact Or.inr rfl
  | skipTx hpc hflag =>
      rw [hpc] at hrx hpolled
      refine ⟨hannounced, hs.filled, hrx, ?_⟩
      intro b h
      cases b with
      | rx => exact hpolled .rx h
      | tx => exact absurd (h.symm.trans hflag) (by simp)
  | store b reg hpc =>
      rw [hpc] at hkeeps hrx hpolled
      cases b with
      | rx =>
          refine ⟨hannounced, hs.filled, fun _ => Or.inr rfl, ?_⟩
          intro b' h
          cases b' with
          | rx => cases h
          | tx => exact Or.inr rfl
      | tx =>
          have hother : reg.pendingRx = s.state.pendingRx := hkeeps
          refine ⟨hannounced, hs.filled, ?_, ?_⟩
          · intro h
            exact Or.inl (hother.trans ((hrx h).resolve_right (by simp [ThreadPc.reads])))
          · intro b' h
            cases b' with
            | rx => exact Or.inl ((hpolled .rx (hother.symm.trans h)).resolve_right (by simp [ThreadPc.beforeClear]))
            | tx => cases h
  | unpoll b hpc =>
      rw [hpc] at hrx hpolled
      refine ⟨hannounced, hs.filled, ?_, ?_⟩
      · intro h
        apply (hrx h).imp_right
        cases b <;> simp [ThreadPc.reads]
      · intro b' h
        have hany : (s.state.pendingRx || s.state.pendingTx) = true := by
          cases b' with
          | rx => exact Bool.or_eq_true_iff.mpr (Or.inl h)
          | tx => exact Bool.or_eq_true_iff.mpr (Or.inr h)
        rw [hany, Bool.and_true]
        apply (hpolled b' h).imp_right
        cases b <;> cases b' <;> simp [ThreadPc.beforeClear, ThreadPc.receives]
  | rxRead r hpc hread =>
      rw [hpc] at hkeeps hpolled
      refine ⟨hannounced, hs.filled.read hread rfl rfl, fun hserved => ?_, ?_⟩
      · -- A read that returns no frame leaves none, unless the flag has been set again.
        by_cases hstatus : r.status = .ok
        · exact Or.inr (decide_eq_true hstatus)
        · left
          by_contra hflag
          have hclear := hkeeps (Bool.eq_false_of_not_eq_true hflag)
          refine absurd hserved (hs.filled.drained hread hstatus hclear rfl rfl)
      · intro b h
        apply (hpolled b h).imp_right
        cases b <;> simp [ThreadPc.beforeClear, ThreadPc.receives]
  | rxLeave rxStatus rxLen hpc hstatus =>
      rw [hpc] at hrx hpolled
      refine ⟨hannounced, hs.filled, fun h => Or.inl ((hrx h).resolve_right ?_), ?_⟩
      · simpa [ThreadPc.reads] using hstatus
      · intro b h
        apply (hpolled b h).imp_right
        cases b <;> simp [ThreadPc.beforeClear, ThreadPc.receives]
  | pollHalt | txHeadHalt | txLeaveHalt | txSwitchHalt => exact ⟨hannounced, hs.filled, hrx, hpolled⟩
  | enter b hpc | load b hpc | disable b hpc =>
      apply hs.congr hannounced rfl rfl rfl rfl rfl
      · cases b <;> simp [ThreadPc.reads, hpc]
      · intro b'
        cases b <;> cases b' <;> simp [ThreadPc.beforeClear, ThreadPc.receives, hpc]
  | _ =>
      apply hs.congr hannounced rfl rfl rfl rfl rfl
      · simp [ThreadPc.reads, *]
      · intro b
        cases b <;> simp [ThreadPc.beforeClear, ThreadPc.receives, *]

theorem awake_step (hs : Awake s) (hkeeps : s.keepsFlags e) (h : step s e = some s') : Awake s' := by
  have hannounced := announced_step hs.toAnnounced (keepsPendingTx_of_keepsFlags hkeeps) h
  obtain ⟨_, hstep⟩ := step_cases h
  cases hstep with
  | send f => exact hs.sendStep f
  | thread s' _ hnone h => exact hs.thread hnone hkeeps (threadStep_cases h)
  | handler s' h => exact hs.handler hkeeps (handlerStep_cases h)
  | poll reset _ _ hwait _ =>
      refine ⟨hannounced, hs.filled, ?_, ?_⟩
      · intro h
        apply (hs.rx h).imp_right
        simp [ThreadPc.reads, hwait]
      · intro b _
        right
        cases b <;> rfl
  | rxFill status bytes hfree =>
      exact ⟨hannounced, hs.filled.fill hfree status bytes, fun h => hs.rx (servedFrame_of_fill h), hs.polled⟩
  | _ => exact ⟨hannounced, hs.filled, hs.rx, hs.polled⟩

/-- **No lost wake-up.** In every run in which no step loses one by itself, none is lost in any state reached. -/
theorem wakes_up (board : Board) (es : List Event) (s : Sys)
    (hkeeps : Along step keepsFlags (init board) es) (hrun : run step (init board) es = some s) : s.WakesUp :=
  (invariant_along keepsFlags Awake (fun _ _ _ => awake_step) es (awake_init board) hkeeps hrun).wakesUp

instance (td : RxDescriptor) (k len : Nat) : Decidable (td.Part k len) :=
  inferInstanceAs (Decidable (_ ∧ _ ∧ _))

instance (dev : RxRing) (i len : Nat) : Decidable (dev.Frame i len) :=
  inferInstanceAs (Decidable (∀ k ≤ len, (dev.pRxDscr ((i + k) % dev.usRxListSize)).Part k len))

instance (s : Sys) : Decidable s.ServedFrame :=
  inferInstanceAs (Decidable (∃ i < s.rx.usRxListSize, ∃ len < s.rx.usRxListSize, s.rx.Frame i len ∧
    ∀ k ≤ len, s.served ((i + k) % s.rx.usRxListSize) = true))

instance (s : Sys) : Decidable s.WakesUp :=
  inferInstanceAs (Decidable (_ → _ → _))

instance (dev : RxRing) (p len : Nat) : Decidable (dev.FrameAt p len) :=
  inferInstanceAs (Decidable (∀ k ≤ len, (dev.nth (p + k)).Part k len))

instance (cap : Nat) (dev : RxRing) (p : Nat) : Decidable (dev.ClearTo cap p) :=
  inferInstanceAs (Decidable (∀ q < p, (dev.nth q).sof = true → ∃ len < p - q, dev.FrameAt q len ∧ _ ≤ _))

instance (s : Sys) : Decidable s.HoldsFrame :=
  inferInstanceAs (Decidable (∃ i < s.rx.usRxListSize, ∃ len < s.rx.usRxListSize, s.rx.Frame i len))

instance (s : Sys) : Decidable s.Unobstructed :=
  inferInstanceAs (Decidable (∀ p < s.rx.usRxListSize, ∀ len < s.rx.usRxListSize, p + len < s.rx.usRxListSize →
    s.rx.FrameAt p len → (∀ k ≤ len, s.served ((s.rx.usRxIdx + (p + k)) % s.rx.usRxListSize) = true) → s.rx.ClearTo _ p))

instance (s : Sys) (e : Event) : Decidable (s.keepsFlags e) :=
  let atThread (pc : ThreadPc) : Decidable (match pc with
      | .store b reg => reg.pending b.other = s.state.pending b.other
      | .flush => s.Unobstructed
      | .rxRead => s.state.pendingRx = false → s.Unobstructed
      | _ => True) :=
    match pc with
    | .store _ _ => inferInstanceAs (Decidable (_ = _))
    | .flush => inferInstanceAs (Decidable s.Unobstructed)
    | .rxRead => inferInstanceAs (Decidable (_ → s.Unobstructed))
    | .paused | .setRxCallback | .setIdle | .waiting | .pollEntry | .check _ | .load _ | .disable _ | .unpoll _ | .enable _
    | .rxClear | .rxTest _ _ | .rxInput | .txHead | .txTest _ | .txSwitch | .txCall _ | .txCalled | .txFree | .txPop =>
      isTrue trivial
  let atHandler (pc : HandlerPc) : Decidable (match pc with
      | .rxPart isr rsr _ => (isr.rcomp || rsr.frameRec) = true → ¬ s.HoldsFrame
      | _ => True) :=
    match pc with
    | .rxPart _ _ _ => inferInstanceAs (Decidable (_ → ¬ _))
    | .idle | .readRsr _ | .readTsr _ _ | .txPart _ _ | .txLoop _ => isTrue trivial
  match e with
  | .thread => @instDecidableForall _ _ _ (atThread s.thread)
  | .handler => @instDecidableForall _ _ _ (atHandler s.handler)
  | .poll _ | .upper _ | .send _ | .interrupt | .txFinish _ | .txRaise | .rxFill _ _ | .rxRaise _ _ | .clobber _ _ =>
    isTrue trivial

/-- A frame received, read and handed on, then a frame sent and reported. -/
private def receiveThenSend : List Event :=
  startUp ++ receiveOne ++ .poll true :: threadSteps 15 ++ sendOne (packetTo 0x0A) ++ [.txFinish .none, .txRaise] ++
    interrupted 5

theorem wakes_up_receiveThenSend :
    ∃ s, run step (init sam4expro) receiveThenSend = some s ∧ s.thread = .waiting ∧ s.AckedElement ∧ s.WakesUp := by
  have hrun : (run step (init sam4expro) receiveThenSend).any
      (fun s => decide (s.thread = .waiting ∧ s.AckedElement)) = true := by
    decide +kernel
  obtain ⟨s, hs, hstate⟩ := exists_run hrun
  obtain ⟨hwaiting, hacked⟩ := of_decide_eq_true hstate
  exact ⟨s, hs, hwaiting, hacked, wakes_up sam4expro receiveThenSend s (by decide +kernel) hs⟩

/-- A transmission is reported between the load and the store of `state &= ~PENDING_RX`. -/
private def flagLost : List Event :=
  startUp ++ sendOne (packetTo 0x0A) ++ receiveOne ++ .poll true :: threadSteps 3 ++ [.txFinish .none, .txRaise] ++
    interrupted 5 ++ threadSteps 12

/-- The poll handler returns with an acknowledged element and no pending flag. -/
theorem wake_up_lost : ∃ es s, run step (init sam4expro) es = some s ∧ ¬ s.WakesUp := by
  have hrun : (run step (init sam4expro) flagLost).any (fun s => !decide s.WakesUp) = true := by
    decide +kernel
  obtain ⟨s, hs, hlost⟩ := exists_run hrun
  exact ⟨flagLost, s, hs, by simpa using hlost⟩

end Sys

end ContikiAtsam
