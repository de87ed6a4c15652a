import ContikiAtsam.Driver.Accounting
import ContikiAtsam.Driver.Acked
import ContikiAtsam.Driver.Tracking

/-!
# Every call is called back

Where a run comes to rest every call of `send_packet` has had its callback, if no step has put the ring and the list out of step. Four steps do: the retry limit, for which the handler resets the ring without a word to the driver; a frame written into a full ring; an interrupt served between the write of a descriptor and the store of the head, for a frame finished in between; and the clear of `PENDING_RX` that takes `PENDING_TX` with it.

Besides, while the handler is on its way it either sees all the frames that the hardware has finished or an interrupt is still to come.
-/

namespace ContikiAtsam.Sys

variable {s s' : Sys} {e : Event} {T F H : Nat}

/-- The hardware has finished a frame since the last interrupt was taken. -/
def Owed (s : Sys) : Prop := s.due.txcomp = true ∨ s.isr.tcomp = true

/-- The handler will see the frames finished so far, or run again. -/
def InTime (s : Sys) (T F H : Nat) : Prop :=
  match s.handler with
  | .idle => s.Owed ∨ F = T
  | .readRsr isr | .readTsr isr _ => s.Owed ∨ F = T ∨ isr.tcomp = true ∧ F ≤ H - s.hidden
  | .rxPart isr _ tsr | .txPart isr tsr =>
    tsr.rle = false ∧ (s.Owed ∨ F = T ∨ isr.tcomp = true ∧ F ≤ H - s.hidden)
  | .txLoop _ => T < H - s.hidden ∧ (s.Owed ∨ F ≤ H - s.hidden)

structure Serves (s : Sys) (T F H : Nat) : Prop extends Tracks s T F H where
  due : s.due.rle = false
  tsr : s.tsr.rle = false
  inTime : s.InTime T F H

/-- No step puts ring and list out of step: no retry limit; no frame into a full ring; no interrupt for a frame whose descriptor is handed over and the head not moved; and no `PENDING_TX` lost. -/
def keepsTrack (s : Sys) : Event → Prop
  | .txFinish outcome => outcome.rle = false
  | .interrupt => ∀ f ∈ s.sending, ∀ td ∈ f.stage.handed, s.tx.used td = true → s.due.txcomp = true
  | .thread =>
    (∀ f ∈ s.sending, f.stage.hands = true → circSpace s.tx.usTxHead s.tx.usTxTail s.tx.usTxListSize ≠ 0) ∧
      s.keepsPendingTx .thread
  | _ => True

/-- The hardware has finished every frame and raised its interrupts, they have been served, and the poll handler has left no flag. -/
def Settled (s : Sys) : Prop :=
  (∀ i < s.tx.usTxListSize, s.tx.used i = true) ∧ s.due.txcomp = false ∧ s.isr = ⟨false, false⟩ ∧ s.handler = .idle ∧
    s.thread = .waiting ∧ s.state.pendingRx = false ∧ s.state.pendingTx = false

/-- **Each call is called back once**, at most once in any state, in the order of acceptance, and exactly once where the system has settled. -/
def CallsBack (s : Sys) : Prop :=
  s.calledBack.Nodup ∧ s.polledBack <+: s.accepted ∧
    (s.Settled → (s.calledBack ++ s.inProgress).Perm (List.range s.submitted.length))

theorem keepsPendingTx_of_keepsTrack (h : s.keepsTrack e) : s.keepsPendingTx e := by
  cases e with
  | thread => exact h.2
  | _ => trivial

/-! ### The handler is in time -/

theorem InTime.mono {F' : Nat} (h : s.InTime T F H) (hhandler : s'.handler = s.handler)
    (hsending : s'.sending = s.sending) (howed : s.Owed → s'.Owed) (hF : s'.Owed ∨ F' = F) : s'.InTime T F' H := by
  have hhidden := hidden_congr hsending
  unfold InTime at h ⊢
  rw [hhandler, hhidden]
  rcases hF with hF | rfl
  · split at h
    · exact Or.inl hF
    · exact Or.inl hF
    · exact Or.inl hF
    · exact ⟨h.1, Or.inl hF⟩
    · exact ⟨h.1, Or.inl hF⟩
    · exact ⟨h.1, Or.inl hF⟩
  · split at h
    · exact h.imp_left howed
    · exact h.imp_left howed
    · exact h.imp_left howed
    · exact ⟨h.1, h.2.imp_left howed⟩
    · exact ⟨h.1, h.2.imp_left howed⟩
    · exact ⟨h.1, h.2.imp_left howed⟩

theorem Serves.congr (hs : Serves s T F H) (htracks : Tracks s' T F H) (hhandler : s'.handler = s.handler)
    (hsending : s'.sending = s.sending) (hdue : s'.due = s.due) (htsr : s'.tsr = s.tsr)
    (hisr : s'.isr.tcomp = s.isr.tcomp) : Serves s' T F H := by
  refine ⟨htracks, by rw [hdue]; exact hs.due, by rw [htsr]; exact hs.tsr, ?_⟩
  refine hs.inTime.mono hhandler hsending ?_ (Or.inr rfl)
  rw [Owed, Owed, hdue, hisr]
  exact id

theorem serves_init (board : Board) : Serves (init board) 0 0 0 :=
  ⟨tracks_init board, rfl, rfl, Or.inr rfl⟩

theorem Serves.idle (hs : Serves s T F H) (hidle : s.handler = .idle) : s.Owed ∨ F = T := by
  have h := hs.inTime
  rw [InTime, hidle] at h
  exact h

theorem Serves.sendStep (hs : Serves s T F H) {f : Sending} (hidle : s.handler = .idle) (hf : s.sending = some f)
    (hkeeps : s.keepsTrack .thread) : ∃ H', Serves (s.sendStep f) T F H' := by
  have hsends := sendStep_sends s f
  have hspace : ∀ td wrap, f.stage = .hand td wrap →
      circSpace s.tx.usTxHead s.tx.usTxTail s.tx.usTxListSize ≠ 0 := by
    intro td wrap hstage
    exact hkeeps.1 f hf (by rw [hstage]; rfl)
  refine ⟨_, hs.toTracks.sendStep hf hspace, by rw [hsends.due]; exact hs.due, by rw [hsends.tsr]; exact hs.tsr, ?_⟩
  rw [InTime, hsends.handler, hidle, Owed, hsends.due, hsends.isr]
  exact hs.idle hidle

/-- The handler sees every frame finished so far when its interrupt is taken, or it runs again. -/
theorem Serves.visible (hs : Serves s T F H) (hkeeps : s.keepsTrack .interrupt) :
    s.due.txcomp = true ∨ F ≤ H - s.hidden := by
  have hfinished := hs.finished
  have hlist := hs.list
  cases hf : s.sending with
  | none =>
      right
      simp only [hidden, hf]
      exact hfinished
  | some f =>
      have hfits := hs.fits
      simp only [Sys.fits, hf] at hfits
      cases hhanded : f.stage.handed with
      | none =>
          right
          simp only [hidden, hf, hhanded]
          exact hfinished
      | some td =>
          have hhidden : s.hidden = 1 := by simp [hidden, hf, hhanded]
          have hover := Tracks.hidden_le s
          rcases Nat.lt_or_ge (H - 1) F with hlast | hin
          · left
            apply hkeeps f hf td hhanded
            rw [hfits.handed hhanded, hs.used_iff (by omega) (by omega)]
            exact hlast
          · right
            omega

theorem Serves.interrupt (hs : Serves s T F H) (hidle : s.handler = .idle) (hkeeps : s.keepsTrack .interrupt) :
    Serves { s with isr := ⟨false, false⟩, handler := .readRsr s.isr } T F H := by
  refine ⟨hs.toTracks.congr rfl rfl rfl rfl, hs.due, hs.tsr, ?_⟩
  change Owed _ ∨ F = T ∨ s.isr.tcomp = true ∧ F ≤ H - s.hidden
  rcases hs.idle hidle with (hdue | hisr) | hnone
  · exact Or.inl (Or.inl hdue)
  · rcases hs.visible hkeeps with hdue | hvisible
    · exact Or.inl (Or.inl hdue)
    · exact Or.inr (Or.inr ⟨hisr, hvisible⟩)
  · exact Or.inr (Or.inl hnone)

theorem Serves.release (hs : Serves s T F H) {flag : UInt32} (hpc : s.handler = .txLoop flag)
    (hused : s.tx.used s.tx.usTxTail = true) (htx : s'.tx = s.tx) (hhw : s'.hwTx = s.hwTx)
    (hsending : s'.sending = s.sending) (hdue : s'.due = s.due) (htsr : s'.tsr = s.tsr) (hisr : s'.isr = s.isr)
    (hpending : unacked s.pending = unacked s'.pending + 1) : Serves (s'.releaseTail flag) (T + 1) F H := by
  have hin := hs.inTime
  rw [InTime, hpc] at hin
  obtain ⟨hlt, hin⟩ := hin
  have hfinished := (hs.used_tail_iff (by omega)).mp hused
  refine ⟨hs.toTracks.release hfinished htx hhw hsending hpending, ?_, ?_, ?_⟩
  · exact (congrArg Tsr.rle hdue).trans hs.due
  · exact (congrArg Tsr.rle htsr).trans hs.tsr
  have howed : (s'.releaseTail flag).Owed ↔ s.Owed := by
    change (s'.due.txcomp = true ∨ s'.isr.tcomp = true) ↔ _
    rw [hdue, hisr]
    exact Iff.rfl
  have hhidden : (s'.releaseTail flag).hidden = s.hidden := hidden_congr hsending
  unfold InTime
  rw [howed, hhidden, hs.releaseTail_handler hlt htx]
  by_cases hlast : H - s.hidden = T + 1
  · rw [if_pos hlast]
    apply hin.imp_right
    omega
  · rw [if_neg hlast]
    exact ⟨by omega, hin⟩

theorem Serves.handler (hs : Serves s T F H) (h : Handler s s') : ∃ T', Serves s' T' F H := by
  have hin := hs.inTime
  cases h with
  | readRsr isr hpc =>
      rw [InTime, hpc] at hin
      exact ⟨T, hs.toTracks.congr rfl rfl rfl rfl, hs.due, hs.tsr, hin⟩
  | readTsr isr rsr hpc =>
      rw [InTime, hpc] at hin
      exact ⟨T, hs.toTracks.congr rfl rfl rfl rfl, hs.due, hs.tsr, hs.tsr, hin⟩
  | rxNothing isr rsr tsr hpc | rxUnheard isr rsr tsr hpc | rxReport isr rsr tsr _ hpc =>
      rw [InTime, hpc] at hin
      exact ⟨T, hs.toTracks.congr rfl rfl rfl rfl, hs.due, hs.tsr, hin⟩
  | txNothing isr tsr hpc hcomp =>
      rw [InTime, hpc] at hin
      refine ⟨T, hs.toTracks.congr rfl rfl rfl rfl, hs.due, hs.tsr, ?_⟩
      rcases hin.2 with howed | hnone | ⟨hisr, _⟩
      · exact Or.inl howed
      · exact Or.inr hnone
      · simp [hisr] at hcomp
  | txReport isr tsr hpc hcomp =>
      rw [InTime, hpc] at hin
      obtain ⟨hrle, hin⟩ := hin
      have htx : (s.reportTx tsr).tx = s.tx := by simp [reportTx, hrle]
      have hhw : (s.reportTx tsr).hwTx = s.hwTx := by simp [reportTx, hrle]
      refine ⟨T, hs.toTracks.congr htx hhw rfl rfl, hs.due, ?_, ?_⟩
      · simp [reportTx, Tsr.clear, hs.tsr]
      have hvisible := hs.le_visible
      have hempty := hs.empty_iff
      have hseen : s.Owed ∨ F ≤ H - s.hidden := by
        rcases hin with howed | hnone | ⟨_, hseen⟩
        · exact Or.inl howed
        · exact Or.inr (by omega)
        · exact Or.inr hseen
      by_cases hne : s.tx.usTxHead = s.tx.usTxTail
      · have hidle : (s.reportTx tsr).handler = .idle := by simp [reportTx, hrle, hne]
        rw [InTime, hidle]
        have hacked := hs.acked
        rw [hempty] at hne
        exact hseen.imp_right (by omega)
      · have hloop : (s.reportTx tsr).handler = .txLoop tsr.statusFlag := by simp [reportTx, hrle, hne]
        rw [InTime, hloop]
        rw [hempty] at hne
        refine ⟨?_, hseen⟩
        change T < H - s.hidden
        omega
  | txBreak flag hpc hused =>
      rw [InTime, hpc] at hin
      refine ⟨T, hs.toTracks.congr rfl rfl rfl rfl, hs.due, hs.tsr, Or.inr ?_⟩
      have hacked := hs.acked
      have hunused : ¬ T < F := by
        rw [← hs.used_tail_iff (by omega), hused]
        exact Bool.false_ne_true
      omega
  | txSkip flag hpc hused hcb =>
      rw [InTime, hpc] at hin
      have := hs.callback_tail (by omega)
      rw [hcb] at this
      cases this
  | txAck flag stats pending hpc hused hcb _ hack =>
      exact ⟨T + 1, hs.release hpc hused rfl rfl rfl rfl rfl rfl (acknowledge_unacked hack)⟩
  | rxHalt | txHalt => exact ⟨T, hs.congr (hs.toTracks.congr rfl rfl rfl rfl) rfl rfl rfl rfl rfl⟩

theorem serves_step (hcoherent : Coherent s) (hs : Serves s T F H) (hkeeps : s.keepsTrack e) (h : step s e = some s') :
    ∃ T' F' H', Serves s' T' F' H' := by
  obtain ⟨_, hstep⟩ := step_cases h
  cases hstep with
  | send f hidle hf => exact ⟨T, F, hs.sendStep hidle hf hkeeps⟩
  | thread s' _ _ h =>
      have hthread := threadStep_cases h
      have hthreads := hthread.threads
      refine ⟨T, F, H, hs.congr ?_ hthreads.handler hthreads.sending hthreads.due hthreads.tsr (by rw [hthreads.isr])⟩
      exact hs.toTracks.congr hthreads.tx hthreads.hwTx hthreads.sending (hcoherent.unacked_thread hthread)
  | poll | upper | rxFill | rxRaise =>
      exact ⟨T, F, H, hs.congr (hs.toTracks.congr rfl rfl rfl rfl) rfl rfl rfl rfl rfl⟩
  | sendPacket pb hup =>
      refine ⟨T, F, H, hs.toTracks.sendPacket pb hup, hs.due, hs.tsr, ?_⟩
      rw [InTime, show (s.sendPacket pb).handler = .idle from hup.1]
      exact hs.idle hup.1
  | interrupt hidle => exact ⟨T, F, H, hs.interrupt hidle hkeeps⟩
  | handler s' h =>
      obtain ⟨T', hs'⟩ := hs.handler (handlerStep_cases h)
      exact ⟨T', F, H, hs'⟩
  | txFinish outcome hbusy =>
      have howed : (s.hwTxFinish outcome).Owed := Or.inl (by simp [hwTxFinish, Tsr.union])
      refine ⟨T, F + 1, H, hs.toTracks.finish hbusy outcome, ?_, hs.tsr, ?_⟩
      · change (s.due.rle || outcome.rle) = false
        rw [hs.due, show outcome.rle = false from hkeeps]
        rfl
      · exact hs.inTime.mono rfl rfl (fun _ => howed) (Or.inl howed)
  | txRaise =>
      have howed : s.hwTxRaise.Owed := Or.inr rfl
      refine ⟨T, F, H, hs.toTracks.congr rfl rfl rfl rfl, rfl, ?_, hs.inTime.mono rfl rfl (fun _ => howed) (Or.inl howed)⟩
      change (s.tsr.rle || s.due.rle) = false
      rw [hs.due, hs.tsr]
      rfl
  | clobber i word hi => exact ⟨T, F, H, hs.congr (hs.toTracks.clobber word hi) rfl rfl rfl rfl rfl⟩

/-! ### Runs -/

/-- What is known of a run that keeps track. -/
structure Complete (s : Sys) : Prop where
  accounted : Accounted s
  announced : Announced s
  serves : ∃ T F H, Serves s T F H

theorem complete_init (board : Board) : Complete (init board) :=
  ⟨accounted_init board, announced_init board, 0, 0, 0, serves_init board⟩

theorem complete_step (hs : Complete s) (hkeeps : s.keepsTrack e) (h : step s e = some s') : Complete s' := by
  obtain ⟨T, F, H, hserves⟩ := hs.serves
  exact ⟨accounted_step hs.accounted h, announced_step hs.announced (keepsPendingTx_of_keepsTrack hkeeps) h,
    serves_step hs.accounted.toCoherent hserves hkeeps h⟩

/-- A settled system has nothing in the ring, so nothing that is not acknowledged, and nothing acknowledged either. -/
theorem Complete.pending_eq_nil (hs : Complete s) (hsettled : s.Settled) : s.pending = [] := by
  obtain ⟨T, F, H, hserves⟩ := hs.serves
  obtain ⟨hall, hdue, hisr, hidle, hwait, _, hflag⟩ := hsettled
  have hpos := hserves.size_pos
  have hacked := hserves.acked
  have hfinished := hserves.finished
  have hlist := hserves.list
  have hFT : F = T := by
    apply (hserves.idle hidle).resolve_left
    rintro (h | h)
    · rw [hdue] at h
      cases h
    · rw [hisr] at h
      cases h
  have hHF : H ≤ F := (hserves.used F (Nat.le_refl F) (by omega)).mp (hall _ (Nat.mod_lt F hpos))
  have hzero : unacked s.pending = 0 := by omega
  apply List.eq_nil_iff_forall_not_mem.mpr
  intro x hx
  have hx' : x.isAcked = true := by simpa using List.countP_eq_zero.mp hzero x hx
  rcases hs.announced.acked ⟨x, hx, hx'⟩ with h | h
  · rw [hflag] at h
    cases h
  · rw [hwait] at h
    cases h

theorem Complete.callsBack (hs : Complete s) : s.CallsBack := by
  refine ⟨hs.accounted.nodup, hs.accounted.polledBack_prefix, ?_⟩
  intro hsettled
  have hcalls := hs.accounted.calls
  have hwaiting : s.waiting = [] := by
    have hwait : s.thread = .waiting := hsettled.2.2.2.2.1
    simp [waiting, awaiting, hwait, hs.pending_eq_nil hsettled]
  rw [hwaiting, List.nil_append] at hcalls
  exact hcalls

/-- **Transmission is complete.** In every run in which no step puts ring and list out of step, each call is called back once. -/
theorem calls_back (board : Board) (es : List Event) (s : Sys) (hkeeps : Along step keepsTrack (init board) es)
    (hrun : run step (init board) es = some s) : s.CallsBack :=
  (invariant_along keepsTrack Complete (fun _ _ _ => complete_step) es (complete_init board) hkeeps hrun).callsBack

instance (s : Sys) : Decidable s.Settled :=
  inferInstanceAs (Decidable (_ ∧ _ ∧ _ ∧ _ ∧ _ ∧ _ ∧ _))

instance (s : Sys) : Decidable s.CallsBack :=
  inferInstanceAs (Decidable (_ ∧ _ ∧ (_ → _)))

instance (s : Sys) (e : Event) : Decidable (s.keepsTrack e) :=
  match e with
  | .txFinish _ => inferInstanceAs (Decidable (_ = _))
  | .interrupt =>
    inferInstanceAs (Decidable (∀ f ∈ s.sending, ∀ td ∈ f.stage.handed, s.tx.used td = true → s.due.txcomp = true))
  | .thread => inferInstanceAs (Decidable ((∀ f ∈ s.sending, f.stage.hands = true → _) ∧ s.keepsPendingTx .thread))
  | .poll _ | .upper _ | .send _ | .handler | .txRaise | .rxFill _ _ | .rxRaise _ _ | .clobber _ _ => isTrue trivial

/-- A frame sent, reported and polled. -/
private def sentAndPolled : List Event :=
  startUp ++ sendOne (packetTo 0x0A) ++ [.txFinish .none, .txRaise] ++ interrupted 5 ++ .poll true :: threadSteps 16

theorem calls_back_sentAndPolled :
    ∃ s, run step (init sam4expro) sentAndPolled = some s ∧ s.Settled ∧ s.calledBack = [0] ∧ s.CallsBack := by
  have hrun : (run step (init sam4expro) sentAndPolled).any (fun s => decide (s.Settled ∧ s.calledBack = [0])) = true := by
    decide +kernel
  obtain ⟨s, hs, hstate⟩ := exists_run hrun
  obtain ⟨hsettled, hcalls⟩ := of_decide_eq_true hstate
  exact ⟨s, hs, hsettled, hcalls, calls_back sam4expro sentAndPolled s (by decide +kernel) hs⟩

/-- A frame meets its retry limit; later the poll handler runs for a received frame. -/
private def retryLimitMet : List Event :=
  startUp ++ sendOne (packetTo 0x0A) ++ [.txFinish ⟨false, true, false, false⟩, .txRaise] ++ interrupted 4 ++
    receiveOne ++ .poll true :: threadSteps 15

/-- The handler has reset the ring, and the call is never called back. -/
theorem call_forgotten : ∃ es s, run step (init sam4expro) es = some s ∧ ¬ s.CallsBack := by
  have hrun : (run step (init sam4expro) retryLimitMet).any (fun s => !decide s.CallsBack) = true := by
    decide +kernel
  obtain ⟨s, hs, hforgotten⟩ := exists_run hrun
  exact ⟨retryLimitMet, s, hs, by simpa using hforgotten⟩

end ContikiAtsam.Sys
