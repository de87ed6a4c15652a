import ContikiAtsam.Driver.Coherent

/-!
# Every call and its callback

In every run each call of `send_packet` is in one place: its callback has been made, its element waits in the pending list, or it is still in progress. So no callback is made twice, and those of the poll handler come in the order in which the frames were accepted.
-/

namespace ContikiAtsam.Sys

variable {s s' : Sys} {e : Event}

def calledBack (s : Sys) : List Nat := s.sent.map SentCall.call

/-- The callbacks that the poll handler has made. -/
def polledBack (s : Sys) : List Nat := (s.sent.filter SentCall.polled).map SentCall.call

def waiting (s : Sys) : List Nat := s.awaiting.map PendingElement.call

def inProgress (s : Sys) : List Nat := s.sending.toList.map Sending.call

/-- A call whose frame is accepted and not yet in the list. -/
def linking (s : Sys) : List Nat :=
  match s.sending with
  | some ⟨call, _, _, .link⟩ => [call]
  | _ => []

structure Accounted (s : Sys) : Prop extends Coherent s where
  calls : (s.calledBack ++ (s.waiting ++ s.inProgress)).Perm (List.range s.submitted.length)
  order : s.accepted = s.polledBack ++ (s.waiting ++ s.linking)

theorem accounted_init (board : Board) : Accounted (init board) :=
  ⟨coherent_init board, List.Perm.nil, rfl⟩

theorem Accounted.congr (hs : Accounted s) (hcoherent : Coherent s') (hsent : s'.sent = s.sent)
    (hwaiting : s'.waiting = s.waiting) (hsending : s'.sending = s.sending)
    (hsubmitted : s'.submitted = s.submitted) (haccepted : s'.accepted = s.accepted) : Accounted s' := by
  refine ⟨hcoherent, ?_, ?_⟩
  · rw [calledBack, hsent, hwaiting, inProgress, hsending, hsubmitted]
    exact hs.calls
  · rw [haccepted, polledBack, hsent, hwaiting, linking, hsending]
    exact hs.order

theorem Unseen.waiting (h : Unseen s s') : s'.waiting = s.waiting := by
  have hcall : PendingElement.call = Prod.fst ∘ PendingElement.key := rfl
  rw [Sys.waiting, Sys.waiting, hcall, ← List.map_map, ← List.map_map, h.awaiting]

/-- `list_add` appends to the elements awaited, in a sent callback too. -/
theorem awaiting_append (hpops : s.thread.pops = true → s.HeadAcked) {x : PendingElement}
    (hthread : s'.thread = s.thread) (hpending : s'.pending = s.pending ++ [x]) :
    s'.awaiting = s.awaiting ++ [x] := by
  unfold awaiting
  rw [hthread, hpending]
  by_cases hcalled : s.thread ∈ [.txCalled, .txFree, .txPop]
  · rw [if_pos hcalled, if_pos hcalled]
    have hthread : s.thread.pops = true := by
      simp only [List.mem_cons, List.not_mem_nil, or_false] at hcalled
      rcases hcalled with h | h | h <;> rw [h] <;> rfl
    obtain ⟨y, hy, _⟩ := hpops hthread
    obtain ⟨ys, hp⟩ := List.head?_eq_some_iff.mp hy
    rw [hp]
    rfl
  · rw [if_neg hcalled, if_neg hcalled]

theorem Accounted.sendStep (hs : Accounted s) {f : Sending} (hf : s.sending = some f) : Accounted (s.sendStep f) := by
  have hcoherent := hs.toCoherent.sendStep f
  have hcalls := hs.calls
  have horder := hs.order
  have hwaiting (h : f.stage ≠ .link) : (s.sendStep f).waiting = s.waiting := by
    unfold waiting awaiting
    rw [(sendStep_sends s f).thread, sendStep_pending, if_neg h]
  rw [inProgress, hf] at hcalls
  rw [linking, hf] at horder
  obtain ⟨call, size, addr, stage⟩ := f
  cases stage with
  | start =>
      have hwait := hwaiting (by simp)
      refine ⟨hcoherent, ?_, ?_⟩
      · rw [hwait]
        exact hcalls
      · rw [hwait]
        change s.accepted ++ [call] = s.polledBack ++ (s.waiting ++ [call])
        rw [horder]
        simp
  | link =>
      have hwait : (s.sendStep ⟨call, size, addr, .link⟩).waiting = s.waiting ++ [call] := by
        rw [waiting, awaiting_append hs.pops (sendStep_sends s _).thread (sendStep_pending s _), List.map_append]
        rfl
      refine ⟨hcoherent, ?_, ?_⟩
      · rw [hwait]
        change (s.calledBack ++ (s.waiting ++ [call] ++ [])).Perm _
        rw [List.append_nil]
        exact hcalls
      · rw [hwait]
        change s.accepted = s.polledBack ++ (s.waiting ++ [call] ++ [])
        rw [List.append_nil]
        exact horder
  | notify macStatus transmissions =>
      have hwait := hwaiting (by simp)
      refine ⟨hcoherent, ?_, ?_⟩
      · rw [hwait]
        unfold calledBack
        simp only [Sys.sendStep, inProgress, List.map_append, List.map_cons, List.map_nil, Option.toList_none,
          List.append_nil, List.append_assoc]
        exact (List.Perm.append_left _ List.perm_append_comm).trans hcalls
      · rw [hwait]
        unfold polledBack linking
        simp only [Sys.sendStep, List.filter_append, List.filter_cons_of_neg, Bool.false_eq_true, not_false_eq_true,
          List.filter_nil, List.append_nil]
        simpa [polledBack] using horder
  | _ =>
      have hwait := hwaiting (by simp)
      refine ⟨hcoherent, ?_, ?_⟩
      · rw [hwait]
        unfold calledBack inProgress
        simp only [Sys.sendStep, goto]
        (try split) <;> exact hcalls
      · rw [hwait]
        unfold polledBack linking
        simp only [Sys.sendStep, goto]
        (try split) <;> exact horder

theorem Accounted.thread (hs : Accounted s) (h : Thread s s') : Accounted s' := by
  have hcoherent := hs.toCoherent.thread h
  have hthreads := h.threads
  cases h with
  | txCall x xs txStatus hpc hp =>
      have hwait : s.waiting = x.call :: xs.map PendingElement.call := by simp [waiting, awaiting, hpc, hp]
      have hcalls := hs.calls
      have horder := hs.order
      rw [hwait] at hcalls horder
      refine ⟨hcoherent, ?_, ?_⟩
      · refine List.Perm.trans ?_ hcalls
        simp [calledBack, waiting, awaiting, inProgress, hp]
      · change s.accepted = _
        rw [horder]
        simp [polledBack, waiting, awaiting, linking, hp]
  | txPop hpc =>
      exact hs.congr hcoherent rfl (by simp [waiting, awaiting, hpc]) rfl rfl rfl
  | flush r hpc pc hpc' =>
      rcases hpc' with rfl | rfl <;>
        exact hs.congr hcoherent rfl (by simp [waiting, awaiting, hpc]) rfl rfl rfl
  | pollHalt | txHeadHalt | txLeaveHalt | txSwitchHalt => exact ⟨hcoherent, hs.calls, hs.order⟩
  | _ => exact hs.congr hcoherent rfl (by simp [waiting, awaiting, *]) rfl rfl rfl

theorem accounted_step (hs : Accounted s) (h : step s e = some s') : Accounted s' := by
  have hcoherent := coherent_step hs.toCoherent h
  obtain ⟨_, hstep⟩ := step_cases h
  have hunseen := hstep.unseen
  cases hstep with
  | send f _ hf => exact hs.sendStep hf
  | thread s' _ _ h => exact hs.thread (threadStep_cases h)
  | poll _ _ _ hwait _ => exact hs.congr hcoherent rfl (by simp [waiting, awaiting, hwait]) rfl rfl rfl
  | upper => exact ⟨hcoherent, hs.calls, hs.order⟩
  | sendPacket pb hup =>
      have hcalls := hs.calls
      have horder := hs.order
      rw [inProgress, hup.2.1] at hcalls
      rw [linking, hup.2.1] at horder
      refine ⟨hcoherent, ?_, ?_⟩
      · change (s.calledBack ++ (s.waiting ++ [s.submitted.length])).Perm (List.range (s.submitted ++ [_]).length)
        rw [List.length_append, List.length_singleton, List.range_succ, ← List.append_assoc]
        exact (by simpa using hcalls : (s.calledBack ++ s.waiting).Perm (List.range s.submitted.length)).append_right _
      · change s.accepted = s.polledBack ++ (s.waiting ++ (s.sendPacket pb).linking)
        have hlinking : (s.sendPacket pb).linking = [] := by
          unfold linking sendPacket
          dsimp only
          by_cases hframed : (create pb).1 < 0 <;> simp [hframed]
        rw [hlinking]
        exact horder
  | interrupt | handler | txFinish | txRaise | rxFill | rxRaise | clobber =>
      have h := hunseen rfl
      exact hs.congr hcoherent h.sent h.waiting h.sending h.submitted h.accepted

theorem Accounted.nodup (hs : Accounted s) : s.calledBack.Nodup :=
  (List.nodup_append.mp (hs.calls.nodup_iff.mpr List.nodup_range)).1

theorem Accounted.polledBack_prefix (hs : Accounted s) : s.polledBack <+: s.accepted :=
  ⟨_, hs.order.symm⟩

end ContikiAtsam.Sys
