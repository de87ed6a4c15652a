import ContikiAtsam.Driver.Coherent

/-!
# Acknowledged elements

An acknowledged element waits for the TX branch of the poll handler, which `PENDING_TX` announces. The flag can be lost in one place: the RX branch stores all flags back, as it has loaded them, and the handler may have set `PENDING_TX` since.
-/

namespace ContikiAtsam.Sys

variable {s s' : Sys} {e : Event}

def AckedElement (s : Sys) : Prop :=
  ∃ x ∈ s.pending, x.isAcked = true

instance (s : Sys) : Decidable s.AckedElement :=
  inferInstanceAs (Decidable (∃ x ∈ s.pending, x.isAcked = true))

/-- The clear of `PENDING_RX` stores `PENDING_TX` as it is at that time. -/
def keepsPendingTx (s : Sys) : Event → Prop
  | .thread => s.sending = none →
    match s.thread with
    | .store .rx reg => reg.pendingTx = s.state.pendingTx
    | _ => True
  | _ => True

instance (s : Sys) (e : Event) : Decidable (s.keepsPendingTx e) :=
  let atPc (pc : ThreadPc) : Decidable (match pc with
      | .store .rx reg => reg.pendingTx = s.state.pendingTx
      | _ => True) :=
    match pc with
    | .store .rx _ => inferInstanceAs (Decidable (_ = _))
    | .store .tx _ | .paused | .flush | .setRxCallback | .setIdle | .waiting | .pollEntry | .check _ | .load _ | .disable _
    | .unpoll _ | .enable _ | .rxClear | .rxRead | .rxTest _ _ | .rxInput | .txHead | .txTest _ | .txSwitch | .txCall _
    | .txCalled | .txFree | .txPop => isTrue trivial
  match e with
  | .thread => @instDecidableForall _ _ _ (atPc s.thread)
  | .poll _ | .upper _ | .send _ | .interrupt | .handler | .txFinish _ | .txRaise | .rxFill _ _ | .rxRaise _ _
  | .clobber _ _ => isTrue trivial

structure Announced (s : Sys) : Prop extends Coherent s where
  acked : s.AckedElement → s.state.pendingTx = true ∨ s.thread.drains = true

theorem announced_init (board : Board) : Announced (init board) := by
  refine ⟨coherent_init board, ?_⟩
  rintro ⟨x, hx, _⟩
  cases hx

theorem Announced.sendStep (hs : Announced s) (f : Sending) : Announced (s.sendStep f) := by
  have hsends := sendStep_sends s f
  refine ⟨hs.toCoherent.sendStep f, ?_⟩
  rintro ⟨x, hx, hacked⟩
  rw [hsends.state, hsends.thread]
  rw [sendStep_pending] at hx
  split at hx
  · rcases List.mem_append.mp hx with hx | hx
    · exact hs.acked ⟨x, hx, hacked⟩
    · rw [List.mem_singleton.mp hx] at hacked
      cases hacked
  · exact hs.acked ⟨x, hx, hacked⟩

theorem Announced.handler (hs : Announced s) (h : Handler s s') : Announced s' := by
  have hcoherent := hs.toCoherent.handler h
  cases h with
  | txAck => exact ⟨hcoherent, fun _ => Or.inl rfl⟩
  | _ => exact ⟨hcoherent, hs.acked⟩

/-- The loop over the pending elements stops where none is acknowledged any more. -/
theorem Coherent.none_acked (hs : Coherent s) (hp : ∀ x ∈ s.pending.head?, x.isAcked = false) :
    ¬ s.AckedElement := by
  rintro ⟨x, hx, hacked⟩
  cases hpending : s.pending with
  | nil =>
      rw [hpending] at hx
      cases hx
  | cons y ys =>
      have hfirst := hs.ackedFirst
      rw [hpending] at hx hfirst hp
      have := hfirst.head hx hacked
      rw [hp y rfl] at this
      cases this

theorem Announced.thread (hs : Announced s) (hnone : s.sending = none) (hkeeps : s.keepsPendingTx .thread)
    (h : Thread s s') : Announced s' := by
  have hcoherent := hs.toCoherent.thread h
  have hkeeps := hkeeps hnone
  have hacked := hs.acked
  cases h with
  | setIdle hpc =>
      refine ⟨hcoherent, ?_⟩
      rintro ⟨x, hx, hacked⟩
      have := (hs.silent (by rw [hpc]; rfl)).1 x hx
      rw [this] at hacked
      cases hacked
  | store b reg hpc =>
      rw [hpc] at hkeeps hacked
      cases b with
      | rx =>
          refine ⟨hcoherent, ?_⟩
          intro h
          exact Or.inl (hkeeps.trans ((hacked h).resolve_right (by simp [ThreadPc.drains])))
      | tx => exact ⟨hcoherent, fun _ => Or.inr rfl⟩
  | txLeave hpc hp => exact ⟨hcoherent, fun h => absurd h (hs.none_acked hp)⟩
  | txPop hpc => exact ⟨hcoherent, fun _ => Or.inr rfl⟩
  | pollHalt | txHeadHalt | txLeaveHalt | txSwitchHalt => exact ⟨hcoherent, hacked⟩
  | enter b hpc | load b hpc | disable b hpc | unpoll b hpc =>
      rw [hpc] at hacked
      refine ⟨hcoherent, fun h => (hacked h).imp_right ?_⟩
      cases b <;> simp [ThreadPc.drains]
  | flush r hpc | rxLeave _ _ hpc | rxHand _ hpc | txEnter _ _ _ hpc | txSwitch _ _ _ hpc | txCall _ _ _ hpc =>
      rw [hpc] at hacked
      exact ⟨hcoherent, fun h => (hacked h).imp_right (by simp [ThreadPc.drains])⟩
  | _ =>
      refine ⟨hcoherent, fun h => (hacked h).imp_right ?_⟩
      simp [ThreadPc.drains, *]

theorem announced_step (hs : Announced s) (hkeeps : s.keepsPendingTx e) (h : step s e = some s') : Announced s' := by
  have hcoherent := coherent_step hs.toCoherent h
  obtain ⟨_, hstep⟩ := step_cases h
  cases hstep with
  | send f => exact hs.sendStep f
  | thread s' _ hnone h => exact hs.thread hnone hkeeps (threadStep_cases h)
  | handler s' h => exact hs.handler (handlerStep_cases h)
  | poll reset _ _ hwait _ =>
      refine ⟨hcoherent, fun h => (hs.acked h).imp_right ?_⟩
      simp [ThreadPc.drains, hwait]
  | _ => exact ⟨hcoherent, hs.acked⟩

end ContikiAtsam.Sys
