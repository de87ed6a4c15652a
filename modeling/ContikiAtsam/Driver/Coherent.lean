import ContikiAtsam.Driver.Frame

/-!
# What every run keeps

The facts that need no assumption on the run: the acknowledged elements come first, the flags of the start-up and of the two callbacks agree with where the thread is, and a copy of the flags that the poll handler is about to store has no flag that has since been cleared.
-/

namespace ContikiAtsam

/-- Before the thread has stored `GMAC_DRV_STATE_IDLE`. -/
def ThreadPc.starting : ThreadPc → Bool
  | .paused | .flush | .setRxCallback | .setIdle => true
  | _ => false

/-- Before the thread has installed the RX callback. -/
def ThreadPc.unheard : ThreadPc → Bool
  | .paused | .flush | .setRxCallback => true
  | _ => false

/-- Between the clear of `PENDING_RX` and the end of the receive loop. -/
def ThreadPc.receives : ThreadPc → Bool
  | .disable .rx | .unpoll .rx | .enable .rx | .rxClear | .rxRead | .rxTest _ _ | .rxInput => true
  | _ => false

/-- Between the clear of `PENDING_TX` and the end of the loop over the pending elements. -/
def ThreadPc.drains : ThreadPc → Bool
  | .disable .tx | .unpoll .tx | .enable .tx | .txHead | .txTest _ | .txSwitch | .txCall _ | .txCalled
  | .txFree | .txPop => true
  | _ => false

/-- In a turn of the loop over the pending elements. -/
def ThreadPc.pops : ThreadPc → Bool
  | .txSwitch | .txCall _ | .txCalled | .txFree | .txPop => true
  | _ => false

/-- In the poll handler, before the clear of the flag. -/
def ThreadPc.beforeClear : Branch → ThreadPc → Bool
  | .rx, .pollEntry | .rx, .check .rx | .rx, .load .rx | .rx, .store .rx _ => true
  | .tx, .pollEntry | .tx, .check _ | .tx, .load _ | .tx, .store _ _ => true
  | .tx, pc => pc.receives
  | _, _ => false

namespace Sys

variable {s s' : Sys} {e : Event}

def HeadAcked (s : Sys) : Prop :=
  ∃ x ∈ s.pending.head?, x.isAcked = true

theorem HeadAcked.append (h : s.HeadAcked) {x : PendingElement} (hpending : s'.pending = s.pending ++ [x]) :
    s'.HeadAcked := by
  obtain ⟨y, hy, hacked⟩ := h
  obtain ⟨ys, hp⟩ := List.head?_eq_some_iff.mp hy
  refine ⟨y, ?_, hacked⟩
  rw [hpending, hp]
  rfl

theorem HeadAcked.sendStep (h : s.HeadAcked) (f : Sending) : (s.sendStep f).HeadAcked := by
  have hpending := sendStep_pending s f
  split at hpending
  · exact h.append hpending
  · rw [HeadAcked, hpending]
    exact h

structure Coherent (s : Sys) : Prop where
  ackedFirst : AckedFirst s.pending
  notInitialized : s.state.notInitialized = s.thread.starting
  pendingReset : s.state.pendingReset = false
  reg : ∀ b reg, s.thread = .store b reg → reg.notInitialized = false ∧ reg.pendingReset = false ∧
    ∀ b', reg.pending b' = true → s.state.pending b' = true
  silent : s.thread.starting = true →
    (∀ x ∈ s.pending, x.isAcked = false) ∧ s.state.pendingRx = false ∧ s.state.pendingTx = false
  funcRxCb : s.funcRxCb = !s.thread.unheard
  pops : s.thread.pops = true → s.HeadAcked

theorem coherent_init (board : Board) : Coherent (init board) := by
  refine ⟨List.Pairwise.nil, rfl, rfl, ?_, ?_, rfl, ?_⟩
  · intro b reg h
    cases h
  · intro _
    refine ⟨?_, rfl, rfl⟩
    intro x hx
    cases hx
  · intro h
    cases h

/-- The handler sets flags and acknowledges elements, once the driver has left start-up. -/
theorem Coherent.raise (hs : Coherent s) (hthread : s'.thread = s.thread) (hcb : s'.funcRxCb = s.funcRxCb)
    (hacked : AckedFirst s'.pending) (hhead : s.HeadAcked → s'.HeadAcked) (b : Branch) (hstate : s'.state = s.state.set b)
    (hinit : s.state.notInitialized = false) : Coherent s' := by
  have hstarting : s.thread.starting = false := by rw [← hs.notInitialized, hinit]
  refine ⟨hacked, ?_, ?_, ?_, ?_, ?_, ?_⟩
  · rw [hstate, hthread, ← hs.notInitialized]
    cases b <;> rfl
  · rw [hstate, ← hs.pendingReset]
    cases b <;> rfl
  · intro b' reg hpc
    rw [hthread] at hpc
    obtain ⟨h₁, h₂, h₃⟩ := hs.reg b' reg hpc
    refine ⟨h₁, h₂, ?_⟩
    intro b'' hreg
    rw [hstate]
    have := h₃ b'' hreg
    cases b <;> cases b'' <;> first | rfl | exact this
  · intro h
    rw [hthread, hstarting] at h
    cases h
  · rw [hcb, hthread]
    exact hs.funcRxCb
  · rw [hthread]
    exact fun h => hhead (hs.pops h)

theorem Coherent.handler (hs : Coherent s) (h : Handler s s') : Coherent s' := by
  cases h with
  | rxReport _ _ _ _ _ _ _ hinit => exact hs.raise rfl rfl hs.ackedFirst id .rx rfl hinit
  | txAck _ _ _ _ _ _ hinit hack =>
      exact hs.raise rfl rfl (acknowledge_ackedFirst hack hs.ackedFirst) (fun _ => acknowledge_head hack) .tx rfl hinit
  | _ => exact ⟨hs.ackedFirst, hs.notInitialized, hs.pendingReset, hs.reg, hs.silent, hs.funcRxCb, hs.pops⟩

theorem Coherent.sendStep (hs : Coherent s) (f : Sending) : Coherent (s.sendStep f) := by
  have hsends := sendStep_sends s f
  refine ⟨?_, ?_, ?_, ?_, ?_, ?_, ?_⟩
  · rw [sendStep_pending]
    split
    · exact hs.ackedFirst.append rfl
    · exact hs.ackedFirst
  · rw [hsends.state, hsends.thread]
    exact hs.notInitialized
  · rw [hsends.state]
    exact hs.pendingReset
  · rw [hsends.state, hsends.thread]
    exact hs.reg
  · rw [hsends.state, hsends.thread]
    intro hstarting
    obtain ⟨hacked, hflags⟩ := hs.silent hstarting
    refine ⟨?_, hflags⟩
    intro x hx
    rw [sendStep_pending] at hx
    split at hx
    · rcases List.mem_append.mp hx with hx | hx
      · exact hacked x hx
      · rw [List.mem_singleton.mp hx]
    · exact hacked x hx
  · rw [hsends.funcRxCb, hsends.thread]
    exact hs.funcRxCb
  · rw [hsends.thread]
    exact fun h => (hs.pops h).sendStep f

theorem Coherent.congr (hs : Coherent s) (hstate : s'.state = s.state) (hpending : s'.pending = s.pending)
    (hcb : s'.funcRxCb = s.funcRxCb) (hstarting : s'.thread.starting = s.thread.starting)
    (hreg : ∀ b reg, s'.thread ≠ .store b reg)
    (hunheard : s'.thread.unheard = s.thread.unheard) (hpops : s'.thread.pops = true → s.HeadAcked) :
    Coherent s' := by
  refine ⟨?_, ?_, ?_, ?_, ?_, ?_, ?_⟩
  · rw [hpending]
    exact hs.ackedFirst
  · rw [hstate, hstarting]
    exact hs.notInitialized
  · rw [hstate]
    exact hs.pendingReset
  · intro b reg hpc
    exact absurd hpc (hreg b reg)
  · rw [hstate, hpending, hstarting]
    exact hs.silent
  · rw [hcb, hunheard]
    exact hs.funcRxCb
  · rw [HeadAcked, hpending]
    exact hpops

theorem Coherent.thread (hs : Coherent s) (h : Thread s s') : Coherent s' := by
  cases h with
  | flush r hpc pc hpc' =>
      rcases hpc' with rfl | rfl <;>
        exact hs.congr rfl rfl rfl (by simp [ThreadPc.starting, hpc]) (by simp)
          (by simp [ThreadPc.unheard, hpc]) (by simp [ThreadPc.pops])
  | setRxCallback hpc =>
      refine ⟨hs.ackedFirst, ?_, hs.pendingReset, ?_, ?_, rfl, fun h => nomatch h⟩
      · rw [hs.notInitialized, hpc]
        rfl
      · intro b reg h
        cases h
      · intro _
        exact hs.silent (by simp [ThreadPc.starting, hpc])
  | setIdle hpc =>
      refine ⟨hs.ackedFirst, rfl, rfl, ?_, ?_, ?_, fun h => nomatch h⟩
      · intro b reg h
        cases h
      · intro h
        cases h
      · rw [hs.funcRxCb, hpc]
        rfl
  | load b hpc =>
      refine ⟨hs.ackedFirst, ?_, hs.pendingReset, ?_, ?_, ?_, fun h => nomatch h⟩
      · rw [hs.notInitialized, hpc]
        rfl
      · intro b' reg h
        obtain ⟨rfl, rfl⟩ := ThreadPc.store.inj h
        refine ⟨?_, hs.pendingReset, fun _ h => h⟩
        rw [hs.notInitialized, hpc]
        rfl
      · intro h
        cases h
      · rw [hs.funcRxCb, hpc]
        rfl
  | store b reg hpc =>
      obtain ⟨hinit, hreset, _⟩ := hs.reg b reg hpc
      refine ⟨hs.ackedFirst, ?_, ?_, ?_, ?_, ?_, fun h => nomatch h⟩
      · cases b <;> exact hinit
      · cases b <;> exact hreset
      · intro b' reg' h
        cases h
      · intro h
        cases h
      · rw [hs.funcRxCb, hpc]
        rfl
  | txPop hpc =>
      refine ⟨hs.ackedFirst.tail, ?_, hs.pendingReset, ?_, ?_, ?_, fun h => nomatch h⟩
      · rw [hs.notInitialized, hpc]
        rfl
      · intro b' reg' h
        cases h
      · intro h
        cases h
      · rw [hs.funcRxCb, hpc]
        rfl
  | pollHalt | txHeadHalt | txLeaveHalt | txSwitchHalt =>
      exact ⟨hs.ackedFirst, hs.notInitialized, hs.pendingReset, hs.reg, hs.silent, hs.funcRxCb, hs.pops⟩
  | txEnter notFound x xs hpc hp hacked =>
      exact hs.congr rfl rfl rfl (by simp [ThreadPc.starting, hpc]) (by simp) (by simp [ThreadPc.unheard, hpc])
        (fun _ => ⟨x, by rw [hp]; rfl, hacked⟩)
  | txSwitch _ _ _ hpc | txCall _ _ _ hpc | txCalled hpc | txFree hpc =>
      exact hs.congr rfl rfl rfl (by simp [ThreadPc.starting, hpc]) (by simp) (by simp [ThreadPc.unheard, hpc])
        (fun _ => hs.pops (by rw [hpc]; rfl))
  | _ =>
      exact hs.congr rfl rfl rfl (by simp [ThreadPc.starting, *]) (by simp) (by simp [ThreadPc.unheard, *])
        (by simp [ThreadPc.pops])

theorem coherent_step (hs : Coherent s) (h : step s e = some s') : Coherent s' := by
  obtain ⟨_, hstep⟩ := step_cases h
  cases hstep with
  | send f => exact hs.sendStep f
  | thread s' _ _ h => exact hs.thread (threadStep_cases h)
  | handler s' h => exact hs.handler (handlerStep_cases h)
  | poll _ _ _ hwait =>
      exact hs.congr rfl rfl rfl (by simp [ThreadPc.starting, hwait]) (by simp)
        (by simp [ThreadPc.unheard, hwait]) (by simp [ThreadPc.pops])
  | _ => exact ⟨hs.ackedFirst, hs.notInitialized, hs.pendingReset, hs.reg, hs.silent, hs.funcRxCb, hs.pops⟩

end Sys

end ContikiAtsam
