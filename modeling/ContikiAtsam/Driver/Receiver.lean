import ContikiAtsam.Driver.Frame

/-!
# The receiver at callback time

The layers above take the neighbour to credit from the packet buffer, in the sent callback of a frame that may have been handed over long before. The driver saves the receiver in the pending element and never puts it back, so what the callback finds there is whatever wrote the packet buffer last.
-/

namespace ContikiAtsam.Sys

variable {s s' : Sys} {e : Event}

/-- `PACKETBUF_ADDR_RECEIVER`. -/
def receiver (s : Sys) : Linkaddr6 := packetbufAddr s.pb .receiver

/-- **Nothing else is done to the receiver while a frame is pending.** Whatever the layers above write while sent callbacks are outstanding leaves in the packet buffer the receiver of each of these frames, and the receive loop, which clears it, runs only when that receiver is the null address. -/
def keepsReceiver (s : Sys) : Event → Prop
  | .upper pb => s.thread ≠ .rxInput → ∀ e ∈ s.awaiting, e.addr = packetbufAddr pb .receiver
  | .send pb => s.thread ≠ .rxInput → ∀ e ∈ s.awaiting, e.addr = packetbufAddr (create pb).2 .receiver
  | .thread => s.sending = none → s.thread = .rxClear → ∀ e ∈ s.awaiting, e.addr = linkaddr6Null
  | _ => True

/-- Every sent callback made by the poll handler finds the receiver of its frame, as it was when the frame was submitted. -/
def creditsReceiver (s : Sys) : Prop :=
  ∀ c ∈ s.sent, c.polled = true → s.submitted[c.call]? = some c.receiver

/-- The stages of a call at which its pending element is filled in. -/
def filled : SendStage → Bool
  | .alloc | .notify _ _ => false
  | _ => true

/-- What holds of addresses in every state of such a run. In the receive loop the packet buffer holds received frames. -/
structure Addressed (s : Sys) : Prop where
  pending : ∀ k ∈ s.pending.map PendingElement.key, s.submitted[k.1]? = some k.2
  sending : ∀ f, s.sending = some f →
    s.submitted[f.call]? = some s.receiver ∧ (filled f.stage = true → f.addr = s.receiver)
  current : s.thread ≠ .rxInput → s.thread ≠ .rxClear → ∀ e ∈ s.awaiting, e.addr = s.receiver
  credits : s.creditsReceiver

theorem Addressed.unseen (hs : Addressed s) (h : Unseen s s') : Addressed s' := by
  have hreceiver : s'.receiver = s.receiver := by rw [receiver, h.pb, receiver]
  refine ⟨?_, ?_, ?_, ?_⟩
  · rw [h.keys, h.submitted]
    exact hs.pending
  · rw [h.sending, h.submitted, hreceiver]
    exact hs.sending
  · intro hinput hclear x hx
    rw [h.thread] at hinput hclear
    obtain ⟨y, hy, hkey⟩ := List.mem_map.mp (h.awaiting ▸ List.mem_map_of_mem hx)
    rw [hreceiver, ← hs.current hinput hclear y hy]
    exact (congrArg Prod.snd hkey).symm
  · rw [creditsReceiver, h.sent, h.submitted]
    exact hs.credits

theorem sendStep_sending (s : Sys) (f : Sending) {f' : Sending} (h : (s.sendStep f).sending = some f') :
    f'.call = f.call ∧ (filled f'.stage = true → f.stage = .alloc ∧ f'.addr = s.receiver ∨
      filled f.stage = true ∧ f'.addr = f.addr) := by
  unfold sendStep at h
  cases hstage : f.stage <;> simp only [hstage, goto] at h <;> (try split at h) <;>
    simp only [Option.some.injEq, reduceCtorEq] at h <;> subst h <;> simp [filled, receiver]

theorem sendStep_sent (s : Sys) (f : Sending) {c : SentCall} (h : c ∈ (s.sendStep f).sent) :
    c ∈ s.sent ∨ c.polled = false := by
  unfold sendStep at h
  cases hstage : f.stage <;> simp only [hstage, goto] at h <;> (try split at h) <;> first
    | exact Or.inl h
    | (rcases List.mem_append.mp h with hold | hnew
       · exact Or.inl hold
       · rw [List.mem_singleton.mp hnew]
         exact Or.inr rfl)

theorem mem_awaiting_sendStep (f : Sending) {x : PendingElement} (h : x ∈ (s.sendStep f).awaiting) :
    x ∈ s.awaiting ∨ f.stage = .link ∧ x.call = f.call ∧ x.addr = f.addr := by
  unfold awaiting at h ⊢
  rw [(sendStep_sends s f).thread, sendStep_pending] at h
  by_cases hlink : f.stage = .link
  · rw [if_pos hlink] at h
    have hx : x ∈ (if s.thread ∈ [.txCalled, .txFree, .txPop] then s.pending.tail else s.pending) ∨
        x = ⟨f.call, f.addr, false, 0⟩ := by
      split at h
      · rename_i hcalled
        rw [if_pos hcalled]
        cases hp : s.pending with
        | nil => simp [hp] at h
        | cons y ys => simpa [hp] using h
      · rename_i hcalled
        rw [if_neg hcalled]
        simpa using h
    rcases hx with hx | rfl
    · exact Or.inl hx
    · exact Or.inr ⟨hlink, rfl, rfl⟩
  · rw [if_neg hlink] at h
    exact Or.inl h

theorem Addressed.sendStep (hs : Addressed s) {f : Sending} (hf : s.sending = some f) : Addressed (s.sendStep f) := by
  obtain ⟨hcall, haddr⟩ := hs.sending f hf
  have hreceiver : (s.sendStep f).receiver = s.receiver := by rw [receiver, (sendStep_sends s f).pb, receiver]
  refine ⟨?_, ?_, ?_, ?_⟩
  · intro k hk
    rw [(sendStep_sends s f).submitted]
    rw [sendStep_pending] at hk
    split at hk
    · rename_i hlink
      rw [List.map_append, List.mem_append] at hk
      rcases hk with hk | hk
      · exact hs.pending k hk
      · rw [List.mem_singleton.mp hk]
        rw [hlink] at haddr
        change s.submitted[f.call]? = some f.addr
        rw [hcall, haddr rfl]
    · exact hs.pending k hk
  · intro f' hf'
    obtain ⟨hsame, hfilled⟩ := sendStep_sending s f hf'
    rw [(sendStep_sends s f).submitted, hreceiver, hsame]
    refine ⟨hcall, ?_⟩
    intro hstage
    rcases hfilled hstage with ⟨_, haddr'⟩ | ⟨hstage', haddr'⟩
    · exact haddr'
    · rw [haddr', haddr hstage']
  · intro hinput hclear x hx
    rw [(sendStep_sends s f).thread] at hinput hclear
    rw [hreceiver]
    rcases mem_awaiting_sendStep f hx with hx | ⟨hlink, _, hx⟩
    · exact hs.current hinput hclear x hx
    · rw [hx]
      rw [hlink] at haddr
      exact haddr rfl
  · intro c hc hpolled
    rw [(sendStep_sends s f).submitted]
    rcases sendStep_sent s f hc with hc | hc
    · exact hs.credits c hc hpolled
    · rw [hc] at hpolled
      cases hpolled

theorem Addressed.congr (hs : Addressed s) (hsubmitted : s'.submitted = s.submitted)
    (hpending : s'.pending = s.pending) (hsending : s'.sending = s.sending) (hreceiver : s'.receiver = s.receiver)
    (hsent : s'.sent = s.sent)
    (hcurrent : s'.thread ≠ .rxInput → s'.thread ≠ .rxClear →
      s.thread ≠ .rxInput ∧ s.thread ≠ .rxClear ∧ s'.awaiting = s.awaiting) : Addressed s' := by
  refine ⟨?_, ?_, ?_, ?_⟩
  · rw [hpending, hsubmitted]
    exact hs.pending
  · rw [hsending, hsubmitted, hreceiver]
    exact hs.sending
  · intro hinput hclear
    obtain ⟨hinput', hclear', hawaiting⟩ := hcurrent hinput hclear
    rw [hawaiting, hreceiver]
    exact hs.current hinput' hclear'
  · rw [creditsReceiver, hsent, hsubmitted]
    exact hs.credits

theorem Addressed.thread (hs : Addressed s) (hnone : s.sending = none)
    (hclear : s.thread = .rxClear → ∀ e ∈ s.awaiting, e.addr = linkaddr6Null) (h : Thread s s') : Addressed s' := by
  cases h with
  | rxClear hpc =>
      refine ⟨hs.pending, ?_, ?_, hs.credits⟩
      · intro f hf
        rw [show s.sending = none from hnone] at hf
        cases hf
      · intro _ _ x hx
        apply hclear hpc
        simpa [awaiting, hpc] using hx
  | txCall x xs txStatus hpc hp =>
      have hcurrent := hs.current (by simp [hpc]) (by simp [hpc])
      have hawaiting : s.awaiting = x :: xs := by simp [awaiting, hpc, hp]
      rw [hawaiting] at hcurrent
      refine ⟨hs.pending, hs.sending, ?_, ?_⟩
      · intro _ _ y hy
        apply hcurrent y
        exact List.mem_cons_of_mem x (by simpa [awaiting, hp] using hy)
      · intro c hc hpolled
        rcases List.mem_append.mp hc with hc | hc
        · exact hs.credits c hc hpolled
        · rw [List.mem_singleton.mp hc]
          change s.submitted[x.call]? = some s.receiver
          rw [← hcurrent x List.mem_cons_self]
          exact hs.pending x.key (by simp [hp])
  | txPop hpc =>
      refine ⟨?_, hs.sending, ?_, hs.credits⟩
      · intro k hk
        rw [List.map_tail] at hk
        exact hs.pending k (List.mem_of_mem_tail hk)
      · intro _ _ x hx
        apply hs.current (by simp [hpc]) (by simp [hpc])
        simpa [awaiting, hpc] using hx
  | flush r hpc thread hthread =>
      rcases hthread with rfl | rfl <;> exact hs.congr rfl rfl rfl rfl rfl (by simp [awaiting, hpc])
  | _ => exact hs.congr rfl rfl rfl rfl rfl (by simp [awaiting, *])

theorem addressed_init (board : Board) : Addressed (init board) := by
  refine ⟨?_, ?_, ?_, ?_⟩
  · intro k hk
    cases hk
  · intro f hf
    cases hf
  · intro _ _ x hx
    cases hx
  · intro c hc
    cases hc

theorem addressed_step (hs : Addressed s) (hkeeps : s.keepsReceiver e) (h : step s e = some s') : Addressed s' := by
  obtain ⟨_, hstep⟩ := step_cases h
  have hunseen := hstep.unseen
  cases hstep with
  | send f _ hf => exact hs.sendStep hf
  | thread s' _ hnone h => exact hs.thread hnone (hkeeps hnone) (threadStep_cases h)
  | poll _ _ _ hwait _ => exact hs.congr rfl rfl rfl rfl rfl (by simp [awaiting, hwait])
  | upper pb hup =>
      refine ⟨hs.pending, ?_, fun hinput _ => hkeeps hinput, hs.credits⟩
      intro f hf
      rw [show s.sending = none from hup.2.1] at hf
      cases hf
  | sendPacket pb hup =>
      have hold {i : Nat} {a : Linkaddr6} (hi : s.submitted[i]? = some a) :
          (s.sendPacket pb).submitted[i]? = some a := by
        obtain ⟨hlt, hget⟩ := List.getElem?_eq_some_iff.mp hi
        exact (List.getElem?_append_left hlt).trans hi
      refine ⟨fun k hk => hold (hs.pending k hk), ?_, fun hinput _ => hkeeps hinput,
        fun c hc hpolled => hold (hs.credits c hc hpolled)⟩
      intro f hf
      obtain rfl := Option.some.inj hf
      refine ⟨List.getElem?_concat_length, ?_⟩
      intro hfilled
      dsimp only at hfilled
      split at hfilled <;> cases hfilled
  | interrupt | handler | txFinish | txRaise | rxFill | rxRaise | clobber => exact hs.unseen (hunseen rfl)

/-- **The receiver at callback time.** In every run in which nothing else is done to the receiver while a frame is pending, every sent callback of the poll handler finds the receiver of its own frame. -/
theorem callback_receiver (board : Board) (es : List Event) (s : Sys)
    (hkeeps : Along step keepsReceiver (init board) es) (hrun : run step (init board) es = some s) :
    s.creditsReceiver :=
  (invariant_along keepsReceiver Addressed (fun _ _ _ => addressed_step) es (addressed_init board) hkeeps
    hrun).credits

instance (s : Sys) : Decidable s.creditsReceiver :=
  inferInstanceAs (Decidable (∀ c ∈ s.sent, c.polled = true → s.submitted[c.call]? = some c.receiver))

instance (s : Sys) (e : Event) : Decidable (s.keepsReceiver e) :=
  match e with
  | .upper _ | .send _ => inferInstanceAs (Decidable (_ → _))
  | .thread => inferInstanceAs (Decidable (_ → _ → _))
  | .poll _ | .interrupt | .handler | .txFinish _ | .txRaise | .rxFill _ _ | .rxRaise _ _ | .clobber _ _ => isTrue trivial

/-- One frame sent, finished and reported, up to its sent callback. -/
private def oneFrame : List Event :=
  startUp ++ sendOne (packetTo 0x0A) ++ [.txFinish .none, .txRaise] ++ interrupted 5 ++ .poll true :: threadSteps 16

theorem callback_receiver_oneFrame :
    ∃ s, run step (init sam4expro) oneFrame = some s ∧ s.sent.length = 1 ∧ s.creditsReceiver := by
  have hrun : (run step (init sam4expro) oneFrame).any (fun s => s.sent.length == 1) = true := by decide +kernel
  obtain ⟨s, hs, hsent⟩ := exists_run hrun
  exact ⟨s, hs, by simpa using hsent, callback_receiver sam4expro oneFrame s (by decide +kernel) hs⟩

/-- Two frames sent one after the other, to different stations, before the first sent callback. -/
private def twoFrames : List Event :=
  startUp ++ sendOne (packetTo 0x0A) ++ sendOne (packetTo 0x0B) ++
    [.txFinish .none, .txFinish .none, .txRaise] ++ interrupted 6 ++ .poll true :: threadSteps 12

/-- The callback of the first frame finds the receiver of the second. -/
theorem callback_other_receiver :
    ∃ es s, run step (init sam4expro) es = some s ∧ ¬ s.creditsReceiver := by
  have hrun : (run step (init sam4expro) twoFrames).any (fun s => !decide s.creditsReceiver) = true := by
    decide +kernel
  obtain ⟨s, hs, hwrong⟩ := exists_run hrun
  exact ⟨twoFrames, s, hs, by simpa using hwrong⟩

end ContikiAtsam.Sys
