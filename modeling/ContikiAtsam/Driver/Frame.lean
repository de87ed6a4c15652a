import ContikiAtsam.Driver.System

/-!
# What a step does

The events of the driver system with what makes them possible, and for each party what it never touches. The invariants of the driver are proved from these: a step of the handler matters to the thread only through the flags, `needspoll` and the acknowledgements.
-/

namespace ContikiAtsam.Sys

variable {s s' : Sys} {e : Event}

/-- What an event leads to. -/
inductive Step (s : Sys) : Event → Sys → Prop where
  | send (f : Sending) (hidle : s.handler = .idle) (hf : s.sending = some f) : Step s .thread (s.sendStep f)
  | thread (s' : Sys) (hidle : s.handler = .idle) (hnone : s.sending = none) (h : s.threadStep = some s') :
      Step s .thread s'
  | poll (reset : Bool) (hidle : s.handler = .idle) (hnone : s.sending = none) (hwait : s.thread = .waiting)
      (hpoll : s.needspoll = true) :
      Step s (.poll reset) { s with needspoll := !reset, thread := .pollEntry }
  | upper (pb : Packetbuf) (hup : s.runsUpper) : Step s (.upper pb) { s with pb }
  | sendPacket (pb : Packetbuf) (hup : s.runsUpper) : Step s (.send pb) (s.sendPacket pb)
  | interrupt (hidle : s.handler = .idle) (henabled : s.irqEnabled = true) :
      Step s .interrupt { s with isr := ⟨false, false⟩, handler := .readRsr s.isr }
  | handler (s' : Sys) (h : s.handlerStep = some s') : Step s .handler s'
  | txFinish (outcome : Tsr) (hbusy : s.tx.used s.hwTx = false) : Step s (.txFinish outcome) (s.hwTxFinish outcome)
  | txRaise (hdue : s.due.txcomp = true) : Step s .txRaise s.hwTxRaise
  | rxFill (status : UInt32) (bytes : List UInt8) (hfree : (s.rx.pRxDscr s.hwRx).owned = false) :
      Step s (.rxFill status bytes) (s.hwRxFill status bytes)
  | rxRaise (rcomp : Bool) (rsr : Rsr) : Step s (.rxRaise rcomp rsr) (s.hwRxRaise rcomp rsr)
  | clobber (i : Nat) (word : UInt32) (hi : s.tx.usTxListSize ≤ i) :
      Step s (.clobber i word) { s with tx := { s.tx with pTxDscr := Function.update s.tx.pTxDscr i word } }

theorem step_cases (h : step s e = some s') : s.halted = none ∧ Step s e s' := by
  unfold step at h
  by_cases hrunning : s.halted = none
  · refine ⟨hrunning, ?_⟩
    rw [if_neg (by simp [hrunning])] at h
    cases e with
    | thread =>
        dsimp only at h
        by_cases hidle : s.handler = .idle
        · rw [if_neg (by simp [hidle])] at h
          cases hf : s.sending with
          | some f =>
              rw [hf] at h
              obtain rfl := Option.some.inj h
              exact .send f hidle hf
          | none =>
              rw [hf] at h
              exact .thread s' hidle hf h
        · simp [hidle] at h
    | poll reset =>
        dsimp only at h
        by_cases hpoll : s.handler = .idle ∧ s.sending.isNone ∧ s.thread = .waiting ∧ s.needspoll
        · rw [if_pos hpoll] at h
          obtain rfl := Option.some.inj h
          exact .poll reset hpoll.1 (Option.isNone_iff_eq_none.mp hpoll.2.1) hpoll.2.2.1 hpoll.2.2.2
        · rw [if_neg hpoll] at h
          cases h
    | upper pb =>
        dsimp only at h
        by_cases hup : s.runsUpper
        · rw [if_pos hup] at h
          obtain rfl := Option.some.inj h
          exact .upper pb hup
        · simp [hup] at h
    | send pb =>
        dsimp only at h
        by_cases hup : s.runsUpper
        · rw [if_pos hup] at h
          obtain rfl := Option.some.inj h
          exact .sendPacket pb hup
        · simp [hup] at h
    | interrupt =>
        dsimp only at h
        by_cases htaken : s.handler = .idle ∧ s.irqEnabled
        · rw [if_pos htaken] at h
          obtain rfl := Option.some.inj h
          exact .interrupt htaken.1 htaken.2
        · simp [htaken] at h
    | handler => exact .handler s' h
    | txFinish outcome =>
        cases hused : s.tx.used s.hwTx with
        | true => simp [hused] at h
        | false =>
            obtain rfl := by simpa [hused] using h
            exact .txFinish outcome hused
    | txRaise =>
        cases hdue : s.due.txcomp with
        | true =>
            obtain rfl := by simpa [hdue] using h
            exact .txRaise hdue
        | false => simp [hdue] at h
    | rxFill status bytes =>
        cases howned : (s.rx.pRxDscr s.hwRx).owned with
        | true => simp [howned] at h
        | false =>
            obtain rfl := by simpa [howned] using h
            exact .rxFill status bytes howned
    | rxRaise rcomp rsr =>
        obtain rfl := Option.some.inj h
        exact .rxRaise rcomp rsr
    | clobber i word =>
        dsimp only at h
        by_cases hi : i < s.tx.usTxListSize
        · simp [hi] at h
        · rw [if_neg hi] at h
          obtain rfl := Option.some.inj h
          exact .clobber i word (by omega)
  · simp [hrunning] at h

section Halt

variable (s) (a : Assertion)

@[simp] theorem halt_thread : (s.halt a).thread = s.thread := rfl
@[simp] theorem halt_pending : (s.halt a).pending = s.pending := rfl
end Halt

/-! ### The handler -/

theorem gmacDevTxCallback_ok {flag : UInt32} (h : s.gmacDevTxCallback flag = .ok s') :
    s.state.notInitialized = false ∧ s.state.pendingReset = false ∧ ∃ stats pending,
      acknowledge flag s.pending = some pending ∧
      s' = { s with stats, pending, state := s.state.set .tx, needspoll := true } := by
  unfold gmacDevTxCallback at h
  split at h
  · cases h
  next hstate =>
  split at h
  · cases h
  cases hack : acknowledge flag s.pending with
  | none =>
      cases hp : s.pending with
      | nil => simp [hp] at h
      | cons e es =>
          rw [hp] at hack
          simp [hp, hack] at h
  | some pending =>
      cases hp : s.pending with
      | nil => simp [hp] at h
      | cons e es =>
          rw [hp] at hack
          simp only [hp, hack] at h
          obtain rfl := Except.ok.inj h
          have := by simpa using hstate
          exact ⟨this.1, this.2, _, pending, rfl, rfl⟩

theorem gmacDevRxCallback_ok {flag : UInt32} (h : s.gmacDevRxCallback flag = .ok s') :
    s.state.notInitialized = false ∧ s.state.pendingReset = false ∧ ∃ stats,
      s' = { s with stats, state := s.state.set .rx, needspoll := true } := by
  unfold gmacDevRxCallback at h
  split at h
  · cases h
  next hstate =>
  have hstate := by simpa using hstate
  refine ⟨hstate.1, hstate.2, ?_⟩
  dsimp only at h
  split at h
  · exact ⟨_, (Except.ok.inj h).symm⟩
  split at h
  · exact ⟨_, (Except.ok.inj h).symm⟩
  split at h
  · exact ⟨_, (Except.ok.inj h).symm⟩
  · cases h

/-- What a step of the handler leads to. -/
inductive Handler (s : Sys) : Sys → Prop where
  | readRsr (isr : Isr) (hpc : s.handler = .readRsr isr) : Handler s { s with handler := .readTsr isr s.rsr }
  | readTsr (isr : Isr) (rsr : Rsr) (hpc : s.handler = .readTsr isr rsr) :
      Handler s { s with handler := .rxPart isr rsr s.tsr }
  | rxNothing (isr : Isr) (rsr : Rsr) (tsr : Tsr) (hpc : s.handler = .rxPart isr rsr tsr)
      (hrec : (isr.rcomp || rsr.frameRec) = false) : Handler s { s with handler := .txPart isr tsr }
  | rxUnheard (isr : Isr) (rsr : Rsr) (tsr : Tsr) (hpc : s.handler = .rxPart isr rsr tsr)
      (hrec : (isr.rcomp || rsr.frameRec) = true) (hcb : s.funcRxCb = false) :
      Handler s { s.clearRx rsr.statusFlag with handler := .txPart isr tsr }
  | rxReport (isr : Isr) (rsr : Rsr) (tsr : Tsr) (stats : EthStats) (hpc : s.handler = .rxPart isr rsr tsr)
      (hrec : (isr.rcomp || rsr.frameRec) = true) (hcb : s.funcRxCb = true)
      (hinit : s.state.notInitialized = false) :
      Handler s
        { s.clearRx rsr.statusFlag with
          stats, state := s.state.set .rx, needspoll := true, handler := .txPart isr tsr }
  | rxHalt (isr : Isr) (rsr : Rsr) (tsr : Tsr) (a : Assertion) (hpc : s.handler = .rxPart isr rsr tsr)
      (hrec : (isr.rcomp || rsr.frameRec) = true) (hcb : s.funcRxCb = true)
      (herr : (s.clearRx rsr.statusFlag).gmacDevRxCallback rsr.statusFlag = .error a) : Handler s (s.halt a)
  | txNothing (isr : Isr) (tsr : Tsr) (hpc : s.handler = .txPart isr tsr)
      (hcomp : (isr.tcomp || tsr.txcomp) = false) : Handler s { s with handler := .idle }
  | txReport (isr : Isr) (tsr : Tsr) (hpc : s.handler = .txPart isr tsr)
      (hcomp : (isr.tcomp || tsr.txcomp) = true) : Handler s (s.reportTx tsr)
  | txBreak (flag : UInt32) (hpc : s.handler = .txLoop flag) (hused : s.tx.used s.tx.usTxTail = false) :
      Handler s { s with handler := .idle }
  | txSkip (flag : UInt32) (hpc : s.handler = .txLoop flag) (hused : s.tx.used s.tx.usTxTail = true)
      (hcb : s.tx.funcTxCbList s.tx.usTxTail = false) : Handler s (s.releaseTail flag)
  | txAck (flag : UInt32) (stats : EthStats) (pending : List PendingElement) (hpc : s.handler = .txLoop flag)
      (hused : s.tx.used s.tx.usTxTail = true) (hcb : s.tx.funcTxCbList s.tx.usTxTail = true)
      (hinit : s.state.notInitialized = false) (hack : acknowledge flag s.pending = some pending) :
      Handler s
        (releaseTail { s with stats, pending, state := s.state.set .tx, needspoll := true } flag)
  | txHalt (flag : UInt32) (a : Assertion) (hpc : s.handler = .txLoop flag)
      (hused : s.tx.used s.tx.usTxTail = true) (hcb : s.tx.funcTxCbList s.tx.usTxTail = true)
      (herr : s.gmacDevTxCallback flag = .error a) : Handler s (s.halt a)

theorem handlerStep_cases (h : s.handlerStep = some s') : Handler s s' := by
  unfold handlerStep at h
  cases hpc : s.handler with
  | idle => simp [hpc] at h
  | readRsr isr =>
      obtain rfl := by simpa [hpc] using h
      exact .readRsr isr hpc
  | readTsr isr rsr =>
      obtain rfl := by simpa [hpc] using h
      exact .readTsr isr rsr hpc
  | rxPart isr rsr tsr =>
      cases hrec : isr.rcomp || rsr.frameRec with
      | false =>
          obtain rfl := by simpa [hpc, hrec] using h
          exact .rxNothing isr rsr tsr hpc hrec
      | true =>
          simp only [hpc, hrec, if_true, reportRx] at h
          cases hcb : s.funcRxCb with
          | false =>
              rw [show (s.clearRx rsr.statusFlag).funcRxCb = s.funcRxCb from rfl, hcb] at h
              obtain rfl := Option.some.inj h
              exact .rxUnheard isr rsr tsr hpc hrec hcb
          | true =>
              rw [show (s.clearRx rsr.statusFlag).funcRxCb = s.funcRxCb from rfl, hcb, if_pos rfl] at h
              cases hret : (s.clearRx rsr.statusFlag).gmacDevRxCallback rsr.statusFlag with
              | error a =>
                  rw [hret] at h
                  obtain rfl := Option.some.inj h
                  exact .rxHalt isr rsr tsr a hpc hrec hcb hret
              | ok s'' =>
                  rw [hret] at h
                  obtain ⟨hinit, _, stats, rfl⟩ := gmacDevRxCallback_ok hret
                  obtain rfl := Option.some.inj h
                  exact .rxReport isr rsr tsr stats hpc hrec hcb hinit
  | txPart isr tsr =>
      cases hcomp : isr.tcomp || tsr.txcomp with
      | false =>
          obtain rfl := by simpa [hpc, hcomp] using h
          exact .txNothing isr tsr hpc hcomp
      | true =>
          obtain rfl := by simpa [hpc, hcomp] using h
          exact .txReport isr tsr hpc hcomp
  | txLoop flag =>
      simp only [hpc, txTurn, Option.some.injEq] at h
      cases hused : s.tx.used s.tx.usTxTail with
      | false =>
          obtain rfl := by simpa [hused] using h
          exact .txBreak flag hpc hused
      | true =>
          rw [hused] at h
          cases hcb : s.tx.funcTxCbList s.tx.usTxTail with
          | false =>
              rw [hcb] at h
              obtain rfl := h
              exact .txSkip flag hpc hused hcb
          | true =>
              cases hret : s.gmacDevTxCallback flag with
              | error a =>
                  simp only [hcb, hret, if_true] at h
                  obtain rfl := h
                  exact .txHalt flag a hpc hused hcb hret
              | ok s'' =>
                  simp only [hcb, hret, if_true] at h
                  obtain ⟨hinit, _, stats, pending, hack, rfl⟩ := gmacDevTxCallback_ok hret
                  obtain rfl := h
                  exact .txAck flag stats pending hpc hused hcb hinit hack

/-! ### The thread -/

/-- What a step of the driver process or of the poll handler leads to. -/
inductive Thread (s : Sys) : Sys → Prop where
  | paused (hpc : s.thread = .paused) : Thread s { s with thread := .flush }
  | flush (r : ReadResult) (hpc : s.thread = .flush) (thread : ThreadPc)
      (hthread : thread = .flush ∨ thread = .setRxCallback)
      (hread : gmacDevRead s.rx s.pb.packetbuf (packetbufDataptr s.pb) ethernetMaxFrameLen = some r)
      (hlast : thread = .setRxCallback → r.status ≠ .ok) :
      Thread s { s with rx := r.dev, pb := { s.pb with packetbuf := r.frame }, thread }
  | setRxCallback (hpc : s.thread = .setRxCallback) : Thread s { s with funcRxCb := true, thread := .setIdle }
  | setIdle (hpc : s.thread = .setIdle) :
      Thread s { s with state := ⟨false, false, true, false, false⟩, thread := .waiting }
  | pollEntry (hpc : s.thread = .pollEntry) (hflag : (s.state.pendingRx || s.state.pendingTx) = true) :
      Thread s { s with thread := .check .rx }
  | pollHalt (hpc : s.thread = .pollEntry) (hflag : (s.state.pendingRx || s.state.pendingTx) = false) :
      Thread s (s.halt .pollWithoutFlag)
  | enter (b : Branch) (hpc : s.thread = .check b) (hflag : s.state.pending b = true) :
      Thread s { s with thread := .load b }
  | skipRx (hpc : s.thread = .check .rx) (hflag : s.state.pendingRx = false) : Thread s { s with thread := .check .tx }
  | skipTx (hpc : s.thread = .check .tx) (hflag : s.state.pendingTx = false) : Thread s { s with thread := .waiting }
  | load (b : Branch) (hpc : s.thread = .load b) : Thread s { s with thread := .store b s.state }
  | store (b : Branch) (reg : DrvState) (hpc : s.thread = .store b reg) :
      Thread s { s with state := reg.clear b, thread := .disable b }
  | disable (b : Branch) (hpc : s.thread = .disable b) : Thread s { s with irqEnabled := false, thread := .unpoll b }
  | unpoll (b : Branch) (hpc : s.thread = .unpoll b) :
      Thread s { s with needspoll := s.needspoll && (s.state.pendingRx || s.state.pendingTx), thread := .enable b }
  | enableRx (hpc : s.thread = .enable .rx) : Thread s { s with irqEnabled := true, thread := .rxClear }
  | enableTx (hpc : s.thread = .enable .tx) : Thread s { s with irqEnabled := true, thread := .txHead }
  | rxClear (hpc : s.thread = .rxClear) : Thread s { s with pb := packetbufClear s.pb, thread := .rxRead }
  | rxRead (r : ReadResult) (hpc : s.thread = .rxRead)
      (hread : gmacDevRead s.rx s.pb.packetbuf (packetbufDataptr s.pb) ethernetMaxFrameLen = some r) :
      Thread s { s with rx := r.dev, pb := { s.pb with packetbuf := r.frame }, thread := .rxTest r.status r.rcvSize }
  | rxLeave (rxStatus : GmacStatus) (rxLen : Nat) (hpc : s.thread = .rxTest rxStatus rxLen) (hstatus : rxStatus ≠ .ok) :
      Thread s { s with thread := .check .tx }
  | rxHand (rxLen : Nat) (hpc : s.thread = .rxTest .ok rxLen) :
      Thread s { s with pb := packetbufSetDatalen s.pb (UInt16.ofNat rxLen), thread := .rxInput }
  | rxInput (hpc : s.thread = .rxInput) : Thread s { s with thread := .rxClear }
  | txHead (hpc : s.thread = .txHead) (hp : s.pending ≠ []) : Thread s { s with thread := .txTest true }
  | txHeadHalt (hpc : s.thread = .txHead) (hp : s.pending = []) : Thread s (s.halt .pollEmptyList)
  | txEnter (notFound : Bool) (e : PendingElement) (es : List PendingElement) (hpc : s.thread = .txTest notFound)
      (hp : s.pending = e :: es) (hacked : e.isAcked = true) : Thread s { s with thread := .txSwitch }
  | txLeave (hpc : s.thread = .txTest false) (hp : ∀ e ∈ s.pending.head?, e.isAcked = false) :
      Thread s { s with thread := .waiting }
  | txLeaveHalt (hpc : s.thread = .txTest true) (hp : ∀ e ∈ s.pending.head?, e.isAcked = false) :
      Thread s (s.halt .pollNotFound)
  | txSwitch (e : PendingElement) (es : List PendingElement) (txStatus : MacTx) (hpc : s.thread = .txSwitch)
      (hp : s.pending = e :: es) (hstatus : macTxStatus e.status = some txStatus) :
      Thread s { s with thread := .txCall txStatus }
  | txSwitchHalt (e : PendingElement) (es : List PendingElement) (hpc : s.thread = .txSwitch)
      (hp : s.pending = e :: es) (hstatus : macTxStatus e.status = none) : Thread s (s.halt .pollStatus)
  | txCall (e : PendingElement) (es : List PendingElement) (txStatus : MacTx) (hpc : s.thread = .txCall txStatus)
      (hp : s.pending = e :: es) :
      Thread s
        { s with
          sent := s.sent ++ [⟨e.call, txStatus, 1, packetbufAddr s.pb .receiver, true⟩]
          thread := .txCalled }
  | txCalled (hpc : s.thread = .txCalled) : Thread s { s with thread := .txFree }
  | txFree (hpc : s.thread = .txFree) : Thread s { s with membFree := s.membFree + 1, thread := .txPop }
  | txPop (hpc : s.thread = .txPop) : Thread s { s with pending := s.pending.tail, thread := .txTest false }

theorem threadStep_cases (h : s.threadStep = some s') : Thread s s' := by
  unfold threadStep at h
  cases hpc : s.thread with
  | paused =>
      obtain rfl := by simpa [hpc] using h
      exact .paused hpc
  | flush =>
      simp only [hpc, Option.map_eq_some_iff] at h
      obtain ⟨r, hread, rfl⟩ := h
      split
      · exact Thread.flush r hpc _ (.inl rfl) hread nofun
      · next hstatus => exact Thread.flush r hpc _ (.inr rfl) hread fun _ => hstatus
  | setRxCallback =>
      obtain rfl := by simpa [hpc] using h
      exact .setRxCallback hpc
  | setIdle =>
      obtain rfl := by simpa [hpc] using h
      exact .setIdle hpc
  | waiting => simp [hpc] at h
  | pollEntry =>
      cases hflag : s.state.pendingRx || s.state.pendingTx with
      | true =>
          obtain rfl := by simpa [hpc, hflag] using h
          exact .pollEntry hpc hflag
      | false =>
          obtain rfl := by simpa [hpc, hflag] using h
          exact .pollHalt hpc hflag
  | check b =>
      cases hflag : s.state.pending b with
      | true =>
          obtain rfl := by simpa [hpc, hflag] using h
          exact .enter b hpc hflag
      | false =>
          cases b with
          | rx =>
              obtain rfl := by simpa [hpc, hflag] using h
              exact .skipRx hpc hflag
          | tx =>
              obtain rfl := by simpa [hpc, hflag] using h
              exact .skipTx hpc hflag
  | load b =>
      obtain rfl := by simpa [hpc] using h
      exact .load b hpc
  | store b reg =>
      obtain rfl := by simpa [hpc] using h
      exact .store b reg hpc
  | disable b =>
      obtain rfl := by simpa [hpc] using h
      exact .disable b hpc
  | unpoll b =>
      obtain rfl := by simpa [hpc] using h
      exact .unpoll b hpc
  | enable b =>
      cases b with
      | rx =>
          obtain rfl := by simpa [hpc] using h
          exact .enableRx hpc
      | tx =>
          obtain rfl := by simpa [hpc] using h
          exact .enableTx hpc
  | rxClear =>
      obtain rfl := by simpa [hpc] using h
      exact .rxClear hpc
  | rxRead =>
      simp only [hpc, Option.map_eq_some_iff] at h
      obtain ⟨r, hread, rfl⟩ := h
      exact .rxRead r hpc hread
  | rxTest rxStatus rxLen =>
      by_cases hstatus : rxStatus = .ok
      · subst hstatus
        obtain rfl := by simpa [hpc] using h
        exact .rxHand rxLen hpc
      · obtain rfl := by simpa [hpc, hstatus] using h
        exact .rxLeave rxStatus rxLen hpc hstatus
  | rxInput =>
      obtain rfl := by simpa [hpc] using h
      exact .rxInput hpc
  | txHead =>
      simp only [hpc, Option.some.injEq] at h
      split at h
      · next hp =>
        subst h
        exact .txHeadHalt hpc hp
      · next hp =>
        subst h
        exact .txHead hpc (by simp [hp])
  | txTest notFound =>
      have hleave (hp : ∀ e ∈ s.pending.head?, e.isAcked = false) (h : s.leaveTx notFound = s') : Thread s s' := by
        subst h
        cases notFound with
        | true => exact .txLeaveHalt hpc hp
        | false => exact .txLeave hpc hp
      simp only [hpc, Option.some.injEq] at h
      split at h
      · next e es hp =>
        split at h
        · next hacked =>
          subst h
          exact .txEnter notFound e es hpc hp hacked
        · next hacked => exact hleave (by simpa [hp] using hacked) h
      · next hp => exact hleave (by simp [hp]) h
  | txSwitch =>
      simp only [hpc, Option.map_eq_some_iff] at h
      obtain ⟨e, he, h⟩ := h
      obtain ⟨es, hp⟩ := List.head?_eq_some_iff.mp he
      split at h
      · next hstatus =>
        subst h
        exact .txSwitchHalt e es hpc hp hstatus
      · next txStatus hstatus =>
        subst h
        exact .txSwitch e es txStatus hpc hp hstatus
  | txCall txStatus =>
      simp only [hpc, Option.map_eq_some_iff] at h
      obtain ⟨e, he, rfl⟩ := h
      obtain ⟨es, hp⟩ := List.head?_eq_some_iff.mp he
      exact .txCall e es txStatus hpc hp
  | txCalled =>
      obtain rfl := by simpa [hpc] using h
      exact .txCalled hpc
  | txFree =>
      obtain rfl := by simpa [hpc] using h
      exact .txFree hpc
  | txPop =>
      obtain rfl := by simpa [hpc] using h
      exact .txPop hpc

/-! ### Frames -/

/-- What neither the handler nor the hardware touches. -/
structure Unseen (s s' : Sys) : Prop where
  thread : s'.thread = s.thread
  sending : s'.sending = s.sending
  pb : s'.pb = s.pb
  membFree : s'.membFree = s.membFree
  funcRxCb : s'.funcRxCb = s.funcRxCb
  irqEnabled : s'.irqEnabled = s.irqEnabled
  submitted : s'.submitted = s.submitted
  accepted : s'.accepted = s.accepted
  sent : s'.sent = s.sent
  keys : s'.pending.map PendingElement.key = s.pending.map PendingElement.key

/-- The pending elements whose sent callback has not been invoked. -/
def awaiting (s : Sys) : List PendingElement :=
  if s.thread ∈ [.txCalled, .txFree, .txPop] then s.pending.tail else s.pending

theorem Handler.unseen (h : Handler s s') : Unseen s s' := by
  cases h with
  | txAck flag stats pending _ _ _ _ hack =>
      exact ⟨rfl, rfl, rfl, rfl, rfl, rfl, rfl, rfl, rfl, acknowledge_keys hack⟩
  | _ => exact ⟨rfl, rfl, rfl, rfl, rfl, rfl, rfl, rfl, rfl, rfl⟩

theorem Step.unseen (h : Step s e s') (he : e.asynchronous = true) : Unseen s s' := by
  cases h with
  | handler s' h => exact (handlerStep_cases h).unseen
  | send | thread | poll | upper | sendPacket => cases he
  | _ => exact ⟨rfl, rfl, rfl, rfl, rfl, rfl, rfl, rfl, rfl, rfl⟩

/-- The elements awaited are a function of where the thread is and of what an acknowledgement does not change. -/
theorem Unseen.awaiting (h : Unseen s s') :
    s'.awaiting.map PendingElement.key = s.awaiting.map PendingElement.key := by
  unfold Sys.awaiting
  rw [h.thread]
  split
  · rw [List.map_tail, List.map_tail, h.keys]
  · exact h.keys

/-- What a step inside `send_packet` does not touch. -/
structure Sends (s s' : Sys) : Prop where
  state : s'.state = s.state
  needspoll : s'.needspoll = s.needspoll
  rx : s'.rx = s.rx
  hwRx : s'.hwRx = s.hwRx
  funcRxCb : s'.funcRxCb = s.funcRxCb
  isr : s'.isr = s.isr
  tsr : s'.tsr = s.tsr
  due : s'.due = s.due
  hwTx : s'.hwTx = s.hwTx
  pb : s'.pb = s.pb
  thread : s'.thread = s.thread
  handler : s'.handler = s.handler
  halted : s'.halted = s.halted
  served : s'.served = s.served
  submitted : s'.submitted = s.submitted

theorem sendStep_sends (s : Sys) (f : Sending) : Sends s (s.sendStep f) := by
  unfold sendStep
  split <;> (try split) <;> exact ⟨rfl, rfl, rfl, rfl, rfl, rfl, rfl, rfl, rfl, rfl, rfl, rfl, rfl, rfl, rfl⟩

theorem sendStep_pending (s : Sys) (f : Sending) :
    (s.sendStep f).pending = if f.stage = .link then s.pending ++ [⟨f.call, f.addr, false, 0⟩] else s.pending := by
  unfold sendStep
  split <;> (try split) <;> simp_all [goto]

/-- What the driver process and the poll handler do not touch. -/
structure Threads (s s' : Sys) : Prop where
  tx : s'.tx = s.tx
  isr : s'.isr = s.isr
  tsr : s'.tsr = s.tsr
  due : s'.due = s.due
  hwTx : s'.hwTx = s.hwTx
  sending : s'.sending = s.sending
  handler : s'.handler = s.handler
  served : s'.served = s.served
  submitted : s'.submitted = s.submitted
  accepted : s'.accepted = s.accepted

theorem Thread.threads (h : Thread s s') : Threads s s' := by
  cases h <;> exact ⟨rfl, rfl, rfl, rfl, rfl, rfl, rfl, rfl, rfl, rfl⟩

end ContikiAtsam.Sys
