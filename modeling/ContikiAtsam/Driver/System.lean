import ContikiAtsam.Base.Run
import ContikiAtsam.Driver.Pending
import ContikiAtsam.Net.Framer

/-!
# The driver and its interrupt

`gmac-drv.c` with the transmit path of `gmac_raw.c` as a transition system. Three parties take steps: the thread (the driver process, the poll handler and, above them, the calls of `send_packet`), the interrupt handler, which runs to its end before the thread goes on, and the hardware. A step of the thread makes at most one access to what the handler also uses, so that the handler may run between any two accesses; `state &= ~FLAG` and the increment of `usTxHead` are a load and a store. What only the thread touches is done in one step, `gmac_dev_read` included: the handler does not use the receive ring, and the hardware only fills buffers that the software does not own.

The link layer of Contiki above the driver is left open: wherever its code runs it may overwrite the packet buffer and send.
-/

namespace ContikiAtsam

/-! ### State -/

/-- `gmac_drv_state_t`, flag by flag. -/
structure DrvState where
  notInitialized : Bool
  pendingReset : Bool
  idle : Bool
  pendingRx : Bool
  pendingTx : Bool
  deriving DecidableEq, Repr

/-- The two branches of the poll handler. -/
inductive Branch where
  | rx
  | tx
  deriving DecidableEq, Repr

namespace DrvState

def pending (s : DrvState) : Branch → Bool
  | .rx => s.pendingRx
  | .tx => s.pendingTx

def set (s : DrvState) : Branch → DrvState
  | .rx => { s with pendingRx := true }
  | .tx => { s with pendingTx := true }

def clear (s : DrvState) : Branch → DrvState
  | .rx => { s with pendingRx := false }
  | .tx => { s with pendingTx := false }

end DrvState

/-- `eth_stats_t`. -/
structure EthStats where
  tx : Nat
  txErr : Nat
  rx : Nat
  rxErrNoBuf : Nat
  rxErrOverrun : Nat

/-- The assertions of `gmac-drv.c` that the modelled functions make. -/
inductive Assertion where
  | callbackState
  | txCallbackStatus
  | rxCallbackStatus
  | noPendingElement
  | allAcked
  | pollWithoutFlag
  | pollEmptyList
  | pollNotFound
  | pollStatus
  deriving DecidableEq, Repr

/-- Where a call of `send_packet` is, from `gmac_driver_tx` on, with the local variables still needed. -/
inductive SendStage where
  | alloc
  | write
  | spaceTail (td : Nat)
  | spaceHead (td tail : Nat)
  | busyHead (td : Nat)
  | busyDscr (td head : Nat)
  | slot (td : Nat)
  | fill (td slot : Nat)
  | lastDscr (td : Nat)
  | hand (td : Nat) (wrap : Bool)
  | incLoad (td : Nat)
  | incStore (td v : Nat)
  | incTest (td : Nat)
  | incWrap (td : Nat)
  | start
  | link
  | free (macStatus : MacTx)
  | notify (macStatus : MacTx) (transmissions : Nat)
  deriving DecidableEq, Repr

structure Sending where
  call : Nat
  size : Nat
  addr : Linkaddr6
  stage : SendStage

/-- Where the driver process is, in start-up, at `PROCESS_WAIT_EVENT` or in the poll handler. -/
inductive ThreadPc where
  | paused
  | flush
  | setRxCallback
  | setIdle
  | waiting
  | pollEntry
  | check (b : Branch)
  | load (b : Branch)
  | store (b : Branch) (reg : DrvState)
  | disable (b : Branch)
  | unpoll (b : Branch)
  | enable (b : Branch)
  | rxClear
  | rxRead
  | rxTest (rxStatus : GmacStatus) (rxLen : Nat)
  | rxInput
  | txHead
  | txTest (notFound : Bool)
  | txSwitch
  | txCall (txStatus : MacTx)
  | txCalled
  | txFree
  | txPop
  deriving DecidableEq, Repr

/-- Where `gmac_handler` is, with what it has read. -/
inductive HandlerPc where
  | idle
  | readRsr (isr : Isr)
  | readTsr (isr : Isr) (rsr : Rsr)
  | rxPart (isr : Isr) (rsr : Rsr) (tsr : Tsr)
  | txPart (isr : Isr) (tsr : Tsr)
  | txLoop (flag : UInt32)
  deriving DecidableEq, Repr

/-- An invocation of a sent callback, from the poll handler (`polled`) or from the call itself. -/
structure SentCall where
  call : Nat
  status : MacTx
  transmissions : Nat
  receiver : Linkaddr6
  polled : Bool

/-- The state of the system. `due` are the outcomes of finished frames that the hardware has not raised in `GMAC_TSR` yet; `served i` says that the handler has run for what descriptor `i` of the receive ring holds. The last four fields are history: the receiver of each call when it was submitted, the calls that `gmac_dev_write` accepted and the callbacks made. -/
structure Sys where
  state : DrvState
  stats : EthStats
  needspoll : Bool
  pending : List PendingElement
  membFree : Nat
  tx : TxRing
  rx : RxRing
  funcRxCb : Bool
  irqEnabled : Bool
  isr : Isr
  rsr : Rsr
  tsr : Tsr
  due : Tsr
  hwTx : Nat
  hwRx : Nat
  pb : Packetbuf
  thread : ThreadPc
  sending : Option Sending
  handler : HandlerPc
  halted : Option Assertion
  served : Nat → Bool
  submitted : List Linkaddr6
  accepted : List Nat
  sent : List SentCall

inductive Event where
  /-- The next step of the thread, inside a call of `send_packet` if there is one. -/
  | thread
  /-- The kernel calls the poll handler; it may have reset `needspoll` before. -/
  | poll (reset : Bool)
  /-- The layers above write the packet buffer. -/
  | upper (pb : Packetbuf)
  /-- They call `send_packet`, with this packet buffer. -/
  | send (pb : Packetbuf)
  /-- The interrupt is taken. -/
  | interrupt
  /-- The next step of the handler. -/
  | handler
  | txFinish (outcome : Tsr)
  | txRaise
  | rxFill (status : UInt32) (bytes : List UInt8)
  | rxRaise (rcomp : Bool) (rsr : Rsr)
  /-- Anything else in the program writes the word at index `i` from `pTxDscr` on, past the array. -/
  | clobber (i : Nat) (word : UInt32)

/-- The events that are not the thread's. -/
def Event.asynchronous : Event → Bool
  | .thread | .poll _ | .upper _ | .send _ => false
  | _ => true

namespace Sys

def halt (s : Sys) (a : Assertion) : Sys := { s with halted := some a }

/-! ### The callbacks of the device -/

/-- `gmac_dev_tx_callback`. -/
def gmacDevTxCallback (status : UInt32) (s : Sys) : Except Assertion Sys :=
  if s.state.notInitialized || s.state.pendingReset then .error .callbackState
  else if status ≠ gmacTsrTxcomp ∧ status ≠ gmacTsrRle ∧ (gmacTsrUnd ||| gmacTsrCol) &&& status = 0 then
    .error .txCallbackStatus
  else
    let stats :=
      if status = gmacTsrTxcomp then { s.stats with tx := s.stats.tx + 1 }
      else { s.stats with txErr := s.stats.txErr + 1 }
    match s.pending, acknowledge status s.pending with
    | [], _ => .error .noPendingElement
    | _, none => .error .allAcked
    | _, some pending => .ok { s with stats, pending, state := s.state.set .tx, needspoll := true }

/-- `gmac_dev_rx_callback`. -/
def gmacDevRxCallback (status : UInt32) (s : Sys) : Except Assertion Sys :=
  if s.state.notInitialized || s.state.pendingReset then .error .callbackState
  else
    let polled := fun stats => { s with stats, state := s.state.set .rx, needspoll := true }
    if status = gmacRsrRec then .ok (polled { s.stats with rx := s.stats.rx + 1 })
    else if gmacRsrBna &&& status = gmacRsrBna then
      .ok (polled { s.stats with rxErrNoBuf := s.stats.rxErrNoBuf + 1 })
    else if gmacRsrRxovr &&& status = gmacRsrRxovr then
      .ok (polled { s.stats with rxErrOverrun := s.stats.rxErrOverrun + 1 })
    else .error .rxCallbackStatus

/-! ### The interrupt handler -/

/-- The handler clears `GMAC_RSR`; it now runs for every buffer that the software owns. -/
def clearRx (s : Sys) (flag : UInt32) : Sys :=
  { s with rsr := s.rsr.clear flag, served := fun i => s.served i || (s.rx.pRxDscr i).owned }

/-- The RX part of `gmac_handler`, once it has decided to report. -/
def reportRx (s : Sys) (flag : UInt32) : Except Assertion Sys :=
  let s := s.clearRx flag
  if s.funcRxCb then s.gmacDevRxCallback flag else .ok s

/-- The TX part of `gmac_handler` up to its loop. -/
def reportTx (s : Sys) (tsr : Tsr) : Sys :=
  let flag := tsr.statusFlag
  let tx := if tsr.rle then s.tx.resetMem else s.tx
  { s with
    tx
    hwTx := if tsr.rle then 0 else s.hwTx
    tsr := s.tsr.clear flag
    handler := if tx.usTxHead ≠ tx.usTxTail then .txLoop flag else .idle }

/-- What a turn of the loop of `gmac_handler` does when the descriptor at the tail is used. -/
def releaseTail (s : Sys) (flag : UInt32) : Sys :=
  let usTxTail := circInc s.tx.usTxTail s.tx.usTxListSize
  { s with
    tx := { s.tx with usTxTail }
    handler := if circCnt s.tx.usTxHead usTxTail s.tx.usTxListSize ≠ 0 then .txLoop flag else .idle }

/-- One turn of the loop of `gmac_handler`. -/
def txTurn (s : Sys) (flag : UInt32) : Sys :=
  if !s.tx.used s.tx.usTxTail then { s with handler := .idle }
  else
    match if s.tx.funcTxCbList s.tx.usTxTail then s.gmacDevTxCallback flag else .ok s with
    | .error a => s.halt a
    | .ok s => s.releaseTail flag

def handlerStep (s : Sys) : Option Sys :=
  match s.handler with
  | .idle => none
  | .readRsr isr => some { s with handler := .readTsr isr s.rsr }
  | .readTsr isr rsr => some { s with handler := .rxPart isr rsr s.tsr }
  | .rxPart isr rsr tsr =>
    match if isr.rcomp || rsr.frameRec then s.reportRx rsr.statusFlag else .ok s with
    | .error a => some (s.halt a)
    | .ok s => some { s with handler := .txPart isr tsr }
  | .txPart isr tsr =>
    some (if isr.tcomp || tsr.txcomp then s.reportTx tsr else { s with handler := .idle })
  | .txLoop flag => some (s.txTurn flag)

/-! ### Sending -/

def goto (s : Sys) (f : Sending) (stage : SendStage) : Sys :=
  { s with sending := some { f with stage } }

/-- A step of `gmac_driver_tx` and of `gmac_dev_write`, which it calls. -/
def sendStep (s : Sys) (f : Sending) : Sys :=
  match f.stage with
  | .alloc =>
    if s.membFree = 0 then s.goto f (.notify .errFatal 1)
    else { s with membFree := s.membFree - 1 }.goto { f with addr := packetbufAddr s.pb .receiver } .write
  | .write => if f.size > gmacTxUnitsize then s.goto f (.free .errFatal) else s.goto f (.spaceTail s.tx.usTxHead)
  | .spaceTail td => s.goto f (.spaceHead td s.tx.usTxTail)
  | .spaceHead td tail =>
    if circSpace s.tx.usTxHead tail s.tx.usTxListSize = 0 then s.goto f (.busyHead td) else s.goto f (.slot td)
  | .busyHead td => s.goto f (.busyDscr td s.tx.usTxHead)
  | .busyDscr td head =>
    -- pTxTd[usTxHead], where pTxTd is already at the head
    if s.tx.used (td + head) then s.goto f (.free .err) else s.goto f (.slot td)
  | .slot td => s.goto f (.fill td s.tx.usTxHead)
  | .fill td slot =>
    { s with tx := { s.tx with funcTxCbList := Function.update s.tx.funcTxCbList slot true } }.goto f (.lastDscr td)
  | .lastDscr td => s.goto f (.hand td (s.tx.usTxHead + 1 == s.tx.usTxListSize))
  | .hand td wrap => { s with tx := s.tx.hand td f.size wrap }.goto f (.incLoad td)
  | .incLoad td => s.goto f (.incStore td s.tx.usTxHead)
  | .incStore td v => { s with tx := { s.tx with usTxHead := v + 1 } }.goto f (.incTest td)
  | .incTest td => if s.tx.usTxHead ≥ s.tx.usTxListSize then s.goto f (.incWrap td) else s.goto f .start
  | .incWrap _ => { s with tx := { s.tx with usTxHead := 0 } }.goto f .start
  | .start => { s with accepted := s.accepted ++ [f.call] }.goto f .link
  | .link => { s with pending := s.pending ++ [⟨f.call, f.addr, false, 0⟩], sending := none }
  | .free macStatus => { s with membFree := s.membFree + 1 }.goto f (.notify macStatus 1)
  | .notify macStatus transmissions =>
    { s with
      sent := s.sent ++ [⟨f.call, macStatus, transmissions, packetbufAddr s.pb .receiver, false⟩]
      sending := none }

/-- `send_packet` up to `gmac_driver_tx`. -/
def sendPacket (s : Sys) (pb : Packetbuf) : Sys :=
  let framed := create pb
  { s with
    pb := framed.2
    submitted := s.submitted ++ [packetbufAddr framed.2 .receiver]
    sending := some
      { call := s.submitted.length
        size := (packetbufTotlen framed.2).toNat
        addr := linkaddr6Null
        stage := if framed.1 < 0 then .notify .errFatal 0 else .alloc } }

/-! ### The driver process and the poll handler -/

/-- The end of the TX branch. -/
def leaveTx (s : Sys) (notFound : Bool) : Sys :=
  if notFound then s.halt .pollNotFound else { s with thread := .waiting }

def threadStep (s : Sys) : Option Sys :=
  match s.thread with
  | .paused => some { s with thread := .flush }
  | .flush =>
    (gmacDevRead s.rx s.pb.packetbuf (packetbufDataptr s.pb) ethernetMaxFrameLen).map fun r =>
      { s with
        rx := r.dev
        pb := { s.pb with packetbuf := r.frame }
        thread := if r.status = .ok then .flush else .setRxCallback }
  | .setRxCallback => some { s with funcRxCb := true, thread := .setIdle }
  | .setIdle => some { s with state := ⟨false, false, true, false, false⟩, thread := .waiting }
  | .waiting => none
  | .pollEntry =>
    some (if s.state.pendingRx || s.state.pendingTx then { s with thread := .check .rx } else s.halt .pollWithoutFlag)
  | .check b =>
    some { s with thread := if s.state.pending b then .load b else match b with | .rx => .check .tx | .tx => .waiting }
  | .load b => some { s with thread := .store b s.state }
  | .store b reg => some { s with state := reg.clear b, thread := .disable b }
  | .disable b => some { s with irqEnabled := false, thread := .unpoll b }
  | .unpoll b =>
    some { s with needspoll := s.needspoll && (s.state.pendingRx || s.state.pendingTx), thread := .enable b }
  | .enable b => some { s with irqEnabled := true, thread := match b with | .rx => .rxClear | .tx => .txHead }
  | .rxClear => some { s with pb := packetbufClear s.pb, thread := .rxRead }
  | .rxRead =>
    (gmacDevRead s.rx s.pb.packetbuf (packetbufDataptr s.pb) ethernetMaxFrameLen).map fun r =>
      { s with rx := r.dev, pb := { s.pb with packetbuf := r.frame }, thread := .rxTest r.status r.rcvSize }
  | .rxTest rxStatus rxLen =>
    some (if rxStatus ≠ .ok then { s with thread := .check .tx }
      else { s with pb := packetbufSetDatalen s.pb (UInt16.ofNat rxLen), thread := .rxInput })
  | .rxInput => some { s with thread := .rxClear }
  | .txHead =>
    some (match s.pending with | [] => s.halt .pollEmptyList | _ :: _ => { s with thread := .txTest true })
  | .txTest notFound =>
    some (match s.pending with
      | e :: _ => if e.isAcked then { s with thread := .txSwitch } else s.leaveTx notFound
      | [] => s.leaveTx notFound)
  | .txSwitch =>
    s.pending.head?.map fun e =>
      match macTxStatus e.status with
      | none => s.halt .pollStatus
      | some txStatus => { s with thread := .txCall txStatus }
  | .txCall txStatus =>
    s.pending.head?.map fun e =>
      { s with
        sent := s.sent ++ [⟨e.call, txStatus, 1, packetbufAddr s.pb .receiver, true⟩]
        thread := .txCalled }
  | .txCalled => some { s with thread := .txFree }
  | .txFree => some { s with membFree := s.membFree + 1, thread := .txPop }
  | .txPop => some { s with pending := s.pending.tail, thread := .txTest false }

/-- The layers above run: in a process of their own, in `NETSTACK_0_MAC.input` or in a sent callback. -/
def runsUpper (s : Sys) : Prop :=
  s.handler = .idle ∧ s.sending = none ∧ s.thread ∈ [.paused, .waiting, .rxInput, .txCalled]

instance (s : Sys) : Decidable s.runsUpper :=
  inferInstanceAs (Decidable (s.handler = .idle ∧ s.sending = none ∧ _))

/-! ### The hardware -/

/-- A frame is finished. -/
def hwTxFinish (s : Sys) (outcome : Tsr) : Sys :=
  { s with
    tx := s.tx.finish s.hwTx
    hwTx := circInc s.hwTx s.tx.usTxListSize
    due := s.due.union { outcome with txcomp := true } }

def hwTxRaise (s : Sys) : Sys :=
  { s with tsr := s.tsr.union s.due, isr := { s.isr with tcomp := true }, due := .none }

/-- A buffer is filled. -/
def hwRxFill (s : Sys) (status : UInt32) (bytes : List UInt8) : Sys :=
  let td := s.rx.pRxDscr s.hwRx
  { s with
    rx :=
      { s.rx with
        pRxDscr := Function.update s.rx.pRxDscr s.hwRx ⟨td.addr ||| gmacRxdOwnership, status⟩
        ram := s.rx.ram.store td.bufferAddr (bytes.take gmacRxUnitsize) }
    hwRx := circInc s.hwRx s.rx.usRxListSize
    served := Function.update s.served s.hwRx false }

def hwRxRaise (s : Sys) (rcomp : Bool) (rsr : Rsr) : Sys :=
  { s with rsr := s.rsr.union rsr, isr := { s.isr with rcomp := s.isr.rcomp || rcomp } }

/-! ### The system -/

def step (s : Sys) (e : Event) : Option Sys :=
  if s.halted ≠ none then none
  else match e with
    | .thread =>
      if s.handler ≠ .idle then none
      else match s.sending with
        | some f => some (s.sendStep f)
        | none => s.threadStep
    | .poll reset =>
      if s.handler = .idle ∧ s.sending.isNone ∧ s.thread = .waiting ∧ s.needspoll then
        some { s with needspoll := !reset, thread := .pollEntry }
      else none
    | .upper pb => if s.runsUpper then some { s with pb } else none
    | .send pb => if s.runsUpper then some (s.sendPacket pb) else none
    | .interrupt =>
      if s.handler = .idle ∧ s.irqEnabled then some { s with isr := ⟨false, false⟩, handler := .readRsr s.isr } else none
    | .handler => s.handlerStep
    | .txFinish outcome => if s.tx.used s.hwTx then none else some (s.hwTxFinish outcome)
    | .txRaise => if s.due.txcomp then some s.hwTxRaise else none
    | .rxFill status bytes => if (s.rx.pRxDscr s.hwRx).owned then none else some (s.hwRxFill status bytes)
    | .rxRaise rcomp rsr => some (s.hwRxRaise rcomp rsr)
    | .clobber i word =>
      if i < s.tx.usTxListSize then none
      else some { s with tx := { s.tx with pTxDscr := Function.update s.tx.pTxDscr i word } }

end Sys

/-- What the driver is configured with and what memory holds before it starts. `gmac_init_mem` rejects lists of one descriptor. -/
structure Board where
  txListSize : Nat
  rxListSize : Nat
  membSize : Nat
  words : Nat → UInt32
  pRxBuffer : UInt32
  ram : Memory
  one_lt_txListSize : 1 < txListSize
  one_lt_rxListSize : 1 < rxListSize

/-- `GMAC_TX_BUFFERS`, `GMAC_RX_BUFFERS` and `GMAC_DRV_TX_PENDING_MAX_QUEUE_LEN` as configured, over zeroed memory. -/
def sam4expro : Board := ⟨3, 32, 16, fun _ => 0, 0x20000000, fun _ => 0, by decide, by decide⟩

/-- The state after `INTERRUPT_ENABLE` in `gmac_driver_init`, the driver process not yet started. -/
def Sys.init (board : Board) : Sys where
  state := ⟨true, false, false, false, false⟩
  stats := ⟨0, 0, 0, 0, 0⟩
  needspoll := false
  pending := []
  membFree := board.membSize
  tx := TxRing.resetMem ⟨board.words, fun _ => false, board.txListSize, 0, 0⟩
  rx := RxRing.resetMem ⟨fun _ => ⟨0, 0⟩, board.rxListSize, 0, board.ram⟩ board.pRxBuffer
  funcRxCb := false
  irqEnabled := true
  isr := ⟨false, false⟩
  rsr := .none
  tsr := .none
  due := .none
  hwTx := 0
  hwRx := 0
  pb := .zeroed
  thread := .paused
  sending := none
  handler := .idle
  halted := none
  served := fun _ => false
  submitted := []
  accepted := []
  sent := []

/-! ### Pieces of runs -/

def threadSteps (k : Nat) : List Event := List.replicate k .thread

/-- The start-up of the driver process, with nothing received. -/
def startUp : List Event := threadSteps 4

/-- A packet without data for the station whose address repeats `b`. -/
def packetTo (b : UInt8) : Packetbuf := packetbufSetAddr (packetbufClear .zeroed) .receiver (Vector.replicate 6 b)

/-- A call of `send_packet` that finds room in the ring, from its start to its end. -/
def sendOne (pb : Packetbuf) : List Event := .send pb :: threadSteps 13

/-- The interrupt with `k` steps of the handler. -/
def interrupted (k : Nat) : List Event := .interrupt :: List.replicate k .handler

/-- A frame of one buffer and 64 bytes arrives and is reported. -/
def receiveOne : List Event :=
  [.rxFill 0xC040 (List.replicate 64 0), .rxRaise true ⟨true, false, false⟩] ++ interrupted 4

end ContikiAtsam
