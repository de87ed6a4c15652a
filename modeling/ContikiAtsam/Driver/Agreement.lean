import ContikiAtsam.Driver.Coherent
import ContikiAtsam.Driver.Drain

/-!
# The two models of the driver

The system goes through the accesses of `gmac_dev_write` one by one and has the pending frames as a list; `TxQueue` makes the call one step and has the list in memory. Where nothing comes between its accesses the first ends as the second says, and both change the list of pending frames in the same four ways.
-/

namespace ContikiAtsam

/-- What happens to the list of pending frames. -/
inductive PendingStep : List PendingElement → List PendingElement → Prop where
  | same (es : List PendingElement) : PendingStep es es
  | link (es : List PendingElement) {e : PendingElement} (he : e.isAcked = false) : PendingStep es (es ++ [e])
  | ack {status : UInt32} {es es' : List PendingElement} (h : acknowledge status es = some es') : PendingStep es es'
  | pop {e : PendingElement} (es : List PendingElement) (he : e.isAcked = true) : PendingStep (e :: es) es

theorem PendingStep.of_eq {es es' : List PendingElement} (h : es' = es) : PendingStep es es' := by
  rw [h]
  exact .same es

/-! ### The calls of `gmac_dev_write` -/

namespace Sys

variable {s s' : Sys} {e : Event} {f : Sending}

/-- Where a call goes with what `gmac_dev_write` has returned. -/
def SendStage.returned (macStatus : MacTx) : SendStage := if macStatus = .ok then .start else .free macStatus

theorem repeats_goto {stage : SendStage} (hhalted : s.halted = none) (hidle : s.handler = .idle) (t : Sys)
    (next : SendStage) (hstep : (s.goto f stage).sendStep { f with stage } = t.goto f next)
    (h : Repeats step .thread (t.goto f next) s') : Repeats step .thread (s.goto f stage) s' := by
  refine Repeats.head ?_ h
  rw [← hstep, step, if_neg (by simp [goto, hhalted])]
  simp [goto, hidle]

section Write

variable (f) (hhalted : s.halted = none) (hidle : s.handler = .idle)

include hhalted hidle

theorem repeats_incTest (td : Nat) :
    Repeats step .thread (s.goto f (.incTest td))
      ({ s with tx := { s.tx with usTxHead := if s.tx.usTxHead ≥ s.tx.usTxListSize then 0 else s.tx.usTxHead } }.goto
        f .start) := by
  by_cases hwrap : s.tx.usTxHead ≥ s.tx.usTxListSize
  · rw [if_pos hwrap]
    refine repeats_goto hhalted hidle s (.incWrap td) (if_pos hwrap) ?_
    exact repeats_goto hhalted hidle { s with tx := { s.tx with usTxHead := 0 } } .start rfl (Repeats.refl _ _)
  · rw [if_neg hwrap]
    exact repeats_goto hhalted hidle s .start (if_neg hwrap) (Repeats.refl _ _)

theorem repeats_slot :
    Repeats step .thread (s.goto f (.slot s.tx.usTxHead))
      ({ s with
          tx :=
            { s.tx.hand s.tx.usTxHead f.size (s.tx.usTxHead + 1 == s.tx.usTxListSize) with
              funcTxCbList := Function.update s.tx.funcTxCbList s.tx.usTxHead true
              usTxHead := circInc s.tx.usTxHead s.tx.usTxListSize } }.goto f .start) := by
  let head := s.tx.usTxHead
  let wrap := head + 1 == s.tx.usTxListSize
  let called : TxRing := { s.tx with funcTxCbList := Function.update s.tx.funcTxCbList head true }
  let handed : TxRing := called.hand head f.size wrap
  refine repeats_goto hhalted hidle s (.fill head head) rfl ?_
  refine repeats_goto hhalted hidle { s with tx := called } (.lastDscr head) rfl ?_
  refine repeats_goto hhalted hidle { s with tx := called } (.hand head wrap) rfl ?_
  refine repeats_goto hhalted hidle { s with tx := handed } (.incLoad head) rfl ?_
  refine repeats_goto hhalted hidle { s with tx := handed } (.incStore head head) rfl ?_
  let moved : Sys := { s with tx := { handed with usTxHead := head + 1 } }
  refine repeats_goto hhalted hidle moved (.incTest head) rfl ?_
  exact repeats_incTest (s := moved) f hhalted hidle head

/-- **A call of `gmac_dev_write` that nothing interrupts** is one step of `TxQueue`. -/
theorem repeats_gmacDevWrite : ∃ macStatus, macWriteStatus (s.tx.gmacDevWrite f.size).1 = some macStatus ∧
    Repeats step .thread (s.goto f .write)
      ({ s with tx := (s.tx.gmacDevWrite f.size).2 }.goto f (SendStage.returned macStatus)) := by
  let head := s.tx.usTxHead
  by_cases hlong : f.size > gmacTxUnitsize
  · rw [TxRing.gmacDevWrite, if_pos hlong]
    exact ⟨.errFatal, rfl, repeats_goto hhalted hidle s _ (if_pos hlong) (Repeats.refl _ _)⟩
  have hstart {t : Sys} (h : Repeats step .thread (s.goto f (.spaceHead head s.tx.usTxTail)) t) :
      Repeats step .thread (s.goto f .write) t := by
    refine repeats_goto hhalted hidle s (.spaceTail head) (if_neg hlong) ?_
    exact repeats_goto hhalted hidle s (.spaceHead head s.tx.usTxTail) rfl h
  by_cases hspace : circSpace head s.tx.usTxTail s.tx.usTxListSize = 0
  swap
  · rw [TxRing.gmacDevWrite, if_neg hlong, if_neg (fun h => hspace h.1)]
    refine ⟨.ok, rfl, hstart ?_⟩
    exact repeats_goto hhalted hidle s (.slot head) (if_neg hspace) (repeats_slot f hhalted hidle)
  have htest {t : Sys} (h : Repeats step .thread (s.goto f (.busyDscr head head)) t) :
      Repeats step .thread (s.goto f .write) t := by
    refine hstart (repeats_goto hhalted hidle s (.busyHead head) (if_pos hspace) ?_)
    exact repeats_goto hhalted hidle s (.busyDscr head head) rfl h
  by_cases hused : s.tx.used (head + head) = true
  · rw [TxRing.gmacDevWrite, if_neg hlong, if_pos ⟨hspace, hused⟩]
    refine ⟨.err, rfl, htest ?_⟩
    exact repeats_goto hhalted hidle s (.free .err) (if_pos hused) (Repeats.refl _ _)
  · rw [TxRing.gmacDevWrite, if_neg hlong, if_neg (fun h => hused h.2)]
    refine ⟨.ok, rfl, htest ?_⟩
    exact repeats_goto hhalted hidle s (.slot head) (if_neg hused) (repeats_slot f hhalted hidle)

end Write

/-! ### The list of pending frames -/

theorem pending_step (hs : Coherent s) (h : step s e = some s') : PendingStep s.pending s'.pending := by
  obtain ⟨_, hstep⟩ := step_cases h
  cases hstep with
  | send f _ _ =>
      rw [sendStep_pending]
      split
      · exact .link _ rfl
      · exact .same _
  | thread s' _ _ h =>
      cases threadStep_cases h with
      | txPop hpc =>
          obtain ⟨x, hx, hacked⟩ := hs.pops (by rw [hpc]; rfl)
          obtain ⟨xs, hp⟩ := List.head?_eq_some_iff.mp hx
          change PendingStep s.pending s.pending.tail
          rw [hp]
          exact .pop xs hacked
      | _ => exact .same _
  | handler s' h =>
      cases handlerStep_cases h with
      | txAck flag stats pending _ _ _ _ hack => exact .ack hack
      | txReport isr tsr _ _ => exact .of_eq rfl
      | _ => exact .same _
  | _ => exact .same _

end Sys

namespace TxQueue

variable {lib : ContikiLib} {s s' : TxQueue lib} {e : TxQueueEvent} {ptrs : List Nat}

theorem pending_step (hlib : lib.Lawful) (hs : Keeps s ptrs) (h : step s e = some s') :
    PendingStep s.pending s'.pending := by
  cases e with
  | send size addr =>
      obtain ⟨hupper, hrefused | ⟨p, htaken⟩⟩ := send_cases hlib hs h
      · have helem := hrefused.elem
        rw [hs.linked_eq] at helem
        rw [hs.pending_eq, (hs.refused hrefused hupper).pending_eq]
        exact .of_eq (List.map_congr_left helem)
      · rw [hs.pending_eq, (hs.taken hlib htaken hupper).pending_eq, hs.map_taken htaken hupper]
        exact .link _ htaken.isAcked
  | ack status =>
      rw [hs.pending_eq, (hs.ack h).1.pending_eq]
      exact .ack (hs.map_acked h)
  | device tx =>
      obtain rfl := Option.some.inj h
      exact .same _
  | poll =>
      obtain ⟨_, p, _, rfl⟩ := poll_cases h
      exact .same _
  | thread =>
      cases threadStep_cases h with
      | pop p hpc =>
          obtain ⟨q, qs, rfl, hacked⟩ := hs.head_acked (by rw [hpc]; rfl)
          obtain ⟨hchain, _⟩ := hlib.pop hs.chain
          have hlength := hs.length_le
          rw [List.length_cons] at hlength
          rw [hs.pending_eq, pending, linked, hchain.walk_eq (by omega)]
          exact .pop _ hacked
      | _ => exact .same _

theorem Keeps.gmacDevTxCallback_eq_none (hs : Keeps s ptrs) (status : UInt32) :
    s.gmacDevTxCallback status = none ↔ acknowledge status s.pending = none := by
  rw [acknowledge_eq_none, unacked, List.countP_eq_zero, hs.pending_eq, gmacDevTxCallback,
    hs.chain.search_eq hs.length_le]
  simp

end TxQueue

end ContikiAtsam
