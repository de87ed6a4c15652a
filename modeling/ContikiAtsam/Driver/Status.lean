import Mathlib.Data.List.Forall2
import ContikiAtsam.Driver.Assertions
import ContikiAtsam.Driver.Completion

/-!
# The status of a frame

Three places encode how a transmission ended: the handler ors flags into one word for all the frames it finds finished, the callback of the device tests that word and records it with each frame, and the poll handler turns what is recorded into a result of the MAC layer. The hardware has one status register for all frames, so a batch has one word.
-/

namespace ContikiAtsam

/-- How the hardware ends the transmission of a frame. -/
inductive Outcome where
  | sent
  | collision
  | underrun
  | retryLimit
  deriving DecidableEq, Repr

namespace Outcome

/-- What the frame adds to `GMAC_TSR`. -/
def tsr : Outcome → Tsr
  | .sent => ⟨true, false, false, false⟩
  | .collision => ⟨true, false, true, false⟩
  | .underrun => ⟨true, false, false, true⟩
  | .retryLimit => ⟨true, true, false, false⟩

end Outcome

def PendingElement.acked (e : PendingElement) (status : UInt32) : PendingElement := { e with isAcked := true, status }

namespace Sys

variable {s s' : Sys} {T H : Nat} {flag : UInt32} {earlier later : List PendingElement}

/-- What the TX part of the handler relies on, which its RX part keeps. -/
structure Answers (s : Sys) : Prop where
  halted : s.halted = none
  notInitialized : s.state.notInitialized = false
  pendingReset : s.state.pendingReset = false
  handedOver : s.handedOver = 0

theorem Answers.hidden (h : Answers s) : s.hidden = 0 :=
  Nat.le_zero.mp (h.handedOver ▸ Tracks.hidden_le s)

variable {batch : List (PendingElement × Outcome)}

/-- The hardware finishes frames and raises the interrupt. -/
private def finished (os : List Outcome) : List Event := os.map (fun o => .txFinish o.tsr) ++ [.txRaise]

end Sys

end ContikiAtsam
