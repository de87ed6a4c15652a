import ContikiAtsam.Driver.Receive
import ContikiAtsam.Gmac.Checked
import Mathlib.Data.Finset.Card

/-!
# The receive loop on any ring

The loop of the poll handler's RX branch with the checked reader. A read that returns a frame gives at least one descriptor back, so the descriptors owned by the software are the variant of the loop, whatever the hardware has left in the ring. The MAC layer is left open; it does not touch the ring.
-/

namespace ContikiAtsam.Checked

/-- A packet handed to `NETSTACK_0_MAC.input`: its data length, and the bytes copied for it. -/
structure Handed where
  datalen : Nat
  copied : Nat

/-- A call of `gmac_dev_read`. -/
structure Call where
  dev : RxRing
  frame : Memory
  pFrame : Nat
  result : Result

def Call.Safe (c : Call) : Prop := Checked.Safe c.dev c.frame c.pFrame ethernetMaxFrameLen c.result

/-- The loop's state, with the reads made and the packets handed on so far. -/
structure RxLoop where
  dev : RxRing
  pb : Packetbuf
  calls : List Call
  handed : List Handed

/-- The rest of a turn, after the call of `gmac_dev_read` into the packet buffer `pb`. -/
def handOn (macInput : Packetbuf → Packetbuf) (s : RxLoop) (pb : Packetbuf) (r : Result) : Turn RxLoop RxLoop :=
  let calls := s.calls ++ [⟨s.dev, pb.packetbuf, packetbufDataptr pb, r⟩]
  let pb := { pb with packetbuf := r.frame }
  if r.status ≠ .ok then .leave ⟨r.dev, pb, calls, s.handed⟩
  else
    let pb := packetbufSetDatalen pb (UInt16.ofNat r.rcvSize)
    .again ⟨r.dev, macInput pb, calls, s.handed ++ [⟨(packetbufDatalen pb).toNat, r.copied⟩]⟩

def rxTurn (macInput : Packetbuf → Packetbuf) (s : RxLoop) : Except ReadFault (Turn RxLoop RxLoop) := do
  let pb := packetbufClear s.pb
  let r ← gmacDevRead s.dev pb.packetbuf (packetbufDataptr pb) ethernetMaxFrameLen
  return handOn macInput s pb r

def rxBranch (macInput : Packetbuf → Packetbuf) (fuel : Nat) (dev : RxRing) (pb : Packetbuf) :
    Except ReadFault RxLoop :=
  Loop.runChecked (rxTurn macInput) .endless fuel ⟨dev, pb, [], []⟩

/-- The descriptors the software owns. -/
def owned (dev : RxRing) : Finset Nat :=
  (Finset.range dev.usRxListSize).filter fun i => (dev.pRxDscr i).owned = true

variable {s : RxLoop}

theorem Safe.owned_lt {dev : RxRing} {frame : Memory} {pFrame cap : Nat} {r : Result}
    (h : Safe dev frame pFrame cap r) (hidx : dev.usRxIdx < dev.usRxListSize) (hok : r.status = .ok) :
    (owned r.dev).card < (owned dev).card := by
  obtain ⟨hbefore, hafter⟩ := h.gives hok
  apply Finset.card_lt_card
  rw [Finset.ssubset_iff_of_subset]
  · refine ⟨dev.usRxIdx, by simp [owned, hidx, hbefore], ?_⟩
    simp [owned, hafter]
  · intro i hi
    simp only [owned, Finset.mem_filter, Finset.mem_range, h.size] at hi ⊢
    exact ⟨hi.1, h.kept i hi.2⟩

/-- What holds at the head of the loop. -/
structure Sound (s : RxLoop) : Prop where
  calls : ∀ c ∈ s.calls, c.Safe
  handed : ∀ p ∈ s.handed, p.datalen ≤ p.copied

theorem Sound.handOn (macInput : Packetbuf → Packetbuf) (hs : Sound s) {pb : Packetbuf} {r : Result} (hidx : s.dev.usRxIdx < s.dev.usRxListSize)
    (hsafe : Safe s.dev pb.packetbuf (packetbufDataptr pb) ethernetMaxFrameLen r) :
    (∃ s', handOn macInput s pb r = .again s' ∧ Sound s' ∧ s'.dev.usRxIdx < s'.dev.usRxListSize ∧
      (owned s'.dev).card < (owned s.dev).card) ∨ ∃ r', handOn macInput s pb r = .leave r' ∧ Sound r' := by
  have hcalls : ∀ c ∈ s.calls ++ [⟨s.dev, pb.packetbuf, packetbufDataptr pb, r⟩], c.Safe := by
    simp only [List.forall_mem_append, List.forall_mem_singleton]
    exact ⟨hs.calls, hsafe⟩
  by_cases hok : r.status = .ok
  · left
    have hdatalen : (UInt16.ofNat r.rcvSize).toNat ≤ r.copied := by
      rw [UInt16.toNat_ofNat']
      exact Nat.le_trans (Nat.mod_le _ _) (hsafe.rcvSize_le hok)
    refine ⟨_, if_neg (not_not_intro hok), ⟨hcalls, ?_⟩, ?_, hsafe.owned_lt hidx hok⟩
    · simp only [List.forall_mem_append, List.forall_mem_singleton]
      exact ⟨hs.handed, hdatalen⟩
    · dsimp only
      rw [hsafe.size]
      exact hsafe.idx_lt
  · exact .inr ⟨_, if_pos hok, hcalls, hs.handed⟩

/-- The read of a turn is safe, and it is the one `gmacDevRead` makes. -/
theorem rxTurn_eq (macInput : Packetbuf → Packetbuf) (hidx : s.dev.usRxIdx < s.dev.usRxListSize) :
    ∃ r, rxTurn macInput s = .ok (handOn macInput s (packetbufClear s.pb) r) ∧
      ContikiAtsam.gmacDevRead s.dev (packetbufClear s.pb).packetbuf (packetbufDataptr (packetbufClear s.pb))
        ethernetMaxFrameLen = some r.toReadResult ∧
      Safe s.dev (packetbufClear s.pb).packetbuf (packetbufDataptr (packetbufClear s.pb)) ethernetMaxFrameLen r := by
  obtain ⟨r, hread, hsafe⟩ : ∃ r, gmacDevRead s.dev (packetbufClear s.pb).packetbuf
      (packetbufDataptr (packetbufClear s.pb)) ethernetMaxFrameLen = .ok r ∧
      Safe s.dev (packetbufClear s.pb).packetbuf (packetbufDataptr (packetbufClear s.pb)) ethernetMaxFrameLen r :=
    gmacDevRead_safe (by decide) hidx
  refine ⟨r, ?_, eq_of_gmacDevRead (by decide) hidx hread, hsafe⟩
  simp only [rxTurn, hread, bind, Except.bind]
  rfl

theorem rxBranch_eq (macInput : Packetbuf → Packetbuf) {fuel : Nat} {r : RxLoop} {t : RxRun}
    (hidx : s.dev.usRxIdx < s.dev.usRxListSize) (hdev : t.dev = s.dev) (hpb : t.pb = s.pb)
    (h : Loop.runChecked (rxTurn macInput) .endless fuel s = .ok r) :
    ∃ r', ContikiAtsam.rxBranch macInput fuel t = some r' ∧ r'.dev = r.dev ∧ r'.pb = r.pb := by
  induction fuel generalizing s t with
  | zero => cases h
  | succ fuel ih =>
      obtain ⟨r₁, hturn, hread, hsafe⟩ := rxTurn_eq macInput hidx
      rw [Loop.runChecked, hturn] at h
      unfold handOn at h
      dsimp only at h
      by_cases hok : r₁.status = .ok
      · rw [if_neg (not_not_intro hok)] at h
        have hagain : ContikiAtsam.rxTurn macInput t = .again ⟨r₁.dev,
            macInput (packetbufSetDatalen { packetbufClear s.pb with packetbuf := r₁.frame } (UInt16.ofNat r₁.rcvSize)),
            t.delivered ++ [(packetbufSetDatalen { packetbufClear s.pb with packetbuf := r₁.frame }
              (UInt16.ofNat r₁.rcvSize)).data]⟩ := by
          simp only [ContikiAtsam.rxTurn, hdev, hpb, hread, hok, ne_eq, not_true_eq_false, if_false]
        obtain ⟨r', hrun, hr'⟩ := ih (t := ⟨r₁.dev, _, _⟩) (by dsimp only; rw [hsafe.size]; exact hsafe.idx_lt)
          rfl rfl h
        refine ⟨r', ?_, hr'⟩
        rw [ContikiAtsam.rxBranch, Loop.run_again hagain]
        exact hrun
      · rw [if_pos hok] at h
        obtain rfl := Except.ok.inj h
        refine ⟨⟨r₁.dev, { packetbufClear s.pb with packetbuf := r₁.frame }, t.delivered⟩, ?_, rfl, rfl⟩
        have hleave : ContikiAtsam.rxTurn macInput t =
            .leave (some ⟨r₁.dev, { packetbufClear s.pb with packetbuf := r₁.frame }, t.delivered⟩) := by
          simp only [ContikiAtsam.rxTurn, hdev, hpb, hread, hok, ne_eq, not_false_eq_true, if_true]
        rw [ContikiAtsam.rxBranch, Loop.run_leave hleave]
        rfl

/-- **The receive loop is robust.** Whatever the descriptors of the ring say, the loop ends after at most as many turns as descriptors are owned, and one more; none of its reads leaves the ring or the frame buffer, and no packet handed on is longer than what was copied for it. -/
theorem rxBranch_robust (macInput : Packetbuf → Packetbuf) (dev : RxRing) (pb : Packetbuf)
    (hidx : dev.usRxIdx < dev.usRxListSize) :
    ∀ fuel, (owned dev).card < fuel → ∃ r, rxBranch macInput fuel dev pb = .ok r ∧
      (∀ c ∈ r.calls, c.Safe) ∧ ∀ p ∈ r.handed, p.datalen ≤ p.copied := by
  intro fuel hfuel
  obtain ⟨r, hrun, hr⟩ : ∃ r, rxBranch macInput fuel dev pb = .ok r ∧ Sound r := by
    refine Loop.runChecked_of_variant ReadFault.endless
      (fun s k => Sound s ∧ s.dev.usRxIdx < s.dev.usRxListSize ∧ (owned s.dev).card = k) Sound ?_
      ⟨⟨by simp, by simp⟩, hidx, rfl⟩ hfuel
    rintro s k ⟨hs, hidx, rfl⟩
    obtain ⟨r, hturn, _, hsafe⟩ := rxTurn_eq macInput hidx
    rw [hturn]
    rcases hs.handOn macInput hidx hsafe with ⟨s', hagain, hs', hidx', hlt⟩ | ⟨r', hleave, hr'⟩
    · exact .inl ⟨s', _, by rw [hagain], ⟨hs', hidx', rfl⟩, hlt⟩
    · exact .inr ⟨r', by rw [hleave], hr'⟩
  exact ⟨r, hrun, hr.calls, hr.handed⟩

/-- Two descriptors, both of which start a frame and neither of which ends one. -/
private def endlessRing : RxRing := ⟨fun _ => ⟨gmacRxdOwnership, gmacRxdSof⟩, 2, 0, fun _ => 0⟩

theorem rxBranch_robust_endlessRing : ∃ r, rxBranch id 3 endlessRing .zeroed = .ok r ∧
    (∀ c ∈ r.calls, c.Safe) ∧ ∀ p ∈ r.handed, p.datalen ≤ p.copied :=
  rxBranch_robust id endlessRing .zeroed (by decide) 3 (by decide)

end ContikiAtsam.Checked
