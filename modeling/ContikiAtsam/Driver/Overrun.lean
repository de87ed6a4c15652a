import ContikiAtsam.Driver.Tracking

/-!
# No frame into a full ring

A ring of `n` descriptors takes `n - 1` frames: a full ring is told from an empty one by the descriptor that is left. `gmac_dev_write` tests for a full ring twice, first with `CIRC_SPACE` and then on the status word, and it refuses only if the word has `GMAC_TXD_USED` set. But the word it tests is that of descriptor `2 * usTxHead`: the index is added to a pointer that is already at the head. Where that descriptor is not in the ring, or is still with the hardware, the ring is overrun.

The interrupt handler may run between any two accesses of the call.
-/

namespace ContikiAtsam

/-- In `gmac_dev_write`, before its frame is handed over. -/
def SendStage.deciding : SendStage → Bool
  | .write | .spaceTail _ | .spaceHead _ _ | .busyHead _ | .busyDscr _ _ | .slot _ | .fill _ _ | .lastDscr _
  | .hand _ _ => true
  | _ => false

/-- On the way to `GMAC_TX_BUSY`, for which `gmac_driver_tx` reports `MAC_TX_ERR`. -/
def SendStage.refusing : SendStage → Bool
  | .spaceTail _ | .spaceHead _ _ | .busyHead _ | .busyDscr _ _ | .free .err => true
  | _ => false

/-- The index from `pTxDscr` on that the step reads. -/
def SendStage.reads : SendStage → Option Nat
  | .busyDscr td head => some (td + head)
  | _ => none

/-- The head has moved over the frame of the call, and its element is not in the list yet. -/
def SendStage.counted : SendStage → Bool
  | .incTest _ | .incWrap _ | .start | .link => true
  | _ => false

/-- What a call knows of the room in the ring when the handler has acknowledged `T` frames of `H`. -/
def SendStage.Room (dev : TxRing) (T H : Nat) : SendStage → Prop
  | .spaceHead _ tail => ∃ t ≤ T, tail = t % dev.usTxListSize ∧ H < t + dev.usTxListSize
  | .busyDscr _ head => head = dev.usTxHead
  | .slot _ | .fill _ _ | .lastDscr _ | .hand _ _ => H + 1 < T + dev.usTxListSize
  | _ => True

namespace Sys

variable {s s' : Sys} {e : Event} {T F H : Nat}

/-- The frames accepted and not yet acknowledged. -/
def outstanding (s : Sys) : Nat :=
  unacked s.pending + match s.sending with
    | some f => if f.stage.counted then 1 else 0
    | none => 0

/-- While `n - 1` frames are outstanding, `gmac_dev_write` reads only descriptors of the ring, changes nothing in it and goes on to `GMAC_TX_BUSY`. -/
def RefusesFull (s : Sys) : Event → Prop
  | .thread =>
    ∀ f ∈ s.sending, f.stage.deciding = true → s.outstanding + 1 = s.tx.usTxListSize →
      (∀ i ∈ f.stage.reads, i < s.tx.usTxListSize) ∧ (s.sendStep f).tx = s.tx ∧
        ∃ f' ∈ (s.sendStep f).sending, f'.stage.refusing = true
  | _ => True

/-- At most `n - 1` frames are outstanding, and the indices tell how many. -/
def Counts (s : Sys) : Prop :=
  s.outstanding < s.tx.usTxListSize ∧
    ((s.tx.usTxHead : Int) - s.tx.usTxTail) % s.tx.usTxListSize = s.outstanding

/-- The ring is never overrun on the way. -/
def NeverOverruns (s : Sys) (es : List Event) : Prop := Along step RefusesFull s es ∧ Always step Counts s es

/-- The handler does not reset the ring, as it does for the retry limit. -/
def keepsRing (s : Sys) : Event → Prop
  | .handler => ∀ isr tsr, s.handler = .txPart isr tsr → (isr.tcomp || tsr.txcomp) = true → tsr.rle = false
  | _ => True

/-- While `n - 1` frames are outstanding, the call has a frame that is not too long, and the word at `2 * usTxHead` is that of a used descriptor of the ring. -/
def testsUsed (s : Sys) : Event → Prop
  | .thread =>
    ∀ f ∈ s.sending, s.outstanding + 1 = s.tx.usTxListSize →
      (f.stage = .write → f.size ≤ gmacTxUnitsize) ∧
        ∀ td head, f.stage = .busyDscr td head →
          2 * s.tx.usTxHead < s.tx.usTxListSize ∧ s.tx.used (2 * s.tx.usTxHead) = true
  | _ => True

/-- What is known of a ring that has not been overrun. -/
structure Sound (s : Sys) (T F H : Nat) : Prop extends Tracks s T F H where
  call : ∀ f ∈ s.sending, f.stage.Room s.tx T H
  loop : ∀ flag, s.handler = .txLoop flag → T < H - s.hidden

theorem sound_init (board : Board) : Sound (init board) 0 0 0 where
  toTracks := tracks_init board
  call := by simp [init]
  loop := by simp [init]

/-! ### The count -/

theorem Tracks.outstanding_eq (hs : Tracks s T F H) : T + s.outstanding = H - s.hidden := by
  have hlist := hs.list
  unfold handedOver at hlist
  unfold outstanding hidden
  cases hf : s.sending with
  | none =>
      simp only [hf] at hlist ⊢
      omega
  | some f =>
      simp only [hf] at hlist ⊢
      cases hstage : f.stage <;>
        simp only [hstage, SendStage.handedOver, SendStage.counted, SendStage.handed, Option.isSome_some,
          Option.isSome_none, if_true, Bool.false_eq_true, if_false] at hlist ⊢ <;>
        omega

theorem Tracks.counts (hs : Tracks s T F H) : Counts s := by
  have hcount := hs.outstanding_eq
  have hroom := hs.room
  obtain ⟨_, hmod, _⟩ := hs.head_mod
  refine ⟨by omega, ?_⟩
  have hhead : ((s.tx.usTxHead : Int)) % s.tx.usTxListSize = ((H - s.hidden : Nat) : Int) % s.tx.usTxListSize := by
    exact_mod_cast hmod
  have htail : (s.tx.usTxTail : Int) = (T : Int) % s.tx.usTxListSize := by
    exact_mod_cast hs.tail
  rw [htail, Int.sub_emod, hhead, Int.emod_emod, ← Int.sub_emod]
  rw [show ((H - s.hidden : Nat) : Int) - T = s.outstanding by omega]
  exact Int.emod_eq_of_lt (by omega) (by omega)

/-! ### Every step -/

namespace Sound

theorem room_mono {dev dev' : TxRing} {T' : Nat} {stage : SendStage} (h : stage.Room dev T H) (hle : T ≤ T')
    (hhead : dev'.usTxHead = dev.usTxHead) (hsize : dev'.usTxListSize = dev.usTxListSize) : stage.Room dev' T' H := by
  unfold SendStage.Room at h ⊢
  rw [hhead, hsize]
  split at h
  · obtain ⟨t, ht, htail, hlt⟩ := h
    exact ⟨t, by omega, htail, hlt⟩
  · exact h
  · omega
  · omega
  · omega
  · omega
  · trivial

theorem congr {F' : Nat} (hs : Sound s T F H) (htracks : Tracks s' T F' H) (hhead : s'.tx.usTxHead = s.tx.usTxHead)
    (hsize : s'.tx.usTxListSize = s.tx.usTxListSize) (hsending : s'.sending = s.sending)
    (hhandler : s'.handler = s.handler) : Sound s' T F' H where
  toTracks := htracks
  call := by
    rw [hsending]
    exact fun f hf => room_mono (hs.call f hf) (Nat.le_refl T) hhead hsize
  loop := by
    rw [hhandler, hidden_congr hsending]
    exact hs.loop

theorem unmoved (hs : Sound s T F H) (htx : s'.tx = s.tx) (hhw : s'.hwTx = s.hwTx) (hsending : s'.sending = s.sending)
    (hpending : s'.pending = s.pending) (hloop : ∀ flag, s'.handler = .txLoop flag → T < H - s.hidden) :
    Sound s' T F H where
  toTracks := hs.toTracks.congr htx hhw hsending (by rw [hpending])
  call := by
    rw [hsending, htx]
    exact hs.call
  loop := by
    rw [hidden, hsending]
    exact hloop

theorem full_iff (hs : Sound s T F H) :
    s.outstanding + 1 = s.tx.usTxListSize ↔ H - s.hidden + 1 = T + s.tx.usTxListSize := by
  have := hs.outstanding_eq
  omega

theorem release (hs : Sound s T F H) {flag : UInt32} (hpc : s.handler = .txLoop flag)
    (hused : s.tx.used s.tx.usTxTail = true) (htx : s'.tx = s.tx) (hhw : s'.hwTx = s.hwTx)
    (hsending : s'.sending = s.sending) (hpending : unacked s.pending = unacked s'.pending + 1) :
    Sound (s'.releaseTail flag) (T + 1) F H := by
  have hlt := hs.loop flag hpc
  have hfinished := (hs.used_tail_iff (by omega)).mp hused
  refine ⟨hs.toTracks.release hfinished htx hhw hsending hpending, ?_, ?_⟩
  · change ∀ f ∈ s'.sending, _
    rw [hsending]
    intro f hf
    apply room_mono (hs.call f hf) (Nat.le_succ T)
    · change s'.tx.usTxHead = s.tx.usTxHead
      rw [htx]
    · change s'.tx.usTxListSize = s.tx.usTxListSize
      rw [htx]
  · intro flag' hloop
    have hhidden : (s'.releaseTail flag).hidden = s.hidden := hidden_congr hsending
    rw [hs.releaseTail_handler hlt htx] at hloop
    rw [hhidden]
    split at hloop
    · cases hloop
    · omega

theorem handler (hs : Sound s T F H) (hkeeps : s.keepsRing .handler) (h : Handler s s') : ∃ T', Sound s' T' F H := by
  cases h with
  | txReport isr tsr hpc hcomp =>
      have hrle := hkeeps isr tsr hpc hcomp
      refine ⟨T, hs.unmoved (by simp [reportTx, hrle]) (by simp [reportTx, hrle]) rfl rfl ?_⟩
      intro flag hloop
      have hvisible := hs.le_visible
      have hempty := hs.empty_iff
      have hne : s.tx.usTxHead ≠ s.tx.usTxTail := by
        rintro hsame
        simp [reportTx, hrle, hsame] at hloop
      rw [ne_eq, hempty] at hne
      omega
  | txSkip flag hpc hused hcb =>
      have hlt := hs.loop flag hpc
      have := hs.callback_tail (by omega)
      rw [hcb] at this
      cases this
  | txAck flag stats pending hpc hused _ _ hack =>
      exact ⟨T + 1, hs.release hpc hused rfl rfl rfl (acknowledge_unacked hack)⟩
  | rxHalt | txHalt => exact ⟨T, hs.unmoved rfl rfl rfl rfl hs.loop⟩
  | _ => exact ⟨T, hs.unmoved rfl rfl rfl rfl (fun flag hloop => by cases hloop)⟩

/-- A head that `CIRC_SPACE` finds no room at is that of a full ring. -/
theorem circSpace_iff (hs : Sound s T F H) {t : Nat} (ht : t ≤ T) (hlt : H < t + s.tx.usTxListSize)
    (hhead : s.tx.usTxHead = H % s.tx.usTxListSize) :
    circSpace s.tx.usTxHead (t % s.tx.usTxListSize) s.tx.usTxListSize = 0 ↔ H + 1 = t + s.tx.usTxListSize := by
  have hacked := hs.acked
  have hfinished := hs.finished
  have hpos := hs.size_pos
  rw [circSpace_eq_zero_iff (by rw [hhead]; exact Nat.mod_lt H hpos) (Nat.mod_lt t hpos), hhead, Nat.mod_add_mod]
  constructor
  · intro hcell
    rcases Nat.lt_or_ge (H + 1) (t + s.tx.usTxListSize) with hin | hend
    · have := Ring.eq_of_mod_eq (show t ≤ H + 1 by omega) hin (Nat.le_refl t) (by omega) hcell
      omega
    · omega
  · intro hfull
    rw [hfull, Nat.add_mod_right]

theorem hand_space (hs : Sound s T F H) {f : Sending} (hf : s.sending = some f) {td : Nat} {wrap : Bool}
    (hstage : f.stage = .hand td wrap) : circSpace s.tx.usTxHead s.tx.usTxTail s.tx.usTxListSize ≠ 0 := by
  have hroom := hs.call f hf
  have hfits := hs.fits
  simp only [Sys.fits, hf, hstage] at hfits hroom
  rw [hs.tail]
  intro hzero
  have := (hs.circSpace_iff (Nat.le_refl T) hs.room hfits.1).mp hzero
  change H + 1 < T + s.tx.usTxListSize at hroom
  omega

theorem hidden_eq_zero {f : Sending} (hf : s.sending = some f) (hdeciding : f.stage.deciding = true) :
    s.hidden = 0 := by
  unfold hidden
  rw [hf]
  cases hstage : f.stage <;> simp_all [SendStage.deciding, SendStage.handed]

theorem sendStep_room (hs : Sound s T F H) {f f' : Sending} (hf : s.sending = some f) (htests : s.testsUsed .thread)
    (hf' : (s.sendStep f).sending = some f') :
    f'.stage.Room (s.sendStep f).tx T H := by
  have hroom := hs.call f hf
  have hfits := hs.fits
  have htests := htests f hf
  obtain ⟨call, size, addr, stage⟩ := f
  simp only [Sys.fits, hf] at hfits
  cases stage with
  | spaceTail td =>
      obtain rfl := Option.some.inj hf'
      exact ⟨T, Nat.le_refl T, hs.tail, hs.room⟩
  | spaceHead td tail =>
      obtain ⟨t, ht, rfl, hlt⟩ := hroom
      have hspace := hs.circSpace_iff ht hlt hfits.1
      unfold Sys.sendStep at hf' ⊢
      dsimp only at hf' ⊢
      split at hf'
      · obtain rfl := Option.some.inj hf'
        trivial
      · next hne =>
        obtain rfl := Option.some.inj hf'
        rw [hspace] at hne
        rw [if_neg (mt hspace.mp hne)]
        change H + 1 < T + s.tx.usTxListSize
        omega
  | busyHead td =>
      obtain rfl := Option.some.inj hf'
      rfl
  | busyDscr td head =>
      obtain rfl : head = s.tx.usTxHead := hroom
      obtain ⟨_, rfl⟩ := hfits
      have hfull := hs.full_iff
      rw [hidden_eq_zero hf rfl] at hfull
      have hlt := hs.room
      unfold Sys.sendStep at hf' ⊢
      dsimp only at hf' ⊢
      split at hf'
      · obtain rfl := Option.some.inj hf'
        trivial
      · next hunused =>
        obtain rfl := Option.some.inj hf'
        rw [if_neg hunused]
        have hne : ¬ s.outstanding + 1 = s.tx.usTxListSize := by
          intro hn
          apply hunused
          rw [← Nat.two_mul]
          exact ((htests hn).2 _ _ rfl).2
        rw [hfull] at hne
        change H + 1 < T + s.tx.usTxListSize
        omega
  | slot td | fill td i | lastDscr td =>
      obtain rfl := Option.some.inj hf'
      exact hroom
  | alloc | write | incTest =>
      unfold Sys.sendStep at hf' ⊢
      dsimp only at hf' ⊢
      split at hf' <;> obtain rfl := Option.some.inj hf' <;> trivial
  | link | notify => cases hf'
  | _ =>
      obtain rfl := Option.some.inj hf'
      trivial

theorem sendStep (hs : Sound s T F H) {f : Sending} (hidle : s.handler = .idle) (hf : s.sending = some f)
    (htests : s.testsUsed .thread) : ∃ H', Sound (s.sendStep f) T F H' := by
  refine ⟨_, hs.toTracks.sendStep hf (fun _ _ hstage => hs.hand_space hf hstage), ?_, ?_⟩
  · intro f' hf'
    cases hhands : f.stage.hands with
    | false => exact hs.sendStep_room hf htests hf'
    | true =>
        obtain ⟨call, size, addr, stage⟩ := f
        cases stage with
        | hand td wrap =>
            obtain rfl := Option.some.inj hf'
            trivial
        | _ => cases hhands
  · intro flag hloop
    rw [(sendStep_sends s f).handler, hidle] at hloop
    cases hloop

/-- A call refuses a full ring exactly if its tests come out as they should. -/
theorem refuses_iff (hs : Sound s T F H) {f : Sending} (hf : s.sending = some f) :
    (f.stage.deciding = true → s.outstanding + 1 = s.tx.usTxListSize →
      (∀ i ∈ f.stage.reads, i < s.tx.usTxListSize) ∧ (s.sendStep f).tx = s.tx ∧
        ∃ f' ∈ (s.sendStep f).sending, f'.stage.refusing = true) ↔
      (s.outstanding + 1 = s.tx.usTxListSize →
        (f.stage = .write → f.size ≤ gmacTxUnitsize) ∧
          ∀ td head, f.stage = .busyDscr td head →
            2 * s.tx.usTxHead < s.tx.usTxListSize ∧ s.tx.used (2 * s.tx.usTxHead) = true) := by
  have hroom := hs.call f hf
  have hfits := hs.fits
  have hfull := hs.full_iff
  have hhidden := hidden_eq_zero hf
  obtain ⟨call, size, addr, stage⟩ := f
  simp only [Sys.fits, show s.sending = some _ from hf] at hfits
  -- most accesses are before or behind the tests
  have hother (hwrite : stage ≠ .write) (hdscr : ∀ td head, stage ≠ .busyDscr td head) :
      (stage = .write → size ≤ gmacTxUnitsize) ∧ ∀ td head, stage = .busyDscr td head →
        2 * s.tx.usTxHead < s.tx.usTxListSize ∧ s.tx.used (2 * s.tx.usTxHead) = true :=
    ⟨fun hstage => absurd hstage hwrite, fun td head hstage => absurd hstage (hdscr td head)⟩
  cases stage with
  | write =>
      refine ⟨fun h hn => ⟨fun _ => ?_, fun _ _ hstage => by cases hstage⟩, fun h _ hn => ?_⟩
      · obtain ⟨_, _, f', hf', hrefusing⟩ := h rfl hn
        by_contra hlong
        have hlong : size > gmacTxUnitsize := Nat.lt_of_not_le hlong
        simp only [Sys.sendStep, hlong, if_true] at hf'
        obtain rfl := Option.some.inj hf'
        cases hrefusing
      · have hshort : ¬ size > gmacTxUnitsize := Nat.not_lt.mpr ((h hn).1 rfl)
        simp only [Sys.sendStep, hshort, if_false]
        exact ⟨fun i hi => (by cases hi), rfl, _, rfl, rfl⟩
  | spaceTail td | busyHead td =>
      exact ⟨fun _ _ => hother (by simp) (by simp), fun _ _ _ => ⟨fun i hi => (by cases hi), rfl, _, rfl, rfl⟩⟩
  | spaceHead td tail =>
      refine ⟨fun _ _ => hother (by simp) (by simp), fun _ _ hn => ?_⟩
      obtain ⟨t, ht, rfl, hlt⟩ := hroom
      have hn := hfull.mp hn
      rw [hhidden rfl] at hn
      have hzero := (hs.circSpace_iff ht hlt hfits.1).mpr (by omega)
      simp only [Sys.sendStep, hzero, if_true]
      exact ⟨fun i hi => (by cases hi), rfl, _, rfl, rfl⟩
  | busyDscr td head =>
      obtain rfl : head = s.tx.usTxHead := hroom
      obtain ⟨_, rfl⟩ := hfits
      rw [Nat.two_mul]
      refine ⟨fun h hn => ⟨fun hstage => (by cases hstage), fun _ _ _ => ?_⟩, fun h _ hn => ?_⟩
      · obtain ⟨hreads, _, f', hf', hrefusing⟩ := h rfl hn
        refine ⟨hreads _ rfl, ?_⟩
        by_contra hunused
        simp only [Sys.sendStep, hunused, if_false] at hf'
        obtain rfl := Option.some.inj hf'
        cases hrefusing
      · obtain ⟨hin, hused⟩ := (h hn).2 _ _ rfl
        simp only [Sys.sendStep, hused, if_true]
        refine ⟨fun i hi => ?_, rfl, _, rfl, rfl⟩
        obtain rfl := Option.some.inj hi
        exact hin
  | slot | fill | lastDscr | hand =>
      -- the call has found room, which nothing takes away
      refine ⟨fun _ _ => hother (by simp) (by simp), fun _ _ hn => ?_⟩
      have hn := hfull.mp hn
      rw [hhidden rfl] at hn
      change H + 1 < T + s.tx.usTxListSize at hroom
      omega
  | _ => exact ⟨fun _ _ => hother (by simp) (by simp), fun _ hdeciding => (by cases hdeciding)⟩

theorem refusesFull_iff (hs : Sound s T F H) (e : Event) : s.RefusesFull e ↔ s.testsUsed e := by
  cases e with
  | thread =>
      refine forall_congr' fun f => imp_congr_right fun hf => ?_
      exact hs.refuses_iff hf
  | _ => exact Iff.rfl

end Sound

theorem sound_step (hcoherent : Coherent s) (hs : Sound s T F H) (hkeeps : s.keepsRing e) (htests : s.testsUsed e)
    (h : step s e = some s') : ∃ T' F' H', Sound s' T' F' H' := by
  obtain ⟨_, hstep⟩ := step_cases h
  cases hstep with
  | send f hidle hf => exact ⟨T, F, hs.sendStep hidle hf htests⟩
  | thread s' _ _ h =>
      have hthread := threadStep_cases h
      have hthreads := hthread.threads
      have htracks := hs.toTracks.congr hthreads.tx hthreads.hwTx hthreads.sending (hcoherent.unacked_thread hthread)
      exact ⟨T, F, H, hs.congr htracks (by rw [hthreads.tx]) (by rw [hthreads.tx]) hthreads.sending hthreads.handler⟩
  | poll | upper | rxFill | rxRaise | txRaise =>
      exact ⟨T, F, H, hs.congr (hs.toTracks.congr rfl rfl rfl rfl) rfl rfl rfl rfl⟩
  | sendPacket pb hup =>
      refine ⟨T, F, H, hs.toTracks.sendPacket pb hup, ?_, ?_⟩
      · intro f hf
        obtain rfl := Option.some.inj hf
        dsimp only
        split <;> trivial
      · intro flag hloop
        rw [show (s.sendPacket pb).handler = .idle from hup.1] at hloop
        cases hloop
  | interrupt hidle =>
      refine ⟨T, F, H, hs.unmoved rfl rfl rfl rfl ?_⟩
      intro flag hloop
      cases hloop
  | handler s' h =>
      obtain ⟨T', hs'⟩ := hs.handler hkeeps (handlerStep_cases h)
      exact ⟨T', F, H, hs'⟩
  | txFinish outcome hbusy =>
      exact ⟨T, F + 1, H, hs.congr (hs.toTracks.finish hbusy outcome) rfl rfl rfl rfl⟩
  | clobber i word hi => exact ⟨T, F, H, hs.congr (hs.toTracks.clobber word hi) rfl rfl rfl rfl⟩

/-! ### Runs -/

/-- **The ring is never overrun, exactly if the second test is right wherever it is made on a full ring**, in every run in which the handler does not reset the ring. -/
theorem neverOverruns_iff (board : Board) (es : List Event) (hkeeps : Along step keepsRing (init board) es) :
    NeverOverruns (init board) es ↔ Along step testsUsed (init board) es := by
  let I : Sys → Prop := fun s => Coherent s ∧ ∃ T F H, Sound s T F H
  have hinit : I (init board) := ⟨coherent_init board, 0, 0, 0, sound_init board⟩
  have hiff : ∀ s e, I s → (s.RefusesFull e ↔ s.testsUsed e) := by
    rintro s e ⟨_, T, F, H, hs⟩
    exact hs.refusesFull_iff e
  have hstep : ∀ s e s', I s → s.keepsRing e → s.testsUsed e → step s e = some s' → I s' := by
    rintro s e s' ⟨hcoherent, T, F, H, hs⟩ hkeeps htests h
    exact ⟨coherent_step hcoherent h, sound_step hcoherent hs hkeeps htests h⟩
  have hrefuses : Along step RefusesFull (init board) es ↔ Along step testsUsed (init board) es := by
    refine along_iff_along I hiff ?_ es hinit hkeeps
    intro s e s' hI hkeeps hrefuses h
    exact hstep s e s' hI hkeeps ((hiff s e hI).mp hrefuses) h
  have hcounts : Along step testsUsed (init board) es → Always step Counts (init board) es := by
    refine always_of_along I ?_ hstep es hinit hkeeps
    rintro s ⟨_, T, F, H, hs⟩
    exact hs.counts
  rw [NeverOverruns, hrefuses]
  exact ⟨fun h => h.1, fun h => ⟨h, hcounts h⟩⟩

instance (s : Sys) (e : Event) : Decidable (s.keepsRing e) :=
  match e with
  | .handler =>
    match h : s.handler with
    | .txPart isr tsr =>
      decidable_of_iff ((isr.tcomp || tsr.txcomp) = true → tsr.rle = false) (by simp [keepsRing, h])
    | .idle | .readRsr _ | .readTsr _ _ | .rxPart _ _ _ | .txLoop _ => isTrue (by simp [keepsRing, h])
  | .thread | .poll _ | .upper _ | .send _ | .interrupt | .txFinish _ | .txRaise | .rxFill _ _ | .rxRaise _ _
  | .clobber _ _ => isTrue trivial

instance (s : Sys) (e : Event) : Decidable (s.testsUsed e) :=
  match e with
  | .thread =>
    match h : s.sending with
    | none => isTrue (by simp [testsUsed, h])
    | some f =>
      match hstage : f.stage with
      | .write =>
        decidable_of_iff (s.outstanding + 1 = s.tx.usTxListSize → f.size ≤ gmacTxUnitsize)
          (by simp [testsUsed, h, hstage])
      | .busyDscr _ _ =>
        decidable_of_iff (s.outstanding + 1 = s.tx.usTxListSize →
          2 * s.tx.usTxHead < s.tx.usTxListSize ∧ s.tx.used (2 * s.tx.usTxHead) = true)
          (by simp [testsUsed, h, hstage])
      | .alloc | .spaceTail _ | .spaceHead _ _ | .busyHead _ | .slot _ | .fill _ _ | .lastDscr _ | .hand _ _
      | .incLoad _ | .incStore _ _ | .incTest _ | .incWrap _ | .start | .link | .free _ | .notify _ _ =>
        isTrue (by simp [testsUsed, h, hstage])
  | .handler | .poll _ | .upper _ | .send _ | .interrupt | .txFinish _ | .txRaise | .rxFill _ _ | .rxRaise _ _
  | .clobber _ _ => isTrue trivial

/-- Three frames go out, the first is acknowledged before the third, and with the head back at `0` a fourth one is refused. -/
private def refusedAtZero : List Event :=
  startUp ++ sendOne (packetTo 0x0A) ++ sendOne (packetTo 0x0A) ++ [.txFinish .none, .txRaise] ++ interrupted 6 ++
    sendOne (packetTo 0x0A) ++ threadSteps 1 ++ .send (packetTo 0x0A) :: threadSteps 8

theorem neverOverruns_refusedAtZero :
    (∃ s, run step (init sam4expro) refusedAtZero = some s ∧ s.outstanding = 2 ∧ s.sent.length = 1) ∧
      NeverOverruns (init sam4expro) refusedAtZero := by
  have hrun : (run step (init sam4expro) refusedAtZero).any (fun s => s.outstanding == 2 && s.sent.length == 1) = true := by
    decide +kernel
  obtain ⟨s, hs, hstate⟩ := exists_run hrun
  refine ⟨⟨s, hs, by simpa using hstate⟩, ?_⟩
  exact (neverOverruns_iff sam4expro refusedAtZero (by decide +kernel)).mpr (by decide +kernel)

/-- Three frames and no interrupt. -/
private def threeFrames : List Event :=
  startUp ++ sendOne (packetTo 0x0A) ++ sendOne (packetTo 0x0A) ++ .send (packetTo 0x0A) :: threadSteps 16

/-- The third frame goes into a full ring, since word `4` is past its three descriptors; then the ring looks empty. -/
theorem ring_overrun : ∃ es s, run step (init sam4expro) es = some s ∧ Along step keepsRing (init sam4expro) es ∧
    s.outstanding = 3 ∧ s.tx.usTxHead = s.tx.usTxTail ∧ ¬ NeverOverruns (init sam4expro) es := by
  have hrun : (run step (init sam4expro) threeFrames).any
      (fun s => s.outstanding == 3 && s.tx.usTxHead == s.tx.usTxTail && s.tx.usTxListSize == 3) = true := by
    decide +kernel
  obtain ⟨s, hs, hstate⟩ := exists_run hrun
  simp only [Bool.and_eq_true, beq_iff_eq] at hstate
  obtain ⟨⟨hcount, hempty⟩, hsize⟩ := hstate
  refine ⟨threeFrames, s, hs, by decide +kernel, hcount, hempty, ?_⟩
  rintro ⟨_, hcounts⟩
  have hlt := (hcounts.last hs).1
  omega

end Sys

end ContikiAtsam
