import ContikiAtsam.Base.Bits
import ContikiAtsam.Base.Loop
import ContikiAtsam.Base.Ring
import ContikiAtsam.Base.Run
import ContikiAtsam.Gmac.Tx

/-!
# The transmit ring as a queue of frames

`gmac_dev_write` copies a frame to the buffer of the next descriptor and hands the descriptor over; the controller sends one frame after the other and gives their descriptors back, at any time; `gmac_handler` reports those it has given back. Over all such runs what goes out on the wire is what was written, in order, byte for byte, and each frame is reported once, after it has gone out. When the controller gives a frame up, everything that waits or is not yet reported is dropped.

A frame is only ever written to a ring with room for it: what a write to a full ring does is another matter.
-/

namespace ContikiAtsam

/-- The transmit ring with its buffers, and the descriptor that the controller is at. -/
structure Transmitter where
  dev : TxRing
  pTxBuffer : Memory
  queue : Nat

namespace Transmitter

/-- `gmac_dev_write`, with the copy to the descriptor's buffer. -/
def write (t : Transmitter) (frame : List UInt8) : GmacStatus × Transmitter :=
  match t.dev.gmacDevWrite frame.length with
  | (.ok, dev) => (.ok, { t with dev, pTxBuffer := t.pTxBuffer.store (t.dev.usTxHead * gmacTxUnitsize) frame })
  | (status, dev) => (status, { t with dev })

/-- The frame in the buffer of a descriptor, of the length that its status word says. -/
def frameAt (t : Transmitter) (i : Nat) : List UInt8 :=
  t.pTxBuffer.load (i * gmacTxUnitsize) (t.dev.pTxDscr i &&& gmacTxdLenMask).toNat

/-- The controller sends the frame that it is at, if this has been handed over, gives the descriptor back and goes to the next one. -/
def transmit (t : Transmitter) : Option (List UInt8) × Transmitter :=
  if t.dev.used t.queue then (none, t)
  else
    (some (t.frameAt t.queue),
      { t with
        dev := t.dev.finish t.queue
        queue := if t.dev.pTxDscr t.queue &&& gmacTxdWrap = 0 then t.queue + 1 else 0 })

/-- A turn of the loop of `gmac_handler`, with the number of callbacks made. -/
def reportTurn (s : TxRing × Nat) : Turn (TxRing × Nat) (TxRing × Nat) :=
  if !s.1.used s.1.usTxTail then .leave s
  else
    let called := if s.1.funcTxCbList s.1.usTxTail then s.2 + 1 else s.2
    let dev := { s.1 with usTxTail := circInc s.1.usTxTail s.1.usTxListSize }
    if circCnt dev.usTxHead dev.usTxTail dev.usTxListSize ≠ 0 then .again (dev, called) else .leave (dev, called)

/-- The TX part of `gmac_handler`, where `rle` says whether the controller has given a frame up. -/
def handle (t : Transmitter) (rle : Bool) : Option (Nat × Transmitter) :=
  let t := if rle then { t with dev := t.dev.resetMem, queue := 0 } else t
  if t.dev.usTxHead ≠ t.dev.usTxTail then
    match Loop.run reportTurn t.dev.usTxListSize (t.dev, 0) with
    | none => none
    | some (dev, called) => some (called, { t with dev })
  else some (0, t)

/-- `gmac_dev_tx_buf_used`. -/
def bufUsed (t : Transmitter) : Nat :=
  (List.range t.dev.usTxListSize).foldl (fun used i => if !t.dev.used i then used + 1 else used) 0

end Transmitter

/-- What the software may do with the ring, and what the controller does. -/
inductive TxCall where
  | write (frame : List UInt8)
  | transmit
  | handle (rle : Bool)
  | bufUsed

inductive TxReply where
  | status (s : GmacStatus)
  /-- What goes out on the wire. -/
  | wire (frame : Option (List UInt8))
  /-- The number of callbacks. -/
  | reported (n : Nat)
  | used (n : Nat)
  deriving DecidableEq

/-- A call; a handler that does not return is an error. -/
def txCall (t : Transmitter) : TxCall → Except Unit (TxReply × Transmitter)
  | .write frame => .ok (.status (t.write frame).1, (t.write frame).2)
  | .transmit => .ok (.wire t.transmit.1, t.transmit.2)
  | .handle rle =>
    match t.handle rle with
    | none => .error ()
    | some (called, t) => .ok (.reported called, t)
  | .bufUsed => .ok (.used t.bufUsed, t)

/-! ### The queue -/

/-- The frames yet to go out, oldest first, and the number of those that are out and not reported. -/
structure TxBacklog where
  waiting : List (List UInt8)
  out : Nat

/-- There is room for a frame in a ring of `size` descriptors, one of which stays free. -/
def TxAllowed (size : Nat) (q : TxBacklog) : TxCall → Prop
  | .write _ => q.out + q.waiting.length + 1 < size
  | _ => True

def TxMeets (_ : Transmitter) (q : TxBacklog) (call : TxCall) (reply : TxReply) (_ : Transmitter) (q' : TxBacklog) : Prop :=
  match call, reply with
  | .write frame, .status s =>
    if frame.length ≤ gmacTxUnitsize then s = .ok ∧ q' = { q with waiting := q.waiting ++ [frame] } else s = .param ∧ q' = q
  | .transmit, .wire frame =>
    match q.waiting with
    | [] => frame = none ∧ q' = q
    | f :: fs => frame = some f ∧ q' = ⟨fs, q.out + 1⟩
  | .handle false, .reported n => n = q.out ∧ q' = { q with out := 0 }
  | .handle true, .reported n => n = 0 ∧ q' = ⟨[], 0⟩
  | .bufUsed, .used n => n = q.waiting.length ∧ q' = q
  | _, _ => False

/-! ### The queue in the ring -/

/-- Where the queue lies in the ring when `T` frames have been reported or dropped. -/
structure TxBacklog.InRing (size : Nat) (t : Transmitter) (q : TxBacklog) (T : Nat) : Prop where
  room : q.out + q.waiting.length < size
  listSize : t.dev.usTxListSize = size
  tail : t.dev.usTxTail = T % size
  queue : t.queue = (T + q.out) % size
  head : t.dev.usTxHead = (T + q.out + q.waiting.length) % size
  /-- The descriptors of the frames that wait are the controller's, all others the software's. -/
  used : ∀ i, i < size → t.dev.used ((T + q.out + i) % size) = decide (q.waiting.length ≤ i)
  callback : ∀ i, T ≤ i → i < T + q.out + q.waiting.length → t.dev.funcTxCbList (i % size) = true
  fits : ∀ frame ∈ q.waiting, frame.length ≤ gmacTxUnitsize
  frames : Ring.Holds size t.frameAt (T + q.out) q.waiting
  wrap : ∀ i, i < q.waiting.length →
    (t.dev.pTxDscr ((T + q.out + i) % size) &&& gmacTxdWrap = 0 ↔ (T + q.out + i) % size + 1 < size)

section Words

variable {len : Nat} {wrap : Bool}

theorem len_handedWord (hlen : len ≤ gmacTxUnitsize) : (TxRing.handedWord len wrap &&& gmacTxdLenMask).toNat = len := by
  have hlast : gmacTxdLast &&& gmacTxdLenMask = 0 := by decide
  have hwrap : gmacTxdWrap &&& gmacTxdLenMask = 0 := by decide
  have hword : TxRing.handedWord len wrap &&& gmacTxdLenMask = UInt32.ofNat len &&& gmacTxdLenMask := by
    cases wrap <;>
      simp [TxRing.handedWord, Bits.or_and, hlast, hwrap, UInt32.and_assoc]
  have hle : len ≤ 1518 := hlen
  rw [hword, UInt32.toNat_and, UInt32.toNat_ofNat']
  change len % 4294967296 &&& 8191 = len
  rw [Nat.mod_eq_of_lt (by omega)]
  exact (Nat.and_two_pow_sub_one_eq_mod len 13).trans (Nat.mod_eq_of_lt (by omega))

theorem wrap_handedWord : TxRing.handedWord len wrap &&& gmacTxdWrap = 0 ↔ wrap = false := by
  have hlen : gmacTxdLenMask &&& gmacTxdWrap = 0 := by decide
  have hlast : gmacTxdLast &&& gmacTxdWrap = 0 := by decide
  have hwrap : gmacTxdWrap ≠ 0 := by decide
  cases wrap <;> simp [TxRing.handedWord, Bits.or_and, hlast, hlen, hwrap, UInt32.and_assoc]

end Words

namespace TxBacklog.InRing

variable {size T : Nat} {t : Transmitter} {q : TxBacklog} {frame : List UInt8}

theorem size_pos (h : InRing size t q T) : 0 < size := Nat.zero_lt_of_lt h.room

/-! ### Writing -/

theorem gmacDevWrite_eq (h : InRing size t q T) (hroom : q.out + q.waiting.length + 1 < size)
    (hlen : frame.length ≤ gmacTxUnitsize) : t.dev.gmacDevWrite frame.length =
      (.ok, { t.dev.hand t.dev.usTxHead frame.length (t.dev.usTxHead + 1 == t.dev.usTxListSize) with
        funcTxCbList := Function.update t.dev.funcTxCbList t.dev.usTxHead true
        usTxHead := circInc t.dev.usTxHead t.dev.usTxListSize }) := by
  have hpos := h.size_pos
  have hspace : ¬ circSpace t.dev.usTxHead t.dev.usTxTail t.dev.usTxListSize = 0 := by
    rw [h.listSize, h.head, h.tail, circSpace_eq_zero_iff (Nat.mod_lt _ hpos) (Nat.mod_lt _ hpos), Nat.mod_add_mod]
    intro hfull
    have heq := Ring.eq_of_mod_eq (show T ≤ _ by omega) (by omega) (Nat.le_refl T) (by omega) hfull
    omega
  rw [TxRing.gmacDevWrite]
  dsimp only
  rw [if_neg (Nat.not_lt.mpr hlen), if_neg fun hbusy => hspace hbusy.1]

theorem index_eq_head_iff (h : InRing size t q T) {i : Nat} (hi : i < size) :
    (T + q.out + i) % size = t.dev.usTxHead ↔ i = q.waiting.length := by
  rw [h.head]
  constructor
  · intro heq
    have hroom := h.room
    exact Ring.index_inj hi (by omega) heq
  · rintro rfl
    rfl

theorem length_frameAt (t : Transmitter) (i : Nat) :
    (t.frameAt i).length = (t.dev.pTxDscr i &&& gmacTxdLenMask).toNat := Memory.load_length ..

theorem write (h : InRing size t q T) (hroom : q.out + q.waiting.length + 1 < size) (hlen : frame.length ≤ gmacTxUnitsize) :
    (t.write frame).1 = .ok ∧ InRing size (t.write frame).2 { q with waiting := q.waiting ++ [frame] } T := by
  have hlength : (q.waiting ++ [frame]).length = q.waiting.length + 1 := by rw [List.length_append, List.length_singleton]
  have hne : ∀ i, i < size → i ≠ q.waiting.length → (T + q.out + i) % size ≠ t.dev.usTxHead :=
    fun i hi hi' heq => hi' ((h.index_eq_head_iff hi).mp heq)
  rw [Transmitter.write, h.gmacDevWrite_eq hroom hlen]
  refine ⟨rfl, ⟨?_, h.listSize, h.tail, h.queue, ?_, ?_, ?_, ?_, ?_, ?_⟩⟩
  · rw [hlength]
    omega
  · dsimp only
    rw [h.listSize, h.head, circInc_mod _ h.size_pos, hlength, Nat.add_assoc]
  · intro i hi
    refine (TxRing.used_hand ..).trans ?_
    rw [hlength]
    by_cases hlast : i = q.waiting.length
    · rw [if_pos ((h.index_eq_head_iff hi).mpr hlast), hlast, decide_eq_false (by omega)]
    · rw [if_neg (hne i hi hlast), h.used i hi]
      exact decide_eq_decide.mpr (by omega)
  · intro i hi hi'
    dsimp only at hi' ⊢
    rw [hlength] at hi'
    by_cases hcell : i % size = t.dev.usTxHead
    · rw [hcell, Function.update_self]
    · have hold : i ≠ T + q.out + q.waiting.length := fun heq => hcell (heq ▸ h.head.symm)
      rw [Function.update_of_ne hcell, h.callback i hi (by omega)]
  · intro f hf
    rcases List.mem_append.mp hf with hf | hf
    · exact h.fits f hf
    · rw [List.mem_singleton.mp hf]
      exact hlen
  · intro i hi
    dsimp only at hi ⊢
    rw [hlength] at hi
    by_cases hlast : i = q.waiting.length
    · obtain rfl := hlast
      rw [List.getElem_concat_length rfl, (h.index_eq_head_iff (by omega)).mpr rfl, Transmitter.frameAt]
      simp only [TxRing.hand, Function.update_self, len_handedWord hlen]
      exact Memory.load_store_self ..
    · have hold : i < q.waiting.length := by omega
      have hcell := hne i (by omega) hlast
      have hframe := h.frames i hold
      have hfits := h.fits _ (List.getElem_mem hold)
      rw [← hframe, length_frameAt] at hfits
      rw [List.getElem_append_left hold, ← hframe, Transmitter.frameAt, Transmitter.frameAt]
      simp only [TxRing.hand, Function.update_of_ne hcell]
      apply Memory.load_store_of_disjoint
      rw [gmacTxUnitsize] at hlen hfits ⊢
      omega
  · intro i hi
    dsimp only at hi ⊢
    rw [hlength] at hi
    by_cases hlast : i = q.waiting.length
    · rw [(h.index_eq_head_iff (by omega)).mpr hlast]
      simp only [TxRing.hand, Function.update_self, wrap_handedWord, beq_eq_false_iff_ne, h.listSize]
      have hlt : t.dev.usTxHead < size := h.head ▸ Nat.mod_lt _ h.size_pos
      omega
    · simp only [TxRing.hand, Function.update_of_ne (hne i (by omega) hlast)]
      exact h.wrap i (by omega)

theorem write_long (t : Transmitter) (hlen : ¬ frame.length ≤ gmacTxUnitsize) : t.write frame = (.param, t) := by
  rw [Transmitter.write, TxRing.gmacDevWrite]
  dsimp only
  rw [if_pos (Nat.lt_of_not_le hlen)]

/-! ### Sending -/

theorem transmit_none (h : InRing size t q T) (hwaiting : q.waiting = []) : t.transmit = (none, t) := by
  have hused := h.used 0 h.size_pos
  rw [hwaiting, Nat.add_zero, ← h.queue] at hused
  exact if_pos hused

theorem transmit_some (h : InRing size t q T) {frames : List (List UInt8)} (hwaiting : q.waiting = frame :: frames) :
    t.transmit.1 = some frame ∧ InRing size t.transmit.2 ⟨frames, q.out + 1⟩ T := by
  have hroom := h.room
  have hholds := h.frames
  have hwrap := h.wrap
  have hused := h.used
  have hhead := h.head
  have hcallback := h.callback
  rw [hwaiting] at hroom hholds hwrap hused hhead hcallback
  rw [List.length_cons] at hroom hwrap hused hhead hcallback
  have hbusy : ¬ t.dev.used t.queue = true := by
    have hfirst := hused 0 h.size_pos
    rw [Nat.add_zero, ← h.queue, decide_eq_false (by omega)] at hfirst
    rw [hfirst]
    exact Bool.false_ne_true
  have hsent : t.frameAt t.queue = frame := by
    have hfirst := hholds 0 (Nat.zero_lt_succ _)
    rwa [Nat.add_zero, ← h.queue] at hfirst
  have hnext : ∀ i, T + (q.out + 1) + i = T + q.out + (i + 1) := fun i => by omega
  have hne : ∀ i, i + 1 < size → (T + q.out + (i + 1)) % size ≠ t.queue := by
    intro i hi heq
    rw [h.queue] at heq
    exact absurd (Ring.index_inj hi h.size_pos heq) (Nat.succ_ne_zero i)
  rw [Transmitter.transmit, if_neg hbusy]
  refine ⟨congrArg some hsent, ⟨?_, h.listSize, h.tail, ?_, ?_, ?_, ?_, ?_, ?_, ?_⟩⟩
  · dsimp only
    omega
  · have hlast := hwrap 0 (Nat.zero_lt_succ _)
    have hround := circInc_mod (T + q.out) h.size_pos
    rw [Nat.add_zero, ← h.queue] at hlast
    rw [← h.queue, circInc] at hround
    dsimp only
    rw [← Nat.add_assoc, ← hround]
    by_cases hin : t.queue + 1 < size
    · rw [if_pos (hlast.mpr hin), if_neg (Nat.not_le.mpr hin)]
    · rw [if_neg (mt hlast.mp hin), if_pos (Nat.le_of_not_lt hin)]
  · dsimp only [TxRing.finish]
    rw [hhead]
    congr 1
    omega
  · intro i hi
    dsimp only
    rw [hnext, TxRing.used_finish]
    by_cases hlast : i + 1 < size
    · rw [if_neg (hne i hlast), hused (i + 1) hlast]
      exact decide_eq_decide.mpr (by omega)
    · have hround : (T + q.out + (i + 1)) % size = t.queue := by
        rw [show i + 1 = size by omega, Nat.add_mod_right, h.queue]
      rw [if_pos hround, decide_eq_true (by omega)]
  · intro i hi hi'
    dsimp only at hi'
    exact hcallback i hi (by omega)
  · intro f hf
    exact h.fits f (hwaiting ▸ List.mem_cons_of_mem frame hf)
  · intro i hi
    dsimp only at hi ⊢
    have hcell := hne i (by omega)
    rw [hnext, ← List.getElem_cons_succ frame frames i (by rw [List.length_cons]; omega), ← hholds (i + 1), Transmitter.frameAt,
      Transmitter.frameAt]
    simp only [TxRing.finish, Function.update_of_ne hcell]
  · intro i hi
    dsimp only at hi ⊢
    rw [hnext, TxRing.finish]
    dsimp only
    rw [Function.update_of_ne (hne i (by omega))]
    exact hwrap (i + 1) (by omega)

/-! ### Reporting -/

theorem head_eq_tail_iff (h : InRing size t q T) {k : Nat} (hk : k ≤ q.out + q.waiting.length) :
    t.dev.usTxHead = (T + k) % size ↔ k = q.out + q.waiting.length := by
  have hroom := h.room
  rw [h.head, Nat.add_assoc]
  constructor
  · intro heq
    exact (Ring.index_inj (by omega) (by omega) heq).symm
  · rintro rfl
    rfl

/-- The frame at the tail is out: the loop makes its callback and goes on, unless it was the last one of the ring. -/
theorem release {out : Nat} (h : InRing size t q T) (hout : q.out = out + 1) (called : Nat) :
    Transmitter.reportTurn (t.dev, called) =
        (if out + q.waiting.length = 0 then .leave ({ t.dev with usTxTail := (T + 1) % size }, called + 1)
          else .again ({ t.dev with usTxTail := (T + 1) % size }, called + 1)) ∧
      InRing size { t with dev := { t.dev with usTxTail := (T + 1) % size } } ⟨q.waiting, out⟩ (T + 1) := by
  have hroom := h.room
  have hused : t.dev.used t.dev.usTxTail = true := by
    have hbehind := h.used (size - q.out) (by omega)
    rw [show T + q.out + (size - q.out) = T + size by omega, Nat.add_mod_right, ← h.tail, decide_eq_true (by omega)] at hbehind
    exact hbehind
  have hcalled : t.dev.funcTxCbList t.dev.usTxTail = true := by
    rw [h.tail]
    exact h.callback T (Nat.le_refl T) (by omega)
  have hempty : circCnt t.dev.usTxHead ((T + 1) % size) size = 0 ↔ out + q.waiting.length = 0 := by
    have hlt : t.dev.usTxHead < size := h.head ▸ Nat.mod_lt _ h.size_pos
    rw [circCnt_eq_zero_iff (Nat.le_of_lt hlt) (Nat.mod_lt _ h.size_pos), h.head_eq_tail_iff (by omega)]
    omega
  constructor
  · rw [Transmitter.reportTurn]
    dsimp only
    rw [hused, hcalled, h.listSize, h.tail, circInc_mod _ h.size_pos]
    by_cases hlast : out + q.waiting.length = 0
    · rw [if_pos hlast]
      simp only [hempty.mpr hlast, Bool.not_true, Bool.false_eq_true, if_false, if_true, ne_eq, not_true_eq_false]
    · rw [if_neg hlast]
      simp only [mt hempty.mp hlast, Bool.not_true, Bool.false_eq_true, if_false, if_true, ne_eq, not_false_eq_true]
  · have hsame : T + 1 + out = T + q.out := by omega
    refine ⟨by dsimp only; omega, h.listSize, rfl, ?_, ?_, ?_, ?_, h.fits, ?_, ?_⟩
    · exact hsame ▸ h.queue
    · exact hsame ▸ h.head
    · exact hsame ▸ h.used
    · intro i hi hi'
      exact h.callback i (by omega) (by rwa [hsame] at hi')
    · exact hsame ▸ h.frames
    · exact hsame ▸ h.wrap

theorem report {out : Nat} (h : InRing size t q T) (hout : q.out = out) (hsome : 0 < q.out + q.waiting.length) {fuel : Nat}
    (hfuel : out < fuel) (called : Nat) :
    ∃ dev, Loop.run Transmitter.reportTurn fuel (t.dev, called) = some (dev, called + out) ∧
      InRing size { t with dev } ⟨q.waiting, 0⟩ (T + out) := by
  induction out generalizing t q T fuel called with
  | zero =>
      obtain ⟨fuel, rfl⟩ := Nat.exists_eq_add_of_lt hfuel
      have hbusy : t.dev.used t.dev.usTxTail = false := by
        have hfirst := h.used 0 h.size_pos
        rwa [hout, Nat.add_zero, ← h.tail, decide_eq_false (by omega)] at hfirst
      have hleave : Transmitter.reportTurn (t.dev, called) = .leave (t.dev, called) := by
        rw [Transmitter.reportTurn]
        exact if_pos (by rw [hbusy]; rfl)
      have hsame : (⟨q.waiting, 0⟩ : TxBacklog) = q := by rw [← hout]
      refine ⟨t.dev, Loop.run_leave hleave _, ?_⟩
      rw [hsame]
      exact h
  | succ out ih =>
      obtain ⟨fuel, rfl⟩ := Nat.exists_eq_add_of_lt hfuel
      obtain ⟨hturn, hnext⟩ := h.release hout called
      by_cases hlast : out + q.waiting.length = 0
      · rw [if_pos hlast] at hturn
        obtain rfl : out = 0 := by omega
        exact ⟨_, Loop.run_leave hturn _, hnext⟩
      · rw [if_neg hlast] at hturn
        obtain ⟨dev, hrun, hrest⟩ := ih hnext rfl (Nat.pos_of_ne_zero hlast) (show out < out + 1 + fuel by omega) (called + 1)
        refine ⟨dev, ?_, ?_⟩
        · rw [Loop.run_again hturn, hrun, Nat.add_assoc, Nat.add_comm 1 out]
        · rwa [Nat.add_assoc, Nat.add_comm 1 out] at hrest

theorem handle (h : InRing size t q T) :
    ∃ t', t.handle false = some (q.out, t') ∧ InRing size t' ⟨q.waiting, 0⟩ (T + q.out) := by
  have hroom := h.room
  have hempty := h.head_eq_tail_iff (Nat.zero_le _)
  rw [Nat.add_zero, ← h.tail] at hempty
  by_cases hnone : 0 = q.out + q.waiting.length
  · obtain hout : q.out = 0 := by omega
    refine ⟨t, ?_, ?_⟩
    · rw [Transmitter.handle, hout]
      exact if_neg fun hne => hne (hempty.mpr hnone)
    · have hsame : (⟨q.waiting, 0⟩ : TxBacklog) = q := by rw [← hout]
      rw [hout, hsame]
      exact h
  · obtain ⟨dev, hrun, hrest⟩ := h.report rfl (Nat.pos_of_ne_zero (Ne.symm hnone)) (show q.out < size by omega) 0
    refine ⟨_, ?_, hrest⟩
    rw [Transmitter.handle]
    refine (if_pos (mt hempty.mp hnone)).trans ?_
    rw [if_neg Bool.false_ne_true, h.listSize, hrun, Nat.zero_add]

theorem inRing_resetMem (dev : TxRing) (pTxBuffer : Memory) (hsize : 0 < dev.usTxListSize) :
    InRing dev.usTxListSize ⟨dev.resetMem, pTxBuffer, 0⟩ ⟨[], 0⟩ 0 := by
  refine ⟨hsize, rfl, (Nat.zero_mod _).symm, (Nat.zero_mod _).symm, (Nat.zero_mod _).symm, ?_, ?_, ?_, Ring.holds_nil, ?_⟩
  · intro i hi
    rw [TxRing.used_resetMem, Nat.zero_add, Nat.zero_add, Nat.mod_eq_of_lt hi, if_pos hi]
    exact (decide_eq_true (Nat.zero_le i)).symm
  · exact fun i _ hi => absurd hi (Nat.not_lt_zero i)
  · exact fun _ hf => absurd hf List.not_mem_nil
  · exact fun i hi => absurd hi (Nat.not_lt_zero i)

theorem handle_rle (h : InRing size t q T) :
    ∃ t', t.handle true = some (0, t') ∧ InRing size t' ⟨[], 0⟩ 0 := by
  have hreset := inRing_resetMem t.dev t.pTxBuffer (h.listSize.symm ▸ h.size_pos)
  rw [h.listSize] at hreset
  refine ⟨_, ?_, hreset⟩
  rw [Transmitter.handle]
  exact if_neg fun hne => hne rfl

theorem bufUsed (h : InRing size t q T) : t.bufUsed = q.waiting.length := by
  have hroom := h.room
  have hfirst : ∀ i, i < size → (!t.dev.used ((T + q.out + i) % size)) = decide (i < q.waiting.length) := by
    intro i hi
    rw [h.used i hi, ← decide_not]
    exact decide_eq_decide.mpr Nat.not_le
  rw [Transmitter.bufUsed, h.listSize]
  exact Ring.foldl_count_eq (fun i => !t.dev.used i) h.size_pos (by omega) hfirst

end TxBacklog.InRing

/-- **The transmit ring is a queue of frames**, from a reset on: whenever frames are written, sent and reported, the controller sends them as they were written and in order, and each that has gone out is reported once. -/
theorem tx_fifo (dev : TxRing) (pTxBuffer : Memory) (hsize : 0 < dev.usTxListSize) (calls : List TxCall) :
    Conforms txCall (TxAllowed dev.usTxListSize) TxMeets ⟨dev.resetMem, pTxBuffer, 0⟩ ⟨[], 0⟩ calls := by
  apply Conforms.of_simulation fun t q => ∃ T, TxBacklog.InRing dev.usTxListSize t q T
  · rintro t q call ⟨T, h⟩ hallowed
    cases call with
    | write frame =>
        by_cases hlen : frame.length ≤ gmacTxUnitsize
        · obtain ⟨hok, hwritten⟩ := h.write hallowed hlen
          exact ⟨_, _, _, rfl, (if_pos hlen).mpr ⟨hok, rfl⟩, T, hwritten⟩
        · have hparam := TxBacklog.InRing.write_long t hlen
          refine ⟨.status (t.write frame).1, _, q, rfl, (if_neg hlen).mpr ⟨?_, rfl⟩, T, ?_⟩
          · rw [hparam]
          · rw [hparam]
            exact h
    | transmit =>
        cases hwaiting : q.waiting with
        | nil =>
            have hnone := h.transmit_none hwaiting
            refine ⟨.wire none, t, q, ?_, ?_, T, h⟩
            · rw [txCall, hnone]
            · rw [TxMeets, hwaiting]
              exact ⟨rfl, rfl⟩
        | cons frame frames =>
            obtain ⟨hsent, hrest⟩ := h.transmit_some hwaiting
            refine ⟨.wire t.transmit.1, t.transmit.2, ⟨frames, q.out + 1⟩, rfl, ?_, T, hrest⟩
            rw [TxMeets, hwaiting]
            exact ⟨hsent, rfl⟩
    | handle rle =>
        cases rle with
        | false =>
            obtain ⟨t', hcall, hrest⟩ := h.handle
            refine ⟨.reported q.out, t', ⟨q.waiting, 0⟩, ?_, ⟨rfl, rfl⟩, _, hrest⟩
            rw [txCall, hcall]
        | true =>
            obtain ⟨t', hcall, hrest⟩ := h.handle_rle
            refine ⟨.reported 0, t', ⟨[], 0⟩, ?_, ⟨rfl, rfl⟩, 0, hrest⟩
            rw [txCall, hcall]
    | bufUsed => exact ⟨_, t, q, rfl, ⟨h.bufUsed, rfl⟩, T, h⟩
  · exact ⟨0, TxBacklog.InRing.inRing_resetMem dev pTxBuffer hsize⟩

/-- The ring of the port, with two frames on their way at once, the second of them given up. -/
theorem tx_fifo_twoFrames :
    let start : Transmitter := ⟨(⟨fun _ => 0, fun _ => false, 3, 0, 0⟩ : TxRing).resetMem, fun _ => 0, 0⟩
    let calls : List TxCall := [.write [1, 2, 3], .write [4], .transmit, .handle false, .bufUsed, .handle true, .transmit]
    (answers txCall start calls).toOption.map Prod.fst =
      some [.status .ok, .status .ok, .wire (some [1, 2, 3]), .reported 1, .used 1, .reported 0, .wire none] ∧
    Conforms txCall (TxAllowed 3) TxMeets start ⟨[], 0⟩ calls :=
  ⟨by decide +kernel, tx_fifo ⟨fun _ => 0, fun _ => false, 3, 0, 0⟩ (fun _ => 0) (by decide) _⟩

end ContikiAtsam
