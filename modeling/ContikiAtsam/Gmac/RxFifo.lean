import ContikiAtsam.Base.Run
import ContikiAtsam.Gmac.Arrival
import ContikiAtsam.Gmac.RxFrames
import Mathlib.Data.List.Forall2

/-!
# The receive ring as a queue of frames

`gmac_dev_read` and the controller work at the two ends of one ring: the controller stores buffers whenever a descriptor is free, at any time between two reads, and a read takes a frame out when all of it is there. Over all such runs the ring is a queue: each read gives the oldest frame that is complete, as it came in, or says that there is none; nothing is lost, cut or given twice. A frame that is too long for the buffer of the caller is the only one that is dropped.
-/

namespace ContikiAtsam

/-- What the software may do with the ring, and what happens to the controller. -/
inductive RxCall where
  /-- A frame begins to arrive. -/
  | arrive (frame : List UInt8)
  | store
  | read (frame : Memory) (pFrame ulFrameSize : Nat)
  | bufUsed

inductive RxReply where
  | done
  | result (r : ReadResult)
  | used (n : Nat)

/-- A call; a read that does not return is an error. -/
def rxCall (r : Receiver) : RxCall → Except Unit (RxReply × Receiver)
  | .arrive frame => .ok (.done, { r with arriving := some (frame, 0) })
  | .store => .ok (.done, r.store)
  | .read frame pFrame ulFrameSize =>
    match gmacDevRead r.dev frame pFrame ulFrameSize with
    | none => .error ()
    | some result => .ok (.result result, { r with dev := result.dev })
  | .bufUsed => .ok (.used r.dev.bufUsed, r)

/-! ### The queue -/

/-- The frames that are complete, oldest first, and the one that is arriving with the number of its buffers stored. -/
structure RxQueue where
  frames : List (List UInt8)
  arriving : Option (List UInt8 × Nat)

def RxQueue.used (q : RxQueue) : Nat :=
  q.frames.foldr (fun frame n => bufCount frame + n) 0 + (q.arriving.map Prod.snd).getD 0

/-- One frame arrives at a time, of at most the length of an Ethernet frame. -/
def RxAllowed (q : RxQueue) : RxCall → Prop
  | .arrive frame => q.arriving = none ∧ 0 < frame.length ∧ frame.length ≤ 1536
  | _ => True

/-- What a call does to the queue of a ring of `size` descriptors. -/
def RxMeets (size : Nat) (_ : Receiver) (q : RxQueue) (call : RxCall) (reply : RxReply) (_ : Receiver) (q' : RxQueue) : Prop :=
  match call, reply with
  | .arrive frame, .done => q' = { q with arriving := some (frame, 0) }
  | .store, .done =>
    match q.arriving with
    | none => q' = q
    | some (frame, k) =>
      if q.used = size then q' = q
      else if bufCount frame = k + 1 then q' = ⟨q.frames ++ [frame], none⟩
      else q' = { q with arriving := some (frame, k + 1) }
  | .read _ pFrame ulFrameSize, .result r =>
    match q.frames with
    | [] => r.status = .rxNoData ∧ q' = q
    | frame :: frames =>
      q' = { q with frames } ∧
        if frame.length ≤ ulFrameSize then r.status = .ok ∧ r.rcvSize = frame.length ∧ r.frame.load pFrame frame.length = frame
        else r.status = .sizeTooSmall
  | .bufUsed, .used n => n = q.used ∧ q' = q
  | _, _ => False

/-! ### The queue in the ring -/

/-- A frame that an Ethernet controller receives. -/
def Fitting (frame : List UInt8) : Prop := 0 < frame.length ∧ frame.length ≤ 1536

/-- The buffers of a complete frame. -/
def Whole (frame : List UInt8) (bufs : List Buf) : Prop :=
  Fitting frame ∧ Parts frame bufs ∧ bufs.length = bufCount frame

/-- The stored buffers of the arriving frame. -/
def Begun : Option (List UInt8 × Nat) → List Buf → Prop
  | none, bufs => bufs = []
  | some (frame, k), bufs => Fitting frame ∧ Parts frame bufs ∧ bufs.length = k ∧ gmacRxUnitsize * k < frame.length

/-- The ring holds the frames of the queue, one after the other, and the queue pointer is behind them. -/
structure RxQueue.InRing (base size : Nat) (r : Receiver) (q : RxQueue) (wholes : List (List Buf)) (begun : List Buf) : Prop where
  shows_bufs : r.dev.Shows (wholes.flatten ++ begun)
  laid : r.dev.Laid base
  listSize : r.dev.usRxListSize = size
  queue : r.queue = (r.dev.usRxIdx + (wholes.flatten ++ begun).length) % size
  frames : List.Forall₂ Whole q.frames wholes
  arriving : r.arriving = q.arriving
  stored : Begun q.arriving begun

section Queue

variable {base size : Nat} {r : Receiver} {q : RxQueue} {wholes : List (List Buf)} {begun : List Buf} {frame : List UInt8}

theorem length_wholes {frames : List (List UInt8)} (h : List.Forall₂ Whole frames wholes) :
    wholes.flatten.length = frames.foldr (fun frame n => bufCount frame + n) 0 := by
  induction h with
  | nil => rfl
  | cons hwhole _ ih => rw [List.flatten_cons, List.length_append, ih, hwhole.2.2, List.foldr_cons]

theorem RxQueue.InRing.used (h : RxQueue.InRing base size r q wholes begun) : (wholes.flatten ++ begun).length = q.used := by
  have hbegun : begun.length = (q.arriving.map Prod.snd).getD 0 := by
    have hb := h.stored
    cases harriving : q.arriving with
    | none =>
        rw [harriving] at hb
        rw [show begun = [] from hb]
        rfl
    | some a =>
        rw [harriving] at hb
        exact hb.2.2.1
  rw [List.length_append, length_wholes h.frames, hbegun, RxQueue.used]

theorem length_le_twelve (hfitting : Fitting frame) {k : Nat} (h : gmacRxUnitsize * k < frame.length) : k < 12 := by
  have hlen := hfitting.2
  rw [gmacRxUnitsize] at h
  omega

theorem bufCount_le (hfitting : Fitting frame) : bufCount frame ≤ 12 := by
  have hlen := hfitting.2
  rw [bufCount, gmacRxUnitsize]
  omega

/-- **A read** takes the oldest complete frame out, if there is one. -/
theorem RxQueue.InRing.read (h : RxQueue.InRing base size r q wholes begun) (hsize : 12 < size) (frame : Memory) (pFrame cap : Nat) :
    ∃ result q' wholes', gmacDevRead r.dev frame pFrame cap = some result ∧
      RxMeets size r q (.read frame pFrame cap) (.result result) { r with dev := result.dev } q' ∧
        RxQueue.InRing base size { r with dev := result.dev } q' wholes' begun := by
  obtain ⟨result, hread, hreads⟩ := gmacDevRead_spec h.shows_bufs frame pFrame cap
  have hidx := gmacDevRead_idx h.shows_bufs hread
  have hsame := sameAddrs_gmacDevRead hread
  rw [h.listSize] at hreads hidx
  obtain ⟨frames, arriving⟩ := q
  obtain ⟨hshows, hlaid, hlist, hqueue, hframes, harriving, hbegun⟩ := h
  dsimp only at hframes harriving hbegun
  -- what is left of the ring, whatever is read
  have hleft : ∀ frames' wholes', List.Forall₂ Whole frames' wholes' →
      (readList size cap (wholes.flatten ++ begun) [] []).rest = wholes'.flatten ++ begun →
      RxQueue.InRing base size { r with dev := result.dev } ⟨frames', arriving⟩ wholes' begun := by
    intro frames' wholes' hframes' hrest
    have hshows' := hreads.shows_rest
    rw [hrest] at hshows' hidx
    exact ⟨hshows', hlaid.same hsame, hsame.size.trans hlist, hqueue.trans hidx.symm, hframes', harriving, hbegun⟩
  cases hframes with
  | nil =>
      have hlist : readList size cap (([] : List (List Buf)).flatten ++ begun) [] [] = ⟨.rxNoData, [], begun⟩ := by
        cases arriving with
        | none =>
            rw [show begun = [] from hbegun]
            rfl
        | some a =>
            obtain ⟨hfitting, hparts, hk, hmore⟩ := hbegun
            rw [← hk] at hmore
            have hcount := length_le_twelve hfitting hmore
            change readList size cap begun [] [] = _
            exact readList_partial cap hparts hmore (by omega)
      refine ⟨result, _, [], hread, ⟨?_, rfl⟩, hleft [] [] .nil ?_⟩
      · rw [hreads.status, hlist]
      · rw [hlist]
        rfl
  | @cons oldest bufs frames wholes hwhole hframes =>
      obtain ⟨hfitting, hparts, hcount⟩ := hwhole
      have hle := bufCount_le hfitting
      have hlist : readList size cap ((bufs :: wholes).flatten ++ begun) [] [] =
          ⟨if cap < oldest.length then .sizeTooSmall else .ok, oldest.take cap, wholes.flatten ++ begun⟩ := by
        rw [List.flatten_cons, List.append_assoc]
        exact readList_frame cap hparts hcount hfitting.1 (by omega)
      refine ⟨result, _, wholes, hread, ⟨rfl, ?_⟩, hleft frames wholes hframes ?_⟩
      · have hstatus := hreads.status
        have hbytes := hreads.bytes
        rw [hlist] at hstatus hbytes
        dsimp only at hstatus hbytes
        by_cases hcap : oldest.length ≤ cap
        · rw [if_neg (Nat.not_lt.mpr hcap)] at hstatus hbytes
          have hload := hbytes rfl
          rw [List.take_of_length_le hcap] at hload
          have hsized : result.rcvSize = oldest.length := by rw [← hload, Memory.load_length]
          rw [if_pos hcap]
          exact ⟨hstatus, hsized, hsized ▸ hload⟩
        · rw [if_pos (Nat.lt_of_not_le hcap)] at hstatus
          rw [if_neg hcap]
          exact hstatus
      · rw [hlist]

theorem parts_concat {bufs : List Buf} {b : Buf} (h : Parts frame bufs) (hb : Part frame bufs.length b) :
    Parts frame (bufs ++ [b]) := by
  intro i hi
  rw [List.length_append, List.length_singleton] at hi
  rcases Nat.lt_or_ge i bufs.length with hold | hnew
  · rw [List.getElem_append_left hold]
    exact h i hold
  · obtain rfl : i = bufs.length := by omega
    rw [List.getElem_concat_length rfl]
    exact hb

theorem part_fill {dev : RxRing} {k i : Nat} (hfitting : Fitting frame) (hmore : gmacRxUnitsize * k < frame.length)
    (haddr : ((dev.fill i ((frame.drop (gmacRxUnitsize * k)).take gmacRxUnitsize)
      (rxStatus (k == 0) (decide (frame.length ≤ gmacRxUnitsize * (k + 1))) frame.length)).pRxDscr i).bufferAddr =
        (dev.pRxDscr i).bufferAddr) :
    Part frame k (((dev.fill i ((frame.drop (gmacRxUnitsize * k)).take gmacRxUnitsize)
      (rxStatus (k == 0) (decide (frame.length ≤ gmacRxUnitsize * (k + 1))) frame.length)).pRxDscr i).buf
        (dev.ram.store (dev.pRxDscr i).bufferAddr ((frame.drop (gmacRxUnitsize * k)).take gmacRxUnitsize))) := by
  set chunk := (frame.drop (gmacRxUnitsize * k)).take gmacRxUnitsize with hchunk
  set last := decide (frame.length ≤ gmacRxUnitsize * (k + 1)) with hlast
  have hlen : frame.length < 4096 := Nat.lt_of_le_of_lt hfitting.2 (by decide)
  have hself : (dev.fill i chunk (rxStatus (k == 0) last frame.length)).pRxDscr i =
      ⟨(dev.pRxDscr i).addr ||| gmacRxdOwnership, rxStatus (k == 0) last frame.length⟩ := Function.update_self ..
  rw [hself] at haddr ⊢
  refine ⟨?_, ?_, ?_, Memory.load_length .., ?_⟩
  · rw [RxDescriptor.buf, sof_rxStatus hlen]
    cases k <;> rfl
  · rw [RxDescriptor.buf, eof_rxStatus hlen]
  · intro heof
    have hends : last = true := (eof_rxStatus hlen _).symm.trans heof
    change RxDescriptor.len _ = _
    rw [hends, len_rxStatus hlen]
  · rw [RxDescriptor.buf, haddr]
    have hsize : chunk.length = min gmacRxUnitsize (frame.length - gmacRxUnitsize * k) := by
      rw [hchunk, List.length_take, List.length_drop]
    have hload := Memory.load_store_self dev.ram (dev.pRxDscr i).bufferAddr chunk
    rcases Nat.le_total gmacRxUnitsize (frame.length - gmacRxUnitsize * k) with hfull | hshort
    · rw [hsize, Nat.min_eq_left hfull] at hload
      rw [List.take_of_length_le (by rw [Memory.load_length]; exact hfull)]
      exact hload
    · rw [hsize, Nat.min_eq_right hshort] at hload
      rw [Memory.take_load _ _ _ _ hshort]
      exact hload

/-- **A stored buffer** belongs to the arriving frame, which is complete with its last one. -/
theorem RxQueue.InRing.store (h : RxQueue.InRing base size r q wholes begun) :
    ∃ q' wholes' begun', RxMeets size r q .store .done r.store q' ∧ RxQueue.InRing base size r.store q' wholes' begun' := by
  have hused := h.used
  obtain ⟨frames, arriving⟩ := q
  have hlength := h.shows_bufs.length_le
  obtain ⟨hshows, hlaid, hlist, hqueue, hframes, harriving, hbegun⟩ := id h
  dsimp only at hframes harriving hbegun
  cases arriving with
  | none =>
      have hsame : r.store = r := by
        rw [Receiver.store, harriving]
      rw [hsame]
      exact ⟨_, wholes, begun, rfl, h⟩
  | some a =>
      obtain ⟨frame, k⟩ := a
      obtain ⟨hfitting, hparts, hk, hmore⟩ := hbegun
      have hat : r.dev.nth (wholes.flatten ++ begun).length = r.dev.pRxDscr r.queue := by
        rw [RxRing.nth, hqueue, hlist]
      by_cases hfull : (wholes.flatten ++ begun).length = size
      · have howned : (r.dev.pRxDscr r.queue).owned = true := by
          have htwo := hshows.two_le
          have hfirst := (hshows.shown 0 (by omega)).1
          rw [RxRing.nth, Nat.add_zero, Nat.mod_eq_of_lt hshows.idx_lt] at hfirst
          rw [hqueue, hfull, Nat.add_mod_right, ← hlist, Nat.mod_eq_of_lt hshows.idx_lt]
          exact hfirst
        have hsame : r.store = r := by
          rw [Receiver.store, harriving]
          exact if_pos howned
        rw [hsame]
        refine ⟨_, wholes, begun, ?_, h⟩
        exact (if_pos (hused.symm.trans hfull)).mpr rfl
      · have hroom : (wholes.flatten ++ begun).length < r.dev.usRxListSize := by omega
        have hlt : r.queue < r.dev.usRxListSize := by
          rw [hqueue, hlist]
          exact Nat.mod_lt _ (by omega)
        have hfree : (r.dev.pRxDscr r.queue).owned = false := hat ▸ hshows.rest _ (Nat.le_refl _) hroom
        set chunk := (frame.drop (gmacRxUnitsize * k)).take gmacRxUnitsize with hchunk
        set last := decide (frame.length ≤ gmacRxUnitsize * (k + 1)) with hlast
        set dev := r.dev.fill r.queue chunk (rxStatus (k == 0) last frame.length) with hdev
        have hstored : r.store = ⟨dev, (r.queue + 1) % size, if last then none else some (frame, k + 1)⟩ := by
          rw [Receiver.store, harriving]
          dsimp only
          rw [if_neg (by rw [hfree]; decide), hlaid.next hlt, hlist]
        have hsame : RxRing.SameAddrs r.dev dev := RxRing.sameAddrs_fill ..
        have hpart : Part frame k ((dev.pRxDscr r.queue).buf dev.ram) := by
          apply part_fill hfitting hmore
          rw [RxDescriptor.bufferAddr, (hsame.addr r.queue).and_eq (by decide), RxDescriptor.bufferAddr]
        have hplace : r.queue = (r.dev.usRxIdx + (wholes.flatten ++ begun).length) % r.dev.usRxListSize := by
          rw [hlist]
          exact hqueue
        have hshows' : dev.Shows (wholes.flatten ++ begun ++ [(dev.pRxDscr r.queue).buf dev.ram]) :=
          hshows.fill hlaid hroom hplace (List.length_take_le ..) _
        rw [List.append_assoc] at hshows'
        have hparts' : Parts frame (begun ++ [(dev.pRxDscr r.queue).buf dev.ram]) := parts_concat hparts (hk.symm ▸ hpart)
        generalize (dev.pRxDscr r.queue).buf dev.ram = b at hshows' hparts'
        have hqueue' : (r.queue + 1) % size = (dev.usRxIdx + (wholes.flatten ++ (begun ++ [b])).length) % size := by
          have hlen : (wholes.flatten ++ (begun ++ [b])).length = (wholes.flatten ++ begun).length + 1 := by
            simp only [List.length_append, List.length_singleton, Nat.add_assoc]
          rw [hqueue, Nat.mod_add_mod, hlen]
          rfl
        have hnotFull : ¬ RxQueue.used ⟨frames, some (frame, k)⟩ = size := hused ▸ hfull
        by_cases hend : frame.length ≤ gmacRxUnitsize * (k + 1)
        · have hcount : bufCount frame = k + 1 := bufCount_eq_succ_iff.mpr ⟨hmore, hend⟩
          rw [hstored, if_pos (hlast.trans (decide_eq_true hend))]
          refine ⟨⟨frames ++ [frame], none⟩, wholes ++ [begun ++ [b]], [], ?_, ?_, hlaid.same hsame, hlist, ?_, ?_, rfl, rfl⟩
          · simp only [RxMeets, if_neg hnotFull, if_pos hcount]
          · rw [List.flatten_append, List.flatten_singleton, List.append_nil]
            exact hshows'
          · rw [List.flatten_append, List.flatten_singleton, List.append_nil]
            exact hqueue'
          · apply List.rel_append hframes
            refine .cons ⟨hfitting, hparts', ?_⟩ .nil
            rw [List.length_append, List.length_singleton, hk, hcount]
        · have hcount : ¬ bufCount frame = k + 1 := fun hcount => hend (bufCount_eq_succ_iff.mp hcount).2
          rw [hstored, if_neg (by rw [hlast, decide_eq_false hend]; decide)]
          refine ⟨⟨frames, some (frame, k + 1)⟩, wholes, begun ++ [b], ?_, hshows', hlaid.same hsame, hlist, hqueue', hframes,
            rfl, hfitting, hparts', ?_, Nat.lt_of_not_le hend⟩
          · simp only [RxMeets, if_neg hnotFull, if_neg hcount]
          · rw [List.length_append, List.length_singleton, hk]

/-! ### The buffers in use -/

theorem bufUsed_eq {dev : RxRing} {bufs : List Buf} (h : dev.Shows bufs) : dev.bufUsed = bufs.length := by
  have hpos : 0 < dev.usRxListSize := Nat.zero_lt_of_lt h.idx_lt
  apply Ring.foldl_count_eq (fun i => (dev.pRxDscr i).owned) hpos h.length_le
  intro i hi
  by_cases hin : i < bufs.length
  · rw [decide_eq_true hin]
    exact (h.shown i hin).1
  · rw [decide_eq_false hin]
    exact h.rest i (Nat.le_of_not_lt hin) hi

/-- **The receive ring is a queue of frames**, from a reset on: whenever frames arrive, buffers are stored and frames are read, each read gives the oldest complete frame, and a buffer is stored unless all of them are in use. -/
theorem rx_fifo (dev : RxRing) {pRxBuff : UInt32} (halign : pRxBuff.toNat % 8 = 0)
    (hend : pRxBuff.toNat + gmacRxUnitsize * dev.usRxListSize ≤ 4294967296) (hsize : 12 < dev.usRxListSize)
    (calls : List RxCall) :
    Conforms rxCall RxAllowed (RxMeets dev.usRxListSize) ⟨dev.resetMem pRxBuff, 0, none⟩ ⟨[], none⟩ calls := by
  apply Conforms.of_simulation fun r q => ∃ wholes begun, RxQueue.InRing pRxBuff.toNat dev.usRxListSize r q wholes begun
  · rintro r q call ⟨wholes, begun, h⟩ hallowed
    cases call with
    | arrive frame =>
        obtain ⟨harriving, hfitting⟩ := hallowed
        have hbegun := h.stored
        rw [harriving] at hbegun
        obtain rfl : begun = [] := hbegun
        refine ⟨.done, _, _, rfl, rfl, wholes, [], h.shows_bufs, h.laid, h.listSize, h.queue, h.frames, rfl, hfitting,
          fun i hi => absurd hi (Nat.not_lt_zero i), rfl, ?_⟩
        rw [Nat.mul_zero]
        exact hfitting.1
    | store =>
        obtain ⟨q', wholes', begun', hmeets, h'⟩ := h.store
        exact ⟨.done, _, q', rfl, hmeets, wholes', begun', h'⟩
    | read frame pFrame ulFrameSize =>
        obtain ⟨result, q', wholes', hread, hmeets, h'⟩ := h.read hsize frame pFrame ulFrameSize
        refine ⟨.result result, _, q', ?_, hmeets, wholes', begun, h'⟩
        rw [rxCall, hread]
    | bufUsed =>
        refine ⟨.used r.dev.bufUsed, r, q, rfl, ⟨?_, rfl⟩, wholes, begun, h⟩
        rw [bufUsed_eq h.shows_bufs, h.used]
  · refine ⟨[], [], RxRing.shows_resetMem dev pRxBuff (by omega), RxRing.laid_resetMem dev halign hend, rfl, ?_, .nil, rfl, rfl⟩
    exact (Nat.zero_mod _).symm

/-- The ring of the port. -/
private def portRing : RxRing := ⟨fun _ => ⟨0, 0⟩, 32, 0, fun _ => 0⟩

/-- A frame of 200 bytes, read once when half of it is there and once when it is complete. -/
theorem rx_fifo_twoBuffers :
    Conforms rxCall RxAllowed (RxMeets 32) ⟨portRing.resetMem 0x20000000, 0, none⟩ ⟨[], none⟩
      [.arrive (List.replicate 200 7), .store, .read (fun _ => 0) 0 1536, .store, .bufUsed, .read (fun _ => 0) 0 1536] :=
  rx_fifo portRing (by decide) (by decide) (by decide) _

end Queue

end ContikiAtsam
