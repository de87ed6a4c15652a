import ContikiAtsam.Gmac.Read

/-!
# Frames under the reader

What `gmac_dev_read` makes of frames that lie in the ring as the controller stores them. A frame that is complete is read whole, a frame of which only the first buffers are there is left alone. The reader ends with its index where the buffers that it leaves begin, so that these still reach up to the place where the next buffer will be stored.
-/

namespace ContikiAtsam

/-- How many buffers a frame takes. -/
def bufCount (frame : List UInt8) : Nat := (frame.length + (gmacRxUnitsize - 1)) / gmacRxUnitsize

/-- What the buffer at a place of a frame holds: the marks, the length in the last one, and its part of the bytes. -/
structure Part (frame : List UInt8) (i : Nat) (b : Buf) : Prop where
  sof : b.sof = decide (i = 0)
  eof : b.eof = decide (frame.length ≤ gmacRxUnitsize * (i + 1))
  len : b.eof = true → b.len = frame.length
  size : b.bytes.length = gmacRxUnitsize
  bytes : b.bytes.take (frame.length - gmacRxUnitsize * i) = (frame.drop (gmacRxUnitsize * i)).take gmacRxUnitsize

/-- The first buffers of a frame. -/
def Parts (frame : List UInt8) (bufs : List Buf) : Prop := ∀ i (hi : i < bufs.length), Part frame i bufs[i]

/-- The bytes gathered from the buffers before a place. -/
def gathered (frame : List UInt8) (cap i : Nat) : List UInt8 := (frame.take (gmacRxUnitsize * i)).take cap

section ListReader

variable {frame : List UInt8} {i n : Nat} {b : Buf} {held rest bufs : List Buf}

/-- The first buffer is read from itself, since nothing is held before it. -/
theorem Part.source_eq (h : Part frame i b) (hheld : held.length = i) : b.source held = b := by
  rw [Buf.source, h.sof]
  by_cases hfirst : i = 0
  · obtain rfl : held = [] := List.eq_nil_of_length_eq_zero (hheld.trans hfirst)
    rw [if_pos (decide_eq_true hfirst), List.getLastD_nil]
  · rw [if_neg (by simpa using hfirst)]

theorem Part.hold_eq (h : Part frame i b) (hheld : held.length = i) : b.hold held = held ++ [b] := by
  rw [Buf.hold, h.sof]
  by_cases hfirst : i = 0
  · obtain rfl : held = [] := List.eq_nil_of_length_eq_zero (hheld.trans hfirst)
    rw [if_pos (decide_eq_true hfirst), List.nil_append]
  · rw [if_neg (by simpa using hfirst)]

theorem Part.gather_eq (h : Part frame i b) (cap : Nat) (hheld : held.length = i) :
    b.gather cap held (gathered frame cap i) = (frame.take (gmacRxUnitsize * i) ++ b.bytes).take cap := by
  have hacc : (if b.sof = true then [] else gathered frame cap i) = gathered frame cap i := by
    rw [h.sof]
    by_cases hfirst : i = 0
    · rw [if_pos (decide_eq_true hfirst), gathered, hfirst, Nat.mul_zero, List.take_zero, List.take_nil]
    · rw [if_neg (by simpa using hfirst)]
  have hroom : cap - (gathered frame cap i).length = cap - (frame.take (gmacRxUnitsize * i)).length := by
    rw [gathered, List.length_take (i := cap)]
    omega
  rw [Buf.gather, h.source_eq hheld]
  simp only [hacc, hroom, List.take_append]
  rfl

theorem Part.bytes_eq (h : Part frame i b) (hmore : gmacRxUnitsize * (i + 1) < frame.length) :
    frame.take (gmacRxUnitsize * i) ++ b.bytes = frame.take (gmacRxUnitsize * (i + 1)) := by
  have hbytes := h.bytes
  rw [gmacRxUnitsize] at *
  rw [List.take_of_length_le (by rw [h.size, gmacRxUnitsize]; omega)] at hbytes
  rw [hbytes, Nat.mul_add, Nat.mul_one, List.take_add]

theorem Part.not_skipped (h : Part frame i b) (hheld : held.length = i) : ¬ (!b.sof && held.isEmpty) = true := by
  rw [h.sof]
  by_cases hfirst : i = 0
  · simp [hfirst]
  · have hne : held ≠ [] := by
      rintro rfl
      exact hfirst hheld.symm
    simp [hne]

/-- **Reading the first buffers of a frame**, before its last one. -/
theorem readList_parts (cap : Nat) (h : Parts frame (held ++ rest))
    (hmore : gmacRxUnitsize * (held ++ rest).length < frame.length) (hn : (held ++ rest).length < n) :
    readList n cap (rest ++ bufs) held (gathered frame cap held.length) =
      readList n cap bufs (held ++ rest) (gathered frame cap (held ++ rest).length) := by
  induction rest generalizing held with
  | nil => rw [List.append_nil, List.nil_append]
  | cons b rest ih =>
      have hlen : (held ++ b :: rest).length = held.length + 1 + rest.length := by
        rw [List.length_append, List.length_cons]
        omega
      have hb : Part frame held.length b := by simpa using h held.length (by omega)
      rw [hlen, gmacRxUnitsize] at hmore
      rw [hlen] at hn
      have hfull : gmacRxUnitsize * (held.length + 1) < frame.length := by
        rw [gmacRxUnitsize]
        omega
      have heof : b.eof = false := by
        rw [hb.eof]
        exact decide_eq_false (by omega)
      have hstep : readList n cap (b :: rest ++ bufs) held (gathered frame cap held.length) =
          readList n cap (rest ++ bufs) (held ++ [b]) (gathered frame cap (held ++ [b]).length) := by
        rw [List.cons_append, readList, if_neg (hb.not_skipped rfl), hb.hold_eq rfl, hb.source_eq rfl,
          if_neg (by rw [List.length_append, List.length_singleton]; omega), if_neg (by rw [heof]; decide), hb.gather_eq cap rfl,
          hb.bytes_eq hfull, List.length_append, List.length_singleton]
        rfl
      rw [hstep, ih]
      · rw [List.append_assoc, List.singleton_append]
      · rwa [List.append_assoc, List.singleton_append]
      · rw [List.append_assoc, List.singleton_append, hlen, gmacRxUnitsize]
        exact hmore
      · rwa [List.append_assoc, List.singleton_append, hlen]

theorem bufCount_eq_succ_iff : bufCount frame = i + 1 ↔
    gmacRxUnitsize * i < frame.length ∧ frame.length ≤ gmacRxUnitsize * (i + 1) := by
  rw [bufCount, gmacRxUnitsize]
  omega

/-- **Reading a whole frame.** -/
theorem readList_frame (cap : Nat) (h : Parts frame rest) (hcount : rest.length = bufCount frame) (hpos : 0 < frame.length)
    (hn : rest.length < n) :
    readList n cap (rest ++ bufs) [] [] =
      ⟨if cap < frame.length then .sizeTooSmall else .ok, frame.take cap, bufs⟩ := by
  obtain ⟨init, last, rfl⟩ : ∃ init last, rest = init ++ [last] := by
    rcases List.eq_nil_or_concat rest with hnil | ⟨init, last, hrest⟩
    · rw [hnil, bufCount, gmacRxUnitsize, List.length_nil] at hcount
      omega
    · exact ⟨init, last, by simpa using hrest⟩
  rw [List.length_append, List.length_singleton] at hcount hn
  obtain ⟨hmore, hend⟩ := bufCount_eq_succ_iff.mp hcount.symm
  have hlast : Part frame init.length last := by simpa using h init.length (by simp)
  have hinit : Parts frame ([] ++ init) := by
    intro i hi
    have hpart := h i (by simp at hi ⊢; omega)
    rwa [List.getElem_append_left (by simpa using hi)] at hpart
  have hstart : readList n cap (init ++ ([last] ++ bufs)) [] (gathered frame cap ([] : List Buf).length) =
      readList n cap ([last] ++ bufs) ([] ++ init) (gathered frame cap ([] ++ init).length) :=
    readList_parts cap hinit (by simpa using hmore) (by simp; omega)
  have hnil : gathered frame cap ([] : List Buf).length = [] := by
    rw [gathered, List.length_nil, Nat.mul_zero, List.take_zero, List.take_nil]
  rw [hnil, List.nil_append] at hstart
  have heof : last.eof = true := by
    rw [hlast.eof]
    exact decide_eq_true hend
  have hbefore : (frame.take (gmacRxUnitsize * init.length)).length = gmacRxUnitsize * init.length := by
    rw [List.length_take]
    omega
  have hbytes : (frame.take (gmacRxUnitsize * init.length) ++ last.bytes).take frame.length = frame := by
    have hrest : (frame.drop (gmacRxUnitsize * init.length)).length ≤ gmacRxUnitsize := by
      rw [List.length_drop]
      rw [Nat.mul_add, Nat.mul_one] at hend
      omega
    rw [List.take_append, hbefore, hlast.bytes, List.take_of_length_le hrest, List.take_take, Nat.min_eq_right (by omega),
      List.take_append_drop]
  have htaken : ((frame.take (gmacRxUnitsize * init.length) ++ last.bytes).take cap).take frame.length = frame.take cap := by
    rw [List.take_take, Nat.min_comm, ← List.take_take, hbytes]
  have hlen : ((frame.take (gmacRxUnitsize * init.length) ++ last.bytes).take cap).length < frame.length ↔
      cap < frame.length := by
    rw [Nat.mul_add, Nat.mul_one] at hend
    rw [List.length_take, List.length_append, hbefore, hlast.size]
    omega
  rw [List.append_assoc, hstart, List.singleton_append, readList, if_neg (hlast.not_skipped rfl), hlast.hold_eq rfl,
    hlast.source_eq rfl, if_neg (by rw [List.length_append, List.length_singleton]; omega), if_pos heof,
    hlast.gather_eq cap rfl, hlast.len heof, htaken]
  simp only [hlen]

/-- **Reading where no frame is complete** changes nothing. -/
theorem readList_partial (cap : Nat) (h : Parts frame rest) (hmore : gmacRxUnitsize * rest.length < frame.length)
    (hn : rest.length < n) : readList n cap rest [] [] = ⟨.rxNoData, [], rest⟩ := by
  have hread : readList n cap (rest ++ []) [] (gathered frame cap ([] : List Buf).length) =
      readList n cap [] ([] ++ rest) (gathered frame cap ([] ++ rest).length) := readList_parts cap h hmore hn
  have hnil : gathered frame cap ([] : List Buf).length = [] := by
    rw [gathered, List.length_nil, Nat.mul_zero, List.take_zero, List.take_nil]
  rw [hnil, List.append_nil] at hread
  rw [hread]
  rfl

end ListReader

/-! ### Where a read ends -/

section Ends

variable {pFrame cap n target : Nat} {s s' : ReadState} {r : ReadResult} {b : Buf} {bufs held : List Buf} {acc : List UInt8}
  {dev : RxRing}

theorem releaseUntil_idx (htarget : target < dev.usRxListSize) :
    ∀ (d fuel : Nat) (dev' : RxRing) (pRxTd : Nat), dev'.usRxListSize = dev.usRxListSize → dev'.usRxIdx < dev.usRxListSize →
      (dev'.usRxIdx + d) % dev.usRxListSize = target → d ≤ fuel → (dev'.releaseUntil target fuel pRxTd).1.usRxIdx = target
  | d, 0, dev', pRxTd, hsize, hidx, hd, hfuel => by
      obtain rfl : d = 0 := Nat.le_zero.mp hfuel
      rw [Nat.add_zero, Nat.mod_eq_of_lt hidx] at hd
      exact hd
  | d, fuel + 1, dev', pRxTd, hsize, hidx, hd, hfuel => by
      rw [RxRing.releaseUntil]
      by_cases hreached : dev'.usRxIdx = target
      · rw [if_pos hreached]
        exact hreached
      · rw [if_neg hreached]
        obtain ⟨d, rfl⟩ : ∃ e, d = e + 1 := by
          apply Nat.exists_eq_succ_of_ne_zero
          rintro rfl
          rw [Nat.add_zero, Nat.mod_eq_of_lt hidx] at hd
          exact hreached hd
        have hnext : dev'.releaseNext.usRxIdx = (dev'.usRxIdx + 1) % dev.usRxListSize := by
          rw [← hsize]
          exact circInc_eq (hsize ▸ hidx)
        apply releaseUntil_idx htarget d fuel
        · exact hsize
        · rw [hnext]
          exact Nat.mod_lt _ (Nat.zero_lt_of_lt htarget)
        · rw [hnext, Ring.index_succ]
          exact hd
        · exact Nat.le_of_succ_le_succ hfuel

theorem releaseUntil_idx_eq (hidx : dev.usRxIdx < dev.usRxListSize) (htarget : target < dev.usRxListSize) (pRxTd : Nat) :
    (dev.releaseUntil target dev.usRxListSize pRxTd).1.usRxIdx = target := by
  apply releaseUntil_idx htarget ((target + dev.usRxListSize - dev.usRxIdx) % dev.usRxListSize) _ _ _ rfl hidx
  · rw [Nat.add_mod_mod, show dev.usRxIdx + (target + dev.usRxListSize - dev.usRxIdx) = target + dev.usRxListSize by omega,
      Nat.add_mod_right, Nat.mod_eq_of_lt htarget]
  · exact Nat.le_of_lt (Nat.mod_lt _ (Nat.zero_lt_of_lt htarget))

theorem gatherBuffer_leave (h : gatherBuffer cap s = .leave r) (hidx : s.dev.usRxIdx < s.dev.usRxListSize)
    (htmp : s.usTmpIdx < s.dev.usRxListSize) : r.dev.usRxIdx = s.usTmpIdx := by
  unfold gatherBuffer at h
  dsimp only at h
  split at h
  · obtain rfl := Turn.leave.inj h
    have hnext : s.dev.releaseNext.usRxIdx < s.dev.releaseNext.usRxListSize := by
      rw [show s.dev.releaseNext.usRxIdx = (s.dev.usRxIdx + 1) % s.dev.usRxListSize from circInc_eq hidx]
      exact Nat.mod_lt _ (Nat.zero_lt_of_lt hidx)
    exact releaseUntil_idx_eq hnext htmp _
  · split at h
    · obtain rfl := Turn.leave.inj h
      exact releaseUntil_idx_eq hidx htmp _
    · cases h

theorem gatherBuffer_again (h : gatherBuffer cap s = .again s') : s'.usTmpIdx = s.usTmpIdx := by
  unfold gatherBuffer at h
  dsimp only at h
  split at h
  · cases h
  · split at h
    · cases h
    · obtain rfl := Turn.again.inj h
      rfl

theorem Reading.next (h : Reading pFrame cap s (b :: bufs) held acc) :
    (∃ s' held' acc', readTurn pFrame cap s = .again s' ∧ s'.usTmpIdx = circInc s.usTmpIdx s.dev.usRxListSize ∧
      Reading pFrame cap s' bufs held' acc' ∧ s'.dev.usRxListSize = s.dev.usRxListSize ∧
      readList s.dev.usRxListSize cap (b :: bufs) held acc = readList s.dev.usRxListSize cap bufs held' acc') ∨
    ∃ r, readTurn pFrame cap s = .leave r ∧ r.dev.usRxIdx = circInc s.usTmpIdx s.dev.usRxListSize ∧
      (readList s.dev.usRxListSize cap (b :: bufs) held acc).rest = bufs := by
  by_cases hin : b.sof = true ∨ held ≠ []
  · obtain ⟨s₁, hs₁, hg, hsame⟩ := h.gathering hin
    have htmp : s₁.usTmpIdx = s.usTmpIdx := by
      rw [← hs₁]
      split
      · rfl
      · rfl
    have hturn := h.turn
    rw [hs₁, ← hsame.size] at hturn
    dsimp only at hturn
    rw [if_pos hg.isFrame] at hturn
    have hread : readList s.dev.usRxListSize cap (b :: bufs) held acc =
        if (b.hold held).length = s.dev.usRxListSize then ⟨.rxError, [], []⟩
        else if (b.source held).eof then
          ⟨if (b.gather cap held acc).length < (b.source held).len then .sizeTooSmall else .ok,
            (b.gather cap held acc).take (b.source held).len, bufs⟩
        else readList s.dev.usRxListSize cap bufs (b.hold held) (b.gather cap held acc) := by
      rw [readList, if_neg]
      rcases hin with hsof | hheld <;> simp [*]
    have hlen := hg.shows_bufs.length_le
    rw [List.length_append] at hlen
    have hnext : circInc s₁.usTmpIdx s₁.dev.usRxListSize < s₁.dev.usRxListSize := by
      rw [hg.next]
      exact Nat.mod_lt _ (Nat.zero_lt_of_lt hg.shows_bufs.idx_lt)
    rw [hread]
    by_cases hfull : (b.hold held).length = s.dev.usRxListSize
    · obtain ⟨r, hleave, -⟩ := hg.full (hfull.trans hsame.size.symm)
      refine Or.inr ⟨r, hturn.trans hleave, ?_, ?_⟩
      · rw [gatherBuffer_leave hleave hg.shows_bufs.idx_lt hnext, htmp, hsame.size]
      · rw [if_pos hfull]
        have hsize := hsame.size
        exact (List.eq_nil_of_length_eq_zero (by omega)).symm
    have hlt : (b.hold held).length < s₁.dev.usRxListSize := by
      have hsize := hsame.size
      omega
    rw [if_neg hfull]
    cases heof : (b.source held).eof with
    | true =>
        obtain ⟨r, hleave, -⟩ := hg.finished hlt heof
        refine Or.inr ⟨r, hturn.trans hleave, ?_, rfl⟩
        rw [gatherBuffer_leave hleave hg.shows_bufs.idx_lt hnext, htmp, hsame.size]
    | false =>
        obtain ⟨s₂, hagain, hreading, hsame'⟩ := hg.goesOn hlt heof
        refine Or.inl ⟨s₂, _, _, hturn.trans hagain, ?_, hreading, (hsame.trans hsame').size, rfl⟩
        rw [gatherBuffer_again hagain, htmp, hsame.size]
  · obtain ⟨hsof, rfl⟩ : b.sof = false ∧ held = [] := by simpa using hin
    obtain ⟨hreading, hsame⟩ := h.skipped
    have hframe : ¬ s.cIsFrame = true := by simp [h.isFrame]
    have hturn := h.turn
    simp only [hsof, Bool.false_eq_true, if_false] at hturn
    rw [if_neg hframe] at hturn
    refine Or.inl ⟨_, [], [], hturn, rfl, hreading, hsame.size, ?_⟩
    rw [readList, if_pos (by simp [hsof])]

/-- **Where a read ends**: with the buffers that it leaves up to where those it found ended. -/
theorem idx_of_reading : ∀ (bufs : List Buf) {s : ReadState} {held : List Buf} {acc : List UInt8} {fuel : Nat},
    Reading pFrame cap s bufs held acc → s.dev.usRxListSize = n → Loop.run (readTurn pFrame cap) fuel s = some r →
      (r.dev.usRxIdx + (readList n cap bufs held acc).rest.length) % n = (s.usTmpIdx + bufs.length) % n
  | _, _, _, _, 0, _, _, hrun => by cases hrun
  | [], s, held, acc, fuel + 1, h, hn, hrun => by
      have hturn : readTurn pFrame cap s = .leave ⟨.rxNoData, 0, s.dev, s.frame⟩ := by
        simp only [readTurn, h.exhausted, Bool.not_false, if_true]
      rw [Loop.run_leave hturn] at hrun
      obtain rfl := Option.some.inj hrun
      change (s.dev.usRxIdx + held.length) % n = (s.usTmpIdx + 0) % n
      rw [h.tmpIdx, hn, Nat.add_zero, Nat.mod_mod]
  | b :: bufs, s, held, acc, fuel + 1, h, hn, hrun => by
      have htmp : circInc s.usTmpIdx s.dev.usRxListSize = (s.usTmpIdx + 1) % n := by
        rw [← hn]
        apply circInc_eq
        rw [h.tmpIdx]
        exact Nat.mod_lt _ (Nat.zero_lt_of_lt h.shows_bufs.idx_lt)
      rw [List.length_cons, ← Ring.index_succ]
      rcases h.next with ⟨s', held', acc', hagain, htmp', hreading, hsize, hread⟩ | ⟨r', hleave, hidx, hrest⟩
      · rw [Loop.run_again hagain] at hrun
        rw [← hn, hread, hn, idx_of_reading bufs hreading (hsize.trans hn) hrun, htmp', htmp]
      · rw [Loop.run_leave hleave] at hrun
        obtain rfl := Option.some.inj hrun
        rw [← hn, hrest, hn, hidx, htmp]

theorem gmacDevRead_idx {frame : Memory} (h : dev.Shows bufs) (hread : gmacDevRead dev frame pFrame cap = some r) :
    (r.dev.usRxIdx + (readList dev.usRxListSize cap bufs [] []).rest.length) % dev.usRxListSize =
      (dev.usRxIdx + bufs.length) % dev.usRxListSize := by
  refine idx_of_reading bufs ⟨h, ?_, ?_, rfl, rfl, ?_, ?_, ?_, Nat.zero_le _⟩ rfl hread
  · exact Nat.zero_lt_of_lt h.idx_lt
  · exact (Nat.mod_eq_of_lt h.idx_lt).symm
  · exact absurd rfl
  · exact absurd rfl
  · exact absurd rfl

end Ends

end ContikiAtsam
