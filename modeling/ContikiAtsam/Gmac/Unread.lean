import ContikiAtsam.Gmac.RxFrames

/-!
# What a read leaves behind

A read of the receive ring that returns no frame: because there is none, because one fills the whole ring, or because one is too long for the caller. What it leaves in the ring has no complete frame in it, unless one lay behind a frame that was cut off or too long: a cut-off frame makes the reader miss the end of the next one, and a frame that is too long ends the read with all that follows it still there.
-/

namespace ContikiAtsam

variable {n cap p len : Nat} {bufs held : List Buf} {acc : List UInt8}

/-! ### In a list of buffers -/

/-- A complete frame from place `p` of the list on: its first and its last buffer are marked, and no other. -/
def FrameIn (bufs : List Buf) (p len : Nat) : Prop :=
  ∀ k ≤ len, ∃ b, bufs[p + k]? = some b ∧ b.sof = decide (k = 0) ∧ b.eof = decide (k = len)

/-- Every frame that starts ahead of place `p` is complete there, and the reader has room for it. -/
def ClearIn (cap : Nat) (bufs : List Buf) (p : Nat) : Prop :=
  ∀ q < p, ∀ b, bufs[q]? = some b → b.sof = true → ∃ len < p - q, FrameIn bufs q len ∧
    ∀ last, bufs[q + len]? = some last → last.len ≤ min (gmacRxUnitsize * (len + 1)) cap

theorem FrameIn.cons_iff {b : Buf} : FrameIn (b :: bufs) (p + 1) len ↔ FrameIn bufs p len := by
  refine forall_congr' fun k => imp_congr_right fun _ => ?_
  rw [show p + 1 + k = p + k + 1 by omega, List.getElem?_cons_succ]

theorem ClearIn.tail {b : Buf} (h : ClearIn cap (b :: bufs) (p + 1)) : ClearIn cap bufs p := by
  intro q hq b' hb' hsof
  obtain ⟨len, hlen, hframe, hfits⟩ := h (q + 1) (by omega) b' (by rwa [List.getElem?_cons_succ]) hsof
  refine ⟨len, by omega, FrameIn.cons_iff.mp hframe, fun last hlast => hfits last ?_⟩
  rw [show q + 1 + len = q + len + 1 by omega, List.getElem?_cons_succ]
  exact hlast

theorem source_of_inside {b : Buf} (hsof : b.sof = held.isEmpty) : b.source held = b := by
  rw [Buf.source, hsof]
  cases held with
  | nil => rfl
  | cons _ _ => rfl

theorem hold_of_inside {b : Buf} (hsof : b.sof = held.isEmpty) : b.hold held = held ++ [b] := by
  rw [Buf.hold, hsof]
  cases held with
  | nil => rfl
  | cons _ _ => rfl

theorem length_gather_of_inside {b : Buf} (hsof : b.sof = held.isEmpty) (hbytes : b.bytes.length = gmacRxUnitsize)
    (hacc : acc.length = min (gmacRxUnitsize * held.length) cap) :
    (b.gather cap held acc).length = min (gmacRxUnitsize * (held.length + 1)) cap := by
  have hstart : (if b.sof then [] else acc) = acc := by
    cases held with
    | nil =>
        rw [List.length_nil, Nat.mul_zero, Nat.zero_min] at hacc
        rw [List.eq_nil_of_length_eq_zero hacc, ite_self]
    | cons _ _ => rw [hsof, if_neg (by simp)]
  rw [Buf.gather, hstart, source_of_inside hsof]
  rw [gmacRxUnitsize] at *
  rw [List.length_append, List.length_take, hbytes, hacc]
  omega

/-- The rest of a frame, of which so many buffers are held: the read takes them, and if the frame fits it returns it. -/
theorem readList_inside : ∀ {len : Nat} {bufs held : List Buf} {acc : List UInt8},
    acc.length = min (gmacRxUnitsize * held.length) cap → (∀ b ∈ bufs, b.bytes.length = gmacRxUnitsize) →
    (∀ k ≤ len, ∃ b, bufs[k]? = some b ∧ b.sof = (held.isEmpty && decide (k = 0)) ∧ b.eof = decide (k = len)) →
    (readList n cap bufs held acc).rest.length + len < bufs.length ∧
      (held.length + len + 1 < n →
        (∀ last, bufs[len]? = some last → last.len ≤ min (gmacRxUnitsize * (held.length + len + 1)) cap) →
        (readList n cap bufs held acc).status = .ok)
  | len, [], held, acc, _, _, hparts => by
      obtain ⟨b, hb, _⟩ := hparts 0 (Nat.zero_le _)
      cases hb
  | len, b :: bufs, held, acc, hacc, hbytes, hparts => by
      obtain ⟨b', hb', hsof, heof⟩ := hparts 0 (Nat.zero_le _)
      obtain rfl := Option.some.inj hb'
      rw [decide_eq_true rfl, Bool.and_true] at hsof
      have hgather := length_gather_of_inside hsof (hbytes b List.mem_cons_self) hacc
      have hnot : ¬ (!b.sof && held.isEmpty) = true := by
        rw [hsof]
        cases held.isEmpty <;> simp
      rw [readList, if_neg hnot, source_of_inside hsof, hold_of_inside hsof, List.length_append, List.length_singleton]
      by_cases hfull : held.length + 1 = n
      · rw [if_pos hfull]
        obtain ⟨last, hlast, _⟩ := hparts len (Nat.le_refl _)
        have hlen := (List.getElem?_eq_some_iff.mp hlast).1
        exact ⟨by simpa using hlen, fun hroom => by omega⟩
      · rw [if_neg hfull]
        cases len with
        | zero =>
            rw [heof, decide_eq_true rfl, if_pos rfl]
            refine ⟨Nat.lt_succ_self _, fun _ hfits => if_neg (Nat.not_lt.mpr ?_)⟩
            rw [hgather]
            exact hfits b rfl
        | succ len =>
            have hmore : ¬ b.eof = true := by
              rw [heof]
              simp
            rw [if_neg hmore]
            have hnext : ∀ k ≤ len, ∃ b', bufs[k]? = some b' ∧ b'.sof = ((held ++ [b]).isEmpty && decide (k = 0)) ∧
                b'.eof = decide (k = len) := by
              intro k hk
              obtain ⟨b', hb', hsof', heof'⟩ := hparts (k + 1) (by omega)
              refine ⟨b', hb', ?_, ?_⟩
              · rw [hsof']
                simp
              · rw [heof']
                exact decide_eq_decide.mpr (by omega)
            have hgathered : (b.gather cap held acc).length = min (gmacRxUnitsize * (held ++ [b]).length) cap := by
              rw [hgather, List.length_append, List.length_singleton]
            obtain ⟨hrest, hok⟩ := readList_inside hgathered (fun b' hb' => hbytes b' (List.mem_cons_of_mem b hb')) hnext
            rw [List.length_append, List.length_singleton] at hok
            refine ⟨by rw [List.length_cons]; omega, fun hroom hfits => hok (by omega) fun last hlast => ?_⟩
            have hfit := hfits last hlast
            rwa [show held.length + 1 + len + 1 = held.length + (len + 1) + 1 by omega]

/-- **A read that returns no frame** has taken the first buffer of every complete frame that no other frame stands in front of. -/
theorem readList_leaves (hlen : bufs.length ≤ n) (hbytes : ∀ b ∈ bufs, b.bytes.length = gmacRxUnitsize)
    (hframe : FrameIn bufs p len) (hclear : ClearIn cap bufs p) (hstatus : (readList n cap bufs [] []).status ≠ .ok) :
    (readList n cap bufs [] []).rest.length + p < bufs.length := by
  induction bufs generalizing p with
  | nil =>
      obtain ⟨b, hb, _⟩ := hframe 0 (Nat.zero_le _)
      cases hb
  | cons b bufs ih =>
      have hfirst : ∀ {m : Nat}, FrameIn (b :: bufs) 0 m → ∀ k ≤ m, ∃ b', (b :: bufs)[k]? = some b' ∧
          b'.sof = (([] : List Buf).isEmpty && decide (k = 0)) ∧ b'.eof = decide (k = m) := by
        intro m h k hk
        obtain ⟨b', hb', hmarks⟩ := h k hk
        rw [Nat.zero_add] at hb'
        exact ⟨b', hb', hmarks⟩
      have hnil : ([] : List UInt8).length = min (gmacRxUnitsize * ([] : List Buf).length) cap := by
        rw [List.length_nil, List.length_nil, Nat.mul_zero, Nat.zero_min]
      cases p with
      | zero =>
          have htaken := (readList_inside (n := n) hnil hbytes (hfirst hframe)).1
          omega
      | succ p =>
          by_cases hsof : b.sof = true
          · -- The frame that starts here is complete and fits, so it would have been returned.
            obtain ⟨m, hm, hfront, hfits⟩ := hclear 0 (Nat.succ_pos _) b rfl hsof
            obtain ⟨_, hok⟩ := readList_inside (n := n) hnil hbytes (hfirst hfront)
            obtain ⟨last, hlast, _⟩ := hframe 0 (Nat.zero_le _)
            have hp := (List.getElem?_eq_some_iff.mp hlast).1
            rw [List.length_nil, Nat.zero_add] at hok
            refine absurd (hok (by omega) fun last hlast => ?_) hstatus
            exact hfits last (by rwa [Nat.zero_add])
          · have hskip : readList n cap (b :: bufs) [] [] = readList n cap bufs [] [] := by
              rw [readList, if_pos (by simp [hsof])]
            rw [List.length_cons] at hlen ⊢
            rw [hskip] at hstatus ⊢
            have hrest := ih (by omega) (fun b' hb' => hbytes b' (List.mem_cons_of_mem b hb')) (FrameIn.cons_iff.mp hframe)
              hclear.tail hstatus
            omega

/-- A read leaves no more than it found, and returns no frame from a ring that it leaves full. -/
theorem length_rest_le (hheld : held.length < n) (hlen : held.length + bufs.length ≤ n) :
    (readList n cap bufs held acc).rest.length ≤ held.length + bufs.length ∧
      (readList n cap bufs held acc).rest.length < n := by
  induction bufs generalizing held acc with
  | nil => exact ⟨Nat.le_refl _, hheld⟩
  | cons b bufs ih =>
      rw [List.length_cons] at hlen ⊢
      have hhold : (b.hold held).length ≤ held.length + 1 := by
        rw [Buf.hold]
        split
        · simp
        · simp
      rw [readList]
      split
      · obtain ⟨hle, hlt⟩ := @ih [] [] (Nat.zero_lt_of_lt hheld) (by rw [List.length_nil]; omega)
        rw [List.length_nil] at hle
        exact ⟨by omega, hlt⟩
      · split
        · exact ⟨Nat.zero_le _, Nat.zero_lt_of_lt hheld⟩
        · split
          · exact ⟨by dsimp only; omega, by dsimp only; omega⟩
          · obtain ⟨hle, hlt⟩ := @ih (b.hold held) (b.gather cap held acc) (by omega) (by omega)
            exact ⟨by omega, hlt⟩

/-! ### In the ring -/

/-- The `k`-th buffer of a frame whose last buffer is the `len`-th. -/
def RxDescriptor.Part (td : RxDescriptor) (k len : Nat) : Prop :=
  td.owned = true ∧ td.sof = decide (k = 0) ∧ td.eof = decide (k = len)

namespace RxRing

variable {dev : RxRing}

/-- A complete frame in the buffers of descriptors `i` to `i + len`, all owned by the software. -/
def Frame (dev : RxRing) (i len : Nat) : Prop :=
  ∀ k ≤ len, (dev.pRxDscr ((i + k) % dev.usRxListSize)).Part k len

/-- A complete frame `p` places after the first descriptor not given back. -/
def FrameAt (dev : RxRing) (p len : Nat) : Prop := ∀ k ≤ len, (dev.nth (p + k)).Part k len

/-- Every frame that starts ahead of place `p` is complete there and no longer than its buffers and the caller's: none is cut off, and none too long. -/
def ClearTo (cap : Nat) (dev : RxRing) (p : Nat) : Prop :=
  ∀ q < p, (dev.nth q).sof = true → ∃ len < p - q, dev.FrameAt q len ∧
    (dev.nth (q + len)).len ≤ min (gmacRxUnitsize * (len + 1)) cap

theorem Shows.getElem? (h : Shows dev bufs) {i : Nat} (hi : i < bufs.length) :
    bufs[i]? = some ((dev.nth i).buf dev.ram) := by
  rw [List.getElem?_eq_getElem hi, (h.shown i hi).2]

theorem Shows.length_bytes (h : Shows dev bufs) : ∀ b ∈ bufs, b.bytes.length = gmacRxUnitsize := by
  intro b hb
  obtain ⟨i, hi, rfl⟩ := List.getElem_of_mem hb
  rw [← (h.shown i hi).2]
  exact Memory.load_length ..

theorem Shows.frameIn (h : Shows dev bufs) (hframe : dev.FrameAt p len) (hlen : p + len < bufs.length) :
    FrameIn bufs p len := fun k hk => ⟨_, h.getElem? (by omega), (hframe k hk).2.1, (hframe k hk).2.2⟩

theorem Shows.clearIn (h : Shows dev bufs) (hclear : dev.ClearTo cap p) (hp : p < bufs.length) : ClearIn cap bufs p := by
  intro q hq b hb hsof
  obtain rfl := Option.some.inj (hb.symm.trans (h.getElem? (by omega)))
  obtain ⟨len, hlen, hframe, hfits⟩ := hclear q hq hsof
  refine ⟨len, hlen, h.frameIn hframe (by omega), fun last hlast => ?_⟩
  obtain rfl := Option.some.inj (hlast.symm.trans (h.getElem? (by omega)))
  exact hfits

theorem shows_of_owned {m : Nat} (htwo : 2 ≤ dev.usRxListSize) (hidx : dev.usRxIdx < dev.usRxListSize)
    (hm : m ≤ dev.usRxListSize) (howned : ∀ i < dev.usRxListSize, (dev.nth i).owned = decide (i < m)) :
    ∃ bufs, bufs.length = m ∧ dev.Shows bufs := by
  refine ⟨(List.range m).map fun i => (dev.nth i).buf dev.ram, ?_, htwo, hidx, ?_, ?_, ?_⟩
  · rw [List.length_map, List.length_range]
  · rwa [List.length_map, List.length_range]
  · intro i hi
    rw [List.length_map, List.length_range] at hi
    rw [List.getElem_map, List.getElem_range, howned i (Nat.lt_of_lt_of_le hi hm), decide_eq_true hi]
    exact ⟨rfl, rfl⟩
  · intro i hi hlt
    rw [List.length_map, List.length_range] at hi
    rw [howned i hlt, decide_eq_false (Nat.not_lt.mpr hi)]

theorem Shows.owned_eq (h : Shows dev bufs) {i : Nat} (hi : i < dev.usRxListSize) :
    (dev.nth i).owned = decide (i < bufs.length) := by
  by_cases hlt : i < bufs.length
  · rw [(h.shown i hlt).1, decide_eq_true hlt]
  · rw [h.rest i (Nat.le_of_not_lt hlt) hi, decide_eq_false hlt]

theorem Shows.frame_inside (h : Shows dev bufs) (hroom : bufs.length < dev.usRxListSize) {a : Nat}
    (ha : a < dev.usRxListSize) (hframe : dev.FrameAt a len) : a + len < bufs.length := by
  have hinside : ∀ k ≤ len, a + k < bufs.length := by
    intro k hk
    induction k with
    | zero =>
        by_contra hout
        have hfree := h.rest (a + 0) (Nat.le_of_not_lt hout) ha
        rw [(hframe 0 hk).1] at hfree
        cases hfree
    | succ k ih =>
        have hbefore := ih (by omega)
        by_contra hout
        have hfree := h.rest (a + (k + 1)) (Nat.le_of_not_lt hout) (by omega)
        rw [(hframe (k + 1) hk).1] at hfree
        cases hfree
  exact hinside len (Nat.le_refl _)

end RxRing

theorem gmacDevRead_rest {dev : RxRing} (h : dev.Shows bufs) {frame : Memory} {pFrame : Nat} {r : ReadResult}
    (hread : gmacDevRead dev frame pFrame cap = some r) :
    ∃ rest, rest = (readList dev.usRxListSize cap bufs [] []).rest ∧ r.dev.Shows rest ∧ r.dev.usRxListSize = dev.usRxListSize ∧
      rest.length ≤ bufs.length ∧ rest.length < dev.usRxListSize ∧
      r.dev.usRxIdx = (dev.usRxIdx + (bufs.length - rest.length)) % dev.usRxListSize := by
  obtain ⟨r', hread', hreads⟩ := gmacDevRead_spec h frame pFrame cap
  obtain rfl := Option.some.inj (hread'.symm.trans hread)
  have hlen : ([] : List Buf).length + bufs.length ≤ dev.usRxListSize := by
    rw [List.length_nil, Nat.zero_add]
    exact h.length_le
  have hidx := gmacDevRead_idx h hread
  obtain ⟨hle, hlt⟩ : (readList dev.usRxListSize cap bufs [] []).rest.length ≤ ([] : List Buf).length + bufs.length ∧
      (readList dev.usRxListSize cap bufs [] []).rest.length < dev.usRxListSize :=
    length_rest_le (Nat.zero_lt_of_lt h.idx_lt) hlen
  generalize hrest : (readList dev.usRxListSize cap bufs [] []).rest = rest at *
  rw [List.length_nil, Nat.zero_add] at hle
  refine ⟨rest, rfl, hrest ▸ hreads.shows_rest, hreads.same.size, hle, hlt, ?_⟩
  have hlast := hreads.shows_rest.idx_lt
  rw [hreads.same.size] at hlast
  have hmod : r'.dev.usRxIdx ≡ dev.usRxIdx + (bufs.length - rest.length) [MOD dev.usRxListSize] := by
    apply Nat.ModEq.add_right_cancel' rest.length
    rw [Nat.ModEq, hidx]
    congr 1
    omega
  rwa [Nat.ModEq, Nat.mod_eq_of_lt hlast] at hmod

/-- **What is left when no frame is returned.** A complete frame that is in the ring after the read was there before, behind one that was cut off or too long. -/
theorem gmacDevRead_leaves {dev : RxRing} (h : dev.Shows bufs) {frame : Memory} {pFrame : Nat} {r : ReadResult}
    (hread : gmacDevRead dev frame pFrame cap = some r) (hstatus : r.status ≠ .ok) {i : Nat} (hi : i < dev.usRxListSize)
    (hframe : r.dev.Frame i len) :
    ∃ p, p + len < dev.usRxListSize ∧ dev.FrameAt p len ∧ ¬ dev.ClearTo cap p ∧
      ∀ k, (dev.usRxIdx + (p + k)) % dev.usRxListSize = (i + k) % dev.usRxListSize := by
  obtain ⟨r', hread', hreads⟩ := gmacDevRead_spec h frame pFrame cap
  obtain rfl := Option.some.inj (hread'.symm.trans hread)
  obtain ⟨rest, hrest, hshows, hsize, hle, hlt, hidx⟩ := gmacDevRead_rest h hread
  have hpos : 0 < dev.usRxListSize := Nat.zero_lt_of_lt hi
  -- The frame is `a` places after the first buffer left, and so many more after the first one found.
  obtain ⟨a, ha, hplace⟩ : ∃ a < dev.usRxListSize, (r'.dev.usRxIdx + a) % dev.usRxListSize = i := by
    refine ⟨(i + dev.usRxListSize - r'.dev.usRxIdx) % dev.usRxListSize, Nat.mod_lt _ hpos, ?_⟩
    have hidx_lt : r'.dev.usRxIdx < dev.usRxListSize := hidx ▸ Nat.mod_lt _ hpos
    rw [Nat.add_mod_mod, show r'.dev.usRxIdx + (i + dev.usRxListSize - r'.dev.usRxIdx) = i + dev.usRxListSize by omega,
      Nat.add_mod_right, Nat.mod_eq_of_lt hi]
  have hleft : r'.dev.FrameAt a len := by
    intro k hk
    have hpart := hframe k hk
    rwa [← hplace, hsize, Nat.mod_add_mod, Nat.add_assoc, ← hsize] at hpart
  have hinside := hshows.frame_inside (hsize ▸ hlt) (hsize ▸ ha) hleft
  have hfound : ∀ k, (dev.usRxIdx + (bufs.length - rest.length + a + k)) % dev.usRxListSize = (i + k) % dev.usRxListSize := by
    intro k
    rw [← hplace, hidx, Nat.mod_add_mod, Nat.add_assoc (_ % _) a k, Nat.mod_add_mod]
    congr 1
    omega
  have hbefore : dev.FrameAt (bufs.length - rest.length + a) len := by
    intro k hk
    have howned := (h.shown (bufs.length - rest.length + a + k) (by omega)).1
    obtain ⟨_, hsof, heof⟩ := hframe k hk
    rw [RxRing.nth, hfound k] at howned ⊢
    rw [hsize] at hsof heof
    have hbuf := hreads.same.buf ((i + k) % dev.usRxListSize)
    exact ⟨howned, (congrArg Buf.sof hbuf).symm.trans hsof, (congrArg Buf.eof hbuf).symm.trans heof⟩
  have hlen := h.length_le
  refine ⟨bufs.length - rest.length + a, by omega, hbefore, fun hclear => ?_, hfound⟩
  have htaken := readList_leaves hlen h.length_bytes (h.frameIn hbefore (by omega)) (h.clearIn hclear (by omega))
    (hreads.status ▸ hstatus)
  rw [← hrest] at htaken
  omega

end ContikiAtsam
