import ContikiAtsam.Driver.Receive

/-!
# What lies in the receive ring

The buffers that the software owns are a sequence of segments: stray fragments without a start of frame, frames cut off by the next start of frame, and complete frames. `receiveSegs` tells what the receive loop does with such a sequence, segment by segment. It goes wrong after a frame that was cut off, because the first buffer of the next frame is then taken from the last buffer of the cut one; `Readable` is the exact condition under which nothing is lost or garbled by that.
-/

namespace ContikiAtsam.Receive

inductive Segment where
  | stray (b : Buf)
  | cut (first : Buf) (rest : List Buf)
  | complete (first : Buf) (rest : List Buf)

namespace Segment

def bufs : Segment → List Buf
  | .stray b => [b]
  | .cut first rest => first :: rest
  | .complete first rest => first :: rest

/-- It begins with a start of frame. -/
def starts : Segment → Bool
  | .stray _ => false
  | _ => true

def isCut : Segment → Bool
  | .cut _ _ => true
  | _ => false

/-- What the marks of a segment's descriptors are, in a ring of `n` descriptors. The length of a complete frame matches the number of its buffers. -/
def WellFormed (n : Nat) : Segment → Prop
  | .stray b => b.sof = false
  | .cut first rest =>
      first.sof = true ∧ (∀ b ∈ rest, b.sof = false) ∧ (∀ b ∈ first :: rest, b.eof = false) ∧
        rest.length + 1 < n
  | .complete first rest =>
      first.sof = true ∧ (∀ b ∈ rest, b.sof = false) ∧ (∀ b ∈ (first :: rest).dropLast, b.eof = false) ∧
        (rest.getLastD first).eof = true ∧ gmacRxUnitsize * rest.length < (rest.getLastD first).len ∧
        (rest.getLastD first).len ≤ gmacRxUnitsize * (rest.length + 1) ∧
        (rest.getLastD first).len ≤ ethernetMaxFrameLen ∧ rest.length + 1 < n

end Segment

/-- The bytes of a frame, its first buffer read from `src`. -/
def frameFrom (src first : Buf) (rest : List Buf) : List UInt8 :=
  (src.bytes ++ rest.flatMap Buf.bytes).take (rest.getLastD first).len

/-- The complete frames, in order. -/
def frames (segs : List Segment) : List (List UInt8) :=
  segs.filterMap fun
    | .complete first rest => some (frameFrom first first rest)
    | _ => none

/-- A frame that is cut off is followed by a start of frame; the flag says whether the segment before was one. -/
def Follows : Bool → List Segment → Prop
  | wasCut, [] => wasCut = false
  | wasCut, seg :: segs => (wasCut = true → seg.starts = true) ∧ Follows seg.isCut segs

theorem Follows.weaken {wasCut : Bool} {segs : List Segment} (h : Follows wasCut segs) : Follows false segs := by
  cases segs with
  | nil => rfl
  | cons seg segs => exact ⟨fun hf => absurd hf (by decide), h.2⟩

/-- Where the loop stands between two segments: outside any frame; behind a frame that was cut off, with its last buffer; behind a frame of one buffer whose end it did not see, because it read `last` in its place; or still gathering strays behind such a frame. -/
inductive Mode where
  | clean
  | afterCut (last : Buf)
  | missed (last frame : Buf)
  | gathering (bytes : List UInt8) (last frame : Buf)

/-- The frame that the loop has passed without handing it on. -/
def Mode.pending : Mode → List (List UInt8)
  | .clean => []
  | .afterCut _ => []
  | .missed _ frame => [frame.bytes.take frame.len]
  | .gathering _ _ frame => [frame.bytes.take frame.len]

/-- A stray read as if it belonged to the missed frame. -/
def strayStep (bytes : List UInt8) (b frame : Buf) : List (List UInt8) × Option Mode :=
  if b.eof then
    if b.len ≤ ethernetMaxFrameLen ∧ b.len ≤ bytes.length then ([bytes.take b.len], some .clean) else ([], none)
  else ([], some (.gathering bytes b frame))

/-- A start of frame behind the buffer `last`, which has no end of frame. -/
def startStep (last : Buf) : Segment → List (List UInt8) × Option Mode
  | .stray _ => ([], some .clean)
  | .cut first rest => ([], some (.afterCut (rest.getLastD first)))
  | .complete first rest =>
      if rest = [] then ([], some (.missed last first)) else ([frameFrom last first rest], some .clean)

/-- The packets handed on while the loop passes a segment, and where it stands then; `none` when it has left. -/
def segStep : Mode → Segment → List (List UInt8) × Option Mode
  | .clean, .stray _ => ([], some .clean)
  | .clean, .cut first rest => ([], some (.afterCut (rest.getLastD first)))
  | .clean, .complete first rest => ([frameFrom first first rest], some .clean)
  | .afterCut last, seg => startStep last seg
  | .missed last frame, .stray b => strayStep (last.bytes ++ b.bytes) b frame
  | .missed _ frame, _ => ([frame.bytes.take frame.len], some .clean)
  | .gathering bytes _ frame, .stray b => strayStep (bytes ++ b.bytes) b frame
  | .gathering _ last _, seg => startStep last seg

def receiveSegs : Mode → List Segment → List (List UInt8) × Option Mode
  | mode, [] => ([], some mode)
  | mode, seg :: segs =>
    match (segStep mode seg).2 with
    | none => ((segStep mode seg).1, none)
    | some mode' => ((segStep mode seg).1 ++ (receiveSegs mode' segs).1, (receiveSegs mode' segs).2)

/-- **The condition on the ring.** Behind frames that were cut off there may come a frame of two or more buffers whose first buffer has the bytes of the last one cut off; or a frame of one buffer, followed by another cut frame, or by strays up to one with an end of frame, the frame's own length and, in front of them, the frame's own bytes. -/
def Readable : Mode → List Segment → Prop
  | .clean, [] => True
  | _, [] => False
  | .clean, .stray _ :: segs => Readable .clean segs
  | .clean, .cut first rest :: segs => Readable (.afterCut (rest.getLastD first)) segs
  | .clean, .complete _ _ :: segs => Readable .clean segs
  | .afterCut _, .stray _ :: _ => False
  | .afterCut _, .cut first rest :: segs => Readable (.afterCut (rest.getLastD first)) segs
  | .afterCut last, .complete first rest :: segs =>
      if rest = [] then Readable (.missed last first) segs
      else last.bytes = first.bytes ∧ Readable .clean segs
  | .missed last frame, .stray b :: segs =>
      if b.eof then b.len = frame.len ∧ (last.bytes ++ b.bytes).take frame.len = frame.bytes.take frame.len ∧
        Readable .clean segs
      else Readable (.gathering (last.bytes ++ b.bytes) b frame) segs
  | .missed _ _, .cut _ _ :: segs => Readable .clean segs
  | .missed _ _, .complete _ _ :: _ => False
  | .gathering bytes _ frame, .stray b :: segs =>
      if b.eof then b.len = frame.len ∧ (bytes ++ b.bytes).take frame.len = frame.bytes.take frame.len ∧
        Readable .clean segs
      else Readable (.gathering (bytes ++ b.bytes) b frame) segs
  | .gathering _ _ _, _ :: _ => False

theorem frames_cons (seg : Segment) (segs : List Segment) : frames (seg :: segs) = frames [seg] ++ frames segs := by
  rw [← List.singleton_append, frames, List.filterMap_append]
  rfl

@[simp] theorem frames_stray (b : Buf) : frames [.stray b] = [] := rfl
@[simp] theorem frames_cut (first : Buf) (rest : List Buf) : frames [.cut first rest] = [] := rfl
@[simp] theorem frames_complete (first : Buf) (rest : List Buf) :
    frames [.complete first rest] = [frameFrom first first rest] := rfl

/-! ### No packet out of nothing -/

/-- The frames missing when the loop stands there; one at least when it has left. -/
def owed : Option Mode → Nat
  | none => 1
  | some mode => mode.pending.length

private theorem strayStep_length (bytes : List UInt8) (b frame : Buf) :
    (strayStep bytes b frame).1.length + owed (strayStep bytes b frame).2 ≤ 1 := by
  unfold strayStep
  split_ifs <;> simp [owed, Mode.pending]

private theorem startStep_length (last : Buf) (seg : Segment) :
    (startStep last seg).1.length + owed (startStep last seg).2 ≤ (frames [seg]).length := by
  cases seg with
  | stray b => simp [startStep, owed, Mode.pending]
  | cut first rest => simp [startStep, owed, Mode.pending]
  | complete first rest =>
      rw [startStep]
      split <;> simp [owed, Mode.pending]

/-- A segment brings at most one packet for each frame that is complete in it or still pending. -/
theorem segStep_length (mode : Mode) (seg : Segment) :
    (segStep mode seg).1.length + owed (segStep mode seg).2 ≤ mode.pending.length + (frames [seg]).length := by
  cases mode with
  | clean => cases seg <;> simp [segStep, owed, Mode.pending]
  | afterCut last =>
      have := startStep_length last seg
      simpa [segStep, Mode.pending] using this
  | missed last frame =>
      cases seg with
      | stray b =>
          have := strayStep_length (last.bytes ++ b.bytes) b frame
          simpa [segStep, Mode.pending] using this
      | cut first rest => simp [segStep, owed, Mode.pending]
      | complete first rest => simp [segStep, owed, Mode.pending]
  | gathering bytes last frame =>
      cases seg with
      | stray b =>
          have := strayStep_length (bytes ++ b.bytes) b frame
          simpa [segStep, Mode.pending] using this
      | cut first rest =>
          have := startStep_length last (.cut first rest)
          simp only [segStep, Mode.pending] at this ⊢
          omega
      | complete first rest =>
          have := startStep_length last (.complete first rest)
          simp only [segStep, Mode.pending] at this ⊢
          omega

theorem length_receiveSegs_le (mode : Mode) (segs : List Segment) :
    (receiveSegs mode segs).1.length + owed (receiveSegs mode segs).2 ≤
      mode.pending.length + (frames segs).length := by
  induction segs generalizing mode with
  | nil => simp [receiveSegs, owed, frames]
  | cons seg segs ih =>
      have hstep := segStep_length mode seg
      rw [receiveSegs, frames_cons, List.length_append]
      cases hnext : (segStep mode seg).2 with
      | none =>
          rw [hnext] at hstep
          simp only
          omega
      | some mode' =>
          have := ih mode'
          rw [hnext, owed] at hstep
          simp only [List.length_append]
          omega

/-! ### The condition is exact -/

def Segment.Sized (seg : Segment) : Prop := ∀ b ∈ seg.bufs, b.bytes.length = gmacRxUnitsize

/-- What is known of the buffers a mode remembers. -/
def Mode.Sized : Mode → Prop
  | .clean => True
  | .afterCut last => last.bytes.length = gmacRxUnitsize
  | .missed last frame =>
      last.bytes.length = gmacRxUnitsize ∧ frame.bytes.length = gmacRxUnitsize ∧ frame.len ≤ gmacRxUnitsize
  | .gathering bytes last frame =>
      gmacRxUnitsize ≤ bytes.length ∧ last.bytes.length = gmacRxUnitsize ∧
        frame.bytes.length = gmacRxUnitsize ∧ frame.len ≤ gmacRxUnitsize

theorem getLastD_mem (first : Buf) (rest : List Buf) : rest.getLastD first ∈ first :: rest := by
  induction rest generalizing first with
  | nil => exact List.mem_singleton.mpr rfl
  | cons b rest ih =>
      rw [List.getLastD_cons]
      exact List.mem_cons_of_mem _ (ih b)

theorem frameFrom_single (b : Buf) : frameFrom b b [] = b.bytes.take b.len := by
  simp [frameFrom]

/-- A frame of two or more buffers is read right exactly when its first buffer is. -/
theorem frameFrom_inj {src first : Buf} {rest : List Buf} (hsrc : src.bytes.length = gmacRxUnitsize)
    (hfirst : first.bytes.length = gmacRxUnitsize) (hrest : rest ≠ [])
    (hlen : gmacRxUnitsize * rest.length < (rest.getLastD first).len) :
    frameFrom src first rest = frameFrom first first rest ↔ src.bytes = first.bytes := by
  have hpos := List.length_pos_iff.mpr hrest
  have hle : gmacRxUnitsize ≤ (rest.getLastD first).len := by
    have : gmacRxUnitsize * 1 ≤ gmacRxUnitsize * rest.length := Nat.mul_le_mul_left _ hpos
    omega
  constructor
  · intro h
    have htake := congrArg (List.take gmacRxUnitsize) h
    rw [frameFrom, frameFrom, List.take_take, List.take_take, Nat.min_eq_left hle, List.take_left' hsrc,
      List.take_left' hfirst] at htake
    exact htake
  · intro h
    rw [frameFrom, frameFrom, h]

theorem sized_getLastD {first : Buf} {rest : List Buf}
    (h : ∀ b ∈ first :: rest, b.bytes.length = gmacRxUnitsize) :
    (rest.getLastD first).bytes.length = gmacRxUnitsize :=
  h _ (getLastD_mem first rest)

private theorem cons_eq_cons_iff {x y : List UInt8} {xs ys : List (List UInt8)} :
    [x] ++ xs = [y] ++ ys ↔ x = y ∧ xs = ys := by simp

/-- A stray with an end of frame stands in for the missed frame exactly when it has its length and the bytes are right. -/
theorem take_eq_take_iff {bytes : List UInt8} {b frame : Buf} (hb : b.len ≤ bytes.length)
    (hframe : frame.bytes.length = gmacRxUnitsize) (hlen : frame.len ≤ gmacRxUnitsize) :
    bytes.take b.len = frame.bytes.take frame.len ↔
      b.len = frame.len ∧ bytes.take frame.len = frame.bytes.take frame.len := by
  constructor
  · intro h
    have hlength := congrArg List.length h
    rw [List.length_take, List.length_take, Nat.min_eq_left hb, Nat.min_eq_left (by omega)] at hlength
    exact ⟨hlength, hlength ▸ h⟩
  · rintro ⟨heq, h⟩
    rw [heq, h]

private theorem ne_of_length {mode : Mode} {segs : List Segment} {lost : List (List UInt8)}
    (h : mode.pending.length < lost.length) : (receiveSegs mode segs).1 ≠ lost ++ frames segs := by
  intro heq
  have hle := length_receiveSegs_le mode segs
  rw [heq, List.length_append] at hle
  omega

theorem receiveSegs_of_some {mode mode' : Mode} {seg : Segment} {segs : List Segment}
    {out : List (List UInt8)} (h : segStep mode seg = (out, some mode')) :
    receiveSegs mode (seg :: segs) = (out ++ (receiveSegs mode' segs).1, (receiveSegs mode' segs).2) := by
  rw [receiveSegs, h]

theorem receiveSegs_of_none {mode : Mode} {seg : Segment} {segs : List Segment}
    {out : List (List UInt8)} (h : segStep mode seg = (out, none)) :
    receiveSegs mode (seg :: segs) = (out, none) := by
  rw [receiveSegs, h]

/-- The claim of the induction: what is pending and the frames to come are handed on exactly when the ring is readable. -/
def Exact (mode : Mode) (segs : List Segment) : Prop :=
  (receiveSegs mode segs).1 = mode.pending ++ frames segs ↔ Readable mode segs

theorem exact_stray {bytes : List UInt8} {mode : Mode} {b frame : Buf} {segs : List Segment}
    (hstep : segStep mode (.stray b) = strayStep (bytes ++ b.bytes) b frame)
    (hpending : mode.pending = [frame.bytes.take frame.len])
    (hreadable : Readable mode (.stray b :: segs) ↔
      if b.eof then b.len = frame.len ∧ (bytes ++ b.bytes).take frame.len = frame.bytes.take frame.len ∧
        Readable .clean segs
      else Readable (.gathering (bytes ++ b.bytes) b frame) segs)
    (hbytes : gmacRxUnitsize ≤ bytes.length) (hframe : frame.bytes.length = gmacRxUnitsize)
    (hlen : frame.len ≤ gmacRxUnitsize) (hclean : Exact .clean segs)
    (hgather : Exact (.gathering (bytes ++ b.bytes) b frame) segs) : Exact mode (.stray b :: segs) := by
  have hunit : gmacRxUnitsize ≤ ethernetMaxFrameLen := by decide
  rw [Exact, hreadable, frames_cons, frames_stray, List.nil_append, hpending]
  by_cases heof : b.eof = true
  · by_cases hok : b.len ≤ ethernetMaxFrameLen ∧ b.len ≤ (bytes ++ b.bytes).length
    · have hstep' : segStep mode (.stray b) = ([(bytes ++ b.bytes).take b.len], some .clean) := by
        rw [hstep, strayStep, if_pos heof, if_pos hok]
      rw [receiveSegs_of_some hstep', cons_eq_cons_iff, take_eq_take_iff hok.2 hframe hlen, if_pos heof, and_assoc]
      exact and_congr_right fun _ => and_congr_right fun _ => hclean
    · have hstep' : segStep mode (.stray b) = ([], none) := by
        rw [hstep, strayStep, if_pos heof, if_neg hok]
      rw [receiveSegs_of_none hstep', if_pos heof]
      refine iff_of_false (by simp) ?_
      rintro ⟨heq, -, -⟩
      rw [List.length_append] at hok
      exact hok ⟨by omega, by omega⟩
  · have hstep' : segStep mode (.stray b) = ([], some (.gathering (bytes ++ b.bytes) b frame)) := by
      rw [hstep, strayStep, if_neg heof]
    rw [receiveSegs_of_some hstep', if_neg heof, List.nil_append]
    exact hgather

/-- The segment before the loop's position was a frame that was cut off. -/
def Mode.cutBefore : Mode → Bool
  | .afterCut _ => true
  | _ => false

theorem exact_nil {mode : Mode} (hfollows : Follows mode.cutBefore []) : Exact mode [] := by
  cases mode with
  | clean => simp [Exact, receiveSegs, frames, Mode.pending, Readable]
  | afterCut last => exact absurd hfollows (by simp [Follows, Mode.cutBefore])
  | missed last frame => simp [Exact, receiveSegs, frames, Mode.pending, Readable]
  | gathering bytes last frame => simp [Exact, receiveSegs, frames, Mode.pending, Readable]

theorem exact_clean {seg : Segment} {segs : List Segment} (hsized : seg.Sized)
    (hfollows : Follows seg.isCut segs)
    (ih : ∀ mode : Mode, mode.Sized → Follows mode.cutBefore segs → Exact mode segs) :
    Exact .clean (seg :: segs) := by
  cases seg with
  | stray b =>
      have hstep : segStep .clean (.stray b) = ([], some .clean) := rfl
      rw [Exact, receiveSegs_of_some hstep]
      exact ih .clean trivial hfollows
  | cut first rest =>
      have hstep : segStep .clean (.cut first rest) = ([], some (.afterCut (rest.getLastD first))) := rfl
      rw [Exact, receiveSegs_of_some hstep]
      exact ih (.afterCut _) (sized_getLastD hsized) hfollows
  | complete first rest =>
      have hstep : segStep .clean (.complete first rest) = ([frameFrom first first rest], some .clean) := rfl
      rw [Exact, receiveSegs_of_some hstep, frames_cons, frames_complete, Mode.pending, List.nil_append,
        cons_eq_cons_iff]
      exact (and_iff_right rfl).trans (ih .clean trivial hfollows)

theorem exact_afterCut {n : Nat} {last : Buf} {seg : Segment} {segs : List Segment}
    (hlast : last.bytes.length = gmacRxUnitsize) (hwf : seg.WellFormed n) (hsized : seg.Sized)
    (hstarts : seg.starts = true) (hfollows : Follows seg.isCut segs)
    (ih : ∀ mode : Mode, mode.Sized → Follows mode.cutBefore segs → Exact mode segs) :
    Exact (.afterCut last) (seg :: segs) := by
  cases seg with
  | stray b => exact absurd hstarts (by simp [Segment.starts])
  | cut first rest =>
      have hstep : segStep (.afterCut last) (.cut first rest) = ([], some (.afterCut (rest.getLastD first))) := rfl
      rw [Exact, receiveSegs_of_some hstep]
      exact ih (.afterCut _) (sized_getLastD hsized) hfollows
  | complete first rest =>
      obtain ⟨-, -, -, -, hlong, hshort, -, -⟩ := hwf
      have hfirst : first.bytes.length = gmacRxUnitsize := hsized first (List.mem_cons_self ..)
      by_cases hrest : rest = []
      · subst hrest
        have hstep : segStep (.afterCut last) (.complete first []) = ([], some (.missed last first)) := rfl
        rw [Exact, receiveSegs_of_some hstep, List.nil_append, frames_cons, frames_complete, frameFrom_single]
        exact ih (.missed last first) ⟨hlast, hfirst, hshort⟩ hfollows
      · have hstep : segStep (.afterCut last) (.complete first rest) =
            ([frameFrom last first rest], some .clean) := by
          simp only [segStep, startStep, hrest, if_false]
        have hreadable : Readable (.afterCut last) (.complete first rest :: segs) ↔
            last.bytes = first.bytes ∧ Readable .clean segs := by
          rw [Readable, if_neg hrest]
        rw [Exact, hreadable, receiveSegs_of_some hstep, frames_cons, frames_complete, Mode.pending,
          List.nil_append, cons_eq_cons_iff, frameFrom_inj hlast hfirst hrest hlong]
        exact and_congr_right fun _ => ih .clean trivial hfollows

theorem exact_missed {last frame : Buf} {seg : Segment} {segs : List Segment}
    (hmode : (Mode.missed last frame).Sized) (hsized : seg.Sized) (hfollows : Follows seg.isCut segs)
    (ih : ∀ mode : Mode, mode.Sized → Follows mode.cutBefore segs → Exact mode segs) :
    Exact (.missed last frame) (seg :: segs) := by
  obtain ⟨hlast, hframe, hlen⟩ := hmode
  cases seg with
  | stray b =>
      have hb : b.bytes.length = gmacRxUnitsize := hsized b (List.mem_singleton.mpr rfl)
      refine exact_stray rfl rfl (by rw [Readable]) (Nat.le_of_eq hlast.symm) hframe hlen
        (ih .clean trivial hfollows) (ih (.gathering _ b frame) ⟨?_, hb, hframe, hlen⟩ hfollows)
      rw [List.length_append]
      omega
  | cut first rest =>
      have hstep : segStep (.missed last frame) (.cut first rest) = ([frame.bytes.take frame.len], some .clean) := rfl
      rw [Exact, receiveSegs_of_some hstep, frames_cons, frames_cut, List.nil_append, Mode.pending,
        cons_eq_cons_iff]
      exact (and_iff_right rfl).trans (ih .clean trivial hfollows.weaken)
  | complete first rest =>
      have hstep : segStep (.missed last frame) (.complete first rest) =
        ([frame.bytes.take frame.len], some .clean) := rfl
      rw [Exact, receiveSegs_of_some hstep, frames_cons, frames_complete, Mode.pending, cons_eq_cons_iff]
      refine iff_of_false (fun h => ?_) (by simp [Readable])
      exact ne_of_length (by simp [Mode.pending]) h.2

theorem exact_gathering {bytes : List UInt8} {last frame : Buf} {seg : Segment} {segs : List Segment}
    (hmode : (Mode.gathering bytes last frame).Sized) (hsized : seg.Sized) (hfollows : Follows seg.isCut segs)
    (ih : ∀ mode : Mode, mode.Sized → Follows mode.cutBefore segs → Exact mode segs) :
    Exact (.gathering bytes last frame) (seg :: segs) := by
  obtain ⟨hbytes, hlast, hframe, hlen⟩ := hmode
  have hlost : ∀ seg' : Segment, seg'.starts = true → ¬ Readable (.gathering bytes last frame) (seg' :: segs) := by
    intro seg' hstarts
    cases seg' with
    | stray b => exact absurd hstarts (by simp [Segment.starts])
    | cut first rest => simp [Readable]
    | complete first rest => simp [Readable]
  cases seg with
  | stray b =>
      have hb : b.bytes.length = gmacRxUnitsize := hsized b (List.mem_singleton.mpr rfl)
      refine exact_stray rfl rfl (by rw [Readable]) hbytes hframe hlen
        (ih .clean trivial hfollows) (ih (.gathering _ b frame) ⟨?_, hb, hframe, hlen⟩ hfollows)
      rw [List.length_append]
      omega
  | cut first rest =>
      have hstep : segStep (.gathering bytes last frame) (.cut first rest) =
        ([], some (.afterCut (rest.getLastD first))) := rfl
      rw [Exact, receiveSegs_of_some hstep, List.nil_append, frames_cons, frames_cut, List.nil_append]
      exact iff_of_false (ne_of_length (by simp [Mode.pending])) (hlost _ rfl)
  | complete first rest =>
      rw [Exact, frames_cons, frames_complete, ← List.append_assoc]
      refine iff_of_false ?_ (hlost _ rfl)
      by_cases hrest : rest = []
      · subst hrest
        have hstep : segStep (.gathering bytes last frame) (.complete first []) =
          ([], some (.missed last first)) := rfl
        rw [receiveSegs_of_some hstep, List.nil_append]
        exact ne_of_length (by simp [Mode.pending])
      · have hstep : segStep (.gathering bytes last frame) (.complete first rest) =
            ([frameFrom last first rest], some .clean) := by
          simp only [segStep, startStep, hrest, if_false]
        rw [receiveSegs_of_some hstep, Mode.pending, List.append_assoc, cons_eq_cons_iff]
        exact fun h => ne_of_length (by simp [Mode.pending]) h.2

/-- **The frames are handed on exactly when the ring is readable.** -/
theorem exact_of_wellFormed {n : Nat} {segs : List Segment} (hsegs : ∀ seg ∈ segs, seg.WellFormed n ∧ seg.Sized) :
    ∀ mode : Mode, mode.Sized → Follows mode.cutBefore segs → Exact mode segs := by
  induction segs with
  | nil => exact fun _ _ hfollows => exact_nil hfollows
  | cons seg segs ih =>
      have ih := ih fun seg' hseg' => hsegs seg' (List.mem_cons_of_mem _ hseg')
      obtain ⟨hwf, hsized⟩ := hsegs seg (List.mem_cons_self ..)
      intro mode hmode hfollows
      cases mode with
      | clean => exact exact_clean hsized hfollows.2 ih
      | afterCut last => exact exact_afterCut hmode hwf hsized (hfollows.1 rfl) hfollows.2 ih
      | missed last frame => exact exact_missed hmode hsized hfollows.2 ih
      | gathering bytes last frame => exact exact_gathering hmode hsized hfollows.2 ih

private theorem strayStep_cutBefore {bytes : List UInt8} {b frame : Buf} {mode : Mode}
    (h : (strayStep bytes b frame).2 = some mode) : mode.cutBefore = false := by
  unfold strayStep at h
  split_ifs at h <;> cases h <;> rfl

private theorem startStep_cutBefore {last : Buf} {seg : Segment} {mode : Mode}
    (h : (startStep last seg).2 = some mode) : mode.cutBefore = true → seg.isCut = true := by
  cases seg with
  | cut first rest => exact fun _ => rfl
  | stray b =>
      cases h
      exact id
  | complete first rest =>
      rw [startStep] at h
      split_ifs at h <;> cases h <;> exact id

/-- Only a frame that is cut off leaves the loop behind a frame that was cut off. -/
theorem segStep_cutBefore {mode mode' : Mode} {seg : Segment} (h : (segStep mode seg).2 = some mode') :
    mode'.cutBefore = true → seg.isCut = true := by
  intro hcut
  cases mode with
  | clean =>
      cases seg with
      | cut first rest => rfl
      | stray b =>
          cases h
          exact hcut
      | complete first rest =>
          cases h
          exact hcut
  | afterCut last => exact startStep_cutBefore h hcut
  | missed last frame =>
      cases seg with
      | cut first rest => rfl
      | stray b => exact absurd hcut (by simp [strayStep_cutBefore h])
      | complete first rest =>
          cases h
          exact hcut
  | gathering bytes last frame =>
      cases seg with
      | cut first rest => rfl
      | stray b => exact absurd hcut (by simp [strayStep_cutBefore h])
      | complete first rest => exact startStep_cutBefore h hcut

theorem final_ne_afterCut (last : Buf) {mode : Mode} {segs : List Segment} (h : Follows mode.cutBefore segs) :
    (receiveSegs mode segs).2 ≠ some (.afterCut last) := by
  induction segs generalizing mode with
  | nil =>
      rintro heq
      obtain rfl : mode = .afterCut last := Option.some.inj heq
      exact absurd h (by simp [Follows, Mode.cutBefore])
  | cons seg segs ih =>
      rw [receiveSegs]
      cases hnext : (segStep mode seg).2 with
      | none => simp
      | some mode' =>
          refine ih ?_
          cases hcut : mode'.cutBefore with
          | true => exact segStep_cutBefore hnext hcut ▸ h.2
          | false => exact h.2.weaken

/-- When every frame is handed on, the loop has gone through all of the ring. -/
theorem final_clean {segs : List Segment} (h : Follows false segs)
    (hframes : (receiveSegs .clean segs).1 = frames segs) : (receiveSegs .clean segs).2 = some .clean := by
  have hle := length_receiveSegs_le .clean segs
  rw [hframes, Mode.pending, List.length_nil, Nat.zero_add] at hle
  cases hfinal : (receiveSegs .clean segs).2 with
  | none =>
      rw [hfinal, owed] at hle
      omega
  | some mode =>
      rw [hfinal, owed] at hle
      cases mode with
      | clean => rfl
      | afterCut last => exact absurd hfinal (final_ne_afterCut last h)
      | missed last frame =>
          rw [Mode.pending, List.length_singleton] at hle
          omega
      | gathering bytes last frame =>
          rw [Mode.pending, List.length_singleton] at hle
          omega

end ContikiAtsam.Receive
