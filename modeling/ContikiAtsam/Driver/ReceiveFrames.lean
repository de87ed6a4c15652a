import ContikiAtsam.Driver.Segments

/-!
# The poll handler's receive branch

The receive loop goes through the ring as `receiveSegs` says, and hands on exactly the complete frames when the ring is readable.
-/

namespace ContikiAtsam.Receive

open ContikiAtsam

/-! ### The list recursion at one buffer -/

section Buffers

variable {n cap : Nat} {b : Buf} {bufs held : List Buf} {bytes acc : List UInt8}

theorem gather_of_not_sof (hsof : b.sof = false) :
    b.gather cap held (bytes.take cap) = (bytes ++ b.bytes).take cap := by
  have hroom : cap - (bytes.take cap).length = cap - bytes.length := by
    rw [List.length_take]
    omega
  simp only [Buf.gather, Buf.source, hsof, Bool.false_eq_true, if_false, hroom, List.take_append]

theorem gather_of_sof (hsof : b.sof = true) : b.gather cap held acc = (b.source held).bytes.take cap := by
  simp [Buf.gather, hsof]

theorem receiveList_skip (hsof : b.sof = false) :
    receiveList n cap (b :: bufs) [] [] = receiveList n cap bufs [] [] := by
  rw [receiveList, if_pos (by simp [hsof])]

theorem receiveList_skips {skipped : List Buf} (hsof : ∀ b ∈ skipped, b.sof = false) :
    receiveList n cap (skipped ++ bufs) [] [] = receiveList n cap bufs [] [] := by
  induction skipped with
  | nil => rfl
  | cons b skipped ih =>
      rw [List.cons_append, receiveList_skip (hsof b (List.mem_cons_self ..))]
      exact ih fun b' hb' => hsof b' (List.mem_cons_of_mem _ hb')

theorem receiveList_gather (hsof : b.sof = false) (heof : b.eof = false) (hheld : held ≠ [])
    (hroom : held.length + 1 < n) :
    receiveList n cap (b :: bufs) held (bytes.take cap) =
      receiveList n cap bufs (held ++ [b]) ((bytes ++ b.bytes).take cap) := by
  have hhold : b.hold held = held ++ [b] := by simp [Buf.hold, hsof]
  have hsource : b.source held = b := by simp [Buf.source, hsof]
  rw [receiveList, if_neg (by simp [hheld]), hhold, hsource, if_neg (by simp; omega), if_neg (by simp [heof]),
    gather_of_not_sof hsof]

theorem receiveList_gathers {gathered : List Buf} (hsof : ∀ b ∈ gathered, b.sof = false)
    (heof : ∀ b ∈ gathered, b.eof = false) (hheld : held ≠ []) (hroom : held.length + gathered.length < n) :
    receiveList n cap (gathered ++ bufs) held (bytes.take cap) =
      receiveList n cap bufs (held ++ gathered) ((bytes ++ gathered.flatMap Buf.bytes).take cap) := by
  induction gathered generalizing held bytes with
  | nil => simp
  | cons b gathered ih =>
      rw [List.length_cons] at hroom
      rw [List.cons_append, receiveList_gather (hsof b (List.mem_cons_self ..)) (heof b (List.mem_cons_self ..))
        hheld (by omega), ih (fun b' hb' => hsof b' (List.mem_cons_of_mem _ hb'))
        (fun b' hb' => heof b' (List.mem_cons_of_mem _ hb')) (by simp) (by simp; omega)]
      simp

theorem receiveList_finish (hsof : b.sof = false) (heof : b.eof = true) (hheld : held ≠ [])
    (hroom : held.length + 1 < n) :
    receiveList n cap (b :: bufs) held (bytes.take cap) =
      if b.len ≤ cap ∧ b.len ≤ (bytes ++ b.bytes).length then
        ((bytes ++ b.bytes).take b.len :: (receiveList n cap bufs [] []).1, (receiveList n cap bufs [] []).2)
      else ([], bufs) := by
  have hhold : b.hold held = held ++ [b] := by simp [Buf.hold, hsof]
  have hsource : b.source held = b := by simp [Buf.source, hsof]
  rw [receiveList, if_neg (by simp [hheld]), hhold, hsource, if_neg (by simp; omega), if_pos heof,
    gather_of_not_sof hsof, List.length_take]
  by_cases hok : b.len ≤ cap ∧ b.len ≤ (bytes ++ b.bytes).length
  · rw [if_neg (by omega), if_pos hok, List.take_take, Nat.min_eq_left hok.1]
  · rw [if_pos (by omega), if_neg hok]

theorem receiveList_start (src : Buf) (hsof : b.sof = true) (hsrc : held.getLastD b = src)
    (heof : src.eof = false) (hn : 1 < n) :
    receiveList n cap (b :: bufs) held acc = receiveList n cap bufs [b] (src.bytes.take cap) := by
  have hhold : b.hold held = [b] := by simp [Buf.hold, hsof]
  have hsource : b.source held = src := by rw [← hsrc]; simp [Buf.source, hsof]
  rw [receiveList, if_neg (by simp [hsof]), hhold, gather_of_sof hsof, hsource, if_neg (by simp; omega),
    if_neg (by simp [heof])]

theorem receiveList_start_eof (src : Buf) (hsof : b.sof = true) (hsrc : held.getLastD b = src)
    (heof : src.eof = true) (hcap : src.len ≤ cap) (hlen : src.len ≤ src.bytes.length) (hn : 1 < n) :
    receiveList n cap (b :: bufs) held acc =
      (src.bytes.take src.len :: (receiveList n cap bufs [] []).1, (receiveList n cap bufs [] []).2) := by
  have hhold : b.hold held = [b] := by simp [Buf.hold, hsof]
  have hsource : b.source held = src := by rw [← hsrc]; simp [Buf.source, hsof]
  rw [receiveList, if_neg (by simp [hsof]), hhold, gather_of_sof hsof, hsource, if_neg (by simp; omega),
    if_pos heof, List.length_take, if_neg (by omega), List.take_take, Nat.min_eq_left hcap]

end Buffers

theorem flatMap_bytes_length {bufs : List Buf} (h : ∀ b ∈ bufs, b.bytes.length = gmacRxUnitsize) :
    (bufs.flatMap Buf.bytes).length = gmacRxUnitsize * bufs.length := by
  induction bufs with
  | nil => rfl
  | cons b bufs ih =>
      rw [List.flatMap_cons, List.length_append, h b (List.mem_cons_self ..),
        ih fun b' hb' => h b' (List.mem_cons_of_mem _ hb'), List.length_cons, Nat.mul_add, Nat.mul_one, Nat.add_comm]

/-- The rest of a frame of two or more buffers, its first one read from `src`. -/
theorem receiveList_frame {n : Nat} {src first : Buf} {rest bufs : List Buf} (hsrc : src.bytes.length = gmacRxUnitsize)
    (hsized : ∀ b ∈ rest, b.bytes.length = gmacRxUnitsize)
    (hwf : (Segment.complete first rest).WellFormed n) (hrest : rest ≠ []) :
    receiveList n ethernetMaxFrameLen (rest ++ bufs) [first] (src.bytes.take ethernetMaxFrameLen) =
      (frameFrom src first rest :: (receiveList n ethernetMaxFrameLen bufs [] []).1,
        (receiveList n ethernetMaxFrameLen bufs [] []).2) := by
  obtain ⟨-, hsof, heof, hlast, -, hshort, hmax, hn⟩ := hwf
  obtain ⟨mid, last, rfl⟩ : ∃ mid last, rest = mid ++ [last] := by
    rcases List.eq_nil_or_concat rest with hnil | ⟨mid, last, h⟩
    · exact absurd hnil hrest
    · exact ⟨mid, last, by simpa using h⟩
  have hgetLast : (mid ++ [last]).getLastD first = last := by simp
  rw [hgetLast] at hlast hshort hmax
  rw [List.length_append, List.length_singleton] at hshort hn
  have hmidEof : ∀ b ∈ mid, b.eof = false := by
    intro b hb
    refine heof b ?_
    rw [← List.cons_append, List.dropLast_concat]
    exact List.mem_cons_of_mem _ hb
  have hmidSof : ∀ b ∈ mid, b.sof = false := fun b hb => hsof b (List.mem_append_left _ hb)
  have hlength : (src.bytes ++ mid.flatMap Buf.bytes ++ last.bytes).length = gmacRxUnitsize * (mid.length + 1 + 1) := by
    rw [List.length_append, List.length_append, hsrc, hsized last (by simp),
      flatMap_bytes_length fun b hb => hsized b (List.mem_append_left _ hb)]
    simp only [gmacRxUnitsize]
    omega
  rw [List.append_assoc, receiveList_gathers hmidSof hmidEof (List.cons_ne_nil _ _) (by simp; omega),
    List.singleton_append, receiveList_finish (hsof last (by simp)) hlast (by simp) (by simp; omega),
    if_pos ⟨hmax, by omega⟩, frameFrom, hgetLast]
  simp

/-! ### Segment by segment -/

/-- The held buffers and the gathered bytes that a mode stands for, with `room` buffers to come. -/
def Mode.At (n : Nat) (held : List Buf) (acc : List UInt8) (room : Nat) : Mode → Prop
  | .clean => held = [] ∧ acc = [] ∧ room ≤ n
  | .afterCut last => (∃ init, held = init ++ [last]) ∧ last.eof = false ∧ room < n
  | .missed last frame =>
      held = [frame] ∧ acc = last.bytes.take ethernetMaxFrameLen ∧ frame.eof = true ∧ 1 + room < n
  | .gathering bytes last _ =>
      (∃ init, held = init ++ [last]) ∧ acc = bytes.take ethernetMaxFrameLen ∧ last.eof = false ∧
        held.length + room < n

/-- The list recursion over the buffers of a segment: it hands on `out` and goes on in the next mode, or it stops. -/
def Passes (n : Nat) (seg : Segment) (bufs held : List Buf) (acc : List UInt8) (out : List (List UInt8)) :
    Option Mode → Prop
  | none => (receiveList n ethernetMaxFrameLen (seg.bufs ++ bufs) held acc).1 = out
  | some mode => ∃ held' acc', mode.At n held' acc' bufs.length ∧
      receiveList n ethernetMaxFrameLen (seg.bufs ++ bufs) held acc =
        (out ++ (receiveList n ethernetMaxFrameLen bufs held' acc').1,
          (receiveList n ethernetMaxFrameLen bufs held' acc').2)

theorem exists_init (first : Buf) (rest : List Buf) : ∃ init, first :: rest = init ++ [rest.getLastD first] := by
  induction rest generalizing first with
  | nil => exact ⟨[], rfl⟩
  | cons b rest ih =>
      obtain ⟨init, hinit⟩ := ih b
      exact ⟨first :: init, by rw [List.getLastD_cons, List.cons_append, ← hinit]⟩

section Segments

variable {n : Nat} {seg : Segment} {bufs held : List Buf} {acc bytes : List UInt8} {last frame : Buf}

theorem passes_start {src : Buf} (hwf : seg.WellFormed n) (hsized : seg.Sized) (hstarts : seg.starts = true)
    (hsrc : ∀ first, held.getLastD first = src) (hsrcLen : src.bytes.length = gmacRxUnitsize)
    (heof : src.eof = false) (hroom : seg.bufs.length + bufs.length < n) :
    Passes n seg bufs held acc (startStep src seg).1 (startStep src seg).2 := by
  cases seg with
  | stray b => exact absurd hstarts (by simp [Segment.starts])
  | cut first rest =>
      obtain ⟨hsof, hrest, hnoEof, hn⟩ := hwf
      rw [Segment.bufs, List.length_cons] at hroom
      refine ⟨first :: rest, (src.bytes ++ rest.flatMap Buf.bytes).take ethernetMaxFrameLen,
        ⟨exists_init first rest, ?_, by omega⟩, ?_⟩
      · exact hnoEof _ (getLastD_mem first rest)
      · rw [Segment.bufs, List.cons_append, receiveList_start src hsof (hsrc first) heof (by omega),
          receiveList_gathers hrest (fun b hb => hnoEof b (List.mem_cons_of_mem _ hb)) (by simp) (by simp; omega)]
        rfl
  | complete first rest =>
      have hfirst : first.bytes.length = gmacRxUnitsize := hsized first (List.mem_cons_self ..)
      have hwf' := hwf
      obtain ⟨hsof, hrest, -, hlast, -, hshort, hmax, hn⟩ := hwf
      rw [Segment.bufs, List.length_cons] at hroom
      by_cases hsingle : rest = []
      · subst hsingle
        rw [startStep, if_pos rfl]
        refine ⟨[first], src.bytes.take ethernetMaxFrameLen, ⟨rfl, rfl, hlast, by omega⟩, ?_⟩
        rw [Segment.bufs, List.singleton_append, receiveList_start src hsof (hsrc first) heof (by omega)]
        rfl
      · rw [startStep, if_neg hsingle]
        refine ⟨[], [], ⟨rfl, rfl, by omega⟩, ?_⟩
        rw [Segment.bufs, List.cons_append, receiveList_start src hsof (hsrc first) heof (by omega),
          receiveList_frame hsrcLen (fun b hb => hsized b (List.mem_cons_of_mem _ hb)) hwf' hsingle]
        rfl

theorem passes_stray {b : Buf} (hsof : b.sof = false) (hheld : held ≠ []) (hroom : held.length + 1 + bufs.length < n) :
    Passes n (.stray b) bufs held (bytes.take ethernetMaxFrameLen)
      (strayStep (bytes ++ b.bytes) b frame).1 (strayStep (bytes ++ b.bytes) b frame).2 := by
  unfold strayStep
  by_cases heof : b.eof = true
  · rw [if_pos heof]
    by_cases hok : b.len ≤ ethernetMaxFrameLen ∧ b.len ≤ (bytes ++ b.bytes).length
    · rw [if_pos hok]
      refine ⟨[], [], ⟨rfl, rfl, by omega⟩, ?_⟩
      rw [Segment.bufs, List.singleton_append, receiveList_finish hsof heof hheld (by omega), if_pos hok]
      rfl
    · rw [if_neg hok, Passes, Segment.bufs, List.singleton_append,
        receiveList_finish hsof heof hheld (by omega), if_neg hok]
  · rw [if_neg heof]
    have hnoEof : b.eof = false := by simpa using heof
    refine ⟨held ++ [b], (bytes ++ b.bytes).take ethernetMaxFrameLen, ⟨⟨held, rfl⟩, rfl, hnoEof, by simp; omega⟩, ?_⟩
    rw [Segment.bufs, List.singleton_append, receiveList_gather hsof hnoEof hheld (by omega)]
    rfl

theorem passes_clean (hwf : seg.WellFormed n) (hsized : seg.Sized) (hroom : seg.bufs.length + bufs.length ≤ n) :
    Passes n seg bufs [] [] (segStep .clean seg).1 (segStep .clean seg).2 := by
  cases seg with
  | stray b =>
      rw [Segment.bufs, List.length_singleton] at hroom
      refine ⟨[], [], ⟨rfl, rfl, by omega⟩, ?_⟩
      rw [Segment.bufs, List.singleton_append, receiveList_skip hwf]
      rfl
  | cut first rest =>
      obtain ⟨hsof, hrest, hnoEof, hn⟩ := hwf
      rw [Segment.bufs, List.length_cons] at hroom
      refine ⟨first :: rest, (first.bytes ++ rest.flatMap Buf.bytes).take ethernetMaxFrameLen,
        ⟨exists_init first rest, hnoEof _ (getLastD_mem first rest), by omega⟩, ?_⟩
      rw [Segment.bufs, List.cons_append, receiveList_start first hsof rfl (hnoEof first (List.mem_cons_self ..)) (by omega),
        receiveList_gathers hrest (fun b hb => hnoEof b (List.mem_cons_of_mem _ hb)) (by simp) (by simp; omega)]
      rfl
  | complete first rest =>
      have hfirst : first.bytes.length = gmacRxUnitsize := hsized first (List.mem_cons_self ..)
      have hwf' := hwf
      obtain ⟨hsof, -, hnoEof, hlast, -, hshort, hmax, hn⟩ := hwf
      rw [Segment.bufs, List.length_cons] at hroom
      refine ⟨[], [], ⟨rfl, rfl, by omega⟩, ?_⟩
      rw [Segment.bufs, List.cons_append]
      cases rest with
      | nil =>
          rw [List.nil_append, receiveList_start_eof first hsof rfl hlast hmax ?_ (by omega), segStep, frameFrom_single]
          · rfl
          · rw [hfirst]
            simpa using hshort
      | cons b rest =>
          have hfirstEof : first.eof = false := hnoEof first (by simp)
          rw [receiveList_start first hsof rfl hfirstEof (by omega),
            receiveList_frame hfirst (fun b' hb' => hsized b' (List.mem_cons_of_mem _ hb')) hwf' (List.cons_ne_nil _ _)]
          rfl

/-- Behind a frame of one buffer that was missed, the next start of frame hands it on and costs its own segment. -/
theorem passes_missed (hwf : seg.WellFormed n) (hstarts : seg.starts = true)
    (hframe : frame.bytes.length = gmacRxUnitsize) (hlen : frame.len ≤ gmacRxUnitsize) (heof : frame.eof = true)
    (hroom : seg.bufs.length + bufs.length ≤ n) :
    Passes n seg bufs [frame] acc [frame.bytes.take frame.len] (some .clean) := by
  have hcap : frame.len ≤ ethernetMaxFrameLen := Nat.le_trans hlen (by decide)
  cases seg with
  | stray b => exact absurd hstarts (by simp [Segment.starts])
  | cut first rest =>
      obtain ⟨hsof, hrest, -, hn⟩ := hwf
      rw [Segment.bufs, List.length_cons] at hroom
      refine ⟨[], [], ⟨rfl, rfl, by omega⟩, ?_⟩
      rw [Segment.bufs, List.cons_append, receiveList_start_eof frame hsof rfl heof hcap (by omega) (by omega),
        receiveList_skips hrest]
      rfl
  | complete first rest =>
      obtain ⟨hsof, hrest, -, -, -, -, -, hn⟩ := hwf
      rw [Segment.bufs, List.length_cons] at hroom
      refine ⟨[], [], ⟨rfl, rfl, by omega⟩, ?_⟩
      rw [Segment.bufs, List.cons_append, receiveList_start_eof frame hsof rfl heof hcap (by omega) (by omega),
        receiveList_skips hrest]
      rfl

/-- **One segment**: the list recursion does what `segStep` says. -/
theorem passes_segStep {mode : Mode} (hat : mode.At n held acc (seg.bufs.length + bufs.length)) (hmode : mode.Sized)
    (hwf : seg.WellFormed n) (hsized : seg.Sized) (hstarts : mode.cutBefore = true → seg.starts = true) :
    Passes n seg bufs held acc (segStep mode seg).1 (segStep mode seg).2 := by
  cases mode with
  | clean =>
      obtain ⟨rfl, rfl, hroom⟩ := hat
      exact passes_clean hwf hsized hroom
  | afterCut last =>
      obtain ⟨⟨init, rfl⟩, heof, hroom⟩ := hat
      exact passes_start hwf hsized (hstarts rfl) (by simp) hmode heof hroom
  | missed last frame =>
      obtain ⟨rfl, rfl, heof, hroom⟩ := hat
      cases seg with
      | stray b =>
          rw [Segment.bufs, List.length_singleton] at hroom
          exact passes_stray hwf (List.cons_ne_nil _ _) (by simp; omega)
      | cut first rest => exact passes_missed hwf rfl hmode.2.1 hmode.2.2 heof (by omega)
      | complete first rest => exact passes_missed hwf rfl hmode.2.1 hmode.2.2 heof (by omega)
  | gathering bytes last frame =>
      obtain ⟨⟨init, rfl⟩, rfl, heof, hroom⟩ := hat
      have hstart : ∀ seg' : Segment, seg'.WellFormed n → seg'.Sized → seg'.starts = true →
          seg'.bufs.length + bufs.length < n → Passes n seg' bufs (init ++ [last]) (bytes.take ethernetMaxFrameLen)
            (startStep last seg').1 (startStep last seg').2 :=
        fun seg' hwf' hsized' hstarts' hroom' =>
          passes_start hwf' hsized' hstarts' (by simp) hmode.2.1 heof hroom'
      cases seg with
      | stray b =>
          rw [Segment.bufs, List.length_singleton] at hroom
          exact passes_stray hwf (by simp) (by omega)
      | cut first rest => exact hstart _ hwf hsized rfl (by omega)
      | complete first rest => exact hstart _ hwf hsized rfl (by omega)

end Segments

/-! ### The whole ring -/

private theorem sized_strayStep {bytes : List UInt8} {b frame : Buf} {mode : Mode}
    (h : (strayStep (bytes ++ b.bytes) b frame).2 = some mode) (hbytes : gmacRxUnitsize ≤ bytes.length)
    (hb : b.bytes.length = gmacRxUnitsize) (hframe : frame.bytes.length = gmacRxUnitsize)
    (hlen : frame.len ≤ gmacRxUnitsize) : mode.Sized := by
  unfold strayStep at h
  split_ifs at h
  · cases h
    trivial
  · cases h
    exact ⟨by rw [List.length_append]; omega, hb, hframe, hlen⟩

private theorem sized_startStep {n : Nat} {last : Buf} {seg : Segment} {mode : Mode}
    (h : (startStep last seg).2 = some mode) (hlast : last.bytes.length = gmacRxUnitsize)
    (hwf : seg.WellFormed n) (hsized : seg.Sized) : mode.Sized := by
  cases seg with
  | stray b =>
      cases h
      trivial
  | cut first rest =>
      cases h
      exact sized_getLastD hsized
  | complete first rest =>
      rw [startStep] at h
      split at h
      · rename_i hrest
        subst hrest
        cases h
        exact ⟨hlast, hsized first (List.mem_cons_self ..), hwf.2.2.2.2.2.1⟩
      · cases h
        trivial

theorem sized_segStep {n : Nat} {mode mode' : Mode} {seg : Segment} (h : (segStep mode seg).2 = some mode')
    (hmode : mode.Sized) (hwf : seg.WellFormed n) (hsized : seg.Sized) : mode'.Sized := by
  cases mode with
  | clean =>
      cases seg with
      | stray b =>
          cases h
          trivial
      | cut first rest =>
          cases h
          exact sized_getLastD hsized
      | complete first rest =>
          cases h
          trivial
  | afterCut last => exact sized_startStep h hmode hwf hsized
  | missed last frame =>
      cases seg with
      | stray b =>
          exact sized_strayStep h (Nat.le_of_eq hmode.1.symm) (hsized b (List.mem_singleton.mpr rfl)) hmode.2.1 hmode.2.2
      | cut first rest =>
          cases h
          trivial
      | complete first rest =>
          cases h
          trivial
  | gathering bytes last frame =>
      cases seg with
      | stray b =>
          exact sized_strayStep h hmode.1 (hsized b (List.mem_singleton.mpr rfl)) hmode.2.2.1 hmode.2.2.2
      | cut first rest => exact sized_startStep h hmode.2.1 hwf hsized
      | complete first rest => exact sized_startStep h hmode.2.1 hwf hsized

/-- **The list recursion goes through the segments as `receiveSegs` says**, and leaves nothing owned when it ends outside any frame. -/
theorem receiveList_segs {n : Nat} {segs : List Segment} (hsegs : ∀ seg ∈ segs, seg.WellFormed n ∧ seg.Sized)
    {mode : Mode} {held : List Buf} {acc : List UInt8} (hat : mode.At n held acc (segs.flatMap Segment.bufs).length)
    (hmode : mode.Sized) (hfollows : Follows mode.cutBefore segs) :
    (receiveList n ethernetMaxFrameLen (segs.flatMap Segment.bufs) held acc).1 = (receiveSegs mode segs).1 ∧
      ((receiveSegs mode segs).2 = some .clean →
        (receiveList n ethernetMaxFrameLen (segs.flatMap Segment.bufs) held acc).2 = []) := by
  induction segs generalizing mode held acc with
  | nil =>
      refine ⟨rfl, fun hfinal => ?_⟩
      obtain rfl : mode = .clean := Option.some.inj hfinal
      exact hat.1
  | cons seg segs ih =>
      obtain ⟨hwf, hsized⟩ := hsegs seg (List.mem_cons_self ..)
      rw [List.flatMap_cons, List.length_append] at hat
      have hpasses := passes_segStep hat hmode hwf hsized hfollows.1
      rw [List.flatMap_cons, receiveSegs]
      cases hnext : (segStep mode seg).2 with
      | none =>
          rw [hnext] at hpasses
          exact ⟨hpasses, fun hfinal => by simp at hfinal⟩
      | some mode' =>
          rw [hnext] at hpasses
          obtain ⟨held', acc', hat', hrun⟩ := hpasses
          have hfollows' : Follows mode'.cutBefore segs := by
            cases hcut : mode'.cutBefore with
            | true => exact segStep_cutBefore hnext hcut ▸ hfollows.2
            | false => exact hfollows.2.weaken
          obtain ⟨hout, hrest⟩ := ih (fun seg' hseg' => hsegs seg' (List.mem_cons_of_mem _ hseg')) hat'
            (sized_segStep hnext hmode hwf hsized) hfollows'
          rw [hrun]
          exact ⟨by rw [hout], hrest⟩

/-- A ring whose software-owned buffers are these segments. -/
structure Holds (dev : RxRing) (segs : List Segment) : Prop where
  shown : dev.Shows (segs.flatMap Segment.bufs)
  wellFormed : ∀ seg ∈ segs, seg.WellFormed dev.usRxListSize
  follows : Follows false segs

theorem shows_sized {dev : RxRing} {bufs : List Buf} (h : dev.Shows bufs) :
    ∀ b ∈ bufs, b.bytes.length = gmacRxUnitsize := by
  intro b hb
  obtain ⟨i, hi, rfl⟩ := List.getElem_of_mem hb
  rw [← (h.shown i hi).2, RxDescriptor.buf, Memory.load_length]

theorem Holds.segments {dev : RxRing} {segs : List Segment} (h : Holds dev segs) :
    ∀ seg ∈ segs, seg.WellFormed dev.usRxListSize ∧ seg.Sized := fun seg hseg =>
  ⟨h.wellFormed seg hseg, fun b hb => shows_sized h.shown b (List.mem_flatMap.mpr ⟨seg, hseg, hb⟩)⟩

theorem not_owned_of_shows_nil {dev : RxRing} (h : dev.Shows []) :
    ∀ i < dev.usRxListSize, (dev.pRxDscr i).owned = false := by
  intro i hi
  have hidx := h.idx_lt
  have hplace : (dev.usRxIdx + (i + dev.usRxListSize - dev.usRxIdx) % dev.usRxListSize) % dev.usRxListSize = i := by
    rw [Nat.add_mod_mod, show dev.usRxIdx + (i + dev.usRxListSize - dev.usRxIdx) = i + dev.usRxListSize by omega,
      Nat.add_mod_right, Nat.mod_eq_of_lt hi]
  have hrest := h.rest ((i + dev.usRxListSize - dev.usRxIdx) % dev.usRxListSize) (Nat.zero_le _)
    (Nat.mod_lt _ (Nat.zero_lt_of_lt hi))
  rwa [RxRing.nth, hplace] at hrest

theorem rxBranch_holds (macInput : Packetbuf → Packetbuf) (pb : Packetbuf) {dev : RxRing} {segs : List Segment}
    {fuel : Nat} (h : Holds dev segs) (hfuel : dev.usRxListSize < fuel) :
    ∃ r, rxBranch macInput fuel ⟨dev, pb, []⟩ = some r ∧ r.delivered = (receiveSegs .clean segs).1 ∧
      r.dev.usRxListSize = dev.usRxListSize ∧ ((receiveSegs .clean segs).2 = some .clean → r.dev.Shows []) := by
  have hlen := h.shown.length_le
  obtain ⟨r, hrun, hsize, hdelivered, hrest⟩ := rxBranch_eq macInput (s := ⟨dev, pb, []⟩) h.shown
    (Nat.lt_of_le_of_lt hlen hfuel)
  have hat : Mode.At dev.usRxListSize [] [] (segs.flatMap Segment.bufs).length .clean := ⟨rfl, rfl, hlen⟩
  obtain ⟨hout, hnil⟩ := receiveList_segs h.segments hat trivial h.follows
  rw [List.nil_append, hout] at hdelivered
  exact ⟨r, hrun, hdelivered, hsize, fun hfinal => hnil hfinal ▸ hrest⟩

/-- The complete frames of the ring were handed on, each once, in order and unchanged, and the software owns no descriptor any more. -/
def FramesHandedOn (segs : List Segment) (r : RxRun) : Prop :=
  r.delivered = frames segs ∧ ∀ i < r.dev.usRxListSize, (r.dev.pRxDscr i).owned = false

/-- **When the receive branch hands on the frames of the ring**: it always returns, and it has done so exactly when the ring is readable. -/
theorem rx_branch_iff (macInput : Packetbuf → Packetbuf) (pb : Packetbuf) (dev : RxRing) (segs : List Segment)
    (fuel : Nat) (h : Holds dev segs) (hfuel : dev.usRxListSize < fuel) :
    ∃ r, rxBranch macInput fuel ⟨dev, pb, []⟩ = some r ∧ (FramesHandedOn segs r ↔ Readable .clean segs) := by
  obtain ⟨r, hrun, hdelivered, hsize, hshows⟩ := rxBranch_holds macInput pb h hfuel
  have hexact : (receiveSegs .clean segs).1 = frames segs ↔ Readable .clean segs :=
    exact_of_wellFormed h.segments .clean trivial h.follows
  refine ⟨r, hrun, ?_⟩
  rw [FramesHandedOn, hdelivered, hexact]
  refine and_iff_left_of_imp fun hreadable => ?_
  exact not_owned_of_shows_nil (hshows (final_clean h.follows (hexact.mpr hreadable)))

/-- The ring of 32 descriptors after its start-up, the hardware having filled one buffer for each given status. -/
def filledRing (statuses : List UInt32) : RxRing where
  pRxDscr i := ⟨UInt32.ofNat (gmacRxUnitsize * i) ||| (if i < statuses.length then gmacRxdOwnership else 0),
    statuses.getD i 0⟩
  usRxListSize := 32
  usRxIdx := 0
  ram := fun _ => 0

/-- The buffer behind a descriptor of such a ring. -/
def filledBuf (statuses : List UInt32) (i : Nat) : Buf :=
  ((filledRing statuses).pRxDscr i).buf (filledRing statuses).ram

theorem shows_filledRing {statuses : List UInt32} (hlen : statuses.length ≤ 32) :
    (filledRing statuses).Shows ((List.range statuses.length).map (filledBuf statuses)) := by
  have hbit : ∀ i < 32, ((UInt32.ofNat (gmacRxUnitsize * i) ||| gmacRxdOwnership) &&& gmacRxdOwnership ==
      gmacRxdOwnership) = true ∧ ((UInt32.ofNat (gmacRxUnitsize * i) ||| 0) &&& gmacRxdOwnership ==
      gmacRxdOwnership) = false := by decide
  have hnth : ∀ i < 32, (filledRing statuses).nth i = (filledRing statuses).pRxDscr i := by
    intro i hi
    change (filledRing statuses).pRxDscr ((0 + i) % 32) = _
    rw [Nat.zero_add, Nat.mod_eq_of_lt hi]
  have howned : ∀ i < 32, ((filledRing statuses).pRxDscr i).owned = decide (i < statuses.length) := by
    intro i hi
    by_cases hfilled : i < statuses.length
    · simp only [RxDescriptor.owned, filledRing, hfilled, if_true, (hbit i hi).1, decide_true]
    · simp only [RxDescriptor.owned, filledRing, hfilled, if_false, (hbit i hi).2, decide_false]
  have htwo : 2 ≤ 32 := by decide
  refine ⟨htwo, Nat.zero_lt_of_lt htwo, by simpa [filledRing] using hlen, ?_, ?_⟩
  · intro i hi
    rw [List.length_map, List.length_range] at hi
    rw [hnth i (by omega), List.getElem_map, List.getElem_range]
    refine ⟨?_, rfl⟩
    rw [howned i (by omega), decide_eq_true hi]
  · intro i hi hlt
    rw [List.length_map, List.length_range] at hi
    rw [hnth i hlt, howned i hlt, decide_eq_false (Nat.not_lt.mpr hi)]

/-- A frame of 64 bytes, then one that was cut off after its first buffer, then one of 192 bytes in two buffers. -/
private def threeSegments : List Segment :=
  let statuses := [0xC040, 0x4000, 0x4000, 0x80C0]
  [.complete (filledBuf statuses 0) [], .cut (filledBuf statuses 1) [],
    .complete (filledBuf statuses 2) [filledBuf statuses 3]]

theorem holds_threeSegments : Holds (filledRing [0xC040, 0x4000, 0x4000, 0x80C0]) threeSegments where
  shown := shows_filledRing (by decide)
  wellFormed := by
    simp [threeSegments, Segment.WellFormed]
    decide
  follows := ⟨by decide, by decide, by decide, rfl⟩

/-- Both frames are handed on: what stays of the cut one is the same bytes as the first buffer of the frame behind it. -/
theorem rx_branch_iff_threeSegments :
    ∃ r, rxBranch id 33 ⟨filledRing [0xC040, 0x4000, 0x4000, 0x80C0], .zeroed, []⟩ = some r ∧ r.delivered.length = 2 ∧
      FramesHandedOn threeSegments r := by
  obtain ⟨r, hrun, hiff⟩ := rx_branch_iff id .zeroed _ _ 33 holds_threeSegments (by decide)
  have hreadable : Readable .clean threeSegments := ⟨rfl, trivial⟩
  have hframes := hiff.mpr hreadable
  exact ⟨r, hrun, by rw [hframes.1]; rfl, hframes⟩

theorem holds_behindCut :
    Holds (filledRing [0x4000, 0xC040])
      [.cut (filledBuf [0x4000, 0xC040] 0) [], .complete (filledBuf [0x4000, 0xC040] 1) []] where
  shown := shows_filledRing (by decide)
  wellFormed := by
    simp [Segment.WellFormed]
    decide
  follows := ⟨by decide, ⟨fun _ => rfl, rfl⟩⟩

/-- The complete frame is lost. -/
theorem rx_branch_loses_frame :
    Holds (filledRing [0x4000, 0xC040])
        [.cut (filledBuf [0x4000, 0xC040] 0) [], .complete (filledBuf [0x4000, 0xC040] 1) []] ∧
      ¬ ∃ r, rxBranch id 33 ⟨filledRing [0x4000, 0xC040], .zeroed, []⟩ = some r ∧
        FramesHandedOn [.cut (filledBuf [0x4000, 0xC040] 0) [], .complete (filledBuf [0x4000, 0xC040] 1) []] r := by
  refine ⟨holds_behindCut, ?_⟩
  rintro ⟨r, hrun, hframes, -⟩
  obtain ⟨r', hrun', hdelivered, -⟩ := rxBranch_holds id .zeroed holds_behindCut (by decide : 32 < 33)
  obtain rfl : r' = r := Option.some.inj (hrun'.symm.trans hrun)
  have hnone : r'.delivered = [] := hdelivered
  rw [hnone] at hframes
  exact absurd hframes (by simp [frames])

end ContikiAtsam.Receive
