import ContikiAtsam.Rtimer.Code

/-!
# When the clock is right

The wraps counted in `time_msb` and those not counted yet make up the high word of the tick count. A call that leaves its loop has seen one value of `time_msb` on both sides of its read of the counter, so no wrap was counted in between and the value it returns is the tick count at that read less the wraps that were not counted then. It is therefore right when the handler was not late, and behind by a whole period, and below earlier readings, when a wrap waited for a delayed handler.
-/

namespace ContikiAtsam.Rtimer

/-- The call returned the number of ticks at some instant while it ran. -/
def Reading.Exact (r : Reading) : Prop := ∃ t, r.start ≤ t ∧ t ≤ r.finish ∧ r.value.toNat = t

namespace Clock

variable {c c' : Clock} {e : Event}

/-- Every call returned the number of ticks at an instant while it ran, and successive calls never a smaller value. -/
def NeverBackwards (c : Clock) : Prop :=
  (∀ r ∈ c.readings, r.Exact) ∧ c.readings.Pairwise fun r r' => r.value ≤ r'.value

/-- If the call is about to return, then no wrap was uncounted when it read the counter, or the call was running that many periods before already. -/
def Timely (c : Clock) : Event → Prop
  | .reader =>
    match c.reader with
    | .check start msb _ instant late => msb = c.timeMsb → late = 0 ∨ start + late * period ≤ instant
    | _ => True
  | _ => True

/-! ### The high word -/

/-- The wraps the handler has counted. -/
def counted (c : Clock) : Nat := c.ticks / period - c.uncounted

structure Counts (c : Clock) : Prop where
  uncounted_le : c.uncounted ≤ c.ticks / period
  timeMsb : c.timeMsb = UInt32.ofNat c.counted
  flagged : c.handler = .value ∨ c.handler = .status → c.cpcs = true
  tested : c.handler ≠ .test false
  sound : c.handler ≠ .failed

theorem counts_init : Counts rtimerArchInit where
  uncounted_le := by decide
  timeMsb := by decide
  flagged := by decide
  tested := by decide
  sound := by decide

theorem div_succ_of_not_wrap {n : Nat} (h : (n + 1) % period ≠ 0) : (n + 1) / period = n / period := by
  unfold period at *
  omega

theorem div_succ_of_wrap {n : Nat} (h : (n + 1) % period = 0) : (n + 1) / period = n / period + 1 := by
  unfold period at *
  omega

/-- A wrap is uncounted until the handler counts it. -/
theorem Step.counted_eq (hs : c.Counts) (h : c.Step e c') :
    c'.uncounted ≤ c'.ticks / period ∧
      c'.counted = c.counted + (if e = .handler ∧ c.handler = .test true then 1 else 0) := by
  have hle := hs.uncounted_le
  unfold counted
  cases h with
  | tick h =>
      have hdiv := div_succ_of_not_wrap h
      simp only [uncounted] at *
      exact ⟨by omega, by simp [hdiv]⟩
  | wrap h hcpcs =>
      have hdiv := div_succ_of_wrap h
      simp only [uncounted, hcpcs] at *
      simp only [Bool.false_eq_true, ↓reduceIte] at hle
      exact ⟨by simp only [↓reduceIte]; omega, by simp [hdiv]; omega⟩
  | interrupt hcpcs hout =>
      simp only [uncounted, hcpcs, hout] at *
      exact ⟨by simpa using hle, by simp⟩
  | value h =>
      simp only [uncounted, h] at *
      exact ⟨by simpa using hle, by simp⟩
  | status h =>
      have hcpcs := hs.flagged (.inr h)
      simp only [uncounted, h, hcpcs] at *
      exact ⟨by simpa using hle, by simp⟩
  | count h =>
      simp only [uncounted, h] at *
      simp only [↓reduceIte, reduceCtorEq, Nat.add_zero, and_self] at *
      omega
  | fail h => exact absurd h hs.tested
  | call | msb | lsb | again | leave => exact ⟨hle, by simp [uncounted]⟩

theorem counts_step (hs : c.Counts) (h : c.Step e c') : c'.Counts := by
  obtain ⟨hle, hcounted⟩ := h.counted_eq hs
  have hmsb := hs.timeMsb
  refine ⟨hle, ?_, ?_, ?_, ?_⟩
  · rw [hcounted]
    cases h with
    | count h => simp [h, hmsb, UInt32.ofNat_add]
    | value h | status h | fail h => simp [h, hmsb]
    | _ => simpa using hmsb
  all_goals
    have hflag := hs.flagged
    have htest := hs.tested
    have hsound := hs.sound
    cases h <;> simp_all

theorem counted_le (hs : c.Counts) (h : c.Step e c') : c.counted ≤ c'.counted := by
  rw [(h.counted_eq hs).2]
  exact Nat.le_add_right _ _

end Clock

/-! ### The reader -/

/-- What a call knows of the clock at each of its reads. -/
def Reader.Knows (c : Clock) : Reader → Prop
  | .out => True
  | .msb start => start ≤ c.ticks
  | .lsb start high => start ≤ c.ticks ∧ ∃ k ≤ c.counted, high = UInt32.ofNat k
  | .check start high low instant late =>
    start ≤ instant ∧ instant ≤ c.ticks ∧ low = UInt32.ofNat instant ∧ late ≤ instant / period ∧
      instant / period - late ≤ c.counted ∧ ∃ k ≤ instant / period - late, high = UInt32.ofNat k

theorem Reader.Knows.mono {c c' : Clock} {r : Reader} (h : r.Knows c) (hticks : c.ticks ≤ c'.ticks)
    (hcounted : c.counted ≤ c'.counted) : r.Knows c' := by
  cases r with
  | out => trivial
  | msb start =>
      have hstart : start ≤ c.ticks := h
      exact Nat.le_trans hstart hticks
  | lsb start msb =>
      obtain ⟨hstart, k, hk, hmsb⟩ := h
      exact ⟨Nat.le_trans hstart hticks, k, Nat.le_trans hk hcounted, hmsb⟩
  | check start msb lsb instant late =>
      obtain ⟨hstart, hinstant, hlsb, hlate, hle, hmsb⟩ := h
      exact ⟨hstart, Nat.le_trans hinstant hticks, hlsb, hlate, Nat.le_trans hle hcounted, hmsb⟩

def Reader.started : Reader → Option Nat
  | .out => none
  | .msb start | .lsb start _ | .check start _ _ _ _ => some start

namespace Clock

/-- The calls come one after the other. -/
structure Ordered (c : Clock) : Prop where
  knows : c.reader.Knows c
  pairwise : c.readings.Pairwise fun r r' => r.finish ≤ r'.start
  finished : ∀ r ∈ c.readings, r.finish ≤ c.ticks
  started : ∀ r ∈ c.readings, ∀ start, c.reader.started = some start → r.finish ≤ start

variable {c c' : Clock} {e : Event}

theorem ticks_le (h : c.Step e c') : c.ticks ≤ c'.ticks := by
  cases h <;> simp

theorem knows_step (hs : c.Counts) (ho : c.reader.Knows c) (h : c.Step e c') : c'.reader.Knows c' := by
  have hticks := ticks_le h
  have hcounted := counted_le hs h
  cases h with
  | call hout => exact hticks
  | msb start hpc =>
      rw [hpc] at ho
      exact ⟨ho, c.counted, hcounted, hs.timeMsb⟩
  | lsb start msb hpc =>
      rw [hpc] at ho
      obtain ⟨hstart, hmsb⟩ := ho
      exact ⟨hstart, hticks, rfl, hs.uncounted_le, hcounted, hmsb⟩
  | again start msb lsb instant late hpc hne =>
      rw [hpc] at ho
      exact Nat.le_trans ho.1 ho.2.1
  | leave => trivial
  | _ => exact ho.mono hticks hcounted

theorem ordered_init : Ordered rtimerArchInit where
  knows := trivial
  pairwise := List.Pairwise.nil
  finished := by simp [rtimerArchInit]
  started := by simp [rtimerArchInit]

theorem ordered_step (hs : c.Counts) (ho : c.Ordered) (h : c.Step e c') : c'.Ordered := by
  have hknows := knows_step hs ho.knows h
  have hticks := ticks_le h
  have hfinished : ∀ r ∈ c.readings, r.finish ≤ c'.ticks :=
    fun r hr => Nat.le_trans (ho.finished r hr) hticks
  cases h with
  | call hout => exact ⟨hknows, ho.pairwise, hfinished, fun r hr start hstart => by
      cases hstart
      exact ho.finished r hr⟩
  | msb start hpc | lsb start msb hpc | again start msb lsb instant late hpc hne =>
      refine ⟨hknows, ho.pairwise, hfinished, fun r hr start' hstart => ?_⟩
      exact ho.started r hr start' (by rw [hpc]; exact hstart)
  | leave start msb lsb instant late hpc heq =>
      refine ⟨hknows, ?_, ?_, fun r hr start hstart => by cases hstart⟩
      · rw [List.pairwise_append]
        refine ⟨ho.pairwise, List.pairwise_singleton _ _, ?_⟩
        intro r hr r' hr'
        obtain rfl := List.mem_singleton.mp hr'
        exact ho.started r hr start (by rw [hpc]; rfl)
      · intro r hr
        rcases List.mem_append.mp hr with hold | hnew
        · exact ho.finished r hold
        · obtain rfl := List.mem_singleton.mp hnew
          exact Nat.le_refl _
  | _ => exact ⟨hknows, ho.pairwise, hfinished, ho.started⟩

/-! ### The value returned -/

theorem join_toNat (msb lsb : UInt32) : (join msb lsb).toNat = msb.toNat * period + lsb.toNat := by
  have hmsb := msb.toNat_lt
  have hlsb := lsb.toNat_lt
  have hshift : (msb.toUInt64 <<< 32).toNat = msb.toNat <<< 32 := by
    rw [UInt64.toNat_shiftLeft, UInt32.toNat_toUInt64, Nat.shiftLeft_eq, Nat.shiftLeft_eq]
    exact Nat.mod_eq_of_lt (by change msb.toNat * 4294967296 < _; omega)
  rw [join, UInt64.toNat_or, hshift, UInt32.toNat_toUInt64, ← Nat.shiftLeft_add_eq_or_of_lt hlsb,
    Nat.shiftLeft_eq]
  rfl

theorem toNat_ofNat_word {n : Nat} (h : n < period) : (UInt32.ofNat n).toNat = n :=
  UInt32.toNat_ofNat_of_lt' h

/-- A call that leaves its loop returns the tick count at its read of the counter, less the wraps not counted then. -/
theorem Ordered.value_eq {start instant late : Nat} {msb lsb : UInt32} (hs : c.Counts) (ho : c.Ordered)
    (hpc : c.reader = .check start msb lsb instant late) (heq : msb = c.timeMsb)
    (hticks : c.ticks < period * period) :
    start ≤ instant ∧ instant ≤ c.ticks ∧ (join msb lsb).toNat + late * period = instant := by
  have hknows := ho.knows
  rw [hpc] at hknows
  obtain ⟨hstart, hinstant, hlsb, hlate, hle, k, hk, hmsb⟩ := hknows
  have hcounted : c.counted ≤ c.ticks / period := Nat.sub_le _ _
  have hlt : c.ticks / period < period := Nat.div_lt_of_lt_mul hticks
  -- `time_msb` is the same before and after the read of the counter, so no wrap was counted meanwhile
  have hsame : k = c.counted := by
    have h : UInt32.ofNat k = UInt32.ofNat c.counted := by rw [← hmsb, heq, hs.timeMsb]
    have h := congrArg UInt32.toNat h
    rwa [toNat_ofNat_word (by omega), toNat_ofNat_word (by omega)] at h
  have hkmsb : msb.toNat = k := by
    rw [hmsb, toNat_ofNat_word (by omega)]
  have hcv : lsb.toNat = instant % period := by
    rw [hlsb, UInt32.toNat_ofNat']
    rfl
  refine ⟨hstart, hinstant, ?_⟩
  rw [join_toNat, hkmsb, hcv]
  unfold period at *
  omega

theorem exact_step (hs : c.Counts) (ho : c.Ordered) (hticks : c'.ticks < period * period)
    (h : c.Step e c') :
    (∀ r ∈ c'.readings, r.Exact) ↔ (∀ r ∈ c.readings, r.Exact) ∧ c.Timely e := by
  have hlt := Nat.lt_of_le_of_lt (ticks_le h) hticks
  cases h with
  | msb start hpc | lsb start msb hpc => simp [Timely, hpc]
  | again start msb lsb instant late hpc hne => simp [Timely, hpc, hne]
  | leave start msb lsb instant late hpc heq =>
      obtain ⟨hstart, hinstant, hvalue⟩ := ho.value_eq hs hpc heq hlt
      have hnew : Reading.Exact ⟨start, join msb lsb, c.ticks⟩ ↔
          (late = 0 ∨ start + late * period ≤ instant) := by
        constructor
        · rintro ⟨t, hst, _, rfl⟩
          dsimp only at hst
          omega
        · intro hlate
          refine ⟨_, ?_, ?_, rfl⟩ <;> dsimp only
          · rcases hlate with rfl | hlate <;> omega
          · omega
      simp only [List.forall_mem_append, List.forall_mem_singleton, hnew]
      simp [Timely, hpc, heq]
  | _ => simp [Timely]

theorem Ordered.neverBackwards_iff (ho : c.Ordered) :
    c.NeverBackwards ↔ ∀ r ∈ c.readings, r.Exact := by
  refine ⟨And.left, fun h => ⟨h, ?_⟩⟩
  apply ho.pairwise.imp_of_mem
  intro r r' hr hr' hfinish
  obtain ⟨t, _, hle, ht⟩ := h r hr
  obtain ⟨t', hge, _, ht'⟩ := h r' hr'
  rw [UInt64.le_iff_toNat_le]
  omega

theorem counts_run {es : List Event} (h : run step rtimerArchInit es = some c) : c.Counts ∧ c.Ordered :=
  invariant_run (fun c => c.Counts ∧ c.Ordered)
    (fun _ _ _ hs h => ⟨counts_step hs.1 (step_cases h), ordered_step hs.1 hs.2 (step_cases h)⟩)
    es ⟨counts_init, ordered_init⟩ h

/-- `TC0_Handler` is never entered with the flag clear, so its assertion holds. -/
theorem tc0Handler_sound {es : List Event} (h : run step rtimerArchInit es = some c) :
    c.handler ≠ .failed :=
  (counts_run h).1.sound

/-- **The clock.** Over a run of less than `2^64` ticks every call returns the tick count of an instant while it ran, and no call less than an earlier one, exactly if every call that returns read the counter with no wrap uncounted, or had been running for that many periods. -/
theorem neverBackwards_run_iff {es : List Event} (h : run step rtimerArchInit es = some c)
    (hticks : c.ticks < period * period) :
    c.NeverBackwards ↔ Along step Timely rtimerArchInit es := by
  have hexact : (∀ r ∈ c.readings, r.Exact) ↔
      (∀ r ∈ rtimerArchInit.readings, r.Exact) ∧ Along step Timely rtimerArchInit es :=
    iff_along (I := fun c => c.Counts ∧ c.Ordered) (B := fun c => c.ticks < period * period)
      (P := fun c => ∀ r ∈ c.readings, r.Exact)
      (fun _ _ _ hs h => ⟨counts_step hs.1 (step_cases h), ordered_step hs.1 hs.2 (step_cases h)⟩)
      (fun _ _ _ h hlt => Nat.lt_of_le_of_lt (ticks_le (step_cases h)) hlt)
      (fun _ _ _ hs hlt h => exact_step hs.1 hs.2 hlt (step_cases h))
      es ⟨counts_init, ordered_init⟩ h hticks
  rw [(counts_run h).2.neverBackwards_iff, hexact]
  simp [rtimerArchInit]

/-- A tick, a call on either side of it. -/
private def twoCalls : List Event :=
  [.call, .reader, .reader, .reader, .tick, .call, .reader, .reader, .reader]

theorem neverBackwards_twoCalls : ∃ c, run step rtimerArchInit twoCalls = some c ∧
    (c.NeverBackwards ↔ Along step Timely rtimerArchInit twoCalls) :=
  ⟨_, rfl, neverBackwards_run_iff rfl (by decide)⟩

theorem run_ticks (n : Nat) (c : Clock) (h : c.ticks + n < period) :
    run step c (List.replicate n .tick) = some { c with ticks := c.ticks + n } := by
  induction n generalizing c with
  | zero => rfl
  | succ n ih =>
      have hwrap : (c.ticks + 1) % period ≠ 0 := by
        rw [Nat.mod_eq_of_lt (by omega)]
        omega
      rw [List.replicate_succ, run_cons]
      refine ⟨{ c with ticks := c.ticks + 1 }, by simp [step, tick, hwrap], ?_⟩
      rw [ih _ (by dsimp only; omega)]
      simp [Nat.add_assoc, Nat.add_comm 1]

/-- The counter wraps between the two calls, and the second one is made before the handler runs: it returns 0. -/
theorem runs_backwards : ∃ c, run step rtimerArchInit (List.replicate 4294967295 .tick ++ twoCalls) = some c ∧
    c.readings = [⟨4294967295, 4294967295, 4294967295⟩, ⟨4294967296, 0, 4294967296⟩] ∧
    ¬ c.NeverBackwards := by
  have hrun : ∃ c, run step { rtimerArchInit with ticks := 4294967295 } twoCalls = some c ∧
      decide (c.readings = [⟨4294967295, 4294967295, 4294967295⟩, ⟨4294967296, 0, 4294967296⟩]) = true :=
    exists_run (by decide +kernel)
  obtain ⟨c, hc, hreadings⟩ := hrun
  have hreadings := of_decide_eq_true hreadings
  refine ⟨c, ?_, hreadings, ?_⟩
  · have hticks := run_ticks 4294967295 rtimerArchInit (by decide)
    rw [run_append, hticks, Option.bind_some]
    exact hc
  · intro h
    have hle := h.2
    rw [hreadings] at hle
    exact absurd hle (by decide)

end Clock

end ContikiAtsam.Rtimer
