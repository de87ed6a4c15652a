import ContikiAtsam.Rtimer.Clock
import Mathlib.Data.Set.Insert

/-!
# Comparing clock values

`platform-conf.h` makes `rtimer_clock_t` a 64-bit type, so two readings may be compared whenever they lie less than half of its range apart. The two macros that compare them still cast the difference to `signed short`, as for a 16-bit clock: all they see of a distance is what it leaves modulo 65536. They answer right for distances whose low sixteen bits, read as a signed number, are positive, however long the distance is, and wrong for all others.
-/

namespace ContikiAtsam.Rtimer

/-- `RTIMER_CLOCK_DIFF`. -/
def rtimerClockDiff (a b : UInt64) : Int16 := (a - b).toUInt16.toInt16

/-- `RTIMER_CLOCK_LT`. -/
def RtimerClockLt (a b : UInt64) : Prop := (a - b).toUInt16.toInt16 < 0

instance (a b : UInt64) : Decidable (RtimerClockLt a b) := inferInstanceAs (Decidable ((a - b).toUInt16.toInt16 < 0))

/-- The clock after so many ticks. -/
def reading (t : Nat) : UInt64 := UInt64.ofNat t

/-- What comparing two clock values says when the second is the later one. -/
structure Compares (a b : UInt64) : Prop where
  lt : RtimerClockLt a b
  not_gt : ¬ RtimerClockLt b a
  diff_pos : 0 < rtimerClockDiff b a

/-- On the readings of these instants `RTIMER_CLOCK_LT` is a strict total order, and the order of time. -/
structure OrdersByTime (S : Set Nat) : Prop where
  strictTotal : IsStrictTotalOrder S fun t u => RtimerClockLt (reading t) (reading u)
  agrees : ∀ t ∈ S, ∀ u ∈ S, RtimerClockLt (reading t) (reading u) ↔ t < u

/-- The distance is positive as a signed number of sixteen bits. -/
def Near (d : Nat) : Prop := 0 < d % 65536 ∧ d % 65536 < 32768

/-! ### Sixteen bits of a distance -/

theorem toInt_toInt16 (x : UInt16) :
    x.toInt16.toInt = if x.toNat < 32768 then (x.toNat : Int) else x.toNat - 65536 := by
  have hcond : x.toInt16.toInt = if 2 * x.toNat < 65536 then (x.toNat : Int) else x.toNat - 65536 :=
    BitVec.toInt_eq_toNat_cond x.toBitVec
  rw [hcond]
  split <;> split <;> omega

theorem lt_zero_iff (x : UInt16) : x.toInt16 < 0 ↔ 32768 ≤ x.toNat := by
  have hlt := x.toNat_lt
  rw [Int16.lt_iff_toInt_lt, toInt_toInt16, Int16.toInt_zero]
  split <;> omega

theorem zero_lt_iff (x : UInt16) : 0 < x.toInt16 ↔ 0 < x.toNat ∧ x.toNat < 32768 := by
  have hlt := x.toNat_lt
  rw [Int16.lt_iff_toInt_lt, toInt_toInt16, Int16.toInt_zero]
  split <;> omega

theorem ahead_toNat (a : UInt64) (d : Nat) : (a + reading d - a).toUInt16.toNat = d % 65536 := by
  have hsub : a + reading d - a = reading d := by
    rw [UInt64.add_comm, UInt64.add_sub_cancel]
  rw [hsub, reading, UInt64.toNat_toUInt16, UInt64.toNat_ofNat']
  omega

theorem behind_toNat (a : UInt64) (d : Nat) :
    (a - (a + reading d)).toUInt16.toNat = (65536 - d % 65536) % 65536 := by
  have hlt := a.toNat_lt
  simp only [reading, UInt64.toNat_toUInt16, UInt64.toNat_sub, UInt64.toNat_add, UInt64.toNat_ofNat']
  omega

/-- The comparison says the right thing of a value so many ticks later exactly if the distance is near. -/
theorem compares_iff (a : UInt64) (d : Nat) : Compares a (a + reading d) ↔ Near d := by
  have hahead := ahead_toNat a d
  have hbehind := behind_toNat a d
  unfold Near
  constructor
  · intro h
    have hpos := (zero_lt_iff _).mp h.diff_pos
    rwa [hahead] at hpos
  · intro h
    refine ⟨(lt_zero_iff _).mpr ?_, fun hgt => ?_, (zero_lt_iff _).mpr ?_⟩
    · omega
    · have hge := (lt_zero_iff _).mp hgt
      omega
    · rwa [hahead]

/-! ### Sets of readings -/

theorem reading_add (t d : Nat) : reading (t + d) = reading t + reading d := UInt64.ofNat_add t d

theorem compares_reading_iff {t u : Nat} (h : t < u) : Compares (reading t) (reading u) ↔ Near (u - t) := by
  have hadd : u = t + (u - t) := by omega
  conv_lhs => rw [hadd, reading_add]
  exact compares_iff _ _

/-- If two different readings are told apart rightly, whichever they are, then all are in the order of time. -/
theorem ordersByTime_of_near {S : Set Nat} (h : ∀ t ∈ S, ∀ u ∈ S, t < u → Near (u - t)) : OrdersByTime S := by
  have hagrees : ∀ t ∈ S, ∀ u ∈ S, RtimerClockLt (reading t) (reading u) ↔ t < u := by
    intro t ht u hu
    obtain hlt | heq | hgt := Nat.lt_trichotomy t u
    · have hcompares := (compares_reading_iff hlt).mpr (h t ht u hu hlt)
      exact iff_of_true hcompares.lt hlt
    · refine iff_of_false ?_ (by omega)
      rw [heq, RtimerClockLt, UInt64.sub_self]
      decide
    · have hcompares := (compares_reading_iff hgt).mpr (h u hu t ht hgt)
      exact iff_of_false hcompares.not_gt (by omega)
  refine ⟨?_, hagrees⟩
  have hrel : (fun t u : S => RtimerClockLt (reading t) (reading u)) = fun t u : S => t < u := by
    funext t u
    exact propext (hagrees t t.2 u u.2)
  rw [hrel]
  infer_instance

theorem OrdersByTime.near {S : Set Nat} (h : OrdersByTime S) {t u : Nat} (ht : t ∈ S) (hu : u ∈ S) (hlt : t < u) :
    Near (u - t) := by
  have hadd : reading u = reading t + reading (u - t) := by
    rw [← reading_add]
    congr 1
    omega
  have hbefore := (h.agrees t ht u hu).mpr hlt
  have hafter : ¬ RtimerClockLt (reading u) (reading t) := fun hgt => by
    have := (h.agrees u hu t ht).mp hgt
    omega
  rw [RtimerClockLt, lt_zero_iff, hadd, behind_toNat] at hbefore
  rw [RtimerClockLt, lt_zero_iff, hadd, ahead_toNat] at hafter
  unfold Near
  omega

theorem ordersByTime_iff (S : Set Nat) : OrdersByTime S ↔ ∀ t ∈ S, ∀ u ∈ S, t < u → Near (u - t) :=
  ⟨fun h _ ht _ hu hlt => h.near ht hu hlt, ordersByTime_of_near⟩

/-- **Comparison of clock values.** A value is told from one so many ticks later exactly if the distance is near, and a set of readings is in the order of time exactly if every two of them are. Neither depends on how far the distances reach. -/
theorem clock_comparison (a : UInt64) (d : Nat) (S : Set Nat) :
    (Compares a (a + reading d) ↔ Near d) ∧
      (OrdersByTime S ↔ ∀ t ∈ S, ∀ u ∈ S, t < u → Near (u - t)) :=
  ⟨compares_iff a d, ordersByTime_iff S⟩

/-- At a distance of 32768 ticks either clock value is below the other. -/
theorem clock_comparison_fails :
    ¬ ((∀ (a b : UInt64) (d : Nat), b = a + reading d → 0 < d → d < 9223372036854775808 → Compares a b) ∧
      ∀ S : Set Nat, (∀ t ∈ S, ∀ u ∈ S, u - t < 9223372036854775808) → OrdersByTime S) := by
  intro h
  have hcompares := h.1 0 32768 32768 (by decide) (by decide) (by decide)
  exact hcompares.not_gt (by decide)

theorem Reading.Exact.eq_reading {r : Reading} (h : r.Exact) :
    ∃ t, r.start ≤ t ∧ t ≤ r.finish ∧ r.value = reading t := by
  obtain ⟨t, hstart, hfinish, hvalue⟩ := h
  refine ⟨t, hstart, hfinish, ?_⟩
  rw [← hvalue, reading, UInt64.ofNat_toNat]

end ContikiAtsam.Rtimer
