import ContikiAtsam.Systick.Code

/-!
# Expirations and ticks

The handler compares for equality, so it notices an expiration only at the tick at which the count arrives at the stored time. A time that is still ahead when the handler first runs after it was stored is arrived at, however the counter wraps on the way. A time that is reached or behind by then is not: the library read the clock, the count moved on, and the handler waits for the counter to come round.
-/

namespace ContikiAtsam.Systick.Clock

/-- How many ticks the stored time is ahead of the count, modulo the width of the counter. -/
def ahead (s : Clock) : Nat := (s.next - s.count).toNat

/-- The stored time is not later than the count, as the two are compared modulo the width of the counter. -/
def Expired (s : Clock) : Prop := (s.count - s.next).toNat < 2147483648

instance (s : Clock) : Decidable s.Expired := inferInstanceAs (Decidable (_ < _))

/-- If a timer is pending whose stored time is not later than the count, a poll has been requested since it was stored. -/
def Noticed (s : Clock) : Prop := s.pending = true → s.stored = true → s.Expired → s.polled = true

instance (s : Clock) : Decidable s.Noticed :=
  inferInstanceAs (Decidable (s.pending = true → s.stored = true → s.Expired → s.polled = true))

/-- A tick after which every expiration is noticed. -/
def Caught (s : Clock) : Event → Prop
  | .tick => s.sysTickHandler.Noticed
  | _ => True

instance decidableCaught : ∀ (s : Clock) (e : Event), Decidable (s.Caught e)
  | s, .tick => inferInstanceAs (Decidable s.sysTickHandler.Noticed)
  | _, .call => isTrue trivial
  | _, .read => isTrue trivial
  | _, .pend => isTrue trivial
  | _, .store _ => isTrue trivial
  | _, .clear => isTrue trivial

/-- When the handler first runs with a timer pending after its time was stored, that time is still ahead, by half of the counter's range at most. -/
def Early (s : Clock) : Event → Prop
  | .tick => s.pending = true → s.stored = true → s.watched = false → 1 ≤ s.ahead ∧ s.ahead ≤ 2147483649
  | _ => True

variable {s s' : Clock} {e : Event}

/-! ### Distances -/

theorem expired_iff : s.Expired ↔ s.ahead = 0 ∨ 2147483648 < s.ahead := by
  have hnext := s.next.toNat_lt
  have hcount := s.count.toNat_lt
  simp only [Expired, ahead, UInt32.toNat_sub]
  omega

theorem ahead_sysTickHandler : s.sysTickHandler.ahead = (s.ahead + 4294967295) % 4294967296 := by
  have hnext := s.next.toNat_lt
  have hcount := s.count.toNat_lt
  simp only [ahead, sysTickHandler_next, sysTickHandler_count, UInt32.toNat_sub, UInt32.toNat_add]
  simp only [UInt32.reduceToNat, Nat.reducePow]
  omega

theorem ahead_eq_one : s.ahead = 1 ↔ s.next = s.count + 1 := by
  have hnext := s.next.toNat_lt
  have hcount := s.count.toNat_lt
  rw [← UInt32.toNat_inj]
  simp only [ahead, UInt32.toNat_sub, UInt32.toNat_add]
  simp only [UInt32.reduceToNat, Nat.reducePow]
  omega

theorem ahead_lt : s.ahead < 4294967296 := (s.next - s.count).toNat_lt

/-! ### One handler run -/

/-- What the handler has seen of a stored time: a timer has been pending since, and the time is polled for or still ahead. -/
structure Watches (s : Clock) : Prop where
  pending : s.stored = true → s.watched = true → s.pending = true
  watched : s.polled = true → s.watched = true
  ahead : s.stored = true → s.watched = true → s.polled = false → 1 ≤ s.ahead ∧ s.ahead ≤ 2147483648

theorem watches_clockInit : clockInit.Watches where
  pending h := by cases h
  watched h := by cases h
  ahead h := by cases h

theorem not_polled_of_handler (h : s.sysTickHandler.polled = false) : s.polled = false := by
  by_contra htrue
  rw [Bool.not_eq_false] at htrue
  rw [(sysTickHandler_polled s).mpr (.inl htrue)] at h
  cases h

/-- After the handler has run, a time that was ahead has been polled for or is ahead still. -/
theorem sysTickHandler_ahead (h : 1 ≤ s.ahead ∧ s.ahead ≤ 2147483649) (hpending : s.pending = true)
    (hpolled : s.sysTickHandler.polled = false) :
    1 ≤ s.sysTickHandler.ahead ∧ s.sysTickHandler.ahead ≤ 2147483648 := by
  have hone : s.ahead ≠ 1 := by
    intro hone
    have hpoll := sysTickHandler_polled s |>.mpr (.inr ⟨hpending, ahead_eq_one.mp hone⟩)
    rw [hpolled] at hpoll
    cases hpoll
  rw [ahead_sysTickHandler]
  omega

theorem Watches.ahead_le (hs : s.Watches) (hstored : s.stored = true) (hpolled : s.polled = false)
    (hearly : s.watched = false → 1 ≤ s.ahead ∧ s.ahead ≤ 2147483649) : 1 ≤ s.ahead ∧ s.ahead ≤ 2147483649 := by
  cases hwatched : s.watched with
  | false => exact hearly hwatched
  | true =>
      have hahead := hs.ahead hstored hwatched hpolled
      omega

theorem Watches.caught_iff (hs : s.Watches) : s.Caught e ↔ s.Early e := by
  cases e with
  | tick =>
      have hlt := s.ahead_lt
      simp only [Caught, Early, Noticed, sysTickHandler_pending, sysTickHandler_stored, expired_iff]
      refine imp_congr_right fun hpending => imp_congr_right fun hstored => ?_
      constructor
      · intro hnoticed hwatched
        by_contra hfar
        -- The time is reached or behind: this handler run passes it by.
        have hpoll := hnoticed (by rw [ahead_sysTickHandler]; omega)
        rcases (sysTickHandler_polled s).mp hpoll with hpolled | ⟨-, hmeet⟩
        · rw [hs.watched hpolled] at hwatched
          cases hwatched
        · have hone := ahead_eq_one.mpr hmeet
          omega
      · intro hearly hexpired
        by_contra hpolled
        simp only [Bool.not_eq_true] at hpolled
        have hahead := hs.ahead_le hstored (not_polled_of_handler hpolled) hearly
        have hstill := sysTickHandler_ahead hahead hpending hpolled
        omega
  | _ => exact Iff.rfl

theorem Watches.step (hs : s.Watches) (hearly : s.Early e) (h : s.step e = some s') : s'.Watches := by
  cases step_cases h with
  | tick =>
      refine ⟨?_, ?_, ?_⟩
      · intro hstored hwatched
        simp only [sysTickHandler_stored, sysTickHandler_watched, sysTickHandler_pending, Bool.or_eq_true] at *
        exact hwatched.elim (hs.pending hstored) id
      · intro hpolled
        simp only [sysTickHandler_watched, Bool.or_eq_true]
        rcases (sysTickHandler_polled s).mp hpolled with hpolled | ⟨hpending, -⟩
        · exact .inl (hs.watched hpolled)
        · exact .inr hpending
      · intro hstored hwatched hpolled
        simp only [sysTickHandler_stored, sysTickHandler_watched, Bool.or_eq_true] at hstored hwatched
        have hpending : s.pending = true := hwatched.elim (hs.pending hstored) id
        have hahead := hs.ahead_le hstored (not_polled_of_handler hpolled) (hearly hpending hstored)
        exact sysTickHandler_ahead hahead hpending hpolled
  | pend => exact ⟨fun _ _ => rfl, hs.watched, hs.ahead⟩
  | store interval t hnow => exact ⟨fun _ h => (nomatch h), fun h => (nomatch h), fun _ h => (nomatch h)⟩
  | clear => exact ⟨fun h => (nomatch h), hs.watched, fun h => (nomatch h)⟩
  | call | first | again | leave => exact ⟨hs.pending, hs.watched, hs.ahead⟩

/-! ### Whole runs -/

/-- **Expirations are noticed.** In a run of ticks, readings and stores no handler run leaves an expired timer without a poll, exactly if every stored time was still ahead when the handler first ran after it was stored. -/
theorem ticks_catch_expirations (es : List Event) : Along step Caught clockInit es ↔ Along step Early clockInit es :=
  along_iff_along Watches (fun _ _ hs => hs.caught_iff) (fun _ _ _ hs _ hcaught h => hs.step (hs.caught_iff.mp hcaught) h)
    es watches_clockInit (along_of_forall (fun _ _ => trivial) es clockInit)

/-- The library reads the clock, a tick falls between the reading and the store, and the timer of one tick that it stores has expired already: the next tick passes it by. -/
theorem tick_misses_expiration :
    ¬ ∀ es : List Event, Along step Caught clockInit es := by
  intro h
  exact absurd (h [.call, .read, .read, .tick, .pend, .store 1, .tick]) (by decide)

end ContikiAtsam.Systick.Clock
