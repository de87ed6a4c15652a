import ContikiAtsam.Base.Run

/-!
# The system tick

`clock.c` counts milliseconds in the handler of the system tick. The event-timer library, which runs below the handler, keeps the time its next timer expires; the handler compares that time with the count and asks the library to run when they meet.

Only what the two share of the library is here: whether a timer is pending, the stored expiration time, and the reading of the clock it was computed from. The handler runs from start to end between two steps of the library, and the library reads the clock, adds a timer to its list and stores a time in separate steps, in any order and as often as it likes.
-/

namespace ContikiAtsam.Systick

/-- `CLOCK_SECOND`. -/
def clockSecond : UInt16 := 1000

/-- Where `clock_time` stands: before each of its two reads. -/
inductive Reader where
  | out
  | first
  | second (t1 : UInt32)
  deriving DecidableEq

structure Clock where
  count : UInt32
  currentSeconds : UInt32
  secondCountdown : UInt16
  reader : Reader
  /-- The library's last reading of `clock_time`. -/
  now : Option UInt32
  /-- `etimer_pending`. -/
  pending : Bool
  /-- `etimer_next_expiration_time`. -/
  next : UInt32
  /-- The expiration time was stored for a timer that is pending or about to be. -/
  stored : Bool
  /-- The handler has run with a timer pending since the time was stored. -/
  watched : Bool
  /-- The handler has called `etimer_request_poll` since the time was stored. -/
  polled : Bool
  deriving DecidableEq

inductive Event where
  | tick
  | call
  | read
  | pend
  | store (interval : UInt32)
  | clear
  deriving DecidableEq

def clockInit : Clock where
  count := 0
  currentSeconds := 0
  secondCountdown := clockSecond
  reader := .out
  now := none
  pending := false
  next := 0
  stored := false
  watched := false
  polled := false

namespace Clock

def etimerRequestPoll (s : Clock) : Clock := { s with polled := true }

/-- The handler's counting of ticks and of seconds. -/
def countTick (s : Clock) : Clock :=
  if s.secondCountdown - 1 = 0 then
    { s with count := s.count + 1, secondCountdown := clockSecond, currentSeconds := s.currentSeconds + 1 }
  else { s with count := s.count + 1, secondCountdown := s.secondCountdown - 1 }

/-- The handler's test for an expiration. -/
def checkEtimer (s : Clock) : Clock :=
  if s.pending = true ∧ s.next = s.count then s.etimerRequestPoll else s

/-- `SysTick_Handler`. -/
def sysTickHandler (s : Clock) : Clock :=
  { s.countTick.checkEtimer with watched := s.watched || s.pending }

/-- One step of `clock_time`. -/
def clockTime (s : Clock) : Option Clock :=
  match s.reader with
  | .out => none
  | .first => some { s with reader := .second s.count }
  | .second t1 =>
    if t1 ≠ s.count then some { s with reader := .first } else some { s with reader := .out, now := some t1 }

def step (s : Clock) : Event → Option Clock
  | .tick => some s.sysTickHandler
  | .call => if s.reader = .out then some { s with reader := .first } else none
  | .read => s.clockTime
  | .pend => some { s with pending := true }
  | .store interval =>
    s.now.map fun t => { s with next := t + interval, stored := true, watched := false, polled := false }
  | .clear => some { s with pending := false, stored := false }

/-- What one step does. -/
inductive Step (s : Clock) : Event → Clock → Prop where
  | tick : Step s .tick s.sysTickHandler
  | call (h : s.reader = .out) : Step s .call { s with reader := .first }
  | first (h : s.reader = .first) : Step s .read { s with reader := .second s.count }
  | again (t1 : UInt32) (h : s.reader = .second t1) (hne : t1 ≠ s.count) : Step s .read { s with reader := .first }
  | leave (t1 : UInt32) (h : s.reader = .second t1) (heq : t1 = s.count) :
      Step s .read { s with reader := .out, now := some t1 }
  | pend : Step s .pend { s with pending := true }
  | store (interval t : UInt32) (h : s.now = some t) :
      Step s (.store interval) { s with next := t + interval, stored := true, watched := false, polled := false }
  | clear : Step s .clear { s with pending := false, stored := false }

theorem step_cases {s s' : Clock} {e : Event} (h : s.step e = some s') : s.Step e s' := by
  cases e with
  | tick =>
      cases h
      exact .tick
  | call =>
      simp only [step] at h
      split at h
      · rename_i hout
        cases h
        exact .call hout
      · cases h
  | read =>
      simp only [step, clockTime] at h
      split at h
      · cases h
      · cases h
        exact .first (by assumption)
      · rename_i hsecond
        split at h
        · rename_i hne
          cases h
          exact .again _ hsecond hne
        · rename_i heq
          cases h
          exact .leave _ hsecond (by simpa using heq)
  | pend =>
      cases h
      exact .pend
  | store interval =>
      obtain ⟨t, hnow, rfl⟩ := Option.map_eq_some_iff.mp h
      exact .store interval t hnow
  | clear =>
      cases h
      exact .clear

/-! ### What the handler changes -/

variable (s : Clock)

theorem countTick_eq : ∃ seconds countdown,
    s.countTick = { s with count := s.count + 1, currentSeconds := seconds, secondCountdown := countdown } := by
  unfold countTick
  split
  · exact ⟨_, _, rfl⟩
  · exact ⟨_, _, rfl⟩

theorem checkEtimer_eq : s.checkEtimer = { s with polled := s.polled || (s.pending && s.next == s.count) } := by
  unfold checkEtimer
  split
  · rename_i hmeet
    simp [etimerRequestPoll, hmeet.1, hmeet.2]
  · rename_i hmeet
    have hfalse : (s.pending && s.next == s.count) = false := by simpa using hmeet
    rw [hfalse, Bool.or_false]

theorem sysTickHandler_eq : ∃ seconds countdown,
    s.sysTickHandler =
      { s with
        count := s.count + 1, currentSeconds := seconds, secondCountdown := countdown
        watched := s.watched || s.pending, polled := s.polled || (s.pending && s.next == s.count + 1) } := by
  obtain ⟨seconds, countdown, h⟩ := s.countTick_eq
  refine ⟨seconds, countdown, ?_⟩
  rw [sysTickHandler, checkEtimer_eq, h]

@[simp] theorem sysTickHandler_count : s.sysTickHandler.count = s.count + 1 := by
  obtain ⟨_, _, h⟩ := s.sysTickHandler_eq
  rw [h]

@[simp] theorem sysTickHandler_pending : s.sysTickHandler.pending = s.pending := by
  obtain ⟨_, _, h⟩ := s.sysTickHandler_eq
  rw [h]

@[simp] theorem sysTickHandler_next : s.sysTickHandler.next = s.next := by
  obtain ⟨_, _, h⟩ := s.sysTickHandler_eq
  rw [h]

@[simp] theorem sysTickHandler_stored : s.sysTickHandler.stored = s.stored := by
  obtain ⟨_, _, h⟩ := s.sysTickHandler_eq
  rw [h]

@[simp] theorem sysTickHandler_watched : s.sysTickHandler.watched = (s.watched || s.pending) := rfl

@[simp] theorem sysTickHandler_polled :
    s.sysTickHandler.polled = true ↔ s.polled = true ∨ s.pending = true ∧ s.next = s.count + 1 := by
  obtain ⟨_, _, h⟩ := s.sysTickHandler_eq
  simp [h]

/-! ### Seconds -/

/-- After so many ticks they are counted right, and so are the whole seconds. -/
structure Counts (n : Nat) (s : Clock) : Prop where
  count : s.count = UInt32.ofNat n
  currentSeconds : s.currentSeconds = UInt32.ofNat (n / 1000)
  secondCountdown : s.secondCountdown = UInt16.ofNat (1000 - n % 1000)

variable {s} {s' : Clock}

theorem countdown_sub (n : Nat) : UInt16.ofNat (1000 - n % 1000) - 1 = UInt16.ofNat (999 - n % 1000) := by
  have hmod : n % 1000 < 1000 := Nat.mod_lt _ (by decide)
  have hsplit : 1000 - n % 1000 = 999 - n % 1000 + 1 := by omega
  rw [hsplit, UInt16.ofNat_add]
  exact UInt16.add_sub_cancel _ _

theorem Counts.tick {n : Nat} (h : s.Counts n) : s.sysTickHandler.Counts (n + 1) := by
  obtain ⟨hcount, hseconds, hcountdown⟩ := h
  have hchecked : ∀ c : Clock, c.Counts (n + 1) → (Clock.checkEtimer c).Counts (n + 1) := by
    intro c hc
    rw [checkEtimer_eq]
    exact ⟨hc.1, hc.2, hc.3⟩
  have hticked : s.countTick.Counts (n + 1) := by
    unfold countTick
    rw [hcountdown, countdown_sub]
    have hmod : n % 1000 < 1000 := Nat.mod_lt _ (by decide)
    have hzero : UInt16.ofNat (999 - n % 1000) = 0 ↔ n % 1000 = 999 := by
      rw [← UInt16.toNat_inj, UInt16.toNat_ofNat']
      simp only [UInt16.toNat_zero]
      omega
    split
    · rename_i hwhole
      have hlast := hzero.mp hwhole
      have hdiv : (n + 1) / 1000 = n / 1000 + 1 := by omega
      have hstart : (n + 1) % 1000 = 0 := by omega
      refine ⟨by simp [hcount, UInt32.ofNat_add], by simp [hseconds, hdiv, UInt32.ofNat_add], ?_⟩
      rw [hstart]
      rfl
    · rename_i hwhole
      have hnot : n % 1000 ≠ 999 := fun hlast => hwhole (hzero.mpr hlast)
      have hdiv : (n + 1) / 1000 = n / 1000 := by omega
      have hleft : 999 - n % 1000 = 1000 - (n + 1) % 1000 := by omega
      exact ⟨by simp [hcount, UInt32.ofNat_add], by simp [hseconds, hdiv], by rw [hleft]⟩
  have h := hchecked _ hticked
  exact ⟨h.1, h.2, h.3⟩

theorem Counts.step {n : Nat} {e : Event} (h : s.Counts n) (hs : s.step e = some s') :
    s'.Counts (if e = .tick then n + 1 else n) := by
  cases step_cases hs with
  | tick => exact h.tick
  | _ => exact ⟨h.1, h.2, h.3⟩

theorem counts_run : ∀ (es : List Event) {n : Nat} {s s' : Clock}, s.Counts n → run step s es = some s' →
    s'.Counts (n + es.count .tick)
  | [], n, s, s', h, hrun => by
      obtain rfl := Option.some.inj hrun
      exact h
  | e :: es, n, s, s'', h, hrun => by
      obtain ⟨s', hs', hrest⟩ := run_cons.mp hrun
      have hend := counts_run es (h.step hs') hrest
      rw [List.count_cons]
      split at hend
      · rename_i htick
        simpa [htick, Nat.add_assoc, Nat.add_comm 1] using hend
      · rename_i htick
        simpa [htick] using hend

end Clock

theorem counts_clockInit : clockInit.Counts 0 := ⟨rfl, rfl, rfl⟩

/-- **The clock counts.** In every run the count is the number of ticks, and the seconds are the whole seconds in it. -/
theorem clock_counts {es : List Event} {s : Clock} (hrun : run Clock.step clockInit es = some s) :
    s.Counts (es.count .tick) := by
  have hcounts := Clock.counts_run es counts_clockInit hrun
  rwa [Nat.zero_add] at hcounts

end ContikiAtsam.Systick
