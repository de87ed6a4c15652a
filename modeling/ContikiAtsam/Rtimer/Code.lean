import ContikiAtsam.Base.Run

/-!
# The real-time clock

`rtimer-arch.c` builds a 64-bit clock out of a 32-bit counter. The counter TC0 runs freely; when it wraps it raises the RC-compare flag, and the interrupt handler counts the wrap in `time_msb`. `rtimer_arch_now` reads the high word, the counter and the high word again, until the high word is the same twice.

Hardware, handler and reader take turns in any order, one access to shared data at a time. The reader may stand between two steps of the handler, since it may be called where TC0 is masked or from a handler that TC0 does not preempt. The counter does not wrap again before the handler has read the flag of the wrap before.
-/

namespace ContikiAtsam.Rtimer

/-- The number of ticks from one wrap of the counter to the next. -/
def period : Nat := 4294967296

/-- Where `TC0_Handler` stands. -/
inductive Handler where
  | out
  | value
  | status
  | test (tcStatus : Bool)
  | failed
  deriving DecidableEq

/-- Where `rtimer_arch_now` stands: before each of its three reads. Besides its variables a call carries what it is judged by: the number of ticks when it started, when it read the counter, and how many wraps were not counted then. -/
inductive Reader where
  | out
  | msb (start : Nat)
  | lsb (start : Nat) (msb : UInt32)
  | check (start : Nat) (msb lsb : UInt32) (instant late : Nat)
  deriving DecidableEq

/-- A finished call of `rtimer_arch_now`. -/
structure Reading where
  start : Nat
  value : UInt64
  finish : Nat
  deriving DecidableEq

structure Clock where
  /-- The ticks since `tc_start`. -/
  ticks : Nat
  /-- The flag `TC_SR_CPCS`. -/
  cpcs : Bool
  timeMsb : UInt32
  handler : Handler
  reader : Reader
  readings : List Reading
  deriving DecidableEq

inductive Event where
  | tick
  | interrupt
  | handler
  | call
  | reader
  deriving DecidableEq

def rtimerArchInit : Clock where
  ticks := 0
  cpcs := false
  timeMsb := 0
  handler := .out
  reader := .out
  readings := []

/-- `tc_read_cv`. -/
def Clock.cv (c : Clock) : UInt32 := UInt32.ofNat c.ticks

/-- The value `rtimer_arch_now` returns. -/
def join (msb lsb : UInt32) : UInt64 := (msb.toUInt64 <<< 32) ||| lsb.toUInt64

namespace Clock

/-- The wraps the handler has not counted in `time_msb` yet. -/
def uncounted (c : Clock) : Nat :=
  (if c.cpcs then 1 else 0) + (if c.handler = .test true then 1 else 0)

def tick (c : Clock) : Option Clock :=
  if (c.ticks + 1) % period = 0 then
    if c.cpcs then none else some { c with ticks := c.ticks + 1, cpcs := true }
  else some { c with ticks := c.ticks + 1 }

/-- One step of `TC0_Handler`. Reading the status register clears the flag. -/
def tc0Handler (c : Clock) : Option Clock :=
  match c.handler with
  | .out | .failed => none
  | .value => some { c with handler := .status }
  | .status => some { c with handler := .test c.cpcs, cpcs := false }
  | .test true => some { c with handler := .out, timeMsb := c.timeMsb + 1 }
  | .test false => some { c with handler := .failed }

/-- One step of `rtimer_arch_now`. -/
def rtimerArchNow (c : Clock) : Option Clock :=
  match c.reader with
  | .out => none
  | .msb start => some { c with reader := .lsb start c.timeMsb }
  | .lsb start msb => some { c with reader := .check start msb c.cv c.ticks c.uncounted }
  | .check start msb lsb _ _ =>
    if msb ≠ c.timeMsb then some { c with reader := .msb start }
    else some { c with reader := .out, readings := c.readings ++ [⟨start, join msb lsb, c.ticks⟩] }

def step (c : Clock) : Event → Option Clock
  | .tick => c.tick
  | .interrupt => if c.cpcs ∧ c.handler = .out then some { c with handler := .value } else none
  | .handler => c.tc0Handler
  | .call => if c.reader = .out then some { c with reader := .msb c.ticks } else none
  | .reader => c.rtimerArchNow

/-- What one step does. -/
inductive Step (c : Clock) : Event → Clock → Prop where
  | tick (h : (c.ticks + 1) % period ≠ 0) : Step c .tick { c with ticks := c.ticks + 1 }
  | wrap (h : (c.ticks + 1) % period = 0) (hcpcs : c.cpcs = false) :
      Step c .tick { c with ticks := c.ticks + 1, cpcs := true }
  | interrupt (hcpcs : c.cpcs = true) (hout : c.handler = .out) :
      Step c .interrupt { c with handler := .value }
  | value (h : c.handler = .value) : Step c .handler { c with handler := .status }
  | status (h : c.handler = .status) :
      Step c .handler { c with handler := .test c.cpcs, cpcs := false }
  | count (h : c.handler = .test true) :
      Step c .handler { c with handler := .out, timeMsb := c.timeMsb + 1 }
  | fail (h : c.handler = .test false) : Step c .handler { c with handler := .failed }
  | call (h : c.reader = .out) : Step c .call { c with reader := .msb c.ticks }
  | msb (start : Nat) (h : c.reader = .msb start) :
      Step c .reader { c with reader := .lsb start c.timeMsb }
  | lsb (start : Nat) (msb : UInt32) (h : c.reader = .lsb start msb) :
      Step c .reader { c with reader := .check start msb c.cv c.ticks c.uncounted }
  | again (start : Nat) (msb lsb : UInt32) (instant late : Nat)
      (h : c.reader = .check start msb lsb instant late) (hne : msb ≠ c.timeMsb) :
      Step c .reader { c with reader := .msb start }
  | leave (start : Nat) (msb lsb : UInt32) (instant late : Nat)
      (h : c.reader = .check start msb lsb instant late) (heq : msb = c.timeMsb) :
      Step c .reader
        { c with reader := .out, readings := c.readings ++ [⟨start, join msb lsb, c.ticks⟩] }

theorem step_cases {c c' : Clock} {e : Event} (h : c.step e = some c') : c.Step e c' := by
  cases e with
  | tick =>
      simp only [step, tick] at h
      split at h
      · rename_i hwrap
        split at h
        · cases h
        · rename_i hcpcs
          cases h
          exact .wrap hwrap (by simpa using hcpcs)
      · rename_i hwrap
        cases h
        exact .tick hwrap
  | interrupt =>
      simp only [step] at h
      split at h
      · rename_i hguard
        cases h
        exact .interrupt hguard.1 hguard.2
      · cases h
  | handler =>
      simp only [step, tc0Handler] at h
      split at h <;> cases h
      · exact .value (by assumption)
      · exact .status (by assumption)
      · exact .count (by assumption)
      · exact .fail (by assumption)
  | call =>
      simp only [step] at h
      split at h
      · rename_i hout
        cases h
        exact .call hout
      · cases h
  | reader =>
      simp only [step, rtimerArchNow] at h
      split at h
      · cases h
      · cases h
        exact .msb _ (by assumption)
      · cases h
        exact .lsb _ _ (by assumption)
      · rename_i hpc
        split at h
        · rename_i hne
          cases h
          exact .again _ _ _ _ _ hpc hne
        · rename_i heq
          cases h
          exact .leave _ _ _ _ _ hpc (by simpa using heq)

end Clock

end ContikiAtsam.Rtimer
