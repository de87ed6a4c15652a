import Mathlib.Tactic.Common

/-!
# Loops

A loop is a turn taken again and again: from a state a turn either goes on with another state or leaves the loop with a result. `Loop.run` takes at most a given number of turns and is `none` when they do not suffice, so that a loop has a result is something to prove. A loop whose turns can go wrong is run by `Loop.runChecked`, where to need more turns is to go wrong as well; the rule for it is the usual one of total correctness, an invariant and a variant.
-/

namespace ContikiAtsam

inductive Turn (σ ρ : Type*) where
  | again (s : σ)
  | leave (r : ρ)

namespace Loop

variable {σ ρ : Type*}

def run (turn : σ → Turn σ ρ) : Nat → σ → Option ρ
  | 0, _ => none
  | fuel + 1, s =>
    match turn s with
    | .again s' => run turn fuel s'
    | .leave r => some r

theorem run_again {turn : σ → Turn σ ρ} {s s' : σ} (h : turn s = .again s') (fuel : Nat) :
    run turn (fuel + 1) s = run turn fuel s' := by
  rw [run, h]

theorem run_leave {turn : σ → Turn σ ρ} {s : σ} {r : ρ} (h : turn s = .leave r) (fuel : Nat) :
    run turn (fuel + 1) s = some r := by
  rw [run, h]

/-- What every turn keeps holds of the result. -/
theorem run_of_invariant {turn : σ → Turn σ ρ} (I : σ → Prop) (Q : ρ → Prop)
    (hagain : ∀ s s', I s → turn s = .again s' → I s') (hleave : ∀ s r, I s → turn s = .leave r → Q r)
    {fuel : Nat} {s : σ} {r : ρ} (hs : I s) (hrun : run turn fuel s = some r) : Q r := by
  induction fuel generalizing s with
  | zero => cases hrun
  | succ fuel ih =>
      cases hturn : turn s with
      | again s' =>
          rw [run_again hturn] at hrun
          exact ih (hagain s s' hs hturn) hrun
      | leave r' =>
          rw [run_leave hturn] at hrun
          exact Option.some.inj hrun ▸ hleave s r' hs hturn

section Checked

variable {ε : Type*}

def runChecked (turn : σ → Except ε (Turn σ ρ)) (endless : ε) : Nat → σ → Except ε ρ
  | 0, _ => .error endless
  | fuel + 1, s =>
    match turn s with
    | .error e => .error e
    | .ok (.again s') => runChecked turn endless fuel s'
    | .ok (.leave r) => .ok r

/-- **Total correctness.** If every turn from the invariant either goes on within it with a smaller variant or leaves with `Q`, then the loop leaves with `Q` after at most as many turns as the variant says, and one more. -/
theorem runChecked_of_variant {turn : σ → Except ε (Turn σ ρ)} (endless : ε) (I : σ → Nat → Prop)
    (Q : ρ → Prop)
    (hturn : ∀ s k, I s k → (∃ s' k', turn s = .ok (.again s') ∧ I s' k' ∧ k' < k) ∨
      ∃ r, turn s = .ok (.leave r) ∧ Q r)
    {fuel k : Nat} {s : σ} (hs : I s k) (hfuel : k < fuel) :
    ∃ r, runChecked turn endless fuel s = .ok r ∧ Q r := by
  induction fuel generalizing s k with
  | zero => omega
  | succ fuel ih =>
      rcases hturn s k hs with ⟨s', k', hagain, hs', hlt⟩ | ⟨r, hleave, hr⟩
      · obtain ⟨r, hrun, hr⟩ := ih hs' (by omega)
        exact ⟨r, by rw [runChecked, hagain]; exact hrun, hr⟩
      · exact ⟨r, by rw [runChecked, hleave], hr⟩

end Checked

end Loop

end ContikiAtsam
