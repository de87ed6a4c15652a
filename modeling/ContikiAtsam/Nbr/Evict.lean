import ContikiAtsam.Nbr.Keys
import Mathlib.Data.List.MinMax

/-!
# Reusing a key

When every key is in use, a new neighbor takes the key of the first neighbor, from the oldest on, that no table locks and that no other such neighbor is used less than. The tables that use it are told, one after the other, unless a table told before has already removed their item.
-/

namespace ContikiAtsam.Nbr

open Bits Chain

variable {lib : NbrLib} {α κ : Type} {u : Users lib α κ}

namespace NbrTables

variable {s s' : NbrTables lib α κ} {ks : List Nat} {t key : Nat}

/-! ### The search -/

theorem usedCountFrom_eq {used k : Nat} (h : used >>> k = 0) (count : Nat) :
    usedCountFrom used count = count + (List.range k).countP used.testBit := by
  induction k generalizing used count with
  | zero =>
      obtain rfl : used = 0 := h
      rw [usedCountFrom, if_neg (fun hne => hne rfl)]
      rfl
  | succ k ih =>
      rw [usedCountFrom]
      by_cases hused : used = 0
      · subst hused
        rw [if_neg (fun hne => hne rfl), List.countP_eq_zero.mpr, Nat.add_zero]
        intro i _
        rw [Nat.zero_testBit]
        exact Bool.false_ne_true
      · have hhalf : used >>> 1 = used / 2 := Nat.shiftRight_succ used 0
        rw [if_pos hused, hhalf, ih (by rwa [← Nat.shiftRight_succ_inside]), countP_testBit, Nat.and_one_is_mod]
        split <;> omega

theorem Keeps.usedCount_eq (hs : Keeps s ks) (key : Nat) :
    s.usedCount key = s.allTables.countP fun t => decide (s.Uses t key) := by
  have hbyte : (s.usedMap key).toNat >>> 8 = 0 := by
    rw [Nat.shiftRight_eq_div_pow]
    exact Nat.div_eq_of_lt (s.usedMap key).toNat_lt
  have hsplit : 8 = s.allTables.length + (8 - s.allTables.length) := by
    have := hs.tables
    rw [maxNumTables] at this
    omega
  have hrest : ((List.range (8 - s.allTables.length)).map (s.allTables.length + ·)).countP
      (s.usedMap key).toNat.testBit = 0 := by
    rw [List.countP_eq_zero]
    intro i hi
    obtain ⟨j, _, rfl⟩ := List.mem_map.mp hi
    have hbit := hs.usedBits key (s.allTables.length + j) (Nat.le_add_right _ _)
    exact Bool.eq_false_iff.mp hbit
  rw [usedCount, usedCountFrom_eq hbyte, Nat.zero_add, hsplit, List.range_add, List.countP_append, hrest, Nat.add_zero,
    ← hs.index, List.countP_map]
  apply List.countP_congr
  intro t _
  exact decide_eq_true_iff.symm

theorem foldl_argAux_of_zero {f : Nat → Nat} {k : Nat} (hzero : f k = 0) (l : List Nat) :
    l.foldl (List.argAux fun b c => f b < f c) (some k) = some k := by
  induction l with
  | nil => rfl
  | cons c l ih =>
      have hno : ¬ f c < f k := by omega
      have hstay : List.argAux (fun b c => f b < f c) (some k) c = some k := if_neg hno
      rw [List.foldl_cons, hstay, ih]

/-- The loop over the links takes the first of the least used keys that are not locked. -/
theorem leastUsed_eq {first : Option Nat} (hchain : Links s.next first ks) {fuel : Nat} (hfuel : ks.length ≤ fuel)
    {least : Option Nat × Nat} (hleast : ∀ k, least.1 = some k → least.2 = s.usedCount k) :
    (s.leastUsed fuel first least).1 = (ks.filter fun k => s.lockedMap k = 0).foldl
      (List.argAux fun b c => s.usedCount b < s.usedCount c) least.1 := by
  induction ks generalizing first fuel least with
  | nil =>
      obtain rfl : first = none := hchain
      cases fuel <;> rfl
  | cons k ks ih =>
      obtain ⟨rfl, hrest⟩ := hchain
      cases fuel with
      | zero => cases hfuel
      | succ fuel =>
          have hfuel' : ks.length ≤ fuel := by simpa using hfuel
          rw [leastUsed]
          by_cases hlocked : s.lockedMap k = 0
          · rw [if_pos hlocked, List.filter_cons_of_pos (by simpa using hlocked), List.foldl_cons]
            have htake : (least.1 = none ∨ s.usedCount k < least.2) →
                List.argAux (fun b c => s.usedCount b < s.usedCount c) least.1 k = some k := by
              intro h
              cases hk : least.1 with
              | none => rfl
              | some c =>
                  have hless := h.resolve_left (by simp [hk])
                  rw [hleast c hk] at hless
                  exact if_pos hless
            have hkeep : ¬ (least.1 = none ∨ s.usedCount k < least.2) →
                List.argAux (fun b c => s.usedCount b < s.usedCount c) least.1 k = least.1 := by
              intro h
              cases hk : least.1 with
              | none => exact absurd (Or.inl hk) h
              | some c =>
                  have hless : ¬ s.usedCount k < least.2 := fun hless => h (Or.inr hless)
                  rw [hleast c hk] at hless
                  exact if_neg hless
            by_cases hbetter : least.1 = none ∨ s.usedCount k < least.2
            · rw [if_pos hbetter, htake hbetter]
              by_cases hzero : s.usedCount k = 0
              · rw [if_pos hzero, foldl_argAux_of_zero hzero]
              · rw [if_neg hzero]
                exact ih hrest hfuel' fun c hc => congrArg s.usedCount (Option.some.inj hc)
            · rw [if_neg hbetter, hkeep hbetter, ih hrest hfuel' hleast]
          · rw [if_neg hlocked, List.filter_cons_of_neg (by simpa using hlocked), ih hrest hfuel' hleast]

/-- The neighbor to give up for a new one, if there is one: the first of those that are used least. -/
def victim (s : NbrTables lib α κ) : Option Nat :=
  (s.keys.filter fun key => decide (∀ t ∈ s.allTables, ¬ s.Locks t key)).argmin
    fun key => s.allTables.countP fun t => decide (s.Uses t key)

theorem Keeps.leastUsed_eq_victim (hs : Keeps s ks) :
    (s.leastUsed lib.blocks (lib.listHead s.list) (none, 0)).1 = s.victim := by
  have hcount : s.usedCount = fun key => s.allTables.countP fun t => decide (s.Uses t key) := funext hs.usedCount_eq
  have hlocked : (fun key => decide (s.lockedMap key = 0)) = fun key => decide (∀ t ∈ s.allTables, ¬ s.Locks t key) := by
    funext key
    exact decide_eq_decide.mpr (hs.lockedMap_eq_zero_iff key)
  rw [victim, hs.keys_eq, ← hlocked, ← hcount]
  exact leastUsed_eq hs.chain hs.length_le fun k hk => by cases hk

theorem Keeps.victim_mem (hs : Keeps s ks) (h : s.victim = some key) : key ∈ ks ∧ ∀ t ∈ s.allTables, ¬ s.Locks t key := by
  have hmem := List.argmin_mem (Option.mem_def.mpr h)
  rw [hs.keys_eq, List.mem_filter] at hmem
  exact ⟨hmem.1, of_decide_eq_true hmem.2⟩

end NbrTables

end ContikiAtsam.Nbr
