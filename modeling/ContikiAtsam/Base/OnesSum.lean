import Mathlib.Tactic.Common

/-!
# One's complement sums

The checksum of the Internet protocols. The bytes of a message are added up as big-endian words; the carries are added in again at the low end until none is left, and the message is taken for right if all bits of the result are set. Sums behave as numbers modulo 65535, so a message verifies if its sum is a multiple of 65535 and not zero.

A sender that brings the carries round only once may be left with one, and then its checksum is off by one.
-/

namespace ContikiAtsam.OnesSum

/-- The sum of the words; a last byte without a partner has a zero for one. -/
def wordSum : List UInt8 → Nat
  | [] => 0
  | [a] => 256 * a.toNat
  | a :: b :: rest => 256 * a.toNat + b.toNat + wordSum rest

/-- The carries brought round once. -/
def carry (n : Nat) : Nat := n % 65536 + n / 65536

theorem carry_lt {n : Nat} (h : ¬ n < 65536) : carry n < n := by
  rw [carry]
  omega

/-- The carries brought round until none is left. -/
def fold (n : Nat) : Nat := if n < 65536 then n else fold (carry n)
termination_by n
decreasing_by exact carry_lt ‹_›

/-- The receiver's test. -/
def Verifies (bytes : List UInt8) : Prop := fold (wordSum bytes) = 65535

theorem carry_mod (n : Nat) : carry n % 65535 = n % 65535 := by
  rw [carry]
  omega

theorem carry_pos {n : Nat} (h : 0 < n) : 0 < carry n := by
  rw [carry]
  omega

theorem fold_mod (n : Nat) : fold n % 65535 = n % 65535 := by
  induction n using fold.induct with
  | case1 n hsmall => rw [fold, if_pos hsmall]
  | case2 n hlarge ih => rw [fold, if_neg hlarge, ih, carry_mod]

theorem fold_lt (n : Nat) : fold n < 65536 := by
  induction n using fold.induct with
  | case1 n hsmall => rwa [fold, if_pos hsmall]
  | case2 n hlarge ih => rwa [fold, if_neg hlarge]

theorem fold_pos {n : Nat} (h : 0 < n) : 0 < fold n := by
  induction n using fold.induct with
  | case1 n hsmall => rwa [fold, if_pos hsmall]
  | case2 n hlarge ih =>
      rw [fold, if_neg hlarge]
      exact ih (carry_pos h)

theorem verifies_iff (bytes : List UInt8) : Verifies bytes ↔ 0 < wordSum bytes ∧ wordSum bytes % 65535 = 0 := by
  have hmod := fold_mod (wordSum bytes)
  have hlt := fold_lt (wordSum bytes)
  rw [Verifies]
  constructor
  · intro hfold
    rw [hfold] at hmod
    refine ⟨Nat.pos_of_ne_zero fun hzero => ?_, hmod.symm⟩
    rw [hzero, fold, if_pos (by omega)] at hfold
    omega
  · rintro ⟨hpos, hdvd⟩
    have hfold := fold_pos hpos
    omega

/-! ### Sums of parts -/

theorem wordSum_append {xs : List UInt8} (ys : List UInt8) (h : xs.length % 2 = 0) :
    wordSum (xs ++ ys) = wordSum xs + wordSum ys := by
  induction xs using wordSum.induct with
  | case1 => rw [List.nil_append, wordSum, Nat.zero_add]
  | case2 a => cases h
  | case3 a b rest ih =>
      have hrest : rest.length % 2 = 0 := by
        rw [List.length_cons, List.length_cons] at h
        omega
      rw [List.cons_append, List.cons_append, wordSum, ih hrest, wordSum, Nat.add_assoc _ _ (wordSum ys)]

theorem wordSum_pad (xs : List UInt8) : wordSum (xs ++ [0]) = wordSum xs := by
  induction xs using wordSum.induct with
  | case1 => rfl
  | case2 a => rfl
  | case3 a b rest ih => rw [List.cons_append, List.cons_append, wordSum, ih, wordSum]

theorem wordSum_le (xs : List UInt8) : wordSum xs ≤ 65535 * ((xs.length + 1) / 2) := by
  induction xs using wordSum.induct with
  | case1 => exact Nat.zero_le _
  | case2 a =>
      have ha := a.toNat_lt
      rw [wordSum, List.length_singleton]
      omega
  | case3 a b rest ih =>
      have ha := a.toNat_lt
      have hb := b.toNat_lt
      rw [wordSum, List.length_cons, List.length_cons]
      omega

theorem wordSum_pos {xs : List UInt8} {a : UInt8} (hmem : a ∈ xs) (ha : 0 < a.toNat) : 0 < wordSum xs := by
  induction xs using wordSum.induct with
  | case1 => cases hmem
  | case2 b =>
      obtain rfl := List.mem_singleton.mp hmem
      rw [wordSum]
      omega
  | case3 b c rest ih =>
      rw [wordSum]
      rcases List.mem_cons.mp hmem with rfl | hmem
      · omega
      rcases List.mem_cons.mp hmem with rfl | hmem
      · omega
      · have hrest := ih hmem
        omega

/-- **One round of carries.** The complement of a sum whose carries have been brought round once makes the message verify exactly if none was left. -/
theorem complement_carry_iff {n : Nat} (h : n < 4294967296) :
    0 < n + (65535 - carry n % 65536) ∧ (n + (65535 - carry n % 65536)) % 65535 = 0 ↔ carry n < 65536 := by
  have hmod := carry_mod n
  have hround : carry n ≤ 131070 := by
    rw [carry]
    omega
  have hzero : n = 0 → carry n = 0 := by
    rintro rfl
    rfl
  omega

end ContikiAtsam.OnesSum
