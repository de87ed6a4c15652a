import Mathlib.Tactic.Common

/-!
# A Hamming code with both parities

A word of bits is checked by two sums: the exclusive or of the addresses at which it has a one, and that of the complements of these addresses. A flipped bit changes the first sum by its address and the second by the complement, so over both it changes as many check bits as an address is wide; two flipped bits change both sums alike, so an even number of check bits and at least two. With an odd width the number of changed check bits tells one flip from two, and one flip names the bit.
-/

namespace ContikiAtsam.Hamming

variable {w : Nat}

/-- The exclusive or of the first words of a sequence. -/
def xorSum (f : Nat → BitVec w) : Nat → BitVec w
  | 0 => 0#w
  | n + 1 => xorSum f n ^^^ f n

/-- How many of the first bits of a word are ones. -/
def weight (d : Nat → Bool) : Nat → Nat
  | 0 => 0
  | n + 1 => weight d n + (d n).toNat

/-- The word with one bit inverted. -/
def flip (d : Nat → Bool) (p : Nat) : Nat → Bool := fun i => if i = p then !d i else d i

/-- The sum of the addresses of the ones. -/
def oddCheck (w : Nat) (d : Nat → Bool) (n : Nat) : BitVec w :=
  xorSum (fun p => if d p then BitVec.ofNat w p else 0#w) n

/-- The sum of the complements of the addresses of the ones. -/
def evenCheck (w : Nat) (d : Nat → Bool) (n : Nat) : BitVec w :=
  xorSum (fun p => if d p then ~~~ BitVec.ofNat w p else 0#w) n

/-! ### Sums -/

theorem xorSum_congr {f g : Nat → BitVec w} {n : Nat} (h : ∀ i < n, f i = g i) : xorSum f n = xorSum g n := by
  induction n with
  | zero => rfl
  | succ n ih => rw [xorSum, xorSum, ih fun i hi => h i (by omega), h n (by omega)]

theorem xorSum_of_change {f g : Nat → BitVec w} {n p : Nat} (hp : p < n) (h : ∀ i, i ≠ p → g i = f i) :
    xorSum g n = xorSum f n ^^^ (f p ^^^ g p) := by
  induction n with
  | zero => omega
  | succ n ih =>
      rw [xorSum, xorSum]
      by_cases hlast : p = n
      · have hbefore : xorSum g n = xorSum f n := xorSum_congr fun i hi => h i (by omega)
        rw [hbefore, hlast, ← BitVec.xor_assoc, BitVec.xor_assoc (xorSum f n), BitVec.xor_self, BitVec.xor_zero]
      · rw [ih (by omega), h n (by omega)]
        ac_rfl

theorem xorSum_zero (n : Nat) : xorSum (fun _ => 0#w) n = 0#w := by
  induction n with
  | zero => rfl
  | succ n ih => rw [xorSum, ih, BitVec.xor_zero]

theorem xorSum_xor (f g : Nat → BitVec w) (n : Nat) :
    xorSum (fun i => f i ^^^ g i) n = xorSum f n ^^^ xorSum g n := by
  induction n with
  | zero => exact (BitVec.xor_zero).symm
  | succ n ih =>
      rw [xorSum, xorSum, xorSum, ih]
      ac_rfl

theorem map_xorSum {v : Nat} (φ : BitVec w → BitVec v) (hzero : φ 0#w = 0#v)
    (hxor : ∀ x y, φ (x ^^^ y) = φ x ^^^ φ y) (f : Nat → BitVec w) (n : Nat) :
    φ (xorSum f n) = xorSum (fun i => φ (f i)) n := by
  induction n with
  | zero => exact hzero
  | succ n ih => rw [xorSum, xorSum, hxor, ih]

theorem xorSum_add (f : Nat → BitVec w) (n k : Nat) :
    xorSum f (n + k) = xorSum f n ^^^ xorSum (fun i => f (n + i)) k := by
  induction k with
  | zero => rw [Nat.add_zero, xorSum, BitVec.xor_zero]
  | succ k ih => rw [← Nat.add_assoc, xorSum, xorSum, ih, BitVec.xor_assoc]

theorem xorSum_mul (f : Nat → BitVec w) (k n : Nat) :
    xorSum f (k * n) = xorSum (fun i => xorSum (fun j => f (k * i + j)) k) n := by
  induction n with
  | zero => rfl
  | succ n ih => rw [Nat.mul_succ, xorSum_add, ih, xorSum]

/-- A word that some bits contribute and others do not: only the parity of the contributions matters. -/
theorem xorSum_ite (d : Nat → Bool) (c : BitVec w) (n : Nat) :
    xorSum (fun i => if d i then c else 0#w) n = if weight d n % 2 = 1 then c else 0#w := by
  induction n with
  | zero => rfl
  | succ n ih =>
      rw [xorSum, ih, weight]
      cases d n with
      | false => simp
      | true =>
          rcases Nat.mod_two_eq_zero_or_one (weight d n) with heven | hodd
          · simp [heven, Nat.add_mod]
          · simp [hodd, Nat.add_mod]

/-! ### Weights -/

theorem weight_congr {d e : Nat → Bool} {n : Nat} (h : ∀ i < n, d i = e i) : weight d n = weight e n := by
  induction n with
  | zero => rfl
  | succ n ih => rw [weight, weight, ih fun i hi => h i (by omega), h n (by omega)]

theorem weight_add_weight_not (d : Nat → Bool) (n : Nat) : weight d n + weight (fun i => !d i) n = n := by
  induction n with
  | zero => rfl
  | succ n ih =>
      rw [weight, weight]
      cases d n with
      | false =>
          simp only [Bool.toNat_false, Bool.not_false, Bool.toNat_true]
          omega
      | true =>
          simp only [Bool.toNat_true, Bool.not_true, Bool.toNat_false]
          omega

theorem weight_succ_left (d : Nat → Bool) (n : Nat) : weight d (n + 1) = (d 0).toNat + weight (fun i => d (i + 1)) n := by
  induction n with
  | zero => rw [weight, weight, weight, Nat.zero_add, Nat.add_zero]
  | succ n ih => rw [weight, ih, weight, Nat.add_assoc]

theorem weight_pos {d : Nat → Bool} {n i : Nat} (hi : i < n) (h : d i = true) : 0 < weight d n := by
  induction n with
  | zero => omega
  | succ n ih =>
      rw [weight]
      by_cases hlast : i = n
      · rw [← hlast, h, Bool.toNat_true]
        omega
      · have := ih (by omega)
        omega

theorem eq_false_of_weight_eq_zero {d : Nat → Bool} {n i : Nat} (h : weight d n = 0) (hi : i < n) : d i = false := by
  cases hbit : d i with
  | false => rfl
  | true =>
      have := weight_pos hi hbit
      omega

theorem weight_zero (n : Nat) : weight (fun _ => false) n = 0 := by
  induction n with
  | zero => rfl
  | succ n ih => rw [weight, ih, Bool.toNat_false]

@[simp] theorem flip_self (d : Nat → Bool) (p : Nat) : flip d p p = !d p := if_pos rfl

theorem flip_of_ne (d : Nat → Bool) {p i : Nat} (h : i ≠ p) : flip d p i = d i := if_neg h

theorem weight_flip (d : Nat → Bool) {p n : Nat} (hp : p < n) :
    weight (flip d p) n + (d p).toNat = weight d n + (!d p).toNat := by
  induction n with
  | zero => omega
  | succ n ih =>
      rw [weight, weight]
      by_cases hlast : p = n
      · have hbefore : weight (flip d p) n = weight d n :=
          weight_congr fun i hi => flip_of_ne d (by omega)
        rw [hbefore, ← hlast, flip_self]
        omega
      · rw [flip_of_ne d (Ne.symm hlast)]
        have := ih (by omega)
        omega

/-! ### Flips and check sums -/

variable (d : Nat → Bool) {n p q : Nat}

theorem oddCheck_flip (hp : p < n) : oddCheck w (flip d p) n = oddCheck w d n ^^^ BitVec.ofNat w p := by
  rw [oddCheck, oddCheck, xorSum_of_change hp fun i hi => by rw [flip_of_ne d hi], flip_self]
  cases d p <;> simp

theorem evenCheck_flip (hp : p < n) : evenCheck w (flip d p) n = evenCheck w d n ^^^ ~~~ BitVec.ofNat w p := by
  rw [evenCheck, evenCheck, xorSum_of_change hp fun i hi => by rw [flip_of_ne d hi], flip_self]
  cases d p <;> simp

/-- How many check bits differ when the sums differ by these words. -/
def checkWeight (odd even : BitVec w) : Nat := weight odd.getLsbD w + weight even.getLsbD w

/-- **One flip** changes as many check bits as an address is wide. -/
theorem checkWeight_address (a : BitVec w) : checkWeight a (~~~ a) = w := by
  have hnot : weight (~~~ a).getLsbD w = weight (fun i => !a.getLsbD i) w := by
    apply weight_congr
    intro i hi
    rw [BitVec.getLsbD_not, decide_eq_true hi, Bool.true_and]
  rw [checkWeight, hnot, weight_add_weight_not]

theorem not_xor_not (a b : BitVec w) : ~~~ a ^^^ ~~~ b = a ^^^ b := by
  apply BitVec.eq_of_getLsbD_eq
  intro i hi
  simp [hi]

theorem weight_xor_pos {a b : BitVec w} (h : a ≠ b) : 0 < weight (a ^^^ b).getLsbD w := by
  by_contra hzero
  apply h
  apply BitVec.eq_of_getLsbD_eq
  intro i hi
  by_contra hne
  have hbit : (a ^^^ b).getLsbD i = true := by
    rw [BitVec.getLsbD_xor]
    cases ha : a.getLsbD i <;> cases hb : b.getLsbD i <;> simp_all
  exact hzero (weight_pos hi hbit)

/-- **Two flips** change an even number of check bits, and not none. -/
theorem checkWeight_addresses {a b : BitVec w} (h : a ≠ b) :
    ∃ k, 0 < k ∧ checkWeight (a ^^^ b) (~~~ a ^^^ ~~~ b) = 2 * k :=
  ⟨_, weight_xor_pos h, by rw [checkWeight, not_xor_not, Nat.two_mul]⟩

end ContikiAtsam.Hamming
