import Mathlib.Data.List.Basic
import Mathlib.Tactic.Common

/-!
# Bits of bytes and words

A byte used as a set of eight flags: a mask selects one of them, and the flags that are set can be counted by shifting the byte out. A register word is put together from fields and taken apart with masks.
-/

namespace ContikiAtsam.Bits

variable {mask : UInt8} {k : Nat}

theorem toBitVec_mask (hk : k < 8) : (UInt8.ofNat (1 <<< k)).toBitVec = BitVec.twoPow 8 k := by
  match k, hk with
  | 0, _ | 1, _ | 2, _ | 3, _ | 4, _ | 5, _ | 6, _ | 7, _ => rfl

theorem and_mask_ne_zero_iff (hk : k < 8) (hmask : mask.toBitVec = BitVec.twoPow 8 k) (x : UInt8) :
    x &&& mask ≠ 0 ↔ x.toBitVec.getLsbD k = true := by
  have hzero : (x &&& mask).toBitVec = if x.toBitVec.getLsbD k then BitVec.twoPow 8 k else 0#8 := by
    rw [UInt8.toBitVec_and, hmask, BitVec.and_twoPow]
  rw [ne_eq, ← UInt8.toBitVec_inj, hzero]
  by_cases hbit : x.toBitVec.getLsbD k = true
  · rw [if_pos hbit]
    refine iff_of_true (fun h => ?_) hbit
    have hat := congrArg (fun y => y.getLsbD k) h
    simp [hk] at hat
  · rw [if_neg hbit]
    exact iff_of_false (fun h => h rfl) hbit

theorem getLsbD_or_mask (hk : k < 8) (hmask : mask.toBitVec = BitVec.twoPow 8 k) (x : UInt8) (i : Nat) :
    (x ||| mask).toBitVec.getLsbD i = (x.toBitVec.getLsbD i || decide (i = k)) := by
  rw [UInt8.toBitVec_or, hmask, BitVec.getLsbD_or, BitVec.getLsbD_twoPow, decide_eq_true hk, Bool.true_and]
  simp only [eq_comm]

theorem getLsbD_and_not_mask (hk : k < 8) (hmask : mask.toBitVec = BitVec.twoPow 8 k) (x : UInt8) (i : Nat) :
    (x &&& ~~~ mask).toBitVec.getLsbD i = (x.toBitVec.getLsbD i && !decide (i = k)) := by
  rw [UInt8.toBitVec_and, UInt8.toBitVec_not, hmask, BitVec.getLsbD_and, BitVec.getLsbD_not, BitVec.getLsbD_twoPow,
    decide_eq_true hk, Bool.true_and]
  by_cases hi : i < 8
  · rw [decide_eq_true hi, Bool.true_and]
    simp only [eq_comm]
  · rw [BitVec.getLsbD_of_ge _ i (by omega), Bool.false_and, Bool.false_and]

theorem eq_zero_iff (x : UInt8) : x = 0 ↔ ∀ i < 8, x.toBitVec.getLsbD i = false := by
  constructor
  · rintro rfl i _
    exact BitVec.getLsbD_zero
  · intro h
    rw [← UInt8.toBitVec_inj]
    apply BitVec.eq_of_getLsbD_eq
    intro i hi
    rw [h i hi]
    exact BitVec.getLsbD_zero.symm

theorem countP_testBit (n k : Nat) : (List.range (k + 1)).countP n.testBit =
    (if n % 2 = 1 then 1 else 0) + (List.range k).countP (n / 2).testBit := by
  have hrest : (fun i => n.testBit (i + 1)) = (n / 2).testBit := by
    funext i
    rw [Nat.testBit_succ]
  rw [List.range_succ_eq_map, List.countP_cons, List.countP_map, Nat.testBit_zero, Nat.add_comm]
  change _ + (List.range k).countP (fun i => n.testBit (i + 1)) = _
  rw [hrest]
  simp only [decide_eq_true_eq]

theorem or_and (a b c : UInt32) : (a ||| b) &&& c = (a &&& c) ||| (b &&& c) := by
  rw [← UInt32.toBitVec_inj, UInt32.toBitVec_and, UInt32.toBitVec_or, UInt32.toBitVec_or, UInt32.toBitVec_and,
    UInt32.toBitVec_and]
  ext i hi
  simp only [BitVec.getElem_and, BitVec.getElem_or, Bool.and_or_distrib_right]

end ContikiAtsam.Bits
