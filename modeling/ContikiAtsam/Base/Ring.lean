import Mathlib.Data.List.Nodup
import Mathlib.Data.List.Perm.Subperm
import Mathlib.Data.Nat.ModEq

/-!
# Circular indices

`n` cells in a circle hold a queue from a start index on: the `i`-th entry lies in cell `(start + i) % n`. Appending at the end and removing at the start move no other entry.
-/

namespace ContikiAtsam.Ring

variable {α : Type*} {n start : Nat} {cell cell' : Nat → α} {queue : List α} {x : α}

theorem index_inj {i j : Nat} (hi : i < n) (hj : j < n) (h : (start + i) % n = (start + j) % n) :
    i = j := by
  have hmod : i ≡ j [MOD n] := Nat.ModEq.add_left_cancel' start h
  rwa [Nat.ModEq, Nat.mod_eq_of_lt hi, Nat.mod_eq_of_lt hj] at hmod

/-- Among `n` consecutive positions, two that share a cell are the same. -/
theorem eq_of_mod_eq {a b : Nat} (ha : start ≤ a) (ha' : a < start + n) (hb : start ≤ b) (hb' : b < start + n)
    (h : a % n = b % n) : a = b := by
  obtain ⟨i, rfl⟩ := Nat.exists_eq_add_of_le ha
  obtain ⟨j, rfl⟩ := Nat.exists_eq_add_of_le hb
  exact congrArg _ (index_inj (by omega) (by omega) h)

theorem index_succ (i : Nat) : ((start + 1) % n + i) % n = (start + (i + 1)) % n := by
  rw [Nat.mod_add_mod, Nat.add_assoc, Nat.add_comm 1 i]

def Holds (n : Nat) (cell : Nat → α) (start : Nat) (queue : List α) : Prop :=
  ∀ i (hi : i < queue.length), cell ((start + i) % n) = queue[i]

theorem holds_nil : Holds n cell start [] := by
  intro i hi
  exact absurd hi (Nat.not_lt_zero i)

theorem Holds.head (h : Holds n cell start (x :: queue)) (hstart : start < n) : cell start = x := by
  have h0 := h 0 (by simp)
  rwa [Nat.add_zero, Nat.mod_eq_of_lt hstart] at h0

theorem Holds.pop (h : Holds n cell start (x :: queue)) : Holds n cell ((start + 1) % n) queue := by
  intro i hi
  rw [index_succ]
  exact h (i + 1) (by simpa using hi)

theorem Holds.push (h : Holds n cell start queue) (hroom : queue.length < n)
    (hnew : cell' ((start + queue.length) % n) = x)
    (hframe : ∀ i, i ≠ (start + queue.length) % n → cell' i = cell i) :
    Holds n cell' start (queue ++ [x]) := by
  intro i hi
  rw [List.length_append, List.length_singleton] at hi
  rcases Nat.lt_or_ge i queue.length with hold | hlast
  · have hne : (start + i) % n ≠ (start + queue.length) % n := by
      intro heq
      have := index_inj (by omega) hroom heq
      omega
    rw [hframe _ hne, h i hold, List.getElem_append_left hold]
  · obtain rfl : i = queue.length := by omega
    rw [hnew, List.getElem_concat_length rfl]

/-! ### Counting cells -/

theorem foldl_count (p : Nat → Bool) (is : List Nat) (n : Nat) :
    is.foldl (fun used i => if p i then used + 1 else used) n = n + is.countP p := by
  induction is generalizing n with
  | nil => rfl
  | cons i is ih =>
      rw [List.foldl_cons, ih, List.countP_cons]
      cases p i
      · simp
      · simp only [if_true]
        omega

theorem countP_lt (n m : Nat) : (List.range n).countP (fun i => decide (i < m)) = min n m := by
  induction n with
  | zero => simp
  | succ n ih =>
      rw [List.range_succ, List.countP_append, ih, List.countP_singleton]
      by_cases h : n < m
      · rw [if_pos (decide_eq_true h)]
        omega
      · rw [if_neg (by simpa using h)]
        omega

theorem rotate_perm (start : Nat) (hn : 0 < n) : ((List.range n).map fun i => (start + i) % n).Perm (List.range n) := by
  have hnodup : ((List.range n).map fun i => (start + i) % n).Nodup := by
    apply List.Nodup.map_on _ List.nodup_range
    intro i hi j hj heq
    exact index_inj (List.mem_range.mp hi) (List.mem_range.mp hj) heq
  have hsub : ((List.range n).map fun i => (start + i) % n).Subperm (List.range n) := by
    apply List.subperm_of_subset hnodup
    intro i hi
    obtain ⟨j, -, rfl⟩ := List.mem_map.mp hi
    exact List.mem_range.mpr (Nat.mod_lt _ hn)
  exact hsub.perm_of_length_le (by rw [List.length_map])

/-- A loop over all cells that counts those with a property finds as many as there are, where these are the first ones from some cell on. -/
theorem foldl_count_eq (p : Nat → Bool) {m : Nat} (hn : 0 < n) (hm : m ≤ n)
    (hfirst : ∀ i, i < n → p ((start + i) % n) = decide (i < m)) :
    (List.range n).foldl (fun used i => if p i then used + 1 else used) 0 = m := by
  rw [foldl_count, Nat.zero_add, ← (rotate_perm start hn).countP_eq, List.countP_map]
  rw [List.countP_congr fun i hi => by rw [Function.comp_apply, hfirst i (List.mem_range.mp hi)], countP_lt,
    Nat.min_eq_right hm]

end ContikiAtsam.Ring
