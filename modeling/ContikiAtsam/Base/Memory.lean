import Mathlib.Data.List.GetD
import Mathlib.Tactic.Common

/-!
# Byte memory

A memory maps every address to a byte. Reading a range gives a list of bytes and writing one replaces a range, so a copy is a read followed by a write. What the rest of the development needs is the frame rule: a range that a write does not touch reads the same before and after.
-/

namespace ContikiAtsam

/-- What stops a call before it returns: a failed assertion, or an access outside the object the call works on. -/
inductive Fault where
  | assertion
  | outOfBounds
  deriving DecidableEq, Repr

abbrev Memory := Nat → UInt8

namespace Memory

/-- The `n` bytes from `base` on. -/
def load (m : Memory) (base n : Nat) : List UInt8 :=
  (List.range n).map fun i => m (base + i)

/-- The memory after `bytes` are written from `base` on. -/
def store (m : Memory) (base : Nat) (bytes : List UInt8) : Memory :=
  fun i => if i < base then m i else bytes.getD (i - base) (m i)

@[simp] theorem load_length (m : Memory) (base n : Nat) : (m.load base n).length = n := by
  simp [load]

@[simp] theorem getElem_load (m : Memory) (base n i : Nat) (hi : i < (m.load base n).length) :
    (m.load base n)[i] = m (base + i) := by
  simp [load]

theorem store_of_outside {m : Memory} {base i : Nat} {bytes : List UInt8}
    (h : i < base ∨ base + bytes.length ≤ i) : m.store base bytes i = m i := by
  unfold store
  split
  · rfl
  · exact List.getD_eq_default _ _ (by omega)

theorem store_of_inside {m : Memory} {base i : Nat} {bytes : List UInt8} (hi : i < bytes.length) :
    m.store base bytes (base + i) = bytes[i] := by
  rw [store, if_neg (by omega), Nat.add_sub_cancel_left, List.getD_eq_getElem _ _ hi]

theorem load_congr {m m' : Memory} {base n : Nat} (h : ∀ i, i < n → m (base + i) = m' (base + i)) :
    m.load base n = m'.load base n := by
  apply List.ext_getElem (by simp)
  intro i hi _
  simpa using h i (by simpa using hi)

@[simp] theorem load_store_self (m : Memory) (base : Nat) (bytes : List UInt8) :
    (m.store base bytes).load base bytes.length = bytes := by
  apply List.ext_getElem (by simp)
  intro i _ hi
  rw [getElem_load, store_of_inside hi]

theorem load_store_of_length {m : Memory} {base n : Nat} {bytes : List UInt8} (h : bytes.length = n) :
    (m.store base bytes).load base n = bytes := by
  rw [← h, load_store_self]

/-- **The frame rule.** A write leaves every range disjoint from it as it was. -/
theorem load_store_of_disjoint {m : Memory} {base base' n : Nat} {bytes : List UInt8}
    (h : base + n ≤ base' ∨ base' + bytes.length ≤ base) :
    (m.store base' bytes).load base n = m.load base n :=
  load_congr fun _ _ => store_of_outside (by omega)

theorem load_add (m : Memory) (base k n : Nat) :
    m.load base (k + n) = m.load base k ++ m.load (base + k) n := by
  simp [load, List.range_add, Function.comp_def, Nat.add_assoc]

theorem take_load (m : Memory) (base k n : Nat) (h : k ≤ n) : (m.load base n).take k = m.load base k := by
  obtain ⟨d, rfl⟩ := Nat.exists_eq_add_of_le h
  rw [load_add, List.take_left' (load_length _ _ _)]

theorem load_eq_append_iff {m : Memory} {base : Nat} {xs ys : List UInt8} :
    m.load base (xs.length + ys.length) = xs ++ ys ↔
      m.load base xs.length = xs ∧ m.load (base + xs.length) ys.length = ys := by
  rw [load_add]
  constructor
  · intro h
    exact List.append_inj h (by simp)
  · rintro ⟨hx, hy⟩
    rw [hx, hy]

theorem load_append_iff {m : Memory} {base : Nat} {xs ys : List UInt8} :
    m.load base (xs ++ ys).length = xs ++ ys ↔
      m.load base xs.length = xs ∧ m.load (base + xs.length) ys.length = ys := by
  rw [List.length_append, load_eq_append_iff]

theorem store_store_append (m : Memory) (base : Nat) (xs ys : List UInt8) :
    (m.store base xs).store (base + xs.length) ys = m.store base (xs ++ ys) := by
  funext i
  rcases Nat.lt_or_ge i base with hlow | hlow
  · rw [store_of_outside (by omega), store_of_outside (by omega), store_of_outside (by omega)]
  obtain ⟨k, rfl⟩ := Nat.exists_eq_add_of_le hlow
  rcases Nat.lt_or_ge k xs.length with hx | hx
  · rw [store_of_outside (by omega), store_of_inside hx,
      store_of_inside (by rw [List.length_append]; omega), List.getElem_append_left hx]
  obtain ⟨j, rfl⟩ := Nat.exists_eq_add_of_le hx
  rcases Nat.lt_or_ge j ys.length with hy | hy
  · rw [← Nat.add_assoc, store_of_inside hy, Nat.add_assoc,
      store_of_inside (by rw [List.length_append]; omega), List.getElem_append_right hx]
    simp
  · rw [store_of_outside (by omega), store_of_outside (by omega),
      store_of_outside (by rw [List.length_append]; omega)]

theorem store_comm (m : Memory) {base base' : Nat} {xs ys : List UInt8}
    (h : base + xs.length ≤ base' ∨ base' + ys.length ≤ base) :
    (m.store base xs).store base' ys = (m.store base' ys).store base xs := by
  funext i
  by_cases hx : base ≤ i ∧ i < base + xs.length
  · obtain ⟨k, rfl⟩ := Nat.exists_eq_add_of_le hx.1
    have hk : k < xs.length := by omega
    rw [store_of_outside (m := m.store base xs) (by omega), store_of_inside hk, store_of_inside hk]
  · have hout : (m.store base' ys).store base xs i = m.store base' ys i := store_of_outside (by omega)
    rw [hout]
    by_cases hy : base' ≤ i ∧ i < base' + ys.length
    · obtain ⟨k, rfl⟩ := Nat.exists_eq_add_of_le hy.1
      have hk : k < ys.length := by omega
      rw [store_of_inside hk, store_of_inside hk]
    · rw [store_of_outside (by omega), store_of_outside (by omega), store_of_outside (by omega)]

/-- A write is determined by what each address holds after it. -/
theorem store_apply (m : Memory) (base i : Nat) (bytes : List UInt8) :
    m.store base bytes i =
      if h : base ≤ i ∧ i - base < bytes.length then bytes[i - base] else m i := by
  by_cases h : base ≤ i ∧ i - base < bytes.length
  · rw [dif_pos h]
    have hi : m.store base bytes (base + (i - base)) = bytes[i - base] := store_of_inside h.2
    rwa [Nat.add_sub_cancel' h.1] at hi
  · rw [dif_neg h, store_of_outside (by omega)]

theorem store_singleton (m : Memory) (base i : Nat) (b : UInt8) : m.store base [b] i = if i = base then b else m i := by
  by_cases h : i = base
  · have hin : m.store base [b] (base + 0) = b := store_of_inside Nat.one_pos
    rw [h, if_pos rfl]
    exact hin
  · rw [if_neg h]
    exact store_of_outside (by rw [List.length_singleton]; omega)

theorem store_load_self (m : Memory) (base n : Nat) : m.store base (m.load base n) = m := by
  funext i
  rw [store_apply]
  split
  · rename_i h
    rw [getElem_load, Nat.add_sub_cancel' h.1]
  · rfl

/-- A loop that moves bytes downwards one by one, from the first on, moves the range as a whole. -/
theorem foldl_store_down (m : Memory) (base off n : Nat) :
    (List.range n).foldl (fun m i => m.store (base + i) [m (off + base + i)]) m = m.store base (m.load (off + base) n) := by
  induction n with
  | zero => exact (store_load_self m base 0).symm
  | succ n ih =>
      have hlen : (m.load (off + base) n).length = n := load_length ..
      have hkept : m.store base (m.load (off + base) n) (off + base + n) = m (off + base + n) :=
        store_of_outside (by omega)
      have hlast : m.load (off + base) (n + 1) = m.load (off + base) n ++ [m (off + base + n)] := load_add ..
      rw [List.range_succ, List.foldl_append, ih, List.foldl_cons, List.foldl_nil, hkept, hlast, ← store_store_append, hlen]

/-! ### Memories that agree below a bound -/

def AgreeBelow (k : Nat) (m m' : Memory) : Prop := ∀ i, i < k → m i = m' i

theorem AgreeBelow.load {k : Nat} {m m' : Memory} (h : AgreeBelow k m m') {base n : Nat} (hle : base + n ≤ k) :
    m.load base n = m'.load base n :=
  load_congr fun i _ => h (base + i) (by omega)

theorem AgreeBelow.store {k : Nat} {m m' : Memory} (h : AgreeBelow k m m') (base : Nat) (bytes : List UInt8) :
    AgreeBelow k (m.store base bytes) (m'.store base bytes) := by
  intro i hi
  rw [store_apply, store_apply, h i hi]

theorem AgreeBelow.copy {k : Nat} {m m' : Memory} (h : AgreeBelow k m m') (dst : Nat) {base n : Nat} (hle : base + n ≤ k) :
    AgreeBelow k (m.store dst (m.load base n)) (m'.store dst (m'.load base n)) := by
  rw [h.load hle]
  exact h.store dst _

/-! ### Halfwords

A 16-bit field takes two bytes, the low one first. -/

def halfword (x : UInt16) : List UInt8 :=
  [UInt8.ofNat x.toNat, UInt8.ofNat (x.toNat / 256)]

def load16 (m : Memory) (base : Nat) : UInt16 :=
  UInt16.ofNat ((m base).toNat + 256 * (m (base + 1)).toNat)

@[simp] theorem halfword_length (x : UInt16) : (halfword x).length = 2 := rfl

theorem load16_eq_of_load {m : Memory} {base : Nat} {x : UInt16} (h : m.load base 2 = halfword x) :
    m.load16 base = x := by
  simp only [load, halfword, List.range_succ, List.range_zero, List.nil_append,
    List.map_cons, List.map_nil, List.cons_append, List.cons.injEq, and_true, Nat.add_zero] at h
  have hx := x.toNat_lt
  apply UInt16.toNat_inj.mp
  simp only [load16, h.1, h.2, UInt16.toNat_ofNat', UInt8.toNat_ofNat']
  omega

theorem load16_congr {m m' : Memory} {base : Nat} (h : m.load base 2 = m'.load base 2) :
    m.load16 base = m'.load16 base := by
  have hlo := congrArg (fun l => l[0]?) h
  have hhi := congrArg (fun l => l[1]?) h
  simp only [load, List.range_succ, List.range_zero, List.nil_append, List.map_cons,
    List.map_nil, List.cons_append, List.getElem?_cons_zero, List.getElem?_cons_succ,
    Option.some.injEq, Nat.add_zero] at hlo hhi
  rw [load16, load16, hlo, hhi]

end Memory

end ContikiAtsam
