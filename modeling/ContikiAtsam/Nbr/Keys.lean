import ContikiAtsam.Base.Bits
import ContikiAtsam.Nbr.Code

/-!
# The keys and their bits

The keys in use are the allocated blocks, in the list from the oldest on, with different addresses. The bits of a registered table are its own, and no bit is set that belongs to no table.
-/

namespace ContikiAtsam.Nbr

open Bits Chain

variable {lib : NbrLib} {α κ : Type} {u : Users lib α κ}

namespace NbrTables

/-- The keys in the list, from the oldest on. -/
def keys (s : NbrTables lib α κ) : List Nat := walk s.next lib.blocks (lib.listHead s.list)

variable {s : NbrTables lib α κ} {ks : List Nat} {t key : Nat}

/-- The table uses the key. -/
def Uses (s : NbrTables lib α κ) (t key : Nat) : Prop := (s.usedMap key).toBitVec.getLsbD (s.index t) = true

def Locks (s : NbrTables lib α κ) (t key : Nat) : Prop := (s.lockedMap key).toBitVec.getLsbD (s.index t) = true

instance (s : NbrTables lib α κ) (t key : Nat) : Decidable (s.Uses t key) := inferInstanceAs (Decidable (_ = _))

instance (s : NbrTables lib α κ) (t key : Nat) : Decidable (s.Locks t key) := inferInstanceAs (Decidable (_ = _))

/-- The list goes through the keys, and every table is at its place. -/
structure Keeps (s : NbrTables lib α κ) (ks : List Nat) : Prop where
  chain : Links s.next (lib.listHead s.list) ks
  nodup : ks.Nodup
  bound : ∀ key ∈ ks, key < lib.blocks
  allocated : ∀ key, lib.allocated s.mem key ↔ key ∈ ks
  distinct : (ks.map s.lladdr).Nodup
  unused : ∀ key, key ∉ ks → s.usedMap key = 0
  tables : s.allTables.length ≤ maxNumTables
  index : s.allTables.map s.index = List.range s.allTables.length
  usedBits : ∀ key i, s.allTables.length ≤ i → (s.usedMap key).toBitVec.getLsbD i = false
  lockedBits : ∀ key i, s.allTables.length ≤ i → (s.lockedMap key).toBitVec.getLsbD i = false

theorem Keeps.length_le (hs : Keeps s ks) : ks.length ≤ lib.blocks := length_le_of_nodup hs.nodup hs.bound

theorem Keeps.keys_eq (hs : Keeps s ks) : s.keys = ks := hs.chain.walk_eq hs.length_le

theorem Keeps.index_lt (hs : Keeps s ks) (ht : t ∈ s.allTables) : s.index t < s.allTables.length := by
  have hmem := List.mem_map_of_mem (f := s.index) ht
  rw [hs.index] at hmem
  exact List.mem_range.mp hmem

theorem Keeps.index_lt_eight (hs : Keeps s ks) (ht : t ∈ s.allTables) : s.index t < 8 :=
  Nat.lt_of_lt_of_le (hs.index_lt ht) hs.tables

theorem Keeps.index_inj (hs : Keeps s ks) {t' : Nat} (ht : t ∈ s.allTables) (ht' : t' ∈ s.allTables)
    (h : s.index t = s.index t') : t = t' := by
  have hnodup : (s.allTables.map s.index).Nodup := by
    rw [hs.index]
    exact List.nodup_range
  exact List.inj_on_of_nodup_map hnodup ht ht' h

/-! ### Items -/

theorem indexFromItem_itemFromKey (u : Users lib α κ) (t : Nat) (key : Option Nat) :
    indexFromItem u t (itemFromKey u t key) = key := by
  cases key with
  | none => rfl
  | some key => exact congrArg some (Nat.mul_div_cancel key (u.itemSize_pos t))

theorem nbrTableGetLladdr_key (u : Users lib α κ) (s : NbrTables lib α κ) (t key : Nat) :
    s.nbrTableGetLladdr u t (itemFromKey u t (some key)) = some (s.lladdr key) := by
  rw [nbrTableGetLladdr, keyFromItem, indexFromItem_itemFromKey, Option.map_some]

/-! ### Bits -/

theorem nbrGetBit_itemFromKey (bitmap : Nat → UInt8) (key : Nat) (hindex : s.index t < 8) :
    s.nbrGetBit u bitmap t (itemFromKey u t (some key)) = (bitmap key).toBitVec.getLsbD (s.index t) := by
  rw [nbrGetBit, indexFromItem_itemFromKey, Bool.eq_iff_iff, decide_eq_true_iff]
  exact and_mask_ne_zero_iff hindex (toBitVec_mask hindex) _

theorem getLsbD_nbrSetBit (bitmap : Nat → UInt8) (item : Option Nat) (value : Bool) (hindex : s.index t < 8) (key i : Nat) :
    ((s.nbrSetBit u bitmap t item value).2 key).toBitVec.getLsbD i =
      if indexFromItem u t item = some key ∧ i = s.index t then value else (bitmap key).toBitVec.getLsbD i := by
  rw [nbrSetBit]
  cases hitem : indexFromItem u t item with
  | none => simp
  | some p =>
      by_cases hkey : key = p
      · subst hkey
        simp only [Function.update_self, true_and]
        cases value with
        | true =>
            rw [if_pos rfl]
            refine (getLsbD_or_mask hindex (toBitVec_mask hindex) _ i).trans ?_
            by_cases hi : i = s.index t <;> simp [hi]
        | false =>
            rw [if_neg Bool.false_ne_true]
            refine (getLsbD_and_not_mask hindex (toBitVec_mask hindex) _ i).trans ?_
            by_cases hi : i = s.index t <;> simp [hi]
      · have hne : ¬ (some p = some key ∧ i = s.index t) := fun h => hkey (Option.some.inj h.1).symm
        simp only [Function.update_of_ne hkey]
        rw [if_neg hne]

theorem Keeps.lockedMap_eq_zero_iff (hs : Keeps s ks) (key : Nat) :
    s.lockedMap key = 0 ↔ ∀ t ∈ s.allTables, ¬ s.Locks t key := by
  rw [eq_zero_iff]
  constructor
  · intro hzero t ht hlocks
    rw [Locks, hzero _ (hs.index_lt_eight ht)] at hlocks
    cases hlocks
  · intro hunlocked i _
    by_cases hi : i < s.allTables.length
    · have hmem : i ∈ s.allTables.map s.index := by
        rw [hs.index]
        exact List.mem_range.mpr hi
      obtain ⟨t, ht, rfl⟩ := List.mem_map.mp hmem
      exact Bool.eq_false_iff.mpr (hunlocked t ht)
    · exact hs.lockedBits key i (by omega)

theorem Keeps.not_uses (hs : Keeps s ks) (hkey : key ∉ ks) : ¬ s.Uses t key := by
  rw [Uses, hs.unused key hkey]
  exact fun h => Bool.false_ne_true (BitVec.getLsbD_zero.symm.trans h)

/-! ### Looking up -/

variable [DecidableEq α]

theorem Keeps.indexFromLladdr_eq (hs : Keeps s ks) (lladdr : Option α) :
    s.indexFromLladdr u lladdr = ks.find? fun key => decide (lladdr.getD u.linkaddrNull = s.lladdr key) :=
  hs.chain.search_eq hs.length_le _

theorem Keeps.indexFromLladdr_eq_none (hs : Keeps s ks) {lladdr : Option α} (h : s.indexFromLladdr u lladdr = none) :
    lladdr.getD u.linkaddrNull ∉ ks.map s.lladdr := by
  rw [hs.indexFromLladdr_eq, List.find?_eq_none] at h
  intro hmem
  obtain ⟨key, hkey, heq⟩ := List.mem_map.mp hmem
  exact h key hkey (decide_eq_true heq.symm)

theorem Keeps.indexFromLladdr_eq_some_iff (hs : Keeps s ks) (lladdr : Option α) :
    s.indexFromLladdr u lladdr = some key ↔ key ∈ ks ∧ s.lladdr key = lladdr.getD u.linkaddrNull := by
  rw [hs.indexFromLladdr_eq]
  constructor
  · intro h
    have hfound := List.find?_some h
    exact ⟨List.mem_of_find?_eq_some h, (of_decide_eq_true hfound).symm⟩
  · rintro ⟨hkey, haddr⟩
    cases hfind : ks.find? fun key => decide (lladdr.getD u.linkaddrNull = s.lladdr key) with
    | none => exact absurd (decide_eq_true haddr.symm) (List.find?_eq_none.mp hfind key hkey)
    | some key' =>
        have hfound : lladdr.getD u.linkaddrNull = s.lladdr key' := by simpa using List.find?_some hfind
        have hsame := List.inj_on_of_nodup_map hs.distinct (List.mem_of_find?_eq_some hfind) hkey (hfound.symm.trans haddr.symm)
        rw [hsame]

/-- A lookup finds the item of the key with the address, if the table uses it. -/
theorem Keeps.nbrTableGetFromLladdr_eq_some_iff (hs : Keeps s ks) (ht : t ∈ s.allTables) (lladdr : Option α) (item : Nat) :
    s.nbrTableGetFromLladdr u t lladdr = some item ↔
      ∃ key ∈ ks, s.lladdr key = lladdr.getD u.linkaddrNull ∧ s.Uses t key ∧ item = key * u.itemSize t := by
  have hbit : ∀ key, s.nbrGetBit u s.usedMap t (itemFromIndex u t (some key)) = (s.usedMap key).toBitVec.getLsbD (s.index t) :=
    fun key => nbrGetBit_itemFromKey s.usedMap key (hs.index_lt_eight ht)
  unfold nbrTableGetFromLladdr
  dsimp only
  cases hfind : s.indexFromLladdr u lladdr with
  | none =>
      refine iff_of_false (by simp [nbrGetBit, indexFromItem, itemFromIndex]) ?_
      rintro ⟨key, hkey, haddr, _⟩
      exact hs.indexFromLladdr_eq_none hfind (List.mem_map.mpr ⟨key, hkey, haddr⟩)
  | some key =>
      obtain ⟨hkey, haddr⟩ := (hs.indexFromLladdr_eq_some_iff lladdr).mp hfind
      rw [hbit]
      constructor
      · intro h
        split at h
        · rename_i huses
          exact ⟨key, hkey, haddr, huses, (Option.some.inj h).symm⟩
        · cases h
      · rintro ⟨key', hkey', haddr', huses, rfl⟩
        have hsame := List.inj_on_of_nodup_map hs.distinct hkey' hkey (haddr'.trans haddr.symm)
        subst hsame
        exact if_pos huses

end NbrTables

end ContikiAtsam.Nbr
