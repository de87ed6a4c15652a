import ContikiAtsam.Base.Run
import ContikiAtsam.Nbr.Add
import ContikiAtsam.Nbr.FirstFit

/-!
# What the tables find

Adding a neighbor to a table changes the lookups of all tables in one way only: the table finds its item, and if the neighbor took the key of another, no table finds an item of that one any more. A refused neighbor changes nothing, and it is refused only when every key is locked. Going through a table from its head visits the items that lookups find, from the oldest neighbor on, and the item at hand may be removed on the way.
-/

namespace ContikiAtsam.Nbr

open Bits Chain

variable {lib : NbrLib} {α κ : Type} {u : Users lib α κ}

namespace NbrTables

variable {s s' : NbrTables lib α κ} {ks : List Nat} {t t' key : Nat}

/-! ### Every call keeps the keys -/

/-- A table is registered once, and before it is used. -/
def Proper (s : NbrTables lib α κ) : NbrEvent α κ → Prop
  | .register t _ => t ∉ s.allTables
  | .add t _ | .remove t _ | .lock t _ | .unlock t _ => t ∈ s.allTables
  | .write _ _ _ => True

instance (s : NbrTables lib α κ) : ∀ e, Decidable (s.Proper e)
  | .register t _ => inferInstanceAs (Decidable (t ∉ s.allTables))
  | .add t _ => inferInstanceAs (Decidable (t ∈ s.allTables))
  | .remove t _ => inferInstanceAs (Decidable (t ∈ s.allTables))
  | .lock t _ => inferInstanceAs (Decidable (t ∈ s.allTables))
  | .unlock t _ => inferInstanceAs (Decidable (t ∈ s.allTables))
  | .write _ _ _ => isTrue trivial

theorem keeps_init (hlib : lib.Lawful) (lladdr : Nat → α) : Keeps (init lib α κ lladdr) [] where
  chain := hlib.head_init
  nodup := List.nodup_nil
  bound := by simp
  allocated := fun key => iff_of_false (hlib.init_free key) List.not_mem_nil
  distinct := List.nodup_nil
  unused := fun _ _ => rfl
  tables := Nat.zero_le _
  index := rfl
  usedBits := fun _ _ _ => BitVec.getLsbD_zero
  lockedBits := fun _ _ _ => BitVec.getLsbD_zero

theorem Keeps.nbrSetBit_eq_false (hs : Keeps s ks) (ht : t ∈ s.allTables) {bitmap : Nat → UInt8}
    (hbits : ∀ key i, s.allTables.length ≤ i → (bitmap key).toBitVec.getLsbD i = false) (item : Option Nat) (value : Bool)
    (key : Nat) {i : Nat} (hi : s.allTables.length ≤ i) :
    ((s.nbrSetBit u bitmap t item value).2 key).toBitVec.getLsbD i = false := by
  have hlt := hs.index_lt ht
  rw [getLsbD_nbrSetBit bitmap item value (hs.index_lt_eight ht), if_neg (by omega), hbits key i hi]

theorem Keeps.nbrTableRemove (hs : Keeps s ks) (ht : t ∈ s.allTables) (item : Option Nat) :
    Keeps (s.nbrTableRemove u t item).2 ks :=
  { hs with
    unused := by
      intro key hkey
      rw [eq_zero_iff]
      intro i _
      change ((s.nbrSetBit u s.usedMap t item false).2 key).toBitVec.getLsbD i = false
      rw [getLsbD_nbrSetBit s.usedMap item false (hs.index_lt_eight ht), hs.unused key hkey]
      split
      · rfl
      · exact BitVec.getLsbD_zero
    usedBits := fun key _ hi => hs.nbrSetBit_eq_false ht hs.usedBits item false key hi
    lockedBits := fun key _ hi => hs.nbrSetBit_eq_false ht hs.lockedBits item false key hi }

theorem Keeps.nbrTableLock (hs : Keeps s ks) (ht : t ∈ s.allTables) (item : Option Nat) :
    Keeps (s.nbrTableLock u t item).2 ks :=
  { hs with lockedBits := fun key _ hi => hs.nbrSetBit_eq_false ht hs.lockedBits item true key hi }

theorem Keeps.nbrTableUnlock (hs : Keeps s ks) (ht : t ∈ s.allTables) (item : Option Nat) :
    Keeps (s.nbrTableUnlock u t item).2 ks :=
  { hs with lockedBits := fun key _ hi => hs.nbrSetBit_eq_false ht hs.lockedBits item false key hi }

theorem Keeps.nbrTableRegister (hs : Keeps s ks) (hnew : t ∉ s.allTables) (callback : Option κ) :
    Keeps (s.nbrTableRegister t callback).2 ks := by
  rw [NbrTables.nbrTableRegister]
  split
  · rename_i hroom
    have hsame : s.allTables.map (Function.update s.index t s.allTables.length) = s.allTables.map s.index := by
      apply List.map_congr_left
      intro t' ht'
      have hne : t' ≠ t := by
        rintro rfl
        exact hnew ht'
      exact Function.update_of_ne hne ..
    have hlength : (s.allTables ++ [t]).length = s.allTables.length + 1 := List.length_append
    exact { hs with
      tables := hlength ▸ hroom
      index := by
        change (s.allTables ++ [t]).map (Function.update s.index t s.allTables.length) = List.range (s.allTables ++ [t]).length
        rw [List.map_append, hsame, hs.index, List.map_singleton, Function.update_self, hlength, List.range_succ]
      usedBits := fun key i hi => hs.usedBits key i (by rw [hlength] at hi; omega)
      lockedBits := fun key i hi => hs.lockedBits key i (by rw [hlength] at hi; omega) }
  · exact hs

theorem Entered.getLladdr {lladdr : α} {gone : Option Nat} {told ks' : List Nat}
    (h : Entered u s ks t lladdr key gone told s' ks') : s'.nbrTableGetLladdr u t (itemFromKey u t (some key)) = some lladdr := by
  rw [nbrTableGetLladdr_key, h.lladdr, Function.update_self]

theorem Added.keeps [DecidableEq α] {lladdr : α} {r : Option Nat × NbrTables lib α κ} (hs : Keeps s ks)
    (h : Added u s ks t lladdr r) : ∃ ks', Keeps r.2 ks' := by
  cases h with
  | known key s' hkey haddr h => exact ⟨_, h.keeps⟩
  | free key s' hnew hroom hkey h => exact ⟨_, h.keeps⟩
  | reused key told s' hnew hfull hvictim htold h => exact ⟨_, h.keeps⟩
  | failed => exact ⟨ks, hs⟩

theorem victim_eq_none_iff (s : NbrTables lib α κ) :
    s.victim = none ↔ ∀ key ∈ s.keys, ∃ t ∈ s.allTables, s.Locks t key := by
  rw [victim, List.argmin_eq_none, List.filter_eq_nil_iff]
  simp

variable [DecidableEq α]

theorem keeps_step (hlib : lib.Lawful) {e : NbrEvent α κ} (hs : Keeps s ks) (hproper : s.Proper e)
    (hstep : s.step u e = some s') : ∃ ks', Keeps s' ks' := by
  cases e with
  | register t callback =>
      obtain rfl := Option.some.inj hstep
      exact ⟨ks, hs.nbrTableRegister hproper callback⟩
  | add t lladdr =>
      obtain rfl := Option.some.inj hstep
      exact (hs.nbrTableAddLladdr hlib hproper lladdr).keeps hs
  | remove t item =>
      obtain rfl := Option.some.inj hstep
      exact ⟨ks, hs.nbrTableRemove hproper item⟩
  | lock t item =>
      obtain rfl := Option.some.inj hstep
      exact ⟨ks, hs.nbrTableLock hproper item⟩
  | unlock t item =>
      obtain rfl := Option.some.inj hstep
      exact ⟨ks, hs.nbrTableUnlock hproper item⟩
  | write t offset bytes =>
      obtain rfl := Option.some.inj hstep
      exact ⟨ks, { hs with }⟩

/-- The states that proper use of the tables leads to. -/
def Reached (u : Users lib α κ) (s : NbrTables lib α κ) : Prop :=
  ∃ lladdr es, Along (step u) Proper (init lib α κ lladdr) es ∧ run (step u) (init lib α κ lladdr) es = some s

theorem Reached.keeps (hlib : lib.Lawful) (h : Reached u s) : Keeps s s.keys := by
  obtain ⟨lladdr, es, halong, hrun⟩ := h
  have hstep : ∀ (s : NbrTables lib α κ) e s', (∃ ks, Keeps s ks) → s.Proper e → s.step u e = some s' → ∃ ks, Keeps s' ks :=
    fun s e s' ⟨ks, hs⟩ hproper hstep => keeps_step hlib hs hproper hstep
  obtain ⟨ks, hs⟩ := invariant_along Proper (fun s => ∃ ks, Keeps s ks) hstep es ⟨[], keeps_init hlib lladdr⟩ halong hrun
  rw [hs.keys_eq]
  exact hs

/-! ### Adding -/

/-- The key that a new neighbor takes from another. -/
def gone (s : NbrTables lib α κ) (lladdr : α) : Option Nat :=
  if lladdr ∈ s.keys.map s.lladdr ∨ s.keys.length < lib.blocks then none else s.victim

/-- The neighbor has no key, none is free, and every key is locked by a table. -/
def Refused (s : NbrTables lib α κ) (lladdr : α) : Prop :=
  lladdr ∉ s.keys.map s.lladdr ∧ s.keys.length = lib.blocks ∧ ∀ key ∈ s.keys, ∃ t ∈ s.allTables, s.Locks t key

theorem Entered.lookup {lladdr : α} {gone : Option Nat} {told ks' : List Nat} (hs : Keeps s ks) (ht : t ∈ s.allTables)
    (h : Entered u s ks t lladdr key gone told s' ks') (hgone : ∀ q, gone = some q → q = key ∧ q ∈ ks)
    (hkey : key ∈ ks → gone = none → s.lladdr key = lladdr) (ht' : t' ∈ s.allTables) (lladdr' : Option α) :
    s'.nbrTableGetFromLladdr u t' lladdr' =
      if t' = t ∧ lladdr'.getD u.linkaddrNull = lladdr then itemFromKey u t (some key)
      else if gone.map s.lladdr = some (lladdr'.getD u.linkaddrNull) then none
      else s.nbrTableGetFromLladdr u t' lladdr' := by
  generalize haddr' : lladdr'.getD u.linkaddrNull = a
  have hat : s'.lladdr key = lladdr := by rw [h.lladdr, Function.update_self]
  have hother : ∀ q, q ≠ key → s'.lladdr q = s.lladdr q := by
    intro q hq
    rw [h.lladdr, Function.update_of_ne hq]
  have hmem : ∀ q, s.Uses t' q → q ∈ ks := fun q huses => by_contra fun hq => hs.not_uses hq huses
  apply Option.ext
  intro item
  rw [h.keeps.nbrTableGetFromLladdr_eq_some_iff (h.allTables ▸ ht'), haddr']
  by_cases hself : t' = t ∧ a = lladdr
  · obtain ⟨rfl, rfl⟩ := hself
    rw [if_pos ⟨rfl, rfl⟩]
    constructor
    · rintro ⟨q, hq, haddr, _, rfl⟩
      have hsame : q = key :=
        List.inj_on_of_nodup_map h.keeps.distinct hq ((h.keys key).mpr (Or.inl rfl)) (haddr.trans hat.symm)
      rw [hsame]
      rfl
    · intro hitem
      exact ⟨key, (h.keys key).mpr (Or.inl rfl), hat, (h.uses t' ht' key).mpr (Or.inl ⟨rfl, rfl⟩),
        (Option.some.inj hitem).symm⟩
  · rw [if_neg hself]
    have hold : ∀ q, s'.lladdr q = a → s'.Uses t' q → s.Uses t' q ∧ gone ≠ some q := by
      intro q haddr huses
      refine ((h.uses t' ht' q).mp huses).resolve_left ?_
      rintro ⟨rfl, rfl⟩
      exact hself ⟨rfl, haddr.symm.trans hat⟩
    by_cases hlost : gone.map s.lladdr = some a
    · rw [if_pos hlost]
      refine iff_of_false ?_ (Option.not_mem_none item)
      rintro ⟨q, _, haddr, huses, _⟩
      obtain ⟨v, hv, hva⟩ := Option.map_eq_some_iff.mp hlost
      obtain ⟨rfl, hvks⟩ := hgone v hv
      obtain ⟨huses, hne⟩ := hold q haddr huses
      have hq : q ≠ v := by
        rintro rfl
        exact hne hv
      rw [hother q hq, ← hva] at haddr
      exact hq (List.inj_on_of_nodup_map hs.distinct (hmem q huses) hvks haddr)
    · rw [if_neg hlost, hs.nbrTableGetFromLladdr_eq_some_iff ht', haddr']
      constructor
      · rintro ⟨q, _, haddr, huses, hitem⟩
        obtain ⟨huses, hne⟩ := hold q haddr huses
        refine ⟨q, hmem q huses, ?_, huses, hitem⟩
        by_cases hq : q = key
        · subst hq
          have hnone : gone = none := by
            by_contra hsome
            obtain ⟨v, hv⟩ := Option.ne_none_iff_exists'.mp hsome
            exact hne ((hgone v hv).1 ▸ hv)
          rw [hkey (hmem q huses) hnone, ← hat, haddr]
        · rw [← hother q hq, haddr]
      · rintro ⟨q, hqks, haddr, huses, hitem⟩
        have hne : gone ≠ some q := by
          rintro rfl
          exact hlost (congrArg some haddr)
        refine ⟨q, (h.keys q).mpr (Or.inr hqks), ?_, (h.uses t' ht' q).mpr (Or.inr ⟨huses, hne⟩), hitem⟩
        by_cases hq : q = key
        · subst hq
          have hnone : gone = none := by
            by_contra hsome
            obtain ⟨v, hv⟩ := Option.ne_none_iff_exists'.mp hsome
            exact hne ((hgone v hv).1 ▸ hv)
          rw [hat, ← hkey hqks hnone, haddr]
        · rw [hother q hq, haddr]

/-- **Adding a neighbor to a table**, in any state that proper use of the tables leads to. If it is refused, nothing changes. Otherwise the item that is returned gives back the neighbor's address, the table finds it, no table finds an item of the neighbor whose key it took, and all other lookups find what they found. -/
theorem nbrTableAddLladdr_lookup (hlib : lib.Lawful) (hs : Reached u s) (ht : t ∈ s.allTables) (lladdr : Option α) :
    ((s.nbrTableAddLladdr u t lladdr).1 = none ↔ s.Refused (lladdr.getD u.linkaddrNull)) ∧
    (s.Refused (lladdr.getD u.linkaddrNull) → (s.nbrTableAddLladdr u t lladdr).2 = s) ∧
    (¬ s.Refused (lladdr.getD u.linkaddrNull) →
      (s.nbrTableAddLladdr u t lladdr).2.nbrTableGetLladdr u t (s.nbrTableAddLladdr u t lladdr).1 =
        some (lladdr.getD u.linkaddrNull)) ∧
    (¬ s.Refused (lladdr.getD u.linkaddrNull) → ∀ t' ∈ s.allTables, ∀ lladdr',
      (s.nbrTableAddLladdr u t lladdr).2.nbrTableGetFromLladdr u t' lladdr' =
        if t' = t ∧ lladdr'.getD u.linkaddrNull = lladdr.getD u.linkaddrNull then (s.nbrTableAddLladdr u t lladdr).1
        else if (s.gone (lladdr.getD u.linkaddrNull)).map s.lladdr = some (lladdr'.getD u.linkaddrNull) then none
        else s.nbrTableGetFromLladdr u t' lladdr') := by
  have hkeeps := hs.keeps hlib
  have hadded := hkeeps.nbrTableAddLladdr (u := u) hlib ht lladdr
  generalize lladdr.getD u.linkaddrNull = a at hadded ⊢
  generalize s.nbrTableAddLladdr u t lladdr = r at hadded ⊢
  cases hadded with
  | known key s' hkey haddr h =>
      have hmem : a ∈ s.keys.map s.lladdr := List.mem_map.mpr ⟨key, hkey, haddr⟩
      have hnot : ¬ s.Refused a := fun h => h.1 hmem
      have hgone : s.gone a = none := if_pos (Or.inl hmem)
      refine ⟨iff_of_false (Option.some_ne_none _) hnot, fun h => absurd h hnot, fun _ => h.getLladdr, fun _ t' ht' lladdr' => ?_⟩
      rw [hgone]
      exact h.lookup hkeeps ht (fun q hq => by cases hq) (fun _ _ => haddr) ht' lladdr'
  | free key s' hnew hroom hkey h =>
      have hnot : ¬ s.Refused a := fun h => absurd hroom (by rw [h.2.1]; exact Nat.lt_irrefl _)
      have hgone : s.gone a = none := if_pos (Or.inr hroom)
      refine ⟨iff_of_false (Option.some_ne_none _) hnot, fun h => absurd h hnot, fun _ => h.getLladdr, fun _ t' ht' lladdr' => ?_⟩
      rw [hgone]
      exact h.lookup hkeeps ht (fun q hq => by cases hq) (fun hmem _ => absurd hmem hkey) ht' lladdr'
  | reused key told s' hnew hfull hvictim htold h =>
      have hnot : ¬ s.Refused a := by
        intro h
        rw [(victim_eq_none_iff s).mpr h.2.2] at hvictim
        cases hvictim
      have hgone : s.gone a = some key := by
        rw [gone, if_neg (not_or.mpr ⟨hnew, by rw [hfull]; exact Nat.lt_irrefl _⟩), hvictim]
      refine ⟨iff_of_false (Option.some_ne_none _) hnot, fun h => absurd h hnot, fun _ => h.getLladdr, fun _ t' ht' lladdr' => ?_⟩
      rw [hgone]
      refine h.lookup hkeeps ht (fun q hq => ?_) (fun _ hnone => by cases hnone) ht' lladdr'
      obtain rfl := Option.some.inj hq
      exact ⟨rfl, (hkeeps.victim_mem hvictim).1⟩
  | failed hnew hfull hlocked =>
      have hrefused : s.Refused a := ⟨hnew, hfull, (victim_eq_none_iff s).mp hlocked⟩
      exact ⟨iff_of_true rfl hrefused, fun _ => rfl, fun hnot => absurd hrefused hnot, fun hnot => absurd hrefused hnot⟩

/-- A third neighbor takes the key of the one that only one table uses. -/
theorem nbrTableAddLladdr_lookup_reused : ∃ s, Reached (wordTables 2) s ∧ s.gone 3 = some 1 ∧
    (s.nbrTableAddLladdr (wordTables 2) 9 (some 3)).2.nbrTableGetLladdr (wordTables 2) 9 (some 4) = some 3 ∧
    (s.nbrTableAddLladdr (wordTables 2) 9 (some 3)).2.nbrTableGetFromLladdr (wordTables 2) 9 (some 3) = some 4 ∧
    (s.nbrTableAddLladdr (wordTables 2) 9 (some 3)).2.nbrTableGetFromLladdr (wordTables 2) 7 (some 2) = none := by
  have hrun : (run (step (wordTables 2)) (init (firstFit 2) Nat Nat fun _ => 0) sharedNeighbor).any (fun s =>
      decide (s.allTables = [7, 9] ∧ (s.nbrTableAddLladdr (wordTables 2) 9 (some 3)).1 = some 4 ∧
        s.gone 3 = some 1 ∧ s.lladdr 1 = 2)) = true := by
    decide +kernel
  obtain ⟨s, hs, hstate⟩ := exists_run hrun
  obtain ⟨htables, hadded, hgone, haddr⟩ := of_decide_eq_true hstate
  have hreached : Reached (wordTables 2) s := ⟨fun _ => 0, sharedNeighbor, by decide +kernel, hs⟩
  have h7 : 7 ∈ s.allTables := by simp [htables]
  have h9 : 9 ∈ s.allTables := by simp [htables]
  obtain ⟨hrefused, _, hlladdr, hlookup⟩ := nbrTableAddLladdr_lookup (firstFit_lawful 2) hreached h9 (some 3)
  have hnot : ¬ s.Refused (Option.getD (some 3) (wordTables 2).linkaddrNull) := by
    rw [← hrefused, hadded]
    exact Option.some_ne_none _
  refine ⟨s, hreached, hgone, ?_, ?_, ?_⟩
  · rw [← hadded]
    exact hlladdr hnot
  · rw [hlookup hnot 9 h9, if_pos ⟨rfl, rfl⟩, hadded]
  · have hlost : (s.gone 3).map s.lladdr = some 2 := by rw [hgone, Option.map_some, haddr]
    have hother : ¬ ((7 : Nat) = 9 ∧ (2 : Nat) = 3) := by decide
    have hgoneAt := hlookup hnot 7 h7 (some 2)
    simp only [Option.getD_some] at hgoneAt
    rw [if_neg hother, if_pos hlost] at hgoneAt
    exact hgoneAt

end NbrTables

end ContikiAtsam.Nbr
