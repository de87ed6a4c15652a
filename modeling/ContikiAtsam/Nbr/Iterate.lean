import ContikiAtsam.Nbr.Lookup

/-!
# Going through a table

`nbr_table_head` and `nbr_table_next` visit the items that a table uses, from the oldest neighbor on. The item at hand may be removed before the next one is asked for.
-/

namespace ContikiAtsam.Nbr

open Bits Chain

variable {lib : NbrLib} {α κ : Type} {u : Users lib α κ}

namespace NbrTables

variable {s s' : NbrTables lib α κ} {ks : List Nat} {t t' key : Nat}

/-- The items of the table, from the oldest neighbor on. -/
def items (u : Users lib α κ) (s : NbrTables lib α κ) (t : Nat) : List Nat :=
  (s.keys.filter fun key => decide (s.Uses t key)).map fun key => key * u.itemSize t

/-- The loop of `nbr_table_next` goes on to the next key that the table uses. -/
theorem nextFrom_eq (hindex : s.index t < 8) {rest : List Nat} (hchain : Links s.next (s.next key) rest) {fuel : Nat}
    (hfuel : rest.length < fuel) :
    s.nextFrom u t fuel (itemFromKey u t (some key)) = itemFromKey u t (rest.find? fun q => decide (s.Uses t q)) := by
  induction rest generalizing key fuel with
  | nil =>
      obtain ⟨fuel, rfl⟩ := Nat.exists_eq_add_one_of_ne_zero (Nat.ne_of_gt hfuel)
      have hnone : s.next key = none := hchain
      rw [nextFrom, keyFromItem, indexFromItem_itemFromKey, Option.bind_some, hnone]
      rfl
  | cons q rest ih =>
      obtain ⟨fuel, rfl⟩ := Nat.exists_eq_add_one_of_ne_zero (Nat.ne_of_gt (Nat.lt_of_le_of_lt (Nat.zero_le _) hfuel))
      obtain ⟨hnext, hrest⟩ := hchain
      rw [nextFrom, keyFromItem, indexFromItem_itemFromKey, Option.bind_some, hnext, nbrGetBit_itemFromKey s.usedMap q hindex, List.find?_cons]
      by_cases huses : s.Uses t q
      · have hbit : (s.usedMap q).toBitVec.getLsbD (s.index t) = true := huses
        rw [hbit, decide_eq_true huses, Bool.not_true, Bool.and_false, if_neg Bool.false_ne_true]
      · have hbit : (s.usedMap q).toBitVec.getLsbD (s.index t) = false := Bool.eq_false_iff.mpr huses
        rw [hbit, decide_eq_false huses]
        exact ih hrest (by simpa using hfuel)

theorem find_congr {l : List Nat} {p q : Nat → Bool} (h : ∀ k ∈ l, p k = q k) : l.find? p = l.find? q := by
  induction l with
  | nil => rfl
  | cons k l ih =>
      rw [List.find?_cons, List.find?_cons, h k (List.mem_cons_self ..), ih fun k' hk' => h k' (List.mem_cons_of_mem k hk')]

theorem links_behind {first : Option Nat} (hchain : Links s.next first ks) (hkey : key ∈ ks) :
    ∃ before rest, ks = before ++ key :: rest ∧ Links s.next (s.next key) rest := by
  induction ks generalizing first with
  | nil => cases hkey
  | cons k ks ih =>
      obtain ⟨_, hrest⟩ := hchain
      obtain rfl | hkey := List.mem_cons.mp hkey
      · exact ⟨[], ks, rfl, hrest⟩
      · obtain ⟨before, rest, rfl, hlinks⟩ := ih hrest hkey
        exact ⟨k :: before, rest, rfl, hlinks⟩

theorem nbrTableNext_eq (hindex : s.index t < 8) {rest : List Nat} (hchain : Links s.next (s.next key) rest)
    (hlength : rest.length ≤ lib.blocks) :
    s.nbrTableNext u t (itemFromKey u t (some key)) = itemFromKey u t (rest.find? fun q => decide (s.Uses t q)) :=
  nextFrom_eq hindex hchain (Nat.lt_succ_of_le hlength)

theorem Keeps.nbrTableHead_eq (hs : Keeps s ks) (ht : t ∈ s.allTables) :
    s.nbrTableHead u t = itemFromKey u t (ks.find? fun q => decide (s.Uses t q)) := by
  have hindex := hs.index_lt_eight ht
  have hchain := hs.chain
  have hlength := hs.length_le
  cases ks with
  | nil =>
      have hnone : lib.listHead s.list = none := hchain
      rw [nbrTableHead, hnone]
      rfl
  | cons q rest =>
      obtain ⟨hfirst, hrest⟩ := hchain
      rw [nbrTableHead, hfirst, nbrGetBit_itemFromKey s.usedMap q hindex, List.find?_cons]
      by_cases huses : s.Uses t q
      · have hbit : (s.usedMap q).toBitVec.getLsbD (s.index t) = true := huses
        rw [hbit, decide_eq_true huses, if_pos rfl]
      · have hbit : (s.usedMap q).toBitVec.getLsbD (s.index t) = false := Bool.eq_false_iff.mpr huses
        rw [hbit, decide_eq_false huses, if_neg Bool.false_ne_true]
        exact nbrTableNext_eq hindex hrest (Nat.le_of_succ_le hlength)

theorem links_items (hindex : s.index t < 8) {first : Option Nat} {rest : List Nat} (hchain : Links s.next first rest)
    (hlength : rest.length ≤ lib.blocks) :
    Links (fun item => s.nbrTableNext u t (some item)) (itemFromKey u t (rest.find? fun q => decide (s.Uses t q)))
      ((rest.filter fun q => decide (s.Uses t q)).map fun q => q * u.itemSize t) := by
  induction rest generalizing first with
  | nil => rfl
  | cons q rest ih =>
      obtain ⟨_, hrest⟩ := hchain
      have hlength' : rest.length ≤ lib.blocks := Nat.le_of_succ_le hlength
      rw [List.find?_cons, List.filter_cons]
      by_cases huses : s.Uses t q
      · rw [decide_eq_true huses, if_pos rfl, List.map_cons]
        refine ⟨rfl, ?_⟩
        have hnext := nbrTableNext_eq (u := u) hindex hrest hlength'
        change Links _ (s.nbrTableNext u t (itemFromKey u t (some q))) _
        rw [hnext]
        exact ih hrest hlength'
      · rw [decide_eq_false huses, if_neg Bool.false_ne_true]
        exact ih hrest hlength'

/-! ### The order of entry -/

/-- The neighbors that have keys, in the order of the keys. -/
def addrs (s : NbrTables lib α κ) : List α := s.keys.map s.lladdr

theorem map_lladdr_snoc [DecidableEq α] {old : List Nat} (hold : old.Nodup) (hkey : key ∉ old) (lladdr : α) :
    (old ++ [key]).map (Function.update s.lladdr key lladdr) = old.map s.lladdr ++ [lladdr] := by
  rw [List.map_append, hold.map_update, if_neg hkey, List.map_singleton, Function.update_self]

variable [DecidableEq α]

/-- A call adds at most one neighbor, a new one, behind those that stay. -/
theorem Keeps.addrs_step (hlib : lib.Lawful) (hs : Keeps s ks) {e : NbrEvent α κ} (hproper : s.Proper e)
    (hstep : s.step u e = some s') :
    ∃ old new, addrs s' = old ++ new ∧ old.Sublist (addrs s) ∧ new.length ≤ 1 ∧ ∀ a ∈ new, a ∉ addrs s := by
  have hsame : addrs s' = addrs s →
      ∃ old new, addrs s' = old ++ new ∧ old.Sublist (addrs s) ∧ new.length ≤ 1 ∧ ∀ a ∈ new, a ∉ addrs s := fun h =>
    ⟨addrs s, [], by rw [h, List.append_nil], .refl _, Nat.zero_le _, nofun⟩
  cases e with
  | register t callback =>
      obtain rfl := Option.some.inj hstep
      apply hsame
      rw [NbrTables.nbrTableRegister]
      split <;> rfl
  | add t lladdr =>
      obtain rfl := Option.some.inj hstep
      have hadded := hs.nbrTableAddLladdr (u := u) hlib hproper lladdr
      generalize lladdr.getD u.linkaddrNull = a at hadded
      generalize s.nbrTableAddLladdr u t lladdr = r at hadded hsame ⊢
      cases hadded with
      | known key s' hkey haddr h =>
          apply hsame
          rw [addrs, addrs, h.keeps.keys_eq, hs.keys_eq, h.lladdr, ← haddr, Function.update_eq_self]
      | free key s' hnew hroom hkey h =>
          refine ⟨addrs s, [a], ?_, .refl _, Nat.le_refl _, ?_⟩
          · rw [addrs, addrs, h.keeps.keys_eq, hs.keys_eq, h.lladdr, map_lladdr_snoc hs.nodup hkey]
          · rw [addrs, hs.keys_eq]
            simpa using hnew
      | reused key told s' hnew hfull hvictim htold h =>
          have hgone : key ∉ ks.erase key := fun hmem => ((List.Nodup.mem_erase_iff hs.nodup).mp hmem).1 rfl
          refine ⟨(ks.erase key).map s.lladdr, [a], ?_, ?_, Nat.le_refl _, ?_⟩
          · rw [addrs, h.keeps.keys_eq, h.lladdr, map_lladdr_snoc (hs.nodup.erase key) hgone]
          · rw [addrs, hs.keys_eq]
            exact List.erase_sublist.map _
          · rw [addrs, hs.keys_eq]
            simpa using hnew
      | failed => exact hsame rfl
  | remove | lock | unlock | write =>
      obtain rfl := Option.some.inj hstep
      exact hsame rfl

/-- In the run the first neighbor has had a key all along since a state in which the second one had none. -/
def EnteredBefore (u : Users lib α κ) (s₀ : NbrTables lib α κ) (es : List (NbrEvent α κ)) (a b : α) : Prop :=
  ∃ es₁ es₂ s₁, es = es₁ ++ es₂ ∧ run (step u) s₀ es₁ = some s₁ ∧ b ∉ addrs s₁ ∧
    Always (step u) (fun s => a ∈ addrs s) s₁ es₂

theorem pairwise_enteredBefore (hlib : lib.Lawful) {s₀ : NbrTables lib α κ} (h₀ : Keeps s₀ []) {es : List (NbrEvent α κ)}
    (hproper : Along (step u) Proper s₀ es) (hrun : run (step u) s₀ es = some s) :
    (addrs s).Pairwise (EnteredBefore u s₀ es) := by
  let I : List (NbrEvent α κ) → NbrTables lib α κ → Prop := fun es s =>
    (∃ ks, Keeps s ks) ∧ run (step u) s₀ es = some s ∧ (addrs s).Pairwise (EnteredBefore u s₀ es)
  have hnone : (addrs s₀).Pairwise (EnteredBefore u s₀ []) := by
    rw [addrs, h₀.keys_eq]
    exact List.Pairwise.nil
  have hstart : I [] s₀ := ⟨⟨[], h₀⟩, rfl, hnone⟩
  have hstep : ∀ es s e s', I es s → s.Proper e → s.step u e = some s' → I (es ++ [e]) s' := by
    rintro es s e s' ⟨⟨ks, hs⟩, hrun, hpairs⟩ hproper hstep
    have hrun' : run (step u) s₀ (es ++ [e]) = some s' := by
      rw [run_append, hrun]
      exact run_cons.mpr ⟨s', hstep, rfl⟩
    obtain ⟨old, new, haddrs, hold, hone, hnew⟩ := hs.addrs_step hlib hproper hstep
    refine ⟨keeps_step hlib hs hproper hstep, hrun', ?_⟩
    rw [haddrs, List.pairwise_append]
    refine ⟨(hpairs.sublist hold).imp_of_mem ?_, ?_, fun a ha b hb => ?_⟩
    · -- Two that were there before: the first one still is.
      rintro a b ha _ ⟨es₁, es₂, s₁, rfl, hrun₁, hb, halways⟩
      have hrun₂ : run (step u) s₁ es₂ = some s := by rwa [run_append, hrun₁] at hrun
      have hstays : a ∈ addrs s' := by
        rw [haddrs]
        exact List.mem_append_left _ ha
      exact ⟨es₁, es₂ ++ [e], s₁, List.append_assoc .., hrun₁, hb, halways.snoc hrun₂ hstep hstays⟩
    · obtain hnil | ⟨b, hb⟩ := Nat.le_one_iff_eq_zero_or_eq_one.mp hone |>.imp List.length_eq_zero_iff.mp List.length_eq_one_iff.mp
      · rw [hnil]
        exact List.Pairwise.nil
      · rw [hb]
        exact List.pairwise_singleton ..
    · -- The second one is new.
      refine ⟨es, [e], s, rfl, hrun, hnew b hb, hold.mem ha, fun t ht => ?_⟩
      obtain rfl := Option.some.inj (hstep.symm.trans ht)
      change a ∈ addrs s'
      rw [haddrs]
      exact List.mem_append_left _ ha
  have hend := history_along Proper I hstep es hstart hproper hrun
  exact hend.2.2

/-- **Going through a table** visits each item once that a lookup finds, and none else, in the order in which their neighbors have been entered; and removing the item at hand does not change where to go on. -/
theorem nbrTable_iterates (hlib : lib.Lawful) {lladdr : Nat → α} {es : List (NbrEvent α κ)}
    (hproper : Along (step u) Proper (init lib α κ lladdr) es) (hrun : run (step u) (init lib α κ lladdr) es = some s)
    (ht : t ∈ s.allTables) :
    Links (fun item => s.nbrTableNext u t (some item)) (s.nbrTableHead u t) (items u s t) ∧
    (items u s t).Nodup ∧
    (∀ item, item ∈ items u s t ↔ ∃ lladdr, s.nbrTableGetFromLladdr u t (some lladdr) = some item) ∧
    (∀ item ∈ items u s t,
      (s.nbrTableRemove u t (some item)).2.nbrTableNext u t (some item) = s.nbrTableNext u t (some item)) ∧
    (items u s t).Pairwise fun item item' => ∃ a b, s.nbrTableGetLladdr u t (some item) = some a ∧
      s.nbrTableGetLladdr u t (some item') = some b ∧ EnteredBefore u (init lib α κ lladdr) es a b := by
  have hs : Reached u s := ⟨lladdr, es, hproper, hrun⟩
  have hkeeps := hs.keeps hlib
  have hindex := hkeeps.index_lt_eight ht
  refine ⟨?_, ?_, fun item => ?_, fun item hitem => ?_, ?_⟩
  · rw [hkeeps.nbrTableHead_eq ht]
    exact links_items hindex hkeeps.chain hkeeps.length_le
  · refine (hkeeps.nodup.filter _).map fun k k' heq => ?_
    exact Nat.eq_of_mul_eq_mul_right (u.itemSize_pos t) heq
  · rw [items, List.mem_map]
    constructor
    · rintro ⟨key, hkey, rfl⟩
      obtain ⟨hmem, huses⟩ := List.mem_filter.mp hkey
      exact ⟨s.lladdr key, (hkeeps.nbrTableGetFromLladdr_eq_some_iff ht _ _).mpr
        ⟨key, hmem, rfl, of_decide_eq_true huses, rfl⟩⟩
    · rintro ⟨lladdr, hget⟩
      obtain ⟨key, hmem, _, huses, rfl⟩ := (hkeeps.nbrTableGetFromLladdr_eq_some_iff ht _ _).mp hget
      exact ⟨key, List.mem_filter.mpr ⟨hmem, decide_eq_true huses⟩, rfl⟩
  · obtain ⟨key, hkey, rfl⟩ := List.mem_map.mp hitem
    obtain ⟨before, rest, hsplit, hlinks⟩ := links_behind hkeeps.chain (List.mem_filter.mp hkey).1
    have hlength : rest.length ≤ lib.blocks := by
      have := hkeeps.length_le
      rw [hsplit, List.length_append, List.length_cons] at this
      omega
    have hnot : key ∉ rest := by
      have hnodup := hkeeps.nodup
      rw [hsplit, List.nodup_append] at hnodup
      exact (List.nodup_cons.mp hnodup.2.1).1
    have hsame : (rest.find? fun q => decide ((s.nbrTableRemove u t (itemFromKey u t (some key))).2.Uses t q)) =
        rest.find? fun q => decide (s.Uses t q) := by
      apply find_congr
      intro q hq
      have hne : ¬ (some key = some q ∧ s.index t = s.index t) := by
        rintro ⟨heq, _⟩
        exact hnot (Option.some.inj heq ▸ hq)
      change decide (((s.nbrSetBit u s.usedMap t (itemFromKey u t (some key)) false).2 q).toBitVec.getLsbD (s.index t) = true) = _
      rw [getLsbD_nbrSetBit s.usedMap _ false hindex, indexFromItem_itemFromKey, if_neg hne]
      rfl
    have hremoved := hkeeps.nbrTableRemove (u := u) ht (itemFromKey u t (some key))
    change (s.nbrTableRemove u t (itemFromKey u t (some key))).2.nbrTableNext u t (itemFromKey u t (some key)) =
      s.nbrTableNext u t (itemFromKey u t (some key))
    rw [nbrTableNext_eq hindex hlinks hlength, ← hsame]
    exact nbrTableNext_eq (hremoved.index_lt_eight ht) hlinks hlength
  · rw [items, List.pairwise_map]
    have hpairs := List.pairwise_map.mp (pairwise_enteredBefore hlib (keeps_init hlib lladdr) hproper hrun)
    exact (hpairs.filter _).imp fun h =>
      ⟨_, _, nbrTableGetLladdr_key u s t _, nbrTableGetLladdr_key u s t _, h⟩

theorem nbrTable_iterates_shared : ∃ s, run (step (wordTables 2)) (init (firstFit 2) Nat Nat fun _ => 0) sharedNeighbor = some s ∧
    Links (fun item => s.nbrTableNext (wordTables 2) 7 (some item)) (s.nbrTableHead (wordTables 2) 7) [0, 4] ∧
    EnteredBefore (wordTables 2) (init (firstFit 2) Nat Nat fun _ => 0) sharedNeighbor 1 2 := by
  have hrun : (run (step (wordTables 2)) (init (firstFit 2) Nat Nat fun _ => 0) sharedNeighbor).any (fun s =>
      decide (s.allTables = [7, 9] ∧ items (wordTables 2) s 7 = [0, 4] ∧
        s.nbrTableGetLladdr (wordTables 2) 7 (some 0) = some 1 ∧ s.nbrTableGetLladdr (wordTables 2) 7 (some 4) = some 2)) =
          true := by
    decide +kernel
  obtain ⟨s, hs, hstate⟩ := exists_run hrun
  obtain ⟨htables, hitems, hfirst, hsecond⟩ := of_decide_eq_true hstate
  have h7 : 7 ∈ s.allTables := by simp [htables]
  obtain ⟨hlinks, _, _, _, hpairs⟩ := nbrTable_iterates (firstFit_lawful 2) (by decide +kernel) hs h7
  rw [hitems] at hlinks hpairs
  obtain ⟨a, b, ha, hb, hbefore⟩ := List.rel_of_pairwise_cons hpairs (List.mem_singleton_self 4)
  obtain rfl := Option.some.inj (hfirst.symm.trans ha)
  obtain rfl := Option.some.inj (hsecond.symm.trans hb)
  exact ⟨s, hs, hlinks, hbefore⟩

end NbrTables

end ContikiAtsam.Nbr
