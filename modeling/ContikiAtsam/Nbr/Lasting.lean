import ContikiAtsam.Nbr.Lookup

/-!
# What lasts

A neighbor of which a table locks its item stays until that table gives it up: whatever is entered, each table that has an item of it keeps the item, and what is in it. An item that is not locked may be lost to a new neighbor, but not silently: its table is told, unless another table that was told before it has removed the item for it.
-/

namespace ContikiAtsam.Nbr

open Bits Chain

variable {lib : NbrLib} {α κ : Type} {u : Users lib α κ}

namespace NbrTables

variable {s s' : NbrTables lib α κ} {ks : List Nat} {t t' key : Nat}

/-- The table uses a key in the list. -/
structure Holds (s : NbrTables lib α κ) (t key : Nat) (lladdr : α) : Prop where
  listed : key ∈ s.keys
  registered : t ∈ s.allTables
  addr : s.lladdr key = lladdr
  uses : s.Uses t key

/-- The event is not the table's own removal of the item. -/
def Leaves (u : Users lib α κ) (t item : Nat) : NbrEvent α κ → Prop
  | .remove t' item' => ¬ (t' = t ∧ indexFromItem u t' item' = indexFromItem u t (some item))
  | _ => True

instance (u : Users lib α κ) (t item : Nat) : ∀ e, Decidable (Leaves (α := α) (κ := κ) u t item e)
  | .remove _ _ => inferInstanceAs (Decidable (¬ (_ ∧ _)))
  | .register _ _ => isTrue trivial
  | .add _ _ => isTrue trivial
  | .lock _ _ => isTrue trivial
  | .unlock _ _ => isTrue trivial
  | .write _ _ _ => isTrue trivial

/-- The event is not the table's own removal or unlocking of the item. -/
def Guards (u : Users lib α κ) (t item : Nat) : NbrEvent α κ → Prop
  | .remove t' item' | .unlock t' item' => ¬ (t' = t ∧ indexFromItem u t' item' = indexFromItem u t (some item))
  | _ => True

/-- The table does not write the item, nor clear it by entering the neighbor again. -/
def Spares (u : Users lib α κ) (t item : Nat) (lladdr : α) : NbrEvent α κ → Prop
  | .add t' lladdr' => ¬ (t' = t ∧ lladdr'.getD u.linkaddrNull = lladdr)
  | .write t' offset bytes => t' = t → offset + bytes.length ≤ item ∨ item + u.itemSize t ≤ offset
  | _ => True

theorem Guards.leaves {item : Nat} {e : NbrEvent α κ} (h : Guards u t item e) : Leaves u t item e := by
  cases e with
  | remove t' item' => exact h
  | register | add | lock | unlock | write => trivial

theorem Holds.get [DecidableEq α] (hs : Keeps s ks) {lladdr : α} (h : Holds s t key lladdr) :
    s.nbrTableGetFromLladdr u t (some lladdr) = some (key * u.itemSize t) :=
  (hs.nbrTableGetFromLladdr_eq_some_iff h.registered _ _).mpr ⟨key, hs.keys_eq ▸ h.listed, h.addr, h.uses, rfl⟩

theorem holds_of_get [DecidableEq α] (hs : Keeps s ks) (ht : t ∈ s.allTables) {lladdr : α} {item : Nat}
    (h : s.nbrTableGetFromLladdr u t (some lladdr) = some item) :
    ∃ key, Holds s t key lladdr ∧ item = key * u.itemSize t := by
  obtain ⟨key, hkey, haddr, huses, hitem⟩ := (hs.nbrTableGetFromLladdr_eq_some_iff ht _ _).mp h
  exact ⟨key, ⟨hs.keys_eq.symm ▸ hkey, ht, haddr, huses⟩, hitem⟩

/-! ### One call -/

theorem Entered.holds {lladdr lladdr' : α} {key' : Nat} {gone : Option Nat} {told ks' : List Nat}
    (h : Entered u s ks t' lladdr' key' gone told s' ks') (hks : s.keys = ks) (hgone : gone ≠ some key)
    (haddr : key = key' → s.lladdr key = lladdr') (hholds : Holds s t key lladdr) : Holds s' t key lladdr where
  listed := by
    rw [h.keeps.keys_eq]
    exact (h.keys key).mpr (Or.inr (hks ▸ hholds.listed))
  registered := h.allTables ▸ hholds.registered
  addr := by
    rw [h.lladdr]
    by_cases heq : key = key'
    · subst heq
      rw [Function.update_self, ← haddr rfl, hholds.addr]
    · rw [Function.update_of_ne heq, hholds.addr]
  uses := (h.uses t hholds.registered key).mpr (Or.inr ⟨hholds.uses, hgone⟩)

/-- Adding a neighbor takes a key from another only if it is the victim, and tells the tables. -/
theorem Added.holds {lladdr lladdr' : α} {r : Option Nat × NbrTables lib α κ} (h : Added u s ks t' lladdr' r)
    (hks : s.keys = ks) (hholds : Holds s t key lladdr) :
    (Holds r.2 t key lladdr ∧ ∃ new, r.2.calls = s.calls ++ new) ∨
      s.victim = some key ∧ ∃ told, Told u s key s.allTables told ∧ r.2.callback = s.callback ∧
        r.2.allTables = s.allTables ∧ r.2.calls = s.calls ++ told.map fun t => (t, key) := by
  cases h with
  | known key' s' hkey haddr h => exact Or.inl ⟨h.holds hks (by simp) (fun heq => heq ▸ haddr) hholds, _, h.calls⟩
  | free key' s' hnew hroom hkey h =>
      have hne : key ≠ key' := by
        rintro rfl
        exact hkey (hks ▸ hholds.listed)
      exact Or.inl ⟨h.holds hks (by simp) (fun heq => absurd heq hne) hholds, _, h.calls⟩
  | reused key' told s' hnew hfull hvictim htold h =>
      by_cases heq : key' = key
      · subst heq
        exact Or.inr ⟨hvictim, told, htold, h.callback, h.allTables, h.calls⟩
      · have hgone : some key' ≠ some key := fun hsome => heq (Option.some.inj hsome)
        exact Or.inl ⟨h.holds hks hgone (fun hsame => absurd hsame.symm heq) hholds, _, h.calls⟩
  | failed => exact Or.inl ⟨hholds, [], (List.append_nil _).symm⟩

/-! ### Notice -/

/-- Who has been told of the end of a table's item: the table itself, or another one, whose callback removed the item when it was called. -/
def Noticed (u : Users lib α κ) (s : NbrTables lib α κ) (t key : Nat) (calls : List (Nat × Nat)) : Prop :=
  ∃ t' ∈ s.allTables, (t', key) ∈ calls ∧
    (t' = t ∨ ∃ callback s', s.callback t' = some callback ∧ t ∈ u.releases callback key s' ∧
      s'.calls ++ [(t', key)] <+: s.calls)

theorem Noticed.mono {calls calls' : List (Nat × Nat)} (h : Noticed u s t key calls) (hnew : calls ⊆ calls')
    (hsame : ∀ t ∈ s.allTables, t ∈ s'.allTables ∧ s'.callback t = s.callback t) (hcalls : s.calls <+: s'.calls) :
    Noticed u s' t key calls' := by
  obtain ⟨t', ht', hcall, hwho⟩ := h
  obtain ⟨hregistered, hcallback⟩ := hsame t' ht'
  refine ⟨t', hregistered, hnew hcall, hwho.imp_right ?_⟩
  rintro ⟨callback, s₁, hcallback₁, hreleases, hbefore⟩
  exact ⟨callback, s₁, hcallback.trans hcallback₁, hreleases, hbefore.trans hcalls⟩

variable [DecidableEq α]

/-- A table that uses a key goes on using it until it removes the item itself or the key is taken for another neighbor. -/
theorem Holds.step (hlib : lib.Lawful) (hs : Keeps s ks) {lladdr : α} (h : Holds s t key lladdr) {e : NbrEvent α κ}
    (hproper : s.Proper e) (hleaves : Leaves u t (key * u.itemSize t) e) (hstep : s.step u e = some s') :
    Holds s' t key lladdr ∨
      s.victim = some key ∧ ∃ told, Told u s key s.allTables told ∧ s'.callback = s.callback ∧
        s'.allTables = s.allTables ∧ s'.calls = s.calls ++ told.map fun t => (t, key) := by
  cases e with
  | register t' callback =>
      obtain rfl := Option.some.inj hstep
      refine Or.inl ?_
      rw [nbrTableRegister]
      split
      · have hne : t ≠ t' := by
          rintro rfl
          exact hproper h.registered
        refine ⟨h.listed, List.mem_append_left _ h.registered, h.addr, ?_⟩
        change (s.usedMap key).toBitVec.getLsbD (Function.update s.index t' s.allTables.length t) = true
        rw [Function.update_of_ne hne]
        exact h.uses
      · exact h
  | add t' lladdr' =>
      obtain rfl := Option.some.inj hstep
      exact ((hs.nbrTableAddLladdr hlib hproper lladdr').holds hs.keys_eq h).imp_left And.left
  | remove t' item =>
      obtain rfl := Option.some.inj hstep
      refine Or.inl ⟨h.listed, h.registered, h.addr, ?_⟩
      change ((s.nbrSetBit u s.usedMap t' item false).2 key).toBitVec.getLsbD (s.index t) = true
      have hne : ¬ (indexFromItem u t' item = some key ∧ s.index t = s.index t') := by
        rintro ⟨hitem, hindex⟩
        refine hleaves ⟨hs.index_inj hproper h.registered hindex.symm, hitem.trans ?_⟩
        exact (indexFromItem_itemFromKey u t (some key)).symm
      rw [getLsbD_nbrSetBit s.usedMap item false (hs.index_lt_eight hproper), if_neg hne]
      exact h.uses
  | lock | unlock | write =>
      obtain rfl := Option.some.inj hstep
      exact Or.inl ⟨h.listed, h.registered, h.addr, h.uses⟩

theorem Holds.locks_step (hlib : lib.Lawful) (hs : Keeps s ks) {lladdr : α} (h : Holds s t key lladdr) (hlocks : s.Locks t key)
    {e : NbrEvent α κ} (hproper : s.Proper e) (hguards : Guards u t (key * u.itemSize t) e)
    (hstep : s.step u e = some s') : s'.Locks t key := by
  have hclear : ∀ t' item, t' ∈ s.allTables →
      ¬ (t' = t ∧ indexFromItem u t' item = indexFromItem u t (some (key * u.itemSize t))) →
      ((s.nbrSetBit u s.lockedMap t' item false).2 key).toBitVec.getLsbD (s.index t) = true := by
    intro t' item ht' hother
    have hne : ¬ (indexFromItem u t' item = some key ∧ s.index t = s.index t') := by
      rintro ⟨hitem, hindex⟩
      refine hother ⟨hs.index_inj ht' h.registered hindex.symm, hitem.trans ?_⟩
      exact (indexFromItem_itemFromKey u t (some key)).symm
    rw [getLsbD_nbrSetBit s.lockedMap item false (hs.index_lt_eight ht'), if_neg hne]
    exact hlocks
  cases e with
  | register t' callback =>
      obtain rfl := Option.some.inj hstep
      rw [NbrTables.nbrTableRegister]
      split
      · have hne : t ≠ t' := by
          rintro rfl
          exact hproper h.registered
        change (s.lockedMap key).toBitVec.getLsbD (Function.update s.index t' s.allTables.length t) = true
        rw [Function.update_of_ne hne]
        exact hlocks
      · exact hlocks
  | add t' lladdr' =>
      obtain rfl := Option.some.inj hstep
      have hadded := hs.nbrTableAddLladdr (u := u) hlib hproper lladdr'
      generalize s.nbrTableAddLladdr u t' lladdr' = r at hadded ⊢
      cases hadded with
      | known key' s' hkey haddr h' => rwa [Locks, h'.lockedMap, h'.index]
      | free key' s' hnew hroom hkey h' => rwa [Locks, h'.lockedMap, h'.index]
      | reused key' told s' hnew hfull hvictim htold h' => rwa [Locks, h'.lockedMap, h'.index]
      | failed => exact hlocks
  | remove t' item =>
      obtain rfl := Option.some.inj hstep
      exact hclear t' item hproper hguards
  | unlock t' item =>
      obtain rfl := Option.some.inj hstep
      exact hclear t' item hproper hguards
  | lock t' item =>
      obtain rfl := Option.some.inj hstep
      change ((s.nbrSetBit u s.lockedMap t' item true).2 key).toBitVec.getLsbD (s.index t) = true
      rw [getLsbD_nbrSetBit s.lockedMap item true (hs.index_lt_eight hproper)]
      split
      · rfl
      · exact hlocks
  | write t' offset bytes =>
      obtain rfl := Option.some.inj hstep
      exact hlocks

theorem load_of_other_key {size key' : Nat} (m : Memory) (hne : key' ≠ key) :
    (m.store (key' * size) (List.replicate size 0)).load (key * size) size = m.load (key * size) size := by
  apply Memory.load_store_of_disjoint
  rw [List.length_replicate]
  rcases Nat.lt_or_gt_of_ne hne with hlt | hgt
  · have hle := Nat.mul_le_mul_right size hlt
    rw [Nat.succ_mul] at hle
    exact Or.inr hle
  · have hle := Nat.mul_le_mul_right size hgt
    rw [Nat.succ_mul] at hle
    exact Or.inl hle

theorem Holds.load_step (hlib : lib.Lawful) (hs : Keeps s ks) {lladdr : α} (h : Holds s t key lladdr)
    {owner : Nat} (howner : owner ∈ s.allTables) (hlocks : s.Locks owner key) {e : NbrEvent α κ} (hproper : s.Proper e) (hspares : Spares u t (key * u.itemSize t) lladdr e)
    (hstep : s.step u e = some s') :
    (s'.data t).load (key * u.itemSize t) (u.itemSize t) = (s.data t).load (key * u.itemSize t) (u.itemSize t) := by
  have hentered : ∀ {t' key' lladdr' gone told ks' s'}, Entered u s ks t' lladdr' key' gone told s' ks' →
      (t' = t → key' ≠ key) →
      (s'.data t).load (key * u.itemSize t) (u.itemSize t) = (s.data t).load (key * u.itemSize t) (u.itemSize t) := by
    intro t' key' lladdr' gone told ks' s' h' hne
    rw [h'.data]
    by_cases ht : t' = t
    · subst ht
      rw [Function.update_self]
      exact load_of_other_key _ (hne rfl)
    · rw [Function.update_of_ne (Ne.symm ht)]
  cases e with
  | register t' callback =>
      obtain rfl := Option.some.inj hstep
      rw [NbrTables.nbrTableRegister]
      split <;> rfl
  | add t' lladdr' =>
      obtain rfl := Option.some.inj hstep
      have hadded := hs.nbrTableAddLladdr (u := u) hlib hproper lladdr'
      generalize s.nbrTableAddLladdr u t' lladdr' = r at hadded ⊢
      cases hadded with
      | known key' s' hkey haddr h' =>
          refine hentered h' fun ht heq => hspares ⟨ht, ?_⟩
          rw [← haddr, heq, h.addr]
      | free key' s' hnew hroom hkey h' =>
          refine hentered h' fun _ heq => hkey ?_
          rw [heq, ← hs.keys_eq]
          exact h.listed
      | reused key' told s' hnew hfull hvictim htold h' =>
          refine hentered h' fun _ heq => ?_
          exact (hs.victim_mem hvictim).2 owner howner (heq ▸ hlocks)
      | failed => rfl
  | write t' offset bytes =>
      obtain rfl := Option.some.inj hstep
      change ((Function.update s.data t' ((s.data t').store offset bytes)) t).load _ _ = _
      by_cases ht : t' = t
      · subst ht
        rw [Function.update_self]
        exact Memory.load_store_of_disjoint (hspares rfl).symm
      · rw [Function.update_of_ne (Ne.symm ht)]
  | remove | lock | unlock =>
      obtain rfl := Option.some.inj hstep
      rfl

/-! ### Whole runs -/

/-- A key that some table locks, and an item of its neighbor that another one has, or the same. -/
structure Secured (s : NbrTables lib α κ) (t t' key : Nat) (lladdr : α) : Prop where
  keeps : ∃ ks, Keeps s ks
  locks : s.Locks t key
  owner : Holds s t key lladdr
  holds : Holds s t' key lladdr

theorem Secured.step (hlib : lib.Lawful) {lladdr : α} (h : Secured s t t' key lladdr) {e : NbrEvent α κ} (hproper : s.Proper e)
    (hguards : Guards u t (key * u.itemSize t) e) (hleaves : Leaves u t' (key * u.itemSize t') e)
    (hstep : s.step u e = some s') : Secured s' t t' key lladdr := by
  obtain ⟨ks, hs⟩ := h.keeps
  have hstays : s.victim ≠ some key := fun hvictim => (hs.victim_mem hvictim).2 t h.owner.registered h.locks
  exact ⟨keeps_step hlib hs hproper hstep, h.owner.locks_step hlib hs h.locks hproper hguards hstep,
    (h.owner.step hlib hs hproper hguards.leaves hstep).resolve_right fun hgone => hstays hgone.1,
    (h.holds.step hlib hs hproper hleaves hstep).resolve_right fun hgone => hstays hgone.1⟩

/-- **A locked neighbor lasts.** Over any run in which a table that has locked an item of a neighbor neither unlocks nor removes it, it finds the same item, locked, and so does every table, of the neighbor, that does not remove its own; and the contents are the same where that table has not written or cleared them. -/
theorem nbrTable_locked_lasts (hlib : lib.Lawful) (hs : Reached u s) (ht : t ∈ s.allTables) {lladdr : α} {item : Nat}
    (hget : s.nbrTableGetFromLladdr u t (some lladdr) = some item)
    (hlocked : s.nbrGetBit u s.lockedMap t (some item) = true) (ht' : t' ∈ s.allTables) {item' : Nat}
    (hget' : s.nbrTableGetFromLladdr u t' (some lladdr) = some item') {es : List (NbrEvent α κ)}
    (hproper : Along (step u) Proper s es) (hguards : ∀ e ∈ es, Guards u t item e) (hleaves : ∀ e ∈ es, Leaves u t' item' e)
    (hrun : run (step u) s es = some s') :
    s'.nbrTableGetFromLladdr u t (some lladdr) = some item ∧ s'.nbrGetBit u s'.lockedMap t (some item) = true ∧
      s'.nbrTableGetFromLladdr u t' (some lladdr) = some item' ∧
      ((∀ e ∈ es, Spares u t' item' lladdr e) →
        (s'.data t').load item' (u.itemSize t') = (s.data t').load item' (u.itemSize t')) := by
  have hkeeps := hs.keeps hlib
  obtain ⟨key, howner, rfl⟩ := holds_of_get hkeeps ht hget
  obtain ⟨key', hholds, rfl⟩ := holds_of_get hkeeps ht' hget'
  obtain rfl : key' = key :=
    List.inj_on_of_nodup_map hkeeps.distinct hholds.listed howner.listed (hholds.addr.trans howner.addr.symm)
  have hbit : ∀ {s₁ : NbrTables lib α κ}, (∃ ks, Keeps s₁ ks) → t ∈ s₁.allTables →
      (s₁.nbrGetBit u s₁.lockedMap t (some (key' * u.itemSize t)) = true ↔ s₁.Locks t key') := by
    rintro s₁ ⟨ks, hks⟩ hregistered
    have hget := nbrGetBit_itemFromKey (u := u) s₁.lockedMap key' (hks.index_lt_eight hregistered)
    exact hget ▸ Iff.rfl
  have hstart : Secured s t t' key' lladdr := ⟨⟨_, hkeeps⟩, (hbit ⟨_, hkeeps⟩ ht).mp hlocked, howner, hholds⟩
  have hcond := (hproper.and_forall hguards).and_forall hleaves
  have hend := invariant_along _ (fun s₁ => Secured s₁ t t' key' lladdr)
    (fun _ _ _ h hcond hstep => h.step hlib hcond.1.1 hcond.1.2 hcond.2 hstep) es hstart hcond hrun
  obtain ⟨ks', hkeeps'⟩ := hend.keeps
  refine ⟨hend.owner.get hkeeps', (hbit hend.keeps hend.owner.registered).mpr hend.locks, hend.holds.get hkeeps', fun hspares => ?_⟩
  have hload := invariant_along _ (fun s₁ => Secured s₁ t t' key' lladdr ∧
      (s₁.data t').load (key' * u.itemSize t') (u.itemSize t') = (s.data t').load (key' * u.itemSize t') (u.itemSize t'))
    (fun s₁ e s₂ ⟨h, hsame⟩ ⟨⟨⟨hproper, hguards⟩, hleaves⟩, hspares⟩ hstep => by
      obtain ⟨ks, hks⟩ := h.keeps
      exact ⟨h.step hlib hproper hguards hleaves hstep,
        (h.holds.load_step hlib hks h.owner.registered h.locks hproper hspares hstep).trans hsame⟩)
    es ⟨hstart, rfl⟩ (hcond.and_forall hspares) hrun
  exact hload.2

/-- Two more neighbors come, and both items of the locked one stay, of which the other table writes its own. -/
theorem nbrTable_locked_lasts_shared : ∃ s s', Reached (wordTables 2) s ∧
    run (step (wordTables 2)) s [.add 9 (some 3), .write 9 0 [1, 2, 3, 4], .add 9 (some 4), .unlock 9 (some 0)] = some s' ∧
    s'.nbrTableGetFromLladdr (wordTables 2) 7 (some 1) = some 0 ∧
    s'.nbrTableGetFromLladdr (wordTables 2) 9 (some 1) = some 0 := by
  have hrun : (run (step (wordTables 2)) (init (firstFit 2) Nat Nat fun _ => 0) (sharedNeighbor ++ [.lock 7 (some 0)])).any
      (fun s => decide (s.allTables = [7, 9] ∧ s.nbrTableGetFromLladdr (wordTables 2) 7 (some 1) = some 0 ∧
        s.nbrGetBit (wordTables 2) s.lockedMap 7 (some 0) = true ∧
        s.nbrTableGetFromLladdr (wordTables 2) 9 (some 1) = some 0 ∧
        Along (step (wordTables 2)) Proper s
          [.add 9 (some 3), .write 9 0 [1, 2, 3, 4], .add 9 (some 4), .unlock 9 (some 0)])) = true := by
    decide +kernel
  obtain ⟨s, hs, hstate⟩ := exists_run hrun
  obtain ⟨htables, hget, hlocked, hget', hproper⟩ := of_decide_eq_true hstate
  have hreached : Reached (wordTables 2) s := ⟨fun _ => 0, sharedNeighbor ++ [.lock 7 (some 0)], by decide +kernel, hs⟩
  have hguards : ∀ e ∈ [NbrEvent.add 9 (some 3), .write 9 0 [1, 2, 3, 4], .add 9 (some 4), .unlock 9 (some 0)],
      Guards (wordTables 2) 7 0 e := by
    simp [Guards]
  have hleaves : ∀ e ∈ [NbrEvent.add 9 (some 3), .write 9 0 [1, 2, 3, 4], .add 9 (some 4), .unlock 9 (some 0)],
      Leaves (wordTables 2) 9 0 e := by
    decide
  obtain ⟨hfound, _, hfound', _⟩ := nbrTable_locked_lasts (firstFit_lawful 2) hreached (by simp [htables]) hget hlocked
    (by rw [htables]; exact List.mem_cons_of_mem 7 (List.mem_singleton_self 9)) hget' hproper hguards hleaves rfl
  exact ⟨s, _, hreached, rfl, hfound, hfound'⟩

end NbrTables

end ContikiAtsam.Nbr
