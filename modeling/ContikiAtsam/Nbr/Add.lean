import ContikiAtsam.Nbr.Evict

/-!
# Adding a neighbor

What `nbr_table_add_lladdr` does to the keys, in each of the four ways it can go: the neighbor has a key; it gets a free one; it gets the key of another neighbor, whose tables are told; or there is none for it, and nothing changes.
-/

namespace ContikiAtsam.Nbr

open Bits Chain

variable {lib : NbrLib} {α κ : Type} {u : Users lib α κ}

namespace NbrTables

variable {s : NbrTables lib α κ} {ks : List Nat} {t t' key : Nat}

/-! ### Telling the tables -/

/-- Other bits for a key, after some tables have been told that it goes. -/
def withBits (s : NbrTables lib α κ) (key : Nat) (used locked : UInt8) (tables : List Nat) : NbrTables lib α κ :=
  { s with
    usedMap := Function.update s.usedMap key used
    lockedMap := Function.update s.lockedMap key locked
    calls := s.calls ++ tables.map fun t => (t, key) }

theorem withBits_self (s : NbrTables lib α κ) (key : Nat) :
    s.withBits key (s.usedMap key) (s.lockedMap key) [] = s := by
  rw [withBits, Function.update_eq_self, Function.update_eq_self, List.map_nil, List.append_nil]

theorem withBits_withBits (used locked used' locked' : UInt8) (tables tables' : List Nat) :
    (s.withBits key used locked tables).withBits key used' locked' tables' = s.withBits key used' locked' (tables ++ tables') := by
  simp only [withBits, Function.update_idem, List.map_append, List.append_assoc]

@[simp] theorem withBits_usedMap (s : NbrTables lib α κ) (key : Nat) (used locked : UInt8) (tables : List Nat) :
    (s.withBits key used locked tables).usedMap key = used := Function.update_self ..

@[simp] theorem withBits_lockedMap (s : NbrTables lib α κ) (key : Nat) (used locked : UInt8) (tables : List Nat) :
    (s.withBits key used locked tables).lockedMap key = locked := Function.update_self ..

theorem nbrTableRemove_key (u : Users lib α κ) (s : NbrTables lib α κ) (t key : Nat) :
    (s.nbrTableRemove u t (itemFromKey u t (some key))).2 =
      s.withBits key (s.usedMap key &&& ~~~ s.bit t) (s.lockedMap key &&& ~~~ s.bit t) [] := by
  unfold nbrTableRemove nbrSetBit withBits
  rw [indexFromItem_itemFromKey, List.map_nil, List.append_nil]
  rfl

/-- The bits that are left of a key's, of those that are set, when some tables have been told. -/
structure Left (s : NbrTables lib α κ) (key : Nat) (used locked : UInt8) : Prop where
  used : ∀ i, used.toBitVec.getLsbD i = true → (s.usedMap key).toBitVec.getLsbD i = true
  locked : s.lockedMap key = 0 → locked = 0

theorem Left.refl (s : NbrTables lib α κ) (key : Nat) : s.Left key (s.usedMap key) (s.lockedMap key) where
  used := fun _ h => h
  locked := id

theorem Left.trans {used locked used' locked' : UInt8} {tables : List Nat} (h : s.Left key used locked)
    (h' : (s.withBits key used locked tables).Left key used' locked') : s.Left key used' locked' where
  used := by
    intro i hi
    have hbit := h'.used i hi
    rw [withBits_usedMap] at hbit
    exact h.used i hbit
  locked := by
    intro hzero
    apply h'.locked
    rw [withBits_lockedMap]
    exact h.locked hzero

/-- The places of the tables, which stay as they are while tables are told. -/
structure Places (s : NbrTables lib α κ) : Prop where
  bound : ∀ t ∈ s.allTables, s.index t < 8
  inj : ∀ t ∈ s.allTables, ∀ t' ∈ s.allTables, s.index t = s.index t' → t = t'

theorem Keeps.places (hs : Keeps s ks) : s.Places := ⟨fun _ => hs.index_lt_eight, fun _ ht _ ht' => hs.index_inj ht ht'⟩

theorem Places.of_withBits (h : s.Places) (key : Nat) (used locked : UInt8) (tables : List Nat) :
    (s.withBits key used locked tables).Places := ⟨h.bound, h.inj⟩

/-- A callback clears the bits of the tables whose items it removes. -/
theorem Places.release (h : s.Places) (key : Nat) {tables : List Nat} (htables : ∀ t ∈ tables, t ∈ s.allTables) :
    ∃ used locked, s.release u key tables = s.withBits key used locked [] ∧ s.Left key used locked ∧
      ∀ t ∈ s.allTables, s.Uses t key → t ∉ tables → used.toBitVec.getLsbD (s.index t) = true := by
  induction tables generalizing s with
  | nil => exact ⟨_, _, (withBits_self s key).symm, Left.refl s key, fun t _ huses _ => huses⟩
  | cons t ts ih =>
      have ht := htables t (List.mem_cons_self ..)
      have hmask := toBitVec_mask (h.bound t ht)
      have hremove := nbrTableRemove_key u s t key
      have hplaces := h.of_withBits key (s.usedMap key &&& ~~~ s.bit t) (s.lockedMap key &&& ~~~ s.bit t) []
      obtain ⟨used, locked, hrest, hleft, hstill⟩ := ih hplaces fun t' ht' => htables t' (List.mem_cons_of_mem t ht')
      have hone : s.Left key (s.usedMap key &&& ~~~ s.bit t) (s.lockedMap key &&& ~~~ s.bit t) := by
        refine ⟨fun i hi => ?_, fun hzero => ?_⟩
        · rw [bit, getLsbD_and_not_mask (h.bound t ht) hmask, Bool.and_eq_true] at hi
          exact hi.1
        · rw [hzero]
          exact UInt8.zero_and
      refine ⟨used, locked, ?_, hone.trans hleft, fun t' ht' huses hnot => ?_⟩
      · rw [release, List.foldl_cons, hremove]
        exact hrest.trans (withBits_withBits _ _ _ _ _ _)
      · obtain ⟨hne, hnot⟩ := not_or.mp fun hor => hnot (List.mem_cons.mpr hor)
        refine hstill t' ht' ?_ hnot
        have hindex : s.index t' ≠ s.index t := fun heq => hne (h.inj t' ht' t ht heq)
        rw [Uses, withBits_usedMap]
        change (s.usedMap key &&& ~~~ s.bit t).toBitVec.getLsbD (s.index t') = true
        rw [bit, getLsbD_and_not_mask (h.bound t ht) hmask, decide_eq_false hindex, Bool.not_false, Bool.and_true]
        exact huses

/-- The tables that are told that a key goes, of those in a list: the tables that use it and have a callback, but for those whose item was removed by the callback of another one when that was told. -/
structure Told (u : Users lib α κ) (s : NbrTables lib α κ) (key : Nat) (tables told : List Nat) : Prop where
  sublist : told.Sublist tables
  uses : ∀ t ∈ told, s.callback t ≠ none ∧ s.Uses t key
  missed : ∀ t ∈ tables, s.callback t ≠ none → s.Uses t key → t ∉ told →
    ∃ t' ∈ told, ∃ callback s', s.callback t' = some callback ∧ t ∈ u.releases callback key s' ∧
      s'.calls ++ [(t', key)] <+: s.calls ++ told.map fun t => (t, key)

theorem Told.skip {ts told : List Nat} (h : Told u s key ts told) (hno : s.callback t = none ∨ ¬ s.Uses t key) :
    Told u s key (t :: ts) told where
  sublist := h.sublist.cons t
  uses := h.uses
  missed := by
    intro t' ht' hcallback huses hnot
    obtain rfl | ht' := List.mem_cons.mp ht'
    · exact hno.elim (fun hnone => absurd hnone hcallback) fun hnone => absurd huses hnone
    · exact h.missed t' ht' hcallback huses hnot

theorem callTurn_skip (hindex : s.index t < 8) (hno : s.callback t = none ∨ ¬ s.Uses t key) : s.callTurn u key t = s := by
  rw [callTurn]
  cases hcallback : s.callback t with
  | none => rfl
  | some callback =>
      have hunused : ¬ (s.usedMap key).toBitVec.getLsbD (s.index t) = true := hno.resolve_left (by simp [hcallback])
      dsimp only
      rw [nbrGetBit_itemFromKey s.usedMap key hindex, if_neg hunused]

theorem Places.callTurn (h : s.Places) (ht : t ∈ s.allTables) {callback : κ} (hcallback : s.callback t = some callback)
    (huses : s.Uses t key) :
    ∃ used locked, s.callTurn u key t = s.withBits key used locked [t] ∧ s.Left key used locked ∧
      ∀ t' ∈ s.allTables, s.Uses t' key → t' ∉ u.releases callback key s → used.toBitVec.getLsbD (s.index t') = true := by
  let called : NbrTables lib α κ := { s with calls := s.calls ++ [(t, key)] }
  have hcalled : called.Places := ⟨h.bound, h.inj⟩
  have hregistered : ∀ t' ∈ u.releases callback key s, t' ∈ s.allTables := u.releases_registered
  obtain ⟨used, locked, hrelease, hleft, hstill⟩ := hcalled.release (u := u) key hregistered
  refine ⟨used, locked, ?_, ⟨hleft.used, hleft.locked⟩, hstill⟩
  have hbit : (s.usedMap key).toBitVec.getLsbD (s.index t) = true := huses
  rw [NbrTables.callTurn, hcallback]
  dsimp only
  rw [nbrGetBit_itemFromKey s.usedMap key (h.bound t ht), if_pos hbit]
  refine hrelease.trans ?_
  rw [withBits, withBits, List.map_nil, List.append_nil]
  rfl

theorem Places.callAll (h : s.Places) (key : Nat) {tables : List Nat} (htables : ∀ t ∈ tables, t ∈ s.allTables) :
    ∃ told used locked, tables.foldl (fun s t => s.callTurn u key t) s = s.withBits key used locked told ∧
      s.Left key used locked ∧ Told u s key tables told := by
  induction tables generalizing s with
  | nil =>
      exact ⟨[], _, _, (withBits_self s key).symm, Left.refl s key, List.Sublist.slnil, by simp, by simp⟩
  | cons t ts ih =>
      have ht := htables t (List.mem_cons_self ..)
      have hts : ∀ t' ∈ ts, t' ∈ s.allTables := fun t' ht' => htables t' (List.mem_cons_of_mem t ht')
      rw [List.foldl_cons]
      by_cases hskip : s.callback t = none ∨ ¬ s.Uses t key
      · rw [callTurn_skip (h.bound t ht) hskip]
        obtain ⟨told, used, locked, hrest, hleft, htold⟩ := ih h hts
        exact ⟨told, used, locked, hrest, hleft, htold.skip hskip⟩
      · obtain ⟨hsome, huses⟩ := not_or.mp hskip
        obtain ⟨callback, hcallback⟩ := Option.ne_none_iff_exists'.mp hsome
        obtain ⟨used₁, locked₁, hturn, hleft₁, hstill⟩ := h.callTurn (u := u) ht hcallback (not_not.mp huses)
        obtain ⟨told, used, locked, hrest, hleft, htold⟩ := ih (h.of_withBits key used₁ locked₁ [t]) hts
        refine ⟨t :: told, used, locked, ?_, hleft₁.trans hleft, htold.sublist.cons_cons t, ?_, ?_⟩
        · rw [hturn, hrest, withBits_withBits]
          rfl
        · intro t' ht'
          obtain rfl | ht' := List.mem_cons.mp ht'
          · exact ⟨hsome, not_not.mp huses⟩
          · obtain ⟨hcallback', huses'⟩ := htold.uses t' ht'
            rw [Uses, withBits_usedMap] at huses'
            exact ⟨hcallback', hleft₁.used _ huses'⟩
        · intro t' ht' hcallback' huses' hnot
          obtain ⟨hne, hnot⟩ := not_or.mp fun hor => hnot (List.mem_cons.mpr hor)
          have ht' := (List.mem_cons.mp ht').resolve_left hne
          by_cases hreleased : t' ∈ u.releases callback key s
          · exact ⟨t, List.mem_cons_self .., callback, s, hcallback, hreleased,
              (List.prefix_append_right_inj s.calls).mpr ⟨told.map fun t => (t, key), rfl⟩⟩
          · have hbit := hstill t' (hts t' ht') huses' hreleased
            rw [← withBits_usedMap s key used₁ locked₁ [t]] at hbit
            obtain ⟨t'', ht'', callback', s', hcallback'', hreleases, hcalls⟩ := htold.missed t' ht' hcallback' hbit hnot
            refine ⟨t'', List.mem_cons_of_mem t ht'', callback', s', hcallback'', hreleases, ?_⟩
            rw [withBits, List.append_assoc] at hcalls
            exact hcalls

/-! ### The item -/

theorem uses_useItem (hindex : s.index t < 8) (key t' q : Nat) :
    (s.useItem u t key).2.Uses t' q ↔ (s.index t' = s.index t ∧ q = key) ∨ s.Uses t' q := by
  change ((s.nbrSetBit u s.usedMap t (itemFromKey u t (some key)) true).2 q).toBitVec.getLsbD (s.index t') = true ↔ _
  rw [getLsbD_nbrSetBit s.usedMap _ true hindex, indexFromItem_itemFromKey]
  by_cases h : some key = some q ∧ s.index t' = s.index t
  · rw [if_pos h]
    exact iff_of_true rfl (Or.inl ⟨h.2, (Option.some.inj h.1).symm⟩)
  · rw [if_neg h]
    exact ⟨Or.inr, fun hor => hor.resolve_left fun hboth => h ⟨congrArg some hboth.2.symm, hboth.1⟩⟩

theorem Places.uses_useItem (h : s.Places) (ht : t ∈ s.allTables) (ht' : t' ∈ s.allTables) (key q : Nat) :
    (s.useItem u t key).2.Uses t' q ↔ (t' = t ∧ q = key) ∨ s.Uses t' q := by
  have hindex : s.index t' = s.index t ↔ t' = t := ⟨h.inj t' ht' t ht, congrArg s.index⟩
  rw [NbrTables.uses_useItem (h.bound t ht), hindex]

theorem Keeps.useItem (hs : Keeps s ks) (ht : t ∈ s.allTables) (hkey : key ∈ ks) : Keeps (s.useItem u t key).2 ks where
  chain := hs.chain
  nodup := hs.nodup
  bound := hs.bound
  allocated := hs.allocated
  distinct := hs.distinct
  unused := by
    intro q hq
    rw [eq_zero_iff]
    intro i _
    change ((s.nbrSetBit u s.usedMap t (itemFromKey u t (some key)) true).2 q).toBitVec.getLsbD i = false
    have hne : ¬ (some key = some q ∧ i = s.index t) := by
      rintro ⟨heq, _⟩
      exact hq (Option.some.inj heq ▸ hkey)
    rw [getLsbD_nbrSetBit s.usedMap _ true (hs.index_lt_eight ht), indexFromItem_itemFromKey, if_neg hne, hs.unused q hq]
    exact BitVec.getLsbD_zero
  tables := hs.tables
  index := hs.index
  usedBits := by
    intro q i hi
    change ((s.nbrSetBit u s.usedMap t (itemFromKey u t (some key)) true).2 q).toBitVec.getLsbD i = false
    have hlt := hs.index_lt ht
    have hne : ¬ (some key = some q ∧ i = s.index t) := by
      rintro ⟨_, rfl⟩
      exact absurd hlt (Nat.not_lt.mpr hi)
    rw [getLsbD_nbrSetBit s.usedMap _ true (hs.index_lt_eight ht), indexFromItem_itemFromKey, if_neg hne]
    exact hs.usedBits q i hi
  lockedBits := hs.lockedBits

/-! ### The four ways -/

/-- A neighbor is entered for a table: it has the key `key`, and the key `gone`, if any, was its last owner's. -/
structure Entered (u : Users lib α κ) (s : NbrTables lib α κ) (ks : List Nat) (t : Nat) (lladdr : α) (key : Nat)
    (gone : Option Nat) (told : List Nat) (s' : NbrTables lib α κ) (ks' : List Nat) : Prop where
  keeps : Keeps s' ks'
  keys : ∀ q, q ∈ ks' ↔ q = key ∨ q ∈ ks
  lladdr : s'.lladdr = Function.update s.lladdr key lladdr
  uses : ∀ t' ∈ s.allTables, ∀ q, s'.Uses t' q ↔ (t' = t ∧ q = key) ∨ (s.Uses t' q ∧ gone ≠ some q)
  lockedMap : s'.lockedMap = s.lockedMap
  allTables : s'.allTables = s.allTables
  index : s'.index = s.index
  callback : s'.callback = s.callback
  data : s'.data = Function.update s.data t ((s.data t).store (key * u.itemSize t) (List.replicate (u.itemSize t) 0))
  calls : s'.calls = s.calls ++ told.map fun t' => (t', key)

/-- What adding a neighbor to a table can do. -/
inductive Added (u : Users lib α κ) (s : NbrTables lib α κ) (ks : List Nat) (t : Nat) (lladdr : α) :
    Option Nat × NbrTables lib α κ → Prop
  | known (key : Nat) (s' : NbrTables lib α κ) (hkey : key ∈ ks) (haddr : s.lladdr key = lladdr)
      (h : Entered u s ks t lladdr key none [] s' ks) : Added u s ks t lladdr (itemFromKey u t (some key), s')
  | free (key : Nat) (s' : NbrTables lib α κ) (hnew : lladdr ∉ ks.map s.lladdr) (hroom : ks.length < lib.blocks)
      (hkey : key ∉ ks) (h : Entered u s ks t lladdr key none [] s' (ks ++ [key])) :
      Added u s ks t lladdr (itemFromKey u t (some key), s')
  | reused (key : Nat) (told : List Nat) (s' : NbrTables lib α κ) (hnew : lladdr ∉ ks.map s.lladdr)
      (hfull : ks.length = lib.blocks) (hvictim : s.victim = some key) (htold : Told u s key s.allTables told)
      (h : Entered u s ks t lladdr key (some key) told s' (ks.erase key ++ [key])) :
      Added u s ks t lladdr (itemFromKey u t (some key), s')
  | failed (hnew : lladdr ∉ ks.map s.lladdr) (hfull : ks.length = lib.blocks) (hlocked : s.victim = none) :
      Added u s ks t lladdr (none, s)

theorem nodup_snoc {β : Type*} {l : List β} {a : β} : (l ++ [a]).Nodup ↔ a ∉ l ∧ l.Nodup := by
  rw [← List.concat_eq_append, List.nodup_concat]

theorem Keeps.enter (hlib : lib.Lawful) (hs : Keeps s ks) {old : List Nat} (hold : old.Sublist ks) (hkey : key ∉ old)
    (hbound : key < lib.blocks) {lladdr : α} (hnew : lladdr ∉ ks.map s.lladdr) {mem : lib.Memb} {l : lib.ListT}
    {next : Nat → Option Nat} {used : Nat → UInt8} (calls : List (Nat × Nat)) (hchain : Links next (lib.listHead l) old)
    (hmem : ∀ q, lib.allocated mem q ↔ q ∈ old ++ [key]) (hused : ∀ q, q ∉ old → used q = 0)
    (hbits : ∀ q i, s.allTables.length ≤ i → (used q).toBitVec.getLsbD i = false) :
    Keeps { s with
      mem
      list := (lib.listAdd l next key).1
      next := (lib.listAdd l next key).2
      lladdr := Function.update s.lladdr key lladdr
      usedMap := used
      calls } (old ++ [key]) := by
  have hnodup : (old ++ [key]).Nodup := nodup_snoc.mpr ⟨hkey, hold.nodup hs.nodup⟩
  have hin : ∀ q ∈ old ++ [key], q < lib.blocks := by
    intro q hq
    obtain hq | hq := List.mem_append.mp hq
    · exact hs.bound q (hold.mem hq)
    · rw [List.mem_singleton.mp hq]
      exact hbound
  refine ⟨hlib.add hchain hnodup hin, hnodup, hin, hmem, ?_, fun q hq => ?_, hs.tables, hs.index, hbits, hs.lockedBits⟩
  · have hsame : old.map (Function.update s.lladdr key lladdr) = old.map s.lladdr := by
      apply List.map_congr_left
      intro q hq
      have hne : q ≠ key := by
        rintro rfl
        exact hkey hq
      exact Function.update_of_ne hne ..
    change ((old ++ [key]).map (Function.update s.lladdr key lladdr)).Nodup
    rw [List.map_append, hsame, List.map_singleton, Function.update_self, nodup_snoc]
    exact ⟨fun hmem => hnew ((hold.map s.lladdr).mem hmem), (hold.map s.lladdr).nodup hs.distinct⟩
  · exact hused q fun hmem => hq (List.mem_append_left _ hmem)

/-- Every block is in use exactly if nothing can be allocated. -/
theorem Keeps.length_eq (hlib : lib.Lawful) (hs : Keeps s ks) (h : lib.membAlloc s.mem = none) : ks.length = lib.blocks := by
  have hall : (List.range lib.blocks).Subperm ks := by
    apply List.subperm_of_subset List.nodup_range
    intro key hkey
    exact (hs.allocated key).mp (hlib.alloc_none h key (List.mem_range.mp hkey))
  have hle := hall.length_le
  rw [List.length_range] at hle
  exact Nat.le_antisymm hs.length_le hle

theorem Keeps.length_lt (hs : Keeps s ks) (hbound : key < lib.blocks) (hkey : key ∉ ks) : ks.length < lib.blocks := by
  have hnodup : (key :: ks).Nodup := List.nodup_cons.mpr ⟨hkey, hs.nodup⟩
  refine length_le_of_nodup hnodup fun q hq => ?_
  obtain rfl | hq := List.mem_cons.mp hq
  · exact hbound
  · exact hs.bound q hq

theorem Keeps.known (hs : Keeps s ks) (ht : t ∈ s.allTables) (hkey : key ∈ ks) :
    Entered u s ks t (s.lladdr key) key none [] (s.useItem u t key).2 ks where
  keeps := hs.useItem ht hkey
  keys := by
    intro q
    exact ⟨Or.inr, fun hor => hor.elim (fun heq => heq ▸ hkey) id⟩
  lladdr := (Function.update_eq_self ..).symm
  uses := by
    intro t' ht' q
    rw [hs.places.uses_useItem ht ht']
    simp
  lockedMap := rfl
  allTables := rfl
  index := rfl
  callback := rfl
  data := rfl
  calls := (List.append_nil _).symm

theorem Keeps.free (hlib : lib.Lawful) (hs : Keeps s ks) (ht : t ∈ s.allTables) {mem : lib.Memb}
    (halloc : lib.membAlloc s.mem = some (key, mem)) {lladdr : α} (hnew : lladdr ∉ ks.map s.lladdr) :
    key < lib.blocks ∧ key ∉ ks ∧ Entered u s ks t lladdr key none []
      ({ s with
        mem
        list := (lib.listAdd s.list s.next key).1
        next := (lib.listAdd s.list s.next key).2
        lladdr := Function.update s.lladdr key lladdr }.useItem u t key).2 (ks ++ [key]) := by
  obtain ⟨hbound, hfree⟩ := hlib.alloc_fresh halloc
  have hkey : key ∉ ks := fun hmem => hfree ((hs.allocated key).mpr hmem)
  have hmem : ∀ q, lib.allocated mem q ↔ q ∈ ks ++ [key] := by
    intro q
    rw [hlib.alloc_allocated halloc, hs.allocated, List.mem_append, List.mem_singleton, or_comm]
  have hkeeps := hs.enter hlib (List.Sublist.refl ks) hkey hbound hnew s.calls hs.chain hmem hs.unused hs.usedBits
  refine ⟨hbound, hkey, hkeeps.useItem ht (List.mem_append_right _ (List.mem_singleton_self key)), fun q => ?_, rfl,
    fun t' ht' q => ?_, rfl, rfl, rfl, rfl, rfl, (List.append_nil _).symm⟩
  · rw [List.mem_append, List.mem_singleton, or_comm]
  · rw [hkeeps.places.uses_useItem ht ht']
    simp [Uses]

theorem Keeps.reused (hlib : lib.Lawful) (hs : Keeps s ks) (ht : t ∈ s.allTables) (hvictim : s.victim = some key)
    {lladdr : α} (hnew : lladdr ∉ ks.map s.lladdr) {used locked : UInt8} {told : List Nat} (hleft : s.Left key used locked) :
    Entered u s ks t lladdr key (some key) told
      ({ s.withBits key used locked told with
        list := (lib.listAdd (lib.listRemove s.list s.next key).1 (lib.listRemove s.list s.next key).2 key).1
        next := (lib.listAdd (lib.listRemove s.list s.next key).1 (lib.listRemove s.list s.next key).2 key).2
        lladdr := Function.update s.lladdr key lladdr
        usedMap := Function.update (s.withBits key used locked told).usedMap key 0 }.useItem u t key).2
      (ks.erase key ++ [key]) := by
  obtain ⟨hkey, hunlocked⟩ := hs.victim_mem hvictim
  have hzero := (hs.lockedMap_eq_zero_iff key).mpr hunlocked
  have hlocked : Function.update s.lockedMap key locked = s.lockedMap := by
    rw [hleft.locked hzero, ← hzero, Function.update_eq_self]
  have hnone : key ∉ ks.erase key := fun hmem => ((List.Nodup.mem_erase_iff hs.nodup).mp hmem).1 rfl
  have hall : ∀ q, q ∈ ks.erase key ++ [key] ↔ q = key ∨ q ∈ ks := by
    intro q
    rw [List.mem_append, List.mem_singleton, List.Nodup.mem_erase_iff hs.nodup]
    by_cases hq : q = key <;> simp [hq]
  have hmem : ∀ q, lib.allocated s.mem q ↔ q ∈ ks.erase key ++ [key] := by
    intro q
    rw [hs.allocated, hall]
    exact ⟨Or.inr, fun hor => hor.elim (fun heq => heq ▸ hkey) id⟩
  have hused : ∀ q, q ∉ ks.erase key → Function.update s.usedMap key 0 q = 0 := by
    intro q hq
    by_cases heq : q = key
    · rw [heq, Function.update_self]
    · rw [Function.update_of_ne heq]
      exact hs.unused q fun hmem => hq ((List.Nodup.mem_erase_iff hs.nodup).mpr ⟨heq, hmem⟩)
  have hbits : ∀ q i, s.allTables.length ≤ i → (Function.update s.usedMap key 0 q).toBitVec.getLsbD i = false := by
    intro q i hi
    by_cases heq : q = key
    · rw [heq, Function.update_self]
      exact BitVec.getLsbD_zero
    · rw [Function.update_of_ne heq]
      exact hs.usedBits q i hi
  have hkeeps := hs.enter hlib List.erase_sublist hnone (hs.bound key hkey) hnew (s.calls ++ told.map fun t' => (t', key))
    (hlib.remove hs.chain hs.nodup hs.bound hkey) hmem hused hbits
  have hbefore : { s.withBits key used locked told with
      list := (lib.listAdd (lib.listRemove s.list s.next key).1 (lib.listRemove s.list s.next key).2 key).1
      next := (lib.listAdd (lib.listRemove s.list s.next key).1 (lib.listRemove s.list s.next key).2 key).2
      lladdr := Function.update s.lladdr key lladdr
      usedMap := Function.update (s.withBits key used locked told).usedMap key 0 } =
    { s with
      list := (lib.listAdd (lib.listRemove s.list s.next key).1 (lib.listRemove s.list s.next key).2 key).1
      next := (lib.listAdd (lib.listRemove s.list s.next key).1 (lib.listRemove s.list s.next key).2 key).2
      lladdr := Function.update s.lladdr key lladdr
      usedMap := Function.update s.usedMap key 0
      calls := s.calls ++ told.map fun t' => (t', key) } := by
    simp only [withBits, Function.update_idem, hlocked]
  rw [hbefore]
  refine ⟨hkeeps.useItem ht (List.mem_append_right _ (List.mem_singleton_self key)), hall, rfl,
    fun t' ht' q => ?_, rfl, rfl, rfl, rfl, rfl, rfl⟩
  rw [hkeeps.places.uses_useItem ht ht']
  by_cases hq : q = key
  · simp [Uses, hq]
  · simp [Uses, hq, Ne.symm hq]

variable [DecidableEq α]

theorem Keeps.nbrTableAddLladdr (hlib : lib.Lawful) (hs : Keeps s ks) (ht : t ∈ s.allTables) (lladdr : Option α) :
    Added u s ks t (lladdr.getD u.linkaddrNull) (s.nbrTableAddLladdr u t lladdr) := by
  unfold NbrTables.nbrTableAddLladdr
  dsimp only
  cases hfind : s.indexFromLladdr u (some (lladdr.getD u.linkaddrNull)) with
  | some key =>
      obtain ⟨hkey, haddr⟩ := (hs.indexFromLladdr_eq_some_iff _).mp hfind
      have hentered := hs.known (u := u) ht hkey
      rw [haddr] at hentered
      exact .known key _ hkey haddr hentered
  | none =>
      have hnew := hs.indexFromLladdr_eq_none hfind
      dsimp only
      rw [nbrTableAllocate, hs.leastUsed_eq_victim]
      cases halloc : lib.membAlloc s.mem with
      | some allocated =>
          obtain ⟨key, mem⟩ := allocated
          obtain ⟨hbound, hkey, hentered⟩ := hs.free (u := u) hlib ht halloc hnew
          exact .free key _ hnew (hs.length_lt hbound hkey) hkey hentered
      | none =>
          have hfull := hs.length_eq hlib halloc
          cases hvictim : s.victim with
          | none => exact .failed hnew hfull hvictim
          | some key =>
              obtain ⟨told, used, locked, hall, hleft, htold⟩ := hs.places.callAll (u := u) key fun t ht => ht
              dsimp only
              rw [callAll, hall]
              exact .reused key told _ hnew hfull hvictim htold (hs.reused hlib ht hvictim hnew hleft)

end NbrTables

end ContikiAtsam.Nbr
