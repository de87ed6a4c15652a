import ContikiAtsam.Driver.Drain
import ContikiAtsam.Nbr.Code

/-!
# A library for the keys

The first free block is allocated, and `list_remove` goes through the list for the element before the one that it takes out.
-/

namespace ContikiAtsam.Nbr

open Chain

def listRemove (blocks : Nat) (l : Option Nat) (next : Nat → Option Nat) (p : Nat) : Option Nat × (Nat → Option Nat) :=
  if l = some p then (next p, Function.update next p none)
  else
    match (walk next blocks l).find? fun q => decide (next q = some p) with
    | none => (l, next)
    | some r => (l, Function.update (Function.update next r (next p)) p none)

theorem links_listRemove {blocks : Nat} {l : Option Nat} {next : Nat → Option Nat} {p : Nat} {ps : List Nat}
    (hchain : Links next l ps) (hnodup : ps.Nodup) (hbound : ∀ q ∈ ps, q < blocks) (hmem : p ∈ ps) :
    Links (listRemove blocks l next p).2 (listRemove blocks l next p).1 (ps.erase p) := by
  have hwalk : walk next blocks l = ps := hchain.walk_eq (length_le_of_nodup hnodup hbound)
  rw [listRemove, hwalk]
  by_cases hfirst : l = some p
  · rw [if_pos hfirst]
    cases ps with
    | nil => cases hmem
    | cons q rest =>
        obtain ⟨hq, hrest⟩ := hchain
        obtain rfl := Option.some.inj (hfirst.symm.trans hq)
        rw [List.erase_cons_head]
        apply hrest.congr
        intro r hr
        have hne : r ≠ p := by
          rintro rfl
          exact (List.nodup_cons.mp hnodup).1 hr
        exact Function.update_of_ne hne ..
  · obtain ⟨r, hfind, hlinks⟩ := hchain.bypass hnodup hmem hfirst
    rw [if_neg hfirst, hfind]
    exact hlinks

def firstFit (blocks : Nat) : NbrLib where
  toContikiLib := TxQueue.firstFit blocks
  membInmemb := fun _ p => decide (p < blocks)
  listRemove := listRemove blocks

theorem firstFit_lawful (blocks : Nat) : (firstFit blocks).Lawful where
  toLawful := TxQueue.firstFit_lawful blocks
  alloc_none := by
    intro m h p hp
    have hnone := List.find?_eq_none.mp (Option.map_eq_none_iff.mp h) p (List.mem_range.mpr hp)
    change m p = true
    simpa using hnone
  inmemb := decide_eq_true
  remove := links_listRemove

/-- Tables of words, whose callbacks remove their own item. A callback is named as its table. -/
def wordTables (blocks : Nat) : Users (firstFit blocks) Nat Nat where
  itemSize := fun _ => 4
  itemSize_pos := fun _ => Nat.zero_lt_succ 3
  linkaddrNull := 0
  releases := fun callback _ s => if callback ∈ s.allTables then [callback] else []
  releases_registered := by
    intro callback key s t ht
    split at ht
    · rename_i hmem
      rwa [List.mem_singleton.mp ht]
    · cases ht

/-- Two tables and two neighbors: the first table uses both, the second one the older of them. -/
def sharedNeighbor : List (NbrEvent Nat Nat) :=
  [.register 7 (some 7), .register 9 (some 9), .add 7 (some 1), .add 9 (some 1), .add 7 (some 2)]

end ContikiAtsam.Nbr
