import ContikiAtsam.Base.Memory
import ContikiAtsam.Driver.Elements

/-!
# The neighbor tables

`nbr-table.c`. All neighbor tables share one list of neighbors, the keys, each with its link-layer address; a table has an item for every key. Which tables use a key, and which lock it, are bits of two bytes for each key. A neighbor that is new to all tables takes a free key, or the key of a neighbor that no table locks and the fewest tables use.

A key is its index in `neighbor_addr_mem`, and an item is its offset in the memory of its table; `none` is `NULL`. The addresses are of any type. What a callback does belongs to the user of the table: it may remove items of the neighbor that it is called for, from its own table or from others.
-/

namespace ContikiAtsam.Nbr

/-- `MAX_NUM_TABLES`. -/
def maxNumTables : Nat := 8

/-- `lib/memb.c` and `lib/list.c` with `memb_inmemb` and `list_remove`. -/
structure NbrLib extends ContikiLib where
  membInmemb : Memb → Nat → Bool
  listRemove : ListT → (Nat → Option Nat) → Nat → ListT × (Nat → Option Nat)

open Chain in
/-- What the users rely on: an allocation fails only if every block is in use, the blocks are those of the pool, and an element is removed from where it is. -/
structure NbrLib.Lawful (lib : NbrLib) : Prop extends lib.toContikiLib.Lawful where
  alloc_none : ∀ {m}, lib.membAlloc m = none → ∀ p < lib.blocks, lib.allocated m p
  inmemb : ∀ {m p}, p < lib.blocks → lib.membInmemb m p = true
  remove : ∀ {l next p ps}, Links next (lib.listHead l) ps → ps.Nodup → (∀ q ∈ ps, q < lib.blocks) → p ∈ ps →
    Links (lib.listRemove l next p).2 (lib.listHead (lib.listRemove l next p).1) (ps.erase p)

/-- The keys, and what is known of each table. `calls` is history: the callbacks made, each with its table and the key. -/
structure NbrTables (lib : NbrLib) (α κ : Type) where
  mem : lib.Memb
  list : lib.ListT
  next : Nat → Option Nat
  lladdr : Nat → α
  usedMap : Nat → UInt8
  lockedMap : Nat → UInt8
  allTables : List Nat
  index : Nat → Nat
  callback : Nat → Option κ
  data : Nat → Memory
  calls : List (Nat × Nat)

/-- The users of the tables: the size of each table's items, and the tables whose item of a neighbor a callback removes. -/
structure Users (lib : NbrLib) (α κ : Type) where
  itemSize : Nat → Nat
  itemSize_pos : ∀ t, 0 < itemSize t
  linkaddrNull : α
  releases : κ → Nat → NbrTables lib α κ → List Nat
  releases_registered : ∀ {callback key s}, ∀ t ∈ releases callback key s, t ∈ s.allTables

variable {lib : NbrLib} {α κ : Type} [DecidableEq α] (u : Users lib α κ)

def itemFromIndex (t : Nat) (index : Option Nat) : Option Nat := index.map fun i => i * u.itemSize t

def indexFromItem (t : Nat) (item : Option Nat) : Option Nat := item.map fun offset => offset / u.itemSize t

/-- `item_from_key`: a key is its index. -/
def itemFromKey (t : Nat) (key : Option Nat) : Option Nat := itemFromIndex u t key

/-- `key_from_item`. -/
def keyFromItem (t : Nat) (item : Option Nat) : Option Nat := indexFromItem u t item

namespace NbrTables

variable (s : NbrTables lib α κ)

def init (lib : NbrLib) (α κ : Type) (lladdr : Nat → α) : NbrTables lib α κ where
  mem := lib.membInit
  list := lib.listInit
  next := fun _ => none
  lladdr
  usedMap := fun _ => 0
  lockedMap := fun _ => 0
  allTables := []
  index := fun _ => 0
  callback := fun _ => none
  data := fun _ _ => 0
  calls := []

def indexFromLladdr (lladdr : Option α) : Option Nat :=
  let lladdr := lladdr.getD u.linkaddrNull
  Chain.search (fun key => decide (lladdr = s.lladdr key)) s.next lib.blocks (lib.listHead s.list)

/-- `1 << table->index`, in a byte. -/
def bit (t : Nat) : UInt8 := UInt8.ofNat (1 <<< s.index t)

def nbrGetBit (bitmap : Nat → UInt8) (t : Nat) (item : Option Nat) : Bool :=
  match indexFromItem u t item with
  | none => false
  | some itemIndex => decide (bitmap itemIndex &&& s.bit t ≠ 0)

def nbrSetBit (bitmap : Nat → UInt8) (t : Nat) (item : Option Nat) (value : Bool) : Bool × (Nat → UInt8) :=
  match indexFromItem u t item with
  | none => (false, bitmap)
  | some itemIndex =>
    (true, Function.update bitmap itemIndex
      (if value then bitmap itemIndex ||| s.bit t else bitmap itemIndex &&& ~~~ s.bit t))

def nbrTableRemove (t : Nat) (item : Option Nat) : Bool × NbrTables lib α κ :=
  let used := s.nbrSetBit u s.usedMap t item false
  let locked := s.nbrSetBit u s.lockedMap t item false
  (used.1, { s with usedMap := used.2, lockedMap := locked.2 })

def nbrTableLock (t : Nat) (item : Option Nat) : Bool × NbrTables lib α κ :=
  let locked := s.nbrSetBit u s.lockedMap t item true
  (locked.1, { s with lockedMap := locked.2 })

def nbrTableUnlock (t : Nat) (item : Option Nat) : Bool × NbrTables lib α κ :=
  let locked := s.nbrSetBit u s.lockedMap t item false
  (locked.1, { s with lockedMap := locked.2 })

/-- The loop that counts the tables in a used map. -/
def usedCountFrom (used usedCount : Nat) : Nat :=
  if used ≠ 0 then usedCountFrom (used >>> 1) (if used &&& 1 = 1 then usedCount + 1 else usedCount) else usedCount
termination_by used
decreasing_by
  rw [Nat.shiftRight_eq_div_pow]
  omega

def usedCount (key : Nat) : Nat := usedCountFrom (s.usedMap key).toNat 0

/-- The search for the key to reuse, from `key` on, with `least_used_key` and `least_used_count`. -/
def leastUsed : Nat → Option Nat → Option Nat × Nat → Option Nat × Nat
  | 0, _, least => least
  | _ + 1, none, least => least
  | fuel + 1, some key, least =>
    if s.lockedMap key = 0 then
      if least.1 = none ∨ s.usedCount key < least.2 then
        -- No other key is used less.
        if s.usedCount key = 0 then (some key, s.usedCount key)
        else leastUsed fuel (s.next key) (some key, s.usedCount key)
      else leastUsed fuel (s.next key) least
    else leastUsed fuel (s.next key) least

/-- The items of a neighbor that a callback removes. -/
def release (key : Nat) (tables : List Nat) : NbrTables lib α κ :=
  tables.foldl (fun s t => (s.nbrTableRemove u t (itemFromKey u t (some key))).2) s

/-- A turn of the loop that tells the tables. -/
def callTurn (key t : Nat) : NbrTables lib α κ :=
  match s.callback t with
  | none => s
  | some callback =>
    if s.nbrGetBit u s.usedMap t (itemFromKey u t (some key)) then
      { s with calls := s.calls ++ [(t, key)] }.release u key (u.releases callback key s)
    else s

def callAll (key : Nat) : NbrTables lib α κ := s.allTables.foldl (fun s t => s.callTurn u key t) s

def nbrTableAllocate : Option Nat × NbrTables lib α κ :=
  match lib.membAlloc s.mem with
  | some (key, mem) => (some key, { s with mem })
  | none =>
    match (s.leastUsed lib.blocks (lib.listHead s.list) (none, 0)).1 with
    | none => (none, s)
    | some key =>
      let s := s.callAll u key
      let s := { s with usedMap := Function.update s.usedMap key 0 }
      let removed := lib.listRemove s.list s.next key
      (some key, { s with list := removed.1, next := removed.2 })

def nbrTableRegister (t : Nat) (callback : Option κ) : Bool × NbrTables lib α κ :=
  if s.allTables.length < maxNumTables then
    (true, { s with
      index := Function.update s.index t s.allTables.length
      callback := Function.update s.callback t callback
      allTables := s.allTables ++ [t] })
  else (false, s)

/-- The loop of `nbr_table_next`. -/
def nextFrom (t : Nat) : Nat → Option Nat → Option Nat
  | 0, _ => none
  | fuel + 1, item =>
    let key := (keyFromItem u t item).bind s.next
    let item := itemFromKey u t key
    if item.isSome && !s.nbrGetBit u s.usedMap t item then nextFrom t fuel item else item

def nbrTableNext (t : Nat) (item : Option Nat) : Option Nat := s.nextFrom u t (lib.blocks + 1) item

def nbrTableHead (t : Nat) : Option Nat :=
  let item := itemFromKey u t (lib.listHead s.list)
  if s.nbrGetBit u s.usedMap t item then item else s.nbrTableNext u t item

/-- The end of `nbr_table_add_lladdr`: clears the item of a key and sets its bit. -/
def useItem (t index : Nat) : Option Nat × NbrTables lib α κ :=
  let item := itemFromIndex u t (some index)
  let data := Function.update s.data t ((s.data t).store (index * u.itemSize t) (List.replicate (u.itemSize t) 0))
  (item, { s with data, usedMap := (s.nbrSetBit u s.usedMap t item true).2 })

def nbrTableAddLladdr (t : Nat) (lladdr : Option α) : Option Nat × NbrTables lib α κ :=
  let lladdr := lladdr.getD u.linkaddrNull
  match s.indexFromLladdr u (some lladdr) with
  | some index => s.useItem u t index
  | none =>
    match s.nbrTableAllocate u with
    | (none, s) => (none, s)
    | (some key, s) =>
      let added := lib.listAdd s.list s.next key
      { s with list := added.1, next := added.2, lladdr := Function.update s.lladdr key lladdr }.useItem u t key

def nbrTableGetFromLladdr (t : Nat) (lladdr : Option α) : Option Nat :=
  let item := itemFromIndex u t (s.indexFromLladdr u lladdr)
  if s.nbrGetBit u s.usedMap t item then item else none

def nbrTableGetLladdr (t : Nat) (item : Option Nat) : Option α := (keyFromItem u t item).map s.lladdr

end NbrTables

/-- What the users of the tables do. They read and write their items on their own. -/
inductive NbrEvent (α κ : Type) where
  | register (t : Nat) (callback : Option κ)
  | add (t : Nat) (lladdr : Option α)
  | remove (t : Nat) (item : Option Nat)
  | lock (t : Nat) (item : Option Nat)
  | unlock (t : Nat) (item : Option Nat)
  | write (t offset : Nat) (bytes : List UInt8)

def NbrTables.step (s : NbrTables lib α κ) : NbrEvent α κ → Option (NbrTables lib α κ)
  | .register t callback => some (s.nbrTableRegister t callback).2
  | .add t lladdr => some (s.nbrTableAddLladdr u t lladdr).2
  | .remove t item => some (s.nbrTableRemove u t item).2
  | .lock t item => some (s.nbrTableLock u t item).2
  | .unlock t item => some (s.nbrTableUnlock u t item).2
  | .write t offset bytes => some { s with data := Function.update s.data t ((s.data t).store offset bytes) }

end ContikiAtsam.Nbr
