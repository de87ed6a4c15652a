import ContikiAtsam.Ringmem.Code

/-!
# The layout of a ring memory

What the five fields of a ring memory mean: the stored blocks, oldest first, lie one after another from `getPtr` on. Either they end at `putPtr`, or they wrap: the older ones end at `wrapPtr` and the newer ones fill the buffer from its start up to `putPtr`, below `getPtr`. `Stores` says this of a ring memory and the list of its blocks; `aLen` counts the free bytes of that shape, and is the whole size exactly when nothing is stored.
-/

namespace ContikiAtsam.Ringmem

/-- A block in the buffer: where it starts and the data behind its length prefix. -/
structure Block where
  offset : Nat
  bytes : List UInt8

namespace Block

/-- The bytes a block takes, its length prefix included. -/
def extent (b : Block) : Nat := b.bytes.length + 2

/-- The memory holds the block: its length prefix and its data. -/
def HeldIn (b : Block) (m : Memory) : Prop :=
  (m.load16 b.offset).toNat = b.bytes.length ∧ m.load (b.offset + 2) b.bytes.length = b.bytes

end Block

/-- The blocks lie one after another, from `start` up to `stop`. -/
def Consecutive : Nat → List Block → Nat → Prop
  | start, [], stop => start = stop
  | start, b :: bs, stop => b.offset = start ∧ Consecutive (start + b.extent) bs stop

theorem Consecutive.le {start stop : Nat} {bs : List Block} (h : Consecutive start bs stop) :
    start ≤ stop := by
  induction bs generalizing start with
  | nil => exact Nat.le_of_eq h
  | cons b bs ih => exact Nat.le_trans (Nat.le_add_right _ _) (ih h.2)

theorem Consecutive.within {start stop : Nat} {bs : List Block} (h : Consecutive start bs stop) :
    ∀ b ∈ bs, start ≤ b.offset ∧ b.offset + b.extent ≤ stop := by
  induction bs generalizing start with
  | nil => simp
  | cons b bs ih =>
      intro b' hb'
      rcases List.mem_cons.mp hb' with rfl | hb'
      · have := h.2.le
        have := h.1
        omega
      · have := ih h.2 b' hb'
        omega

theorem Consecutive.snoc {start stop : Nat} {bs : List Block} (h : Consecutive start bs stop)
    (b : Block) (hb : b.offset = stop) : Consecutive start (bs ++ [b]) (stop + b.extent) := by
  induction bs generalizing start with
  | nil =>
      obtain rfl : start = stop := h
      exact ⟨hb, rfl⟩
  | cons b' bs ih => exact ⟨h.1, ih h.2⟩

/-- A nonempty run of blocks takes at least the two bytes of a length prefix. -/
theorem Consecutive.lt {start stop : Nat} {bs : List Block} (h : Consecutive start bs stop)
    (hne : bs ≠ []) : start + 2 ≤ stop := by
  cases bs with
  | nil => contradiction
  | cons b bs =>
      have := h.2.le
      simp only [Block.extent] at this
      omega

theorem Consecutive.nil_iff {start stop : Nat} {bs : List Block} (h : Consecutive start bs stop) :
    bs = [] ↔ start = stop := by
  constructor
  · rintro rfl
    exact h
  · rintro rfl
    by_contra hne
    have := h.lt hne
    omega

/-! ### The two shapes -/

/-- The blocks lie between `getPtr` and `putPtr`. -/
structure Straight (r : Ringmem) (bs : List Block) : Prop where
  blocks : Consecutive r.getPtr.toNat bs r.putPtr.toNat
  wrapPtr : r.wrapPtr = 0
  putPtr_le : r.putPtr.toNat ≤ r.size.toNat
  aLen : r.aLen.toNat = r.size.toNat - r.putPtr.toNat + r.getPtr.toNat
  rewound : bs = [] → r.getPtr = 0

/-- The older blocks lie between `getPtr` and `wrapPtr`, the newer ones between `0` and `putPtr`. -/
structure Wrapped (r : Ringmem) (old new : List Block) : Prop where
  blocks_old : Consecutive r.getPtr.toNat old r.wrapPtr.toNat
  blocks_new : Consecutive 0 new r.putPtr.toNat
  old_ne : old ≠ []
  new_ne : new ≠ []
  wrapPtr_le : r.wrapPtr.toNat ≤ r.size.toNat
  putPtr_le : r.putPtr.toNat ≤ r.getPtr.toNat
  aLen : r.aLen.toNat = r.getPtr.toNat - r.putPtr.toNat

/-- The ring memory stores these blocks, oldest first. -/
structure Stores (r : Ringmem) (bs : List Block) : Prop where
  size_le : r.size.toNat ≤ maxsize.toNat
  held : ∀ b ∈ bs, b.HeldIn r.data
  shape : Straight r bs ∨ ∃ old new, bs = old ++ new ∧ Wrapped r old new

theorem maxsize_toNat : maxsize.toNat = 16383 := rfl

theorem Wrapped.getPtr_lt {r : Ringmem} {old new : List Block} (h : Wrapped r old new) :
    r.getPtr.toNat + 2 ≤ r.wrapPtr.toNat :=
  h.blocks_old.lt h.old_ne

theorem Wrapped.putPtr_pos {r : Ringmem} {old new : List Block} (h : Wrapped r old new) :
    2 ≤ r.putPtr.toNat := by
  simpa using h.blocks_new.lt h.new_ne

theorem Stores.within {r : Ringmem} {bs : List Block} (h : Stores r bs) :
    ∀ b ∈ bs, b.offset + b.extent ≤ r.size.toNat := by
  intro b hb
  rcases h.shape with hs | ⟨old, new, rfl, hw⟩
  · have := hs.blocks.within b hb
    have := hs.putPtr_le
    omega
  · have := hw.getPtr_lt
    have := hw.wrapPtr_le
    have := hw.putPtr_le
    rcases List.mem_append.mp hb with hb | hb
    · have := hw.blocks_old.within b hb
      omega
    · have := hw.blocks_new.within b hb
      omega

/-- The test for emptiness: all of the buffer is available exactly when nothing is stored. -/
theorem Stores.aLen_eq_size_iff {r : Ringmem} {bs : List Block} (h : Stores r bs) :
    r.aLen = r.size ↔ bs = [] := by
  rw [← UInt16.toNat_inj]
  rcases h.shape with hs | ⟨old, new, rfl, hw⟩
  · have hnil := hs.blocks.nil_iff
    have := hs.blocks.le
    have := hs.putPtr_le
    rw [hnil, hs.aLen]
    omega
  · have := hw.getPtr_lt
    have := hw.putPtr_pos
    have := hw.wrapPtr_le
    have := hw.aLen
    simp only [List.append_eq_nil_iff, hw.old_ne, false_and, iff_false]
    omega

theorem stores_init (a : Memory) (len : UInt16) : Stores (ringmemInit a len) [] where
  size_le := by
    simp only [ringmemInit]
    split
    · exact Nat.le_refl _
    · rename_i h
      exact UInt16.le_iff_toNat_le.mp (UInt16.not_lt.mp h)
  held := by simp
  shape := Or.inl
    { blocks := rfl
      wrapPtr := rfl
      putPtr_le := Nat.zero_le _
      aLen := by simp [ringmemInit]
      rewound := fun _ => rfl }

theorem Block.HeldIn.store {b : Block} {m : Memory} (h : b.HeldIn m) {base : Nat} {bytes : List UInt8}
    (hdisjoint : b.offset + b.extent ≤ base ∨ base + bytes.length ≤ b.offset) :
    b.HeldIn (m.store base bytes) := by
  simp only [Block.extent] at hdisjoint
  constructor
  · rw [Memory.load16_congr (Memory.load_store_of_disjoint (by omega))]
    exact h.1
  · rw [Memory.load_store_of_disjoint (by omega)]
    exact h.2

end ContikiAtsam.Ringmem
