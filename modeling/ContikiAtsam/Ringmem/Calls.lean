import ContikiAtsam.Ringmem.Layout

/-!
# The calls of the ring memory

Each call keeps the layout of `Layout.lean` and does to the list of stored blocks what a queue does: `ringmemAlloc` appends, `ringmemFreeBlock` removes the oldest, `ringmemGetNextBlockPtr` points at it.
-/

namespace ContikiAtsam.Ringmem

/-- A block as `RINGMEM_STORE` writes it. -/
def image (data : Memory) (len : UInt16) : List UInt8 :=
  Memory.halfword len ++ data.load 0 len.toNat

theorem image_length (data : Memory) (len : UInt16) : (image data len).length = len.toNat + 2 := by
  simp [image, Nat.add_comm]

theorem storeBlock_eq {r : Ringmem} {ptr len : UInt16} (data : Memory)
    (h : ptr.toNat + (len.toNat + 2) ≤ r.size.toNat) :
    r.storeBlock ptr data len = .ok { r with data := r.data.store ptr.toNat (image data len) } := by
  have hprefix : ptr.toNat + 2 ≤ r.size.toNat := by omega
  have hdata : ptr.toNat + 2 + len.toNat ≤ r.size.toNat := by omega
  have hjoin := Memory.store_store_append r.data ptr.toNat (Memory.halfword len) (data.load 0 len.toNat)
  rw [Memory.halfword_length] at hjoin
  simp [storeBlock, write, bind, Except.bind, hprefix, hdata, hjoin, image]

theorem heldIn_image (m data : Memory) (ptr : Nat) (len : UInt16) :
    (Block.mk ptr (data.load 0 len.toNat)).HeldIn (m.store ptr (image data len)) := by
  have hread := Memory.load_store_self m ptr (image data len)
  rw [image, List.length_append, Memory.load_eq_append_iff, ← image] at hread
  rw [Memory.halfword_length, Memory.load_length] at hread
  constructor
  · rw [Memory.load16_eq_of_load hread.1]
    simp
  · simpa using hread.2

/-! ### The tests of `ringmem_alloc`

The sums of the C code are taken in 32 bits and do not overflow, so its tests are about the numbers that the fields stand for. -/

private theorem tot_toNat (len : UInt16) : (len.toUInt32 + 2).toNat = len.toNat + 2 := by
  have := len.toNat_lt
  rw [UInt32.toNat_add, UInt16.toNat_toUInt32]
  change (len.toNat + 2) % 2 ^ 32 = _
  omega

private theorem tot_put_toNat (len put : UInt16) :
    (len.toUInt32 + 2 + put.toUInt32).toNat = put.toNat + (len.toNat + 2) := by
  have := len.toNat_lt
  have := put.toNat_lt
  rw [UInt32.toNat_add, tot_toNat, UInt16.toNat_toUInt32]
  omega

private theorem lt_tot_iff (x len : UInt16) :
    len.toUInt32 + 2 > x.toUInt32 ↔ x.toNat < len.toNat + 2 := by
  rw [gt_iff_lt, UInt32.lt_iff_toNat_lt, tot_toNat, UInt16.toNat_toUInt32]

private theorem size_lt_tot_iff (size put len : UInt16) :
    len.toUInt32 + 2 + put.toUInt32 > size.toUInt32 ↔ size.toNat < put.toNat + (len.toNat + 2) := by
  rw [gt_iff_lt, UInt32.lt_iff_toNat_lt, tot_put_toNat, UInt16.toNat_toUInt32]

section Alloc

variable {r : Ringmem} {data : Memory} {len : UInt16}

theorem ringmemAlloc_full (h : r.aLen.toNat < len.toNat + 2) : ringmemAlloc r data len = .ok (0, r) := by
  rw [ringmemAlloc, if_pos ((lt_tot_iff _ _).mpr h)]

theorem ringmemAlloc_noGap (hroom : len.toNat + 2 ≤ r.aLen.toNat)
    (hend : r.size.toNat < r.putPtr.toNat + (len.toNat + 2)) (h : r.getPtr.toNat < len.toNat + 2) :
    ringmemAlloc r data len = .ok (0, r) := by
  rw [ringmemAlloc, if_neg (by rw [lt_tot_iff]; omega), if_pos ((size_lt_tot_iff _ _ _).mpr hend),
    if_pos ((lt_tot_iff _ _).mpr h)]

theorem ringmemAlloc_straight (hroom : len.toNat + 2 ≤ r.aLen.toNat)
    (hend : r.putPtr.toNat + (len.toNat + 2) ≤ r.size.toNat) :
    ringmemAlloc r data len = .ok (1, { r with
      data := r.data.store r.putPtr.toNat (image data len)
      putPtr := r.putPtr + (len + 2)
      aLen := r.aLen - (len + 2) }) := by
  have hput : (len.toUInt32 + 2 + r.putPtr.toUInt32).toUInt16 = r.putPtr + (len + 2) := by
    apply UInt16.toNat_inj.mp
    rw [UInt32.toNat_toUInt16, tot_put_toNat, UInt16.toNat_add, UInt16.toNat_add]
    change _ = (r.putPtr.toNat + (len.toNat + 2) % 2 ^ 16) % 2 ^ 16
    omega
  rw [ringmemAlloc, if_neg (by rw [lt_tot_iff]; omega), if_neg (by rw [size_lt_tot_iff]; omega),
    storeBlock_eq data hend]
  simp only [bind, Except.bind, hput]

theorem ringmemAlloc_wrap (hroom : len.toNat + 2 ≤ r.aLen.toNat)
    (hend : r.size.toNat < r.putPtr.toNat + (len.toNat + 2)) (h : len.toNat + 2 ≤ r.getPtr.toNat)
    (hsize : len.toNat + 2 ≤ r.size.toNat) :
    ringmemAlloc r data len = .ok (1, { r with
      data := r.data.store 0 (image data len)
      wrapPtr := r.putPtr
      putPtr := len + 2
      aLen := r.getPtr - (len + 2) }) := by
  have hput : (len.toUInt32 + 2).toUInt16 = len + 2 := by
    apply UInt16.toNat_inj.mp
    rw [UInt32.toNat_toUInt16, tot_toNat, UInt16.toNat_add]
    rfl
  rw [ringmemAlloc, if_neg (by rw [lt_tot_iff]; omega), if_pos ((size_lt_tot_iff _ _ _).mpr hend),
    if_neg (by rw [lt_tot_iff]; omega)]
  simp only
  rw [storeBlock_eq data (by simpa using hsize)]
  simp only [bind, Except.bind, hput, UInt16.toNat_zero]

/-- The block that an accepted `ringmemAlloc` places at `ptr`. -/
def newBlock (ptr : Nat) (data : Memory) (len : UInt16) : Block := ⟨ptr, data.load 0 len.toNat⟩

theorem newBlock_extent (ptr : Nat) (data : Memory) (len : UInt16) :
    (newBlock ptr data len).extent = len.toNat + 2 := by
  simp [newBlock, Block.extent]

/-- The bytes of the blocks are the same in both memories. -/
def Untouched (bs : List Block) (m m' : Memory) : Prop :=
  ∀ b ∈ bs, m'.load b.offset b.extent = m.load b.offset b.extent

theorem place_beside (ptr : Nat) (data : Memory) (len : UInt16) {bs : List Block} {m : Memory}
    (hheld : ∀ b ∈ bs, b.HeldIn m)
    (hbeside : ∀ b ∈ bs, b.offset + b.extent ≤ ptr ∨ ptr + (len.toNat + 2) ≤ b.offset) :
    (∀ b ∈ bs ++ [newBlock ptr data len], b.HeldIn (m.store ptr (image data len))) ∧
      Untouched bs m (m.store ptr (image data len)) := by
  have hbeside' : ∀ b ∈ bs, b.offset + b.extent ≤ ptr ∨ ptr + (image data len).length ≤ b.offset := by
    simpa only [image_length] using hbeside
  constructor
  · intro b hb
    rcases List.mem_append.mp hb with hb | hb
    · exact (hheld b hb).store (hbeside' b hb)
    · obtain rfl := List.mem_singleton.mp hb
      exact heldIn_image m data ptr len
  · intro b hb
    exact Memory.load_store_of_disjoint (hbeside' b hb)

theorem toNat_add_two (len : UInt16) (h : len.toNat + 2 < 65536) : (len + 2).toNat = len.toNat + 2 := by
  rw [UInt16.toNat_add]
  exact Nat.mod_eq_of_lt h

theorem toNat_put_add (put len : UInt16) (h : put.toNat + (len.toNat + 2) < 65536) :
    (put + (len + 2)).toNat = put.toNat + (len.toNat + 2) := by
  rw [UInt16.toNat_add, toNat_add_two len (by omega), Nat.mod_eq_of_lt h]

theorem toNat_sub_tot {x : UInt16} (h : len.toNat + 2 ≤ x.toNat) :
    (x - (len + 2)).toNat = x.toNat - (len.toNat + 2) := by
  have := x.toNat_lt
  have htot := toNat_add_two len (by omega)
  rw [UInt16.toNat_sub_of_le _ _ (UInt16.le_iff_toNat_le.mpr (by omega)), htot]

/-- **What `ringmem_alloc` does.** It refuses and changes nothing, or it stores a copy of the data as the newest block. -/
theorem ringmemAlloc_spec (data : Memory) (len : UInt16) {bs : List Block} (h : Stores r bs) :
    ringmemAlloc r data len = .ok (0, r) ∨ ∃ r' ptr, ringmemAlloc r data len = .ok (1, r') ∧
      Stores r' (bs ++ [newBlock ptr data len]) ∧ Untouched bs r.data r'.data ∧ r'.size = r.size := by
  have hmax := h.size_le
  rw [maxsize_toNat] at hmax
  by_cases hroom : len.toNat + 2 ≤ r.aLen.toNat
  swap
  · exact Or.inl (ringmemAlloc_full (by omega))
  rcases h.shape with hs | ⟨old, new, rfl, hw⟩
  · have hle := hs.blocks.le
    have haLen := hs.aLen
    have hput := hs.putPtr_le
    by_cases hend : r.putPtr.toNat + (len.toNat + 2) ≤ r.size.toNat
    · -- the block fits behind the newest one
      obtain ⟨hheld, huntouched⟩ := place_beside r.putPtr.toNat data len
        h.held (fun b hb => Or.inl (hs.blocks.within b hb).2)
      refine Or.inr ⟨_, r.putPtr.toNat, ringmemAlloc_straight hroom hend, ⟨hmax, hheld, Or.inl ?_⟩,
        huntouched, rfl⟩
      have hput' := toNat_put_add r.putPtr len (by omega)
      exact
        { blocks := by
            have := hs.blocks.snoc (newBlock r.putPtr.toNat data len) rfl
            rwa [newBlock_extent, ← hput'] at this
          wrapPtr := hs.wrapPtr
          putPtr_le := by simp only [hput']; omega
          aLen := by simp only [hput', toNat_sub_tot hroom]; omega
          rewound := by simp }
    · by_cases hgap : len.toNat + 2 ≤ r.getPtr.toNat
      swap
      · exact Or.inl (ringmemAlloc_noGap hroom (by omega) (by omega))
      -- the block goes to the start, below the oldest one
      have hne : bs ≠ [] := by
        intro hnil
        have := hs.rewound hnil
        simp [this] at hgap
      obtain ⟨hheld, huntouched⟩ := place_beside 0 data len
        h.held (fun b hb => Or.inr (by have := (hs.blocks.within b hb).1; omega))
      refine Or.inr ⟨_, 0, ringmemAlloc_wrap hroom (by omega) hgap (by omega),
        ⟨hmax, hheld, Or.inr ⟨bs, [newBlock 0 data len], rfl, ?_⟩⟩, huntouched, rfl⟩
      have hput' := toNat_add_two len (by omega)
      exact
        { blocks_old := hs.blocks
          blocks_new := by
            refine ⟨rfl, ?_⟩
            change 0 + (newBlock 0 data len).extent = (len + 2).toNat
            rw [newBlock_extent]
            omega
          old_ne := hne
          new_ne := by simp
          wrapPtr_le := hput
          putPtr_le := by simp only [hput']; omega
          aLen := by simp only [hput', toNat_sub_tot hgap] }
  · -- the free bytes are those between the newest block and the oldest one
    have haLen := hw.aLen
    have hput := hw.putPtr_le
    have hget := hw.getPtr_lt
    have hwrap := hw.wrapPtr_le
    obtain ⟨hheld, huntouched⟩ := place_beside r.putPtr.toNat data len
      h.held (by
        intro b hb
        rcases List.mem_append.mp hb with hb | hb
        · exact Or.inr (by have := (hw.blocks_old.within b hb).1; omega)
        · exact Or.inl (by have := (hw.blocks_new.within b hb).2; omega))
    refine Or.inr ⟨_, r.putPtr.toNat, ringmemAlloc_straight hroom (by omega),
      ⟨hmax, hheld, Or.inr ⟨old, new ++ [newBlock r.putPtr.toNat data len],
        List.append_assoc _ _ _, ?_⟩⟩, huntouched, rfl⟩
    have hput' := toNat_put_add r.putPtr len (by omega)
    exact
      { blocks_old := hw.blocks_old
        blocks_new := by
          have := hw.blocks_new.snoc (newBlock r.putPtr.toNat data len) rfl
          rwa [newBlock_extent, ← hput'] at this
        old_ne := hw.old_ne
        new_ne := by simp
        wrapPtr_le := hwrap
        putPtr_le := by simp only [hput']; omega
        aLen := by simp only [hput', toNat_sub_tot hroom]; omega }

end Alloc

/-! ### The other calls -/

/-- The read pointer of a stored ring memory never stands at a wrap: `ringmemFreeBlock` has moved it on. -/
theorem Stores.leaveWrap_eq {r : Ringmem} {bs : List Block} (h : Stores r bs) : leaveWrap r = r := by
  rw [leaveWrap, if_neg]
  rintro ⟨hget, hne⟩
  rcases h.shape with hs | ⟨old, new, rfl, hw⟩
  · exact hne hs.wrapPtr
  · have := hw.getPtr_lt
    rw [hget] at this
    omega

theorem Stores.offset_eq {r : Ringmem} {b : Block} {bs : List Block} (h : Stores r (b :: bs)) :
    b.offset = r.getPtr.toNat := by
  rcases h.shape with hs | ⟨old, new, hbs, hw⟩
  · exact hs.blocks.1
  · obtain ⟨old, rfl⟩ : ∃ old', old = b :: old' := by
      cases old with
      | nil => exact absurd rfl hw.old_ne
      | cons b' old' =>
          obtain ⟨rfl, -⟩ := List.cons.inj hbs
          exact ⟨old', rfl⟩
    exact hw.blocks_old.1

/-- **What `ringmem_get_next_block_ptr` does.** It answers with the start of the oldest block, or `NULL` when there is none, and changes nothing. -/
theorem ringmemGetNextBlockPtr_spec {r : Ringmem} {bs : List Block} (h : Stores r bs) :
    ringmemGetNextBlockPtr r = (if bs = [] then none else some r.getPtr, r) := by
  simp only [ringmemGetNextBlockPtr, h.leaveWrap_eq, h.aLen_eq_size_iff]
  split <;> rfl

theorem stores_recount_straight {r : Ringmem} {bs : List Block} (hsize : r.size.toNat ≤ 16383)
    (hheld : ∀ b ∈ bs, b.HeldIn r.data) (hblocks : Consecutive r.getPtr.toNat bs r.putPtr.toNat)
    (hput : r.putPtr.toNat ≤ r.size.toNat) (hwrap : r.wrapPtr = 0) : Stores (recount r) bs := by
  have hle := hblocks.le
  have hnil := hblocks.nil_iff
  by_cases heq : r.getPtr = r.putPtr
  · obtain rfl : bs = [] := hnil.mpr (by rw [heq])
    rw [recount, if_pos heq]
    exact
      { size_le := hsize
        held := by simp
        shape := Or.inl
          { blocks := rfl
            wrapPtr := hwrap
            putPtr_le := Nat.zero_le _
            aLen := by simp
            rewound := fun _ => rfl } }
  · have hne : r.getPtr.toNat ≠ r.putPtr.toNat := fun h => heq (UInt16.toNat_inj.mp h)
    have hlt : r.getPtr.toNat < r.putPtr.toNat := by omega
    rw [recount, if_neg heq, if_pos (UInt16.lt_iff_toNat_lt.mpr hlt)]
    have haLen : ((r.size - r.putPtr) + r.getPtr).toNat =
        r.size.toNat - r.putPtr.toNat + r.getPtr.toNat := by
      rw [UInt16.toNat_add, UInt16.toNat_sub_of_le _ _ (UInt16.le_iff_toNat_le.mpr hput)]
      omega
    exact
      { size_le := hsize
        held := hheld
        shape := Or.inl
          { blocks := hblocks
            wrapPtr := hwrap
            putPtr_le := hput
            aLen := haLen
            rewound := fun h => absurd (hnil.mp h) hne } }

theorem stores_recount_wrapped {r : Ringmem} {old new : List Block} (hsize : r.size.toNat ≤ 16383)
    (hheld : ∀ b ∈ old ++ new, b.HeldIn r.data)
    (hold : Consecutive r.getPtr.toNat old r.wrapPtr.toNat) (hnew : Consecutive 0 new r.putPtr.toNat)
    (hold_ne : old ≠ []) (hnew_ne : new ≠ []) (hwrap : r.wrapPtr.toNat ≤ r.size.toNat)
    (hput : r.putPtr.toNat < r.getPtr.toNat) : Stores (recount r) (old ++ new) := by
  rw [recount, if_neg (by rw [← UInt16.toNat_inj]; omega), if_neg (by rw [UInt16.lt_iff_toNat_lt]; omega)]
  have haLen : (r.getPtr - r.putPtr).toNat = r.getPtr.toNat - r.putPtr.toNat :=
    UInt16.toNat_sub_of_le _ _ (UInt16.le_iff_toNat_le.mpr (by omega))
  exact
    { size_le := hsize
      held := hheld
      shape := Or.inr ⟨old, new, rfl,
        { blocks_old := hold
          blocks_new := hnew
          old_ne := hold_ne
          new_ne := hnew_ne
          wrapPtr_le := hwrap
          putPtr_le := Nat.le_of_lt hput
          aLen := haLen }⟩ }

@[simp] theorem recount_data (r : Ringmem) : (recount r).data = r.data := by
  unfold recount
  split_ifs <;> rfl

@[simp] theorem recount_size (r : Ringmem) : (recount r).size = r.size := by
  unfold recount
  split_ifs <;> rfl

@[simp] theorem leaveWrap_data (r : Ringmem) : (leaveWrap r).data = r.data := by
  unfold leaveWrap
  split_ifs <;> rfl

@[simp] theorem leaveWrap_size (r : Ringmem) : (leaveWrap r).size = r.size := by
  unfold leaveWrap
  split_ifs <;> rfl

/-- **What `ringmem_free_block` does** while something is stored: it removes the oldest block. -/
theorem ringmemFreeBlock_spec {r : Ringmem} {b : Block} {bs : List Block} (h : Stores r (b :: bs)) :
    ∃ r', ringmemFreeBlock r = .ok r' ∧ Stores r' bs ∧ r'.data = r.data ∧ r'.size = r.size := by
  have hsize := h.size_le
  rw [maxsize_toNat] at hsize
  have hheld : ∀ b' ∈ bs, b'.HeldIn r.data := fun b' hb' => h.held b' (List.mem_cons_of_mem _ hb')
  have hin := h.within b (by simp)
  have hoff := h.offset_eq
  have hlen := (h.held b (by simp)).1
  rw [hoff] at hlen hin
  have hextent : b.extent = b.bytes.length + 2 := rfl
  -- the read pointer moves behind the block
  set len := r.data.load16 r.getPtr.toNat with hlen_def
  have hget : (r.getPtr + (len + 2)).toNat = r.getPtr.toNat + b.extent := by
    rw [toNat_put_add _ _ (by omega)]
    omega
  refine ⟨recount (leaveWrap { r with getPtr := r.getPtr + (len + 2) }), ?_, ?_, by simp, by simp⟩
  · rw [ringmemFreeBlock, if_neg (by simp [h.aLen_eq_size_iff])]
    simp only [read16, if_pos (show r.getPtr.toNat + 2 ≤ r.size.toNat by omega), bind, Except.bind, ← hlen_def]
  rcases h.shape with hs | ⟨old, new, hbs, hw⟩
  · rw [leaveWrap, if_neg (by simp [hs.wrapPtr])]
    exact stores_recount_straight hsize hheld (by simpa only [hget] using hs.blocks.2) hs.putPtr_le hs.wrapPtr
  · obtain ⟨old, rfl⟩ : ∃ old', old = b :: old' := by
      cases old with
      | nil => exact absurd rfl hw.old_ne
      | cons b' old' =>
          obtain ⟨rfl, -⟩ := List.cons.inj hbs
          exact ⟨old', rfl⟩
    obtain rfl : bs = old ++ new := (List.cons.inj hbs).2
    have hold := hw.blocks_old.2
    have hwrap := hw.wrapPtr_le
    have hput := hw.putPtr_le
    have hgetlt := hw.getPtr_lt
    by_cases hne : old = []
    · -- it was the last block before the wrap
      subst hne
      have hend : r.getPtr + (len + 2) = r.wrapPtr := UInt16.toNat_inj.mp (hget.trans hold)
      have hwrap_ne : r.wrapPtr ≠ 0 := by
        intro h0
        rw [h0] at hgetlt
        simp at hgetlt
      rw [leaveWrap, if_pos ⟨hend, hwrap_ne⟩]
      exact stores_recount_straight hsize (by simpa using hheld) (by simpa using hw.blocks_new)
        (by simp only; omega) rfl
    · have := hold.lt hne
      have hne_wrap : r.getPtr + (len + 2) ≠ r.wrapPtr := by
        rw [ne_eq, ← UInt16.toNat_inj]
        omega
      rw [leaveWrap, if_neg (by simp [hne_wrap])]
      exact stores_recount_wrapped hsize hheld (by simpa only [hget] using hold) hw.blocks_new hne
        hw.new_ne hwrap (by simp only [hget]; omega)

end ContikiAtsam.Ringmem
