import ContikiAtsam.Base.Memory

/-!
# Writing to flash

`flash_efc.c` writes to flash page by page: it fills a page buffer with what the page holds before the bytes, the bytes, and what the page holds after them, and erases and programs the page from the buffer. The result is that the bytes, and no others, are replaced, whatever pages they lie in.
-/

namespace ContikiAtsam.Flash

def iflashAddr : Nat := 0x400000
def iflashSize : Nat := 0x100000
def iflashPageSize : Nat := 512

/-- `translate_address`: the page of an address and the offset in it. -/
def translateAddress (addr : Nat) : Nat × Fin iflashPageSize :=
  ((addr - iflashAddr) / iflashPageSize, ⟨(addr - iflashAddr) % iflashPageSize, Nat.mod_lt _ (by decide)⟩)

def computeAddress (page offset : Nat) : Nat := iflashAddr + page * iflashPageSize + offset

/-- One turn of the loop of `flash_write`: the page is written from the page buffer, by the command to erase and write it. -/
def writePage (flash : Memory) (page offset : Nat) (bytes : List UInt8) : Memory :=
  let pageAddr := computeAddress page 0
  let padding := iflashPageSize - offset - bytes.length
  flash.store pageAddr
    (flash.load pageAddr offset ++ bytes ++ flash.load (pageAddr + offset + bytes.length) padding)

def writePages (flash : Memory) (page : Nat) (offset : Fin iflashPageSize) (buffer : List UInt8) : Memory :=
  if h : buffer = [] then flash
  else
    let writeSize := min (iflashPageSize - offset) buffer.length
    writePages (writePage flash page offset (buffer.take writeSize)) (page + 1) ⟨0, by decide⟩
      (buffer.drop writeSize)
termination_by buffer.length
decreasing_by
  have hoffset := offset.isLt
  have hlength := List.length_pos_iff.mpr h
  rw [List.length_drop]
  omega

/-- `flash_write` with the flag to erase first. -/
def flashWrite (flash : Memory) (addr : Nat) (buffer : List UInt8) : Memory :=
  let (page, offset) := translateAddress addr
  writePages flash page offset buffer

variable (flash : Memory)

theorem writePage_eq_store (page offset : Nat) (bytes : List UInt8) :
    writePage flash page offset bytes = flash.store (computeAddress page offset) bytes := by
  have haddr : computeAddress page offset = computeAddress page 0 + offset := rfl
  unfold writePage
  dsimp only
  rw [haddr]
  generalize computeAddress page 0 = pageAddr
  generalize iflashPageSize - offset - bytes.length = padding
  -- the buffer is written in three parts, and the outer two are what is there already
  have hbefore : flash.store pageAddr (flash.load pageAddr offset) = flash := Memory.store_load_self _ _ _
  have hafter : flash.load (pageAddr + offset + bytes.length) padding =
      (flash.store (pageAddr + offset) bytes).load (pageAddr + offset + bytes.length) padding := by
    rw [Memory.load_store_of_disjoint (by omega)]
  calc flash.store pageAddr (flash.load pageAddr offset ++ bytes ++
          flash.load (pageAddr + offset + bytes.length) padding)
      = ((flash.store pageAddr (flash.load pageAddr offset)).store (pageAddr + offset) bytes).store
          (pageAddr + offset + bytes.length) (flash.load (pageAddr + offset + bytes.length) padding) := by
        rw [← Memory.store_store_append, List.length_append, Memory.load_length, ← Nat.add_assoc,
          ← Memory.store_store_append, Memory.load_length]
    _ = (flash.store (pageAddr + offset) bytes).store (pageAddr + offset + bytes.length)
          ((flash.store (pageAddr + offset) bytes).load (pageAddr + offset + bytes.length) padding) := by
        rw [hbefore, hafter]
    _ = flash.store (pageAddr + offset) bytes := Memory.store_load_self _ _ _

theorem writePages_eq_store (page : Nat) (offset : Fin iflashPageSize) (buffer : List UInt8) :
    writePages flash page offset buffer = flash.store (computeAddress page offset) buffer := by
  induction flash, page, offset, buffer using writePages.induct with
  | case1 flash page offset =>
      rw [writePages, dif_pos rfl]
      funext i
      rw [Memory.store_of_outside (by simp only [List.length_nil]; omega)]
  | case2 flash page offset buffer hne writeSize ih =>
      have hoffset := offset.isLt
      rw [writePages, dif_neg hne]
      dsimp only at ih ⊢
      rw [ih, writePage_eq_store]
      rcases Nat.le_total buffer.length (iflashPageSize - offset) with hlast | hmore
      · have hall : writeSize = buffer.length := Nat.min_eq_right hlast
        rw [hall, List.take_length, List.drop_length]
        funext i
        rw [Memory.store_of_outside (by simp only [List.length_nil]; omega)]
      · have hfull : writeSize = iflashPageSize - offset := Nat.min_eq_left hmore
        have hnext : computeAddress (page + 1) 0 =
            computeAddress page offset + (buffer.take writeSize).length := by
          rw [hfull, List.length_take, Nat.min_eq_left hmore]
          unfold computeAddress iflashPageSize at *
          omega
        rw [hnext, Memory.store_store_append, List.take_append_drop]

/-- **Writing to flash.** Exactly the bytes at the address are replaced. -/
theorem flashWrite_eq_store (addr : Nat) (buffer : List UInt8) (haddr : iflashAddr ≤ addr) :
    flashWrite flash addr buffer = flash.store addr buffer := by
  have hcompute : computeAddress (translateAddress addr).1 (translateAddress addr).2 = addr := by
    simp only [computeAddress, translateAddress, iflashAddr, iflashPageSize] at *
    omega
  rw [flashWrite.eq_def]
  dsimp only
  rw [writePages_eq_store, hcompute]

end ContikiAtsam.Flash
