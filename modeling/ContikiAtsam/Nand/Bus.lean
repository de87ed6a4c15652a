import ContikiAtsam.Nand.Model

/-!
# The bus

The lower half of `nand_flash_raw_smc.c`. A chip is sent cycles: commands, bytes of an address, the lowest first, and data; and it is read from. On a bus of 16 bits data are words, made of the bytes of the buffer one by one if its address or its size is odd, and read from it as they are otherwise; what is sent is the same.
-/

namespace ContikiAtsam.Nand

inductive Cycle where
  | command (c : UInt8)
  | address (wide : Bool) (a : UInt8)
  | data8 (b : UInt8)
  | data16 (w : UInt16)

/-! ### Addresses -/

/-- The loop of `write_column_address`. -/
def columnCycles (pageDataSize column : Nat) : List UInt8 :=
  if 2 < pageDataSize then UInt8.ofNat column :: columnCycles (pageDataSize / 256) (column / 256) else []
termination_by pageDataSize

def writeColumnAddress (m : NandFlashModel) (column : Nat) : List Cycle :=
  (columnCycles m.pageDataSize (if m.wide then column / 2 else column)).map (.address m.wide)

/-- The loop of `write_row_address`. -/
def rowCycles (numPage row : Nat) : List UInt8 :=
  if 0 < numPage then UInt8.ofNat row :: rowCycles (numPage / 256) (row / 256) else []
termination_by numPage

def writeRowAddress (m : NandFlashModel) (row : Nat) : List Cycle :=
  (rowCycles m.deviceSizeInPages row).map (.address m.wide)

/-- The number that the bytes of an address say. -/
def fromCycles : List UInt8 → Nat
  | [] => 0
  | a :: as => a.toNat + 256 * fromCycles as

theorem toNat_ofNat_byte (n : Nat) : (UInt8.ofNat n).toNat = n % 256 := UInt8.toNat_ofNat'

theorem fromCycles_rowCycles (numPage : Nat) {row : Nat} (hrow : row ≤ numPage) : fromCycles (rowCycles numPage row) = row := by
  induction numPage, row using rowCycles.induct with
  | case1 numPage row hpos ih =>
      rw [rowCycles, if_pos hpos, fromCycles, ih (Nat.div_le_div_right hrow), toNat_ofNat_byte]
      omega
  | case2 numPage row hzero =>
      rw [rowCycles, if_neg hzero, fromCycles]
      omega

/-- **Accesses.** On every chip that is found, an access whose end is no number of more than 32 bits is let through exactly if it is inside the chip; its first byte is at the place that is computed for it, and the row that the cycles say is that of its page, among all pages of the chip. -/
theorem access_cycles {chipId : UInt32} {m : NandFlashModel} (hfind : modelFind nandFlashModelList chipId = .ok m)
    {address size : UInt32} (hend : address.toNat + size.toNat < 4294967296) (hsize : 0 < size.toNat) :
    if address.toNat + size.toNat ≤ m.deviceSizeInBytes then
      ∃ block page offset, translateAccess m address size = .ok (block, page, offset) ∧
        Placed m address.toNat block page offset ∧
        fromCycles (rowCycles m.deviceSizeInPages (rowAddress m block page)) = address.toNat / m.pageDataSize
    else translateAccess m address size = .error errorOutOfBounds := by
  have hm := modelFind_sized hfind
  split
  · rename_i hinside
    obtain ⟨block, page, offset, haccess, hplaced⟩ := translateAccess_placed hm hinside (by omega)
    have hrow := (hm.row hplaced.block_lt hplaced.page_lt).2
    refine ⟨block, page, offset, haccess, hplaced, ?_⟩
    rw [fromCycles_rowCycles _ (Nat.le_of_lt hrow), hplaced.row_eq]
  · rename_i houtside
    have hsum : (address + size).toNat = address.toNat + size.toNat := by
      rw [UInt32.toNat_add, Nat.mod_eq_of_lt hend]
    rw [translateAccess, if_pos (by rw [hsum]; omega)]

theorem access_cycles_found : ∃ block page offset,
    translateAccess ⟨0x6e, dataBus8, 256, 1, 4, spareScheme256⟩ 0x12345 16 = .ok (block, page, offset) ∧
      Placed ⟨0x6e, dataBus8, 256, 1, 4, spareScheme256⟩ 0x12345 block page offset ∧
      fromCycles (rowCycles (NandFlashModel.deviceSizeInPages ⟨0x6e, dataBus8, 256, 1, 4, spareScheme256⟩)
        (rowAddress ⟨0x6e, dataBus8, 256, 1, 4, spareScheme256⟩ block page)) = 0x123 := by
  have hinside : (0x12345 : UInt32).toNat + (16 : UInt32).toNat ≤
      NandFlashModel.deviceSizeInBytes ⟨0x6e, dataBus8, 256, 1, 4, spareScheme256⟩ := by decide
  have hfind : modelFind nandFlashModelList 0x6e00 = .ok ⟨0x6e, dataBus8, 256, 1, 4, spareScheme256⟩ := rfl
  have haccess := @access_cycles 0x6e00 _ hfind 0x12345 16 (by decide) (by decide)
  rw [if_pos hinside] at haccess
  exact haccess

theorem columnCycles_zero (pageDataSize : Nat) : ∀ a ∈ columnCycles pageDataSize 0, a = 0 := by
  generalize hcolumn : (0 : Nat) = column
  induction pageDataSize, column using columnCycles.induct with
  | case1 pageDataSize column hlarge ih =>
      subst hcolumn
      rw [columnCycles, if_pos hlarge]
      intro a ha
      rcases List.mem_cons.mp ha with rfl | ha
      · rfl
      · exact ih rfl a ha
  | case2 pageDataSize column hsmall =>
      rw [columnCycles, if_neg hsmall]
      exact fun a ha => absurd ha List.not_mem_nil

/-! ### Data -/

/-- Bytes are put together one by one; a word that has only one gets a byte of ones. -/
def byteWords : List UInt8 → List Cycle
  | [] => []
  | [a] => [.data16 (UInt16.ofNat (a.toNat + 0xFF00))]
  | a :: b :: rest => .data16 (UInt16.ofNat (a.toNat + 256 * b.toNat)) :: byteWords rest

/-- `write_data`; `odd` says whether the address of the buffer is. -/
def writeData (m : NandFlashModel) (odd : Bool) (buffer : List UInt8) : List Cycle :=
  if m.wide then
    if odd ∨ buffer.length % 2 = 1 then byteWords buffer
    else (List.range (buffer.length / 2)).map fun i => .data16 (Memory.load16 (fun j => buffer.getD j 0) (2 * i))
  else buffer.map .data8

theorem byteWords_eq : ∀ buffer : List UInt8, buffer.length % 2 = 0 →
    byteWords buffer = (List.range (buffer.length / 2)).map fun i => .data16 (Memory.load16 (fun j => buffer.getD j 0) (2 * i))
  | [], _ => rfl
  | [_], h => absurd h (show ¬ 1 % 2 = 0 by decide)
  | a :: b :: rest, h => by
      have hlength : (a :: b :: rest).length / 2 = rest.length / 2 + 1 := by
        simp only [List.length_cons]
        omega
      have hrest : rest.length % 2 = 0 := by
        simp only [List.length_cons] at h
        omega
      rw [byteWords, byteWords_eq rest hrest, hlength, List.range_succ_eq_map, List.map_cons, List.map_map]
      refine congrArg _ (List.map_congr_left fun i _ => ?_)
      have hshift : 2 * (i + 1) = 2 * i + 2 := rfl
      simp only [Function.comp_def, Memory.load16, Nat.succ_eq_add_one, hshift, List.getD_cons_succ]

/-- What is sent does not depend on where the buffer is. -/
theorem writeData_eq (m : NandFlashModel) (odd : Bool) (buffer : List UInt8) :
    writeData m odd buffer = if m.wide then byteWords buffer else buffer.map .data8 := by
  unfold writeData
  split
  · split
    · rfl
    · rename_i hodd
      rw [byteWords_eq buffer (by omega)]
  · rfl

theorem byteWords_append : ∀ {xs : List UInt8} (ys : List UInt8), xs.length % 2 = 0 →
    byteWords (xs ++ ys) = byteWords xs ++ byteWords ys
  | [], _, _ => rfl
  | [_], _, h => absurd h (show ¬ 1 % 2 = 0 by decide)
  | a :: b :: rest, ys, h => by
      have hrest : rest.length % 2 = 0 := by
        simp only [List.length_cons] at h
        omega
      rw [List.cons_append, List.cons_append, byteWords, byteWords, byteWords_append ys hrest, List.cons_append]

/-! ### Reading -/

/-- A chip. Its cells are bytes by row and column; `output` is the row and the column of the byte that it gives next. -/
structure NandChip where
  State : Type
  write : State → Cycle → State
  read8 : State → UInt8 × State
  read16 : State → UInt16 × State
  cells : State → Nat → Memory
  output : State → Option (Nat × Nat)

/-- Reading gives the cells one after the other. -/
structure NandChip.Reads (chip : NandChip) : Prop where
  cells8 : ∀ s, chip.cells (chip.read8 s).2 = chip.cells s
  cells16 : ∀ s, chip.cells (chip.read16 s).2 = chip.cells s
  output8 : ∀ s row column, chip.output s = some (row, column) →
    (chip.read8 s).1 = chip.cells s row column ∧ chip.output (chip.read8 s).2 = some (row, column + 1)
  output16 : ∀ s row column, chip.output s = some (row, column) →
    (chip.read16 s).1 = (chip.cells s row).load16 column ∧ chip.output (chip.read16 s).2 = some (row, column + 2)

section Reading

variable (chip : NandChip)

def readBytes : Nat → chip.State → List UInt8 × chip.State
  | 0, s => ([], s)
  | n + 1, s =>
    let r := chip.read8 s
    let rest := readBytes n r.2
    (r.1 :: rest.1, rest.2)

/-- Words are taken apart; of the last one the high byte is dropped if there is no room for it. -/
def readHalves : Nat → chip.State → List UInt8 × chip.State
  | 0, s => ([], s)
  | 1, s =>
    let r := chip.read16 s
    ([UInt8.ofNat r.1.toNat], r.2)
  | n + 2, s =>
    let r := chip.read16 s
    let rest := readHalves n r.2
    (UInt8.ofNat r.1.toNat :: UInt8.ofNat (r.1.toNat / 256) :: rest.1, rest.2)

def readWords : Nat → chip.State → List UInt8 × chip.State
  | 0, s => ([], s)
  | n + 1, s =>
    let r := chip.read16 s
    let rest := readWords n r.2
    (Memory.halfword r.1 ++ rest.1, rest.2)

/-- `read_data`; `odd` says whether the address of the buffer is. -/
def readData (m : NandFlashModel) (odd : Bool) (size : Nat) (s : chip.State) : List UInt8 × chip.State :=
  if m.wide then
    if odd ∨ size % 2 = 1 then readHalves chip size s else readWords chip (size / 2) s
  else readBytes chip size s

variable {chip} {row : Nat}

/-- What is read from the output on. -/
structure Given (s : chip.State) (row column size : Nat) (r : List UInt8 × chip.State) : Prop where
  bytes : r.1 = (chip.cells s row).load column size
  cells : chip.cells r.2 = chip.cells s
  output : chip.output r.2 = some (row, column + size)

theorem readBytes_given (hchip : chip.Reads) (n : Nat) {s : chip.State} {column : Nat}
    (h : chip.output s = some (row, column)) : Given s row column n (readBytes chip n s) := by
  induction n generalizing s column with
  | zero => exact ⟨rfl, rfl, h⟩
  | succ n ih =>
      obtain ⟨hbyte, hnext⟩ := hchip.output8 s row column h
      obtain ⟨hbytes, hcells, houtput⟩ := ih hnext
      rw [hchip.cells8] at hbytes hcells
      refine ⟨?_, hcells, ?_⟩
      · rw [readBytes, Nat.add_comm n 1, Memory.load_add, ← hbytes, hbyte]
        rfl
      · rw [readBytes, houtput, Nat.add_assoc, Nat.add_comm 1 n]

theorem halfword_load16 (m : Memory) (base : Nat) : Memory.halfword (m.load16 base) = m.load base 2 := by
  have hlow := (m base).toNat_lt
  have hhigh := (m (base + 1)).toNat_lt
  have hword : (m.load16 base).toNat = (m base).toNat + 256 * (m (base + 1)).toNat := by
    rw [Memory.load16, UInt16.toNat_ofNat']
    exact Nat.mod_eq_of_lt (by omega)
  have hfirst : UInt8.ofNat (m.load16 base).toNat = m base := by
    rw [← UInt8.toNat_inj, toNat_ofNat_byte, hword]
    omega
  have hsecond : UInt8.ofNat ((m.load16 base).toNat / 256) = m (base + 1) := by
    rw [← UInt8.toNat_inj, toNat_ofNat_byte, hword]
    omega
  rw [Memory.halfword, hfirst, hsecond]
  rfl

theorem readWords_given (hchip : chip.Reads) (n : Nat) {s : chip.State} {column : Nat}
    (h : chip.output s = some (row, column)) : Given s row column (2 * n) (readWords chip n s) := by
  induction n generalizing s column with
  | zero => exact ⟨rfl, rfl, h⟩
  | succ n ih =>
      obtain ⟨hword, hnext⟩ := hchip.output16 s row column h
      obtain ⟨hbytes, hcells, houtput⟩ := ih hnext
      rw [hchip.cells16] at hbytes hcells
      refine ⟨?_, hcells, ?_⟩
      · rw [readWords, Nat.mul_succ, Nat.add_comm (2 * n) 2, Memory.load_add, ← hbytes, hword, halfword_load16]
      · rw [readWords, houtput, Nat.mul_succ, Nat.add_assoc, Nat.add_comm 2]

/-- For an even size the bytes of the words are read either way. -/
theorem readHalves_eq (n : Nat) (s : chip.State) : readHalves chip (2 * n) s = readWords chip n s := by
  induction n generalizing s with
  | zero => rfl
  | succ n ih =>
      rw [Nat.mul_succ, readHalves, readWords, ih]
      rfl

theorem readData_given (hchip : chip.Reads) (m : NandFlashModel) (odd : Bool) {size : Nat} (hsize : size % 2 = 0)
    {s : chip.State} {column : Nat} (h : chip.output s = some (row, column)) :
    Given s row column size (readData chip m odd size s) := by
  have hhalf : 2 * (size / 2) = size := by omega
  have hwords := readWords_given hchip (size / 2) h
  rw [hhalf] at hwords
  unfold readData
  split
  · split
    · rw [← readHalves_eq, hhalf] at hwords
      exact hwords
    · exact hwords
  · exact readBytes_given hchip size h

end Reading

end ContikiAtsam.Nand
