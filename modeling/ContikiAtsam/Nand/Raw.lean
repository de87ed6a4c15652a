import ContikiAtsam.Nand.Bus

/-!
# Pages and blocks of a chip

The upper half of `nand_flash_raw_smc.c`: blocks are erased, and pages written, read and copied, each several times if the chip reports an error. The chip is a parameter, of which is assumed what chips of this kind do with a whole sequence of cycles. A cell is never set but by erasing: what is written to a page is what its cells keep of what was there, so that a page is written again after an error without harm.
-/

namespace ContikiAtsam.Nand

/-! ### Functions -/

section Functions

variable (chip : NandChip) (m : NandFlashModel)

def sendAll (s : chip.State) (cycles : List Cycle) : chip.State :=
  cycles.foldl chip.write s

/-- A buffer of the caller. -/
structure NandBuffer where
  memory : Memory
  addr : Nat

def NandBuffer.odd (buffer : NandBuffer) : Bool := buffer.addr % 2 = 1

def NandBuffer.load (buffer : NandBuffer) (size : Nat) : List UInt8 := buffer.memory.load buffer.addr size

def NandBuffer.store (buffer : NandBuffer) (bytes : List UInt8) : NandBuffer :=
  { buffer with memory := buffer.memory.store buffer.addr bytes }

def checkStatus (s : chip.State) : Bool × chip.State :=
  let r := chip.read8 (chip.write s (.command 0x70))
  (!(r.1 &&& 0x40 ≠ 0x40 ∨ r.1 &&& 0x01 ≠ 0), r.2)

/-- The status is checked at the end of an operation. -/
def finish (error : UInt32) (s : chip.State) : UInt32 × chip.State :=
  let r := checkStatus chip s
  (if !r.1 then error else 0, r.2)

def eraseBlock (block : Nat) (s : chip.State) : UInt32 × chip.State :=
  finish chip errorCannotErase
    (sendAll chip s ([.command 0x60] ++ writeRowAddress m (rowAddress m block 0) ++ [.command 0xD0]))

/-- `write_page`. If there is data but no spare area, two bytes are read in its place. -/
def writePage (block page : Nat) (data spare : Option NandBuffer) (s : chip.State) : UInt32 × chip.State :=
  let row := rowAddress m block page
  match data, spare with
  | some data, some spare =>
    let s := sendAll chip s ([.command 0x80] ++ writeColumnAddress m 0 ++ writeRowAddress m row ++
      writeData m data.odd (data.load m.pageDataSize))
    finish chip errorCannotWrite
      (chip.write (sendAll chip s (writeData m spare.odd (spare.load m.pageSpareSize))) (.command 0x10))
  | some data, none =>
    let s := sendAll chip s ([.command 0x80] ++ writeColumnAddress m 0 ++ writeRowAddress m row ++
      writeData m data.odd (data.load m.pageDataSize))
    finish chip errorCannotWrite (chip.write (readData chip m false 2 s).2 (.command 0x10))
  | none, some spare =>
    finish chip errorCannotWrite
      (sendAll chip s ([.command 0x80] ++ writeColumnAddress m m.pageDataSize ++ writeRowAddress m row ++
        writeData m spare.odd (spare.load m.pageSpareSize) ++ [.command 0x10]))
  | none, none => (0, s)

/-- `nand_flash_raw_read_page`, for a caller that has a buffer for the data or for the spare area. -/
def rawReadPage (block page : Nat) (data spare : Option NandBuffer) (s : chip.State) :
    Option NandBuffer × Option NandBuffer × chip.State :=
  let row := rowAddress m block page
  let column := if data.isSome then 0 else m.pageDataSize
  let s :=
    if m.smallBlock then
      sendAll chip s ([.command (if column = 0 then 0x00 else 0x50)] ++ writeColumnAddress m column ++ writeRowAddress m row)
    else sendAll chip s ([.command 0x00] ++ writeColumnAddress m column ++ writeRowAddress m row ++ [.command 0x30])
  let s := chip.write s (.command 0x00)
  match data, spare with
  | some data, some spare =>
    let r := readData chip m data.odd m.pageDataSize s
    let r' := readData chip m spare.odd m.pageSpareSize r.2
    (some (data.store r.1), some (spare.store r'.1), r'.2)
  | some data, none =>
    let r := readData chip m data.odd m.pageDataSize s
    (some (data.store r.1), none, r.2)
  | none, some spare =>
    let r := readData chip m spare.odd m.pageSpareSize s
    (none, some (spare.store r.1), r.2)
  | none, none => (none, none, s)

/-- The loop of the functions that try several times. -/
def tries (operation : chip.State → UInt32 × chip.State) : Nat → chip.State → UInt32 × chip.State
  | 0, s => (errorBadBlock, s)
  | numTry + 1, s =>
    let r := operation s
    if r.1 = 0 then (0, r.2) else tries operation numTry r.2

/-- `CONF_NF_ERASE_NUM_TRY`. -/
def confNfEraseNumTry : Nat := 2

/-- `CONF_NF_WRITE_NUM_TRY`. -/
def confNfWriteNumTry : Nat := 2

/-- `CONF_NF_COPY_NUM_TRY`. -/
def confNfCopyNumTry : Nat := 2

def rawEraseBlock (block : Nat) : chip.State → UInt32 × chip.State :=
  tries chip (eraseBlock chip m block) confNfEraseNumTry

def rawWritePage (block page : Nat) (data spare : Option NandBuffer) : chip.State → UInt32 × chip.State :=
  tries chip (writePage chip m block page data spare) confNfWriteNumTry

/-- `NAND_COMMON_MAX_PAGE_SIZE`. -/
def nandCommonMaxPageSize : Nat := 2048

/-- `NAND_COMMON_MAX_PAGE_SPARE_SIZE`. -/
def nandCommonMaxPageSpareSize : Nat := 128

/-- `copy_page`, with its buffers, by the chip itself if it can. -/
def copyPage (data spare : NandBuffer) (sourceBlock sourcePage destBlock destPage : Nat) (s : chip.State) :
    UInt32 × chip.State :=
  if m.hasCopyBack then
    let s := sendAll chip s ([.command 0x00] ++ writeColumnAddress m 0 ++
      writeRowAddress m (rowAddress m sourceBlock sourcePage) ++ [.command 0x35])
    finish chip 14 (sendAll chip s ([.command 0x85] ++ writeColumnAddress m 0 ++
      writeRowAddress m (rowAddress m destBlock destPage) ++ [.command 0x10]))
  else
    let r := rawReadPage chip m sourceBlock sourcePage (some data) (some spare) s
    let w := rawWritePage chip m destBlock destPage r.1 r.2.1 r.2.2
    (if w.1 ≠ 0 then errorCannotWrite else 0, w.2)

/-- The buffers of `copy_page` are large enough for a page. -/
def copyFits : Bool :=
  m.hasCopyBack ∨ m.pageDataSize ≤ nandCommonMaxPageSize ∧ m.pageSpareSize ≤ nandCommonMaxPageSpareSize

def rawCopyPage (data spare : NandBuffer) (sourceBlock sourcePage destBlock destPage : Nat) :
    chip.State → UInt32 × chip.State :=
  tries chip (copyPage chip m data spare sourceBlock sourcePage destBlock destPage) confNfCopyNumTry

/-- The loop of `nand_flash_raw_copy_block`, over the number of pages left. -/
def copyPages (data spare : NandBuffer) (sourceBlock destBlock : Nat) : Nat → Nat → chip.State → UInt32 × chip.State
  | 0, _, s => (0, s)
  | left + 1, i, s =>
    let r := rawCopyPage chip m data spare sourceBlock i destBlock i s
    if r.1 ≠ 0 then (errorBadBlock, r.2) else copyPages data spare sourceBlock destBlock left (i + 1) r.2

/-- `nand_flash_raw_copy_block`, with the buffers of `copy_page`. -/
def rawCopyBlock (data spare : NandBuffer) (sourceBlock destBlock : Nat) (s : chip.State) :
    Except Fault (UInt32 × chip.State) :=
  if sourceBlock = destBlock then .error .assertion
  else if copyFits m then .ok (copyPages chip m data spare sourceBlock destBlock (m.blockSizeInPages % 65536) 0 s)
  else .error .outOfBounds

end Functions

/-! ### Chips -/

/-- One more than the greatest number that an address of so many bytes says. -/
def span : List UInt8 → Nat
  | [] => 1
  | _ :: as => 256 * span as

/-- The cycles of an address say the first column of a row. -/
structure Addressed (m : NandFlashModel) (columns rows : List UInt8) (row : Nat) : Prop where
  columns_length : columns.length = if m.smallBlock then 1 else 2
  columns_zero : ∀ a ∈ columns, a = 0
  rows_span : m.deviceSizeInPages < span rows
  rows_eq : fromCycles rows = row
  inside : row < m.deviceSizeInPages

def addressCycles (m : NandFlashModel) (cycles : List UInt8) : List Cycle := cycles.map (.address m.wide)

def dataCycles (m : NandFlashModel) (bytes : List UInt8) : List Cycle :=
  if m.wide then byteWords bytes else bytes.map .data8

/-- The chip says that it is ready and that there was no error. -/
def Succeeded (chip : NandChip) (s : chip.State) : Prop := (checkStatus chip s).1 = true

/-- What is in a page while and after it is programmed: cells are cleared, and only those that are to be. -/
def Between (old new now : Memory) : Prop :=
  ∀ c, now c &&& old c = now c ∧ old c &&& new c &&& now c = old c &&& new c

/-- What a page is programmed with; what is not sent is not changed. -/
def imageOf (bytes : List UInt8) : Memory := fun c => bytes.getD c 0xFF

/-- What the driver relies on. -/
structure NandChip.Lawful (chip : NandChip) (m : NandFlashModel) : Prop extends chip.Reads where
  status : ∀ s, chip.cells (chip.write s (.command 0x70)) = chip.cells s
  read : ∀ s columns rows row, Addressed m columns rows row →
    let s' := sendAll chip s ([.command 0x00] ++ addressCycles m columns ++ addressCycles m rows ++
      (if m.smallBlock then [] else [.command 0x30]) ++ [.command 0x00])
    chip.cells s' = chip.cells s ∧ chip.output s' = some (row, 0)
  program : ∀ s columns rows row bytes, Addressed m columns rows row →
    bytes.length = m.pageDataSize + m.pageSpareSize →
    let s' := sendAll chip s ([.command 0x80] ++ addressCycles m columns ++ addressCycles m rows ++ dataCycles m bytes ++
      [.command 0x10])
    (∀ r, r ≠ row → chip.cells s' r = chip.cells s r) ∧ Between (chip.cells s row) (imageOf bytes) (chip.cells s' row) ∧
      (Succeeded chip s' → ∀ c, chip.cells s' row c = chip.cells s row c &&& imageOf bytes c)
  erase : ∀ s rows row, m.deviceSizeInPages < span rows → fromCycles rows = row → row < m.deviceSizeInPages →
    let s' := sendAll chip s ([.command 0x60] ++ addressCycles m rows ++ [.command 0xD0])
    (∀ r, r / m.blockSizeInPages ≠ row / m.blockSizeInPages → chip.cells s' r = chip.cells s r) ∧
      (Succeeded chip s' → ∀ r, r / m.blockSizeInPages = row / m.blockSizeInPages → ∀ c, chip.cells s' r c = 0xFF)

/-! ### Sequences of the driver -/

section Sequences

variable {chip : NandChip} {m : NandFlashModel} (hm : Sized m)

theorem lt_span_rowCycles (numPage row : Nat) : numPage < span (rowCycles numPage row) := by
  induction numPage, row using rowCycles.induct with
  | case1 numPage row hpos ih =>
      rw [rowCycles, if_pos hpos, span]
      omega
  | case2 numPage row hzero =>
      rw [rowCycles, if_neg hzero, span]
      omega

theorem columnCycles_length {pageDataSize : Nat} (hpage : 256 ≤ pageDataSize ∧ pageDataSize ≤ 8192)
    (hbytes : 256 ∣ pageDataSize) (column : Nat) :
    (columnCycles pageDataSize column).length = if pageDataSize ≤ 512 then 1 else 2 := by
  rw [columnCycles, if_pos (by omega), List.length_cons, columnCycles]
  by_cases hsmall : pageDataSize ≤ 512
  · rw [if_neg (by omega), if_pos hsmall, List.length_nil]
  · rw [if_pos (by omega), if_neg hsmall, List.length_cons, columnCycles, if_neg (by omega), List.length_nil]

include hm

theorem Sized.addressed {row : Nat} (hrow : row < m.deviceSizeInPages) :
    Addressed m (columnCycles m.pageDataSize 0) (rowCycles m.deviceSizeInPages row) row where
  columns_length := by
    rw [NandFlashModel.pageDataSize, columnCycles_length hm.page hm.bytes, NandFlashModel.smallBlock]
    simp only [decide_eq_true_eq]
  columns_zero := columnCycles_zero _
  rows_span := lt_span_rowCycles _ _
  rows_eq := fromCycles_rowCycles _ (Nat.le_of_lt hrow)
  inside := hrow

theorem Sized.even : m.pageDataSize % 2 = 0 ∧ m.pageSpareSize % 2 = 0 := by
  obtain ⟨k, hk⟩ := hm.bytes
  unfold NandFlashModel.pageDataSize NandFlashModel.pageSpareSize
  omega

omit hm

theorem writeColumnAddress_zero : writeColumnAddress m 0 = addressCycles m (columnCycles m.pageDataSize 0) := by
  rw [writeColumnAddress, Nat.zero_div, ite_self, addressCycles]

theorem writeRowAddress_eq (row : Nat) : writeRowAddress m row = addressCycles m (rowCycles m.deviceSizeInPages row) := rfl

theorem sendAll_append (s : chip.State) (cycles cycles' : List Cycle) :
    sendAll chip (sendAll chip s cycles) cycles' = sendAll chip s (cycles ++ cycles') := List.foldl_append.symm

theorem write_eq_sendAll (s : chip.State) (cycle : Cycle) : chip.write s cycle = sendAll chip s [cycle] := rfl

theorem dataCycles_append {xs : List UInt8} (ys : List UInt8) (hxs : xs.length % 2 = 0) :
    dataCycles m (xs ++ ys) = dataCycles m xs ++ dataCycles m ys := by
  unfold dataCycles
  split
  · exact byteWords_append ys hxs
  · exact List.map_append

theorem finish_cells (hchip : chip.Lawful m) (error : UInt32) (s : chip.State) :
    chip.cells (finish chip error s).2 = chip.cells s := by
  rw [finish, checkStatus]
  exact (hchip.cells8 _).trans (hchip.status s)

theorem finish_eq_zero {error : UInt32} (herror : error ≠ 0) {s : chip.State} (h : (finish chip error s).1 = 0) :
    Succeeded chip s := by
  unfold finish at h
  dsimp only at h
  unfold Succeeded
  cases hstatus : (checkStatus chip s).1 with
  | true => rfl
  | false =>
      rw [hstatus, Bool.not_false, if_pos rfl] at h
      exact absurd h herror

end Sequences

end ContikiAtsam.Nand
