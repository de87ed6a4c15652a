import ContikiAtsam.Nand.Scheme

/-!
# Models of chips

`nand_flash_model.c`. A chip is known by the second byte of its identifier; the fourth gives the sizes of the pages and the blocks of large chips. An access is a range of bytes of the chip, of which the block, the page in it and the offset in the page are computed.
-/

namespace ContikiAtsam.Nand

structure NandFlashModel where
  deviceId : UInt8
  options : UInt8
  pageSizeInBytes : Nat
  deviceSizeInMegabytes : Nat
  blockSizeInKilobytes : Nat
  scheme : SpareScheme

/-- `NAND_FLASH_MODEL_DATA_BUS_8`. -/
def dataBus8 : UInt8 := 0

/-- `NAND_FLASH_MODEL_DATA_BUS_16`. -/
def dataBus16 : UInt8 := 1

/-- `NAND_FLASH_MODEL_COPY_BACK`. -/
def copyBack : UInt8 := 2

def errorOutOfBounds : UInt32 := 3
def errorCannotWrite : UInt32 := 7
def errorUnknownModel : UInt32 := 8
def errorCorruptedData : UInt32 := 9
def errorBadBlock : UInt32 := 12
def errorCannotErase : UInt32 := 13

/-- The sizes of large chips are zero: they are in the identifier. -/
def nandFlashModelList : List NandFlashModel :=
  [ ⟨0x6e, dataBus8, 256, 1, 4, spareScheme256⟩, ⟨0x64, dataBus8, 256, 2, 4, spareScheme256⟩,
    ⟨0x6b, dataBus8, 512, 4, 8, spareScheme512⟩, ⟨0xe8, dataBus8, 256, 1, 4, spareScheme256⟩,
    ⟨0xec, dataBus8, 256, 1, 4, spareScheme256⟩, ⟨0xea, dataBus8, 256, 2, 4, spareScheme256⟩,
    ⟨0xd5, dataBus8, 512, 4, 8, spareScheme512⟩, ⟨0xe3, dataBus8, 512, 4, 8, spareScheme512⟩,
    ⟨0xe5, dataBus8, 512, 4, 8, spareScheme512⟩, ⟨0xd6, dataBus8, 512, 8, 8, spareScheme512⟩,
    ⟨0x39, dataBus8, 512, 8, 8, spareScheme512⟩, ⟨0xe6, dataBus8, 512, 8, 8, spareScheme512⟩,
    ⟨0x49, dataBus16, 512, 8, 8, spareScheme512⟩, ⟨0x59, dataBus16, 512, 8, 8, spareScheme512⟩,
    ⟨0x33, dataBus8, 512, 16, 16, spareScheme512⟩, ⟨0x73, dataBus8, 512, 16, 16, spareScheme512⟩,
    ⟨0x43, dataBus16, 512, 16, 16, spareScheme512⟩, ⟨0x53, dataBus16, 512, 16, 16, spareScheme512⟩,
    ⟨0x35, dataBus8, 512, 32, 16, spareScheme512⟩, ⟨0x75, dataBus8, 512, 32, 16, spareScheme512⟩,
    ⟨0x45, dataBus16, 512, 32, 16, spareScheme512⟩, ⟨0x55, dataBus16, 512, 32, 16, spareScheme512⟩,
    ⟨0x36, dataBus8, 512, 64, 16, spareScheme512⟩, ⟨0x76, dataBus8, 512, 64, 16, spareScheme512⟩,
    ⟨0x46, dataBus16, 512, 64, 16, spareScheme512⟩, ⟨0x56, dataBus16, 512, 64, 16, spareScheme512⟩,
    ⟨0x78, dataBus8, 512, 128, 16, spareScheme512⟩, ⟨0x39, dataBus8, 512, 128, 16, spareScheme512⟩,
    ⟨0x79, dataBus8, 512, 128, 16, spareScheme512⟩, ⟨0x72, dataBus16, 512, 128, 16, spareScheme512⟩,
    ⟨0x49, dataBus16, 512, 128, 16, spareScheme512⟩, ⟨0x74, dataBus16, 512, 128, 16, spareScheme512⟩,
    ⟨0x59, dataBus16, 512, 128, 16, spareScheme512⟩, ⟨0x71, dataBus8, 512, 256, 16, spareScheme512⟩,
    ⟨0xA2, dataBus8, 0, 64, 0, spareScheme2048⟩, ⟨0xF2, dataBus8, 0, 64, 0, spareScheme2048⟩,
    ⟨0xB2, dataBus16, 0, 64, 0, spareScheme2048⟩, ⟨0xC2, dataBus16, 0, 64, 0, spareScheme2048⟩,
    ⟨0xA1, dataBus8, 0, 128, 0, spareScheme2048⟩, ⟨0xF1, dataBus8, 0, 128, 0, spareScheme2048⟩,
    ⟨0xB1, dataBus16, 0, 128, 0, spareScheme2048⟩, ⟨0xC1, dataBus16, 0, 128, 0, spareScheme2048⟩,
    ⟨0xAA, dataBus8, 0, 256, 0, spareScheme2048⟩, ⟨0xDA, dataBus8, 0, 256, 0, spareScheme2048⟩,
    ⟨0xBA, dataBus16, 0, 256, 0, spareScheme2048⟩, ⟨0xCA, dataBus16, 0, 256, 0, spareScheme2048⟩,
    ⟨0xAC, dataBus8, 0, 512, 0, spareScheme2048⟩, ⟨0xDC, dataBus8, 0, 512, 0, spareScheme2048⟩,
    ⟨0xBC, dataBus16, 0, 512, 0, spareScheme2048⟩, ⟨0xCC, dataBus16, 0, 512, 0, spareScheme2048⟩,
    ⟨0xA3, dataBus8, 0, 1024, 0, spareScheme2048⟩, ⟨0xD3, dataBus8, 0, 1024, 0, spareScheme2048⟩,
    ⟨0xB3, dataBus16, 0, 1024, 0, spareScheme2048⟩, ⟨0xC3, dataBus16, 0, 1024, 0, spareScheme2048⟩,
    ⟨0xA5, dataBus8, 0, 2048, 0, spareScheme2048⟩, ⟨0xD5, dataBus8, 0, 2048, 0, spareScheme2048⟩,
    ⟨0xB5, dataBus16, 0, 2048, 0, spareScheme2048⟩, ⟨0xC5, dataBus16, 0, 2048, 0, spareScheme2048⟩ ]

namespace NandFlashModel

variable (m : NandFlashModel)

def deviceSizeInBlocks : Nat := 1024 * m.deviceSizeInMegabytes / m.blockSizeInKilobytes % 65536
def blockSizeInPages : Nat := m.blockSizeInKilobytes * 1024 / m.pageSizeInBytes
def deviceSizeInPages : Nat := m.deviceSizeInBlocks * m.blockSizeInPages % 4294967296
def deviceSizeInBytes : Nat := m.deviceSizeInMegabytes * 1048576
def blockSizeInBytes : Nat := m.blockSizeInKilobytes * 1024
def pageDataSize : Nat := m.pageSizeInBytes
def pageSpareSize : Nat := m.pageSizeInBytes / 32

/-- The data bus has 16 bits. -/
def wide : Bool := m.options &&& dataBus16 ≠ 0

def smallBlock : Bool := m.pageSizeInBytes ≤ 512

def hasCopyBack : Bool := m.options &&& copyBack ≠ 0

end NandFlashModel

/-- The sizes of a large chip, from the fourth byte of its identifier. -/
def extendedSizes (m : NandFlashModel) (id4 : UInt8) : NandFlashModel :=
  { m with
    pageSizeInBytes :=
      if id4 &&& 0x03 = 0x00 then 1024
      else if id4 &&& 0x03 = 0x01 then 2048
      else if id4 &&& 0x03 = 0x02 then 4096
      else if id4 &&& 0x03 = 0x03 then 8192
      else m.pageSizeInBytes
    blockSizeInKilobytes :=
      if id4 &&& 0x30 = 0x00 then 64
      else if id4 &&& 0x30 = 0x10 then 128
      else if id4 &&& 0x30 = 0x20 then 256
      else if id4 &&& 0x30 = 0x30 then 512
      else m.blockSizeInKilobytes }

def modelFind (models : List NandFlashModel) (chipId : UInt32) : Except UInt32 NandFlashModel :=
  let id2 := (chipId >>> 8).toUInt8
  let id4 := (chipId >>> 24).toUInt8
  match models.find? fun m => m.deviceId = id2 with
  | none => .error errorUnknownModel
  | some m => .ok (if m.blockSizeInKilobytes = 0 ∨ m.pageSizeInBytes = 0 then extendedSizes m id4 else m)

/-- `nand_flash_model_translate_access`: the block, the page in it and the offset in the page. The end of the access is computed in 32 bits. -/
def translateAccess (m : NandFlashModel) (address size : UInt32) : Except UInt32 (Nat × Nat × Nat) :=
  if (address + size).toNat > m.deviceSizeInBytes then .error errorOutOfBounds
  else
    let block := address.toNat / m.blockSizeInBytes % 65536
    let address := address.toNat - block * m.blockSizeInBytes
    let page := address / m.pageDataSize % 65536
    let address := address - page * m.pageDataSize
    .ok (block, page, address % 65536)

/-- The row address of a page, as the functions that send it compute it. -/
def rowAddress (m : NandFlashModel) (block page : Nat) : Nat :=
  (block * m.blockSizeInPages + page) % 4294967296

/-! ### Sizes -/

/-- The sizes fit each other: blocks are made of pages, and the chip of blocks. -/
structure Sized (m : NandFlashModel) : Prop where
  page : 256 ≤ m.pageSizeInBytes ∧ m.pageSizeInBytes ≤ 8192
  bytes : 256 ∣ m.pageSizeInBytes
  pages : m.pageSizeInBytes ∣ m.blockSizeInBytes
  block : 4096 ≤ m.blockSizeInBytes ∧ m.blockSizeInBytes ≤ 524288
  blocks : m.blockSizeInKilobytes ∣ 1024 * m.deviceSizeInMegabytes
  many : 1024 * m.deviceSizeInMegabytes / m.blockSizeInKilobytes < 65536
  device : m.deviceSizeInMegabytes ≤ 2048
  plain : m.hasCopyBack = false

instance (m : NandFlashModel) : Decidable (Sized m) :=
  decidable_of_iff
    (((256 ≤ m.pageSizeInBytes ∧ m.pageSizeInBytes ≤ 8192) ∧ 256 ∣ m.pageSizeInBytes ∧
      m.pageSizeInBytes ∣ m.blockSizeInBytes ∧ 4096 ≤ m.blockSizeInBytes ∧ m.blockSizeInBytes ≤ 524288) ∧
      m.blockSizeInKilobytes ∣ 1024 * m.deviceSizeInMegabytes ∧
      1024 * m.deviceSizeInMegabytes / m.blockSizeInKilobytes < 65536 ∧
      m.deviceSizeInMegabytes ≤ 2048 ∧ m.hasCopyBack = false)
    ⟨fun ⟨⟨h, h', h'', h'''⟩, i, i', i'', i'''⟩ => ⟨h, h', h'', h''', i, i', i'', i'''⟩,
      fun h => ⟨⟨h.page, h.bytes, h.pages, h.block⟩, h.blocks, h.many, h.device, h.plain⟩⟩

/-- An entry of the list has its sizes, or it is a large chip that gets them from its identifier. -/
theorem nandFlashModelList_sized : ∀ m ∈ nandFlashModelList, (m.blockSizeInKilobytes ≠ 0 ∧ m.pageSizeInBytes ≠ 0 ∧ Sized m) ∨
    (m.blockSizeInKilobytes = 0 ∧ 64 ∣ m.deviceSizeInMegabytes ∧ m.deviceSizeInMegabytes ≤ 2048 ∧ m.hasCopyBack = false) := by
  decide

theorem and_sizes : ∀ n : Fin 256, UInt8.ofNat n &&& 0x03 ∈ [0x00, 0x01, 0x02, 0x03] ∧
    UInt8.ofNat n &&& 0x30 ∈ [0x00, 0x10, 0x20, 0x30] := by
  decide +kernel

theorem extendedSizes_mem (m : NandFlashModel) (id4 : UInt8) :
    (extendedSizes m id4).pageSizeInBytes ∈ [1024, 2048, 4096, 8192] ∧
      (extendedSizes m id4).blockSizeInKilobytes ∈ [64, 128, 256, 512] := by
  obtain ⟨hpage, hblock⟩ := and_sizes ⟨id4.toNat, id4.toNat_lt⟩
  rw [UInt8.ofNat_toNat] at hpage hblock
  unfold extendedSizes
  dsimp only
  constructor
  · simp only [List.mem_cons, List.not_mem_nil, or_false] at hpage
    rcases hpage with h | h | h | h <;> simp [h]
  · simp only [List.mem_cons, List.not_mem_nil, or_false] at hblock
    rcases hblock with h | h | h | h <;> simp [h]

theorem extendedSizes_sized {m : NandFlashModel} (hdevice : 64 ∣ m.deviceSizeInMegabytes)
    (hle : m.deviceSizeInMegabytes ≤ 2048) (hplain : m.hasCopyBack = false) (id4 : UInt8) : Sized (extendedSizes m id4) := by
  obtain ⟨hpage, hblock⟩ := extendedSizes_mem m id4
  obtain ⟨k, hk⟩ := hdevice
  have hsame : (extendedSizes m id4).deviceSizeInMegabytes = 64 * k := hk
  have hk32 : k ≤ 32 := by omega
  have hfits : ∀ page ∈ [1024, 2048, 4096, 8192], ∀ block ∈ [64, 128, 256, 512],
      (256 ≤ page ∧ page ≤ 8192) ∧ 256 ∣ page ∧ page ∣ block * 1024 ∧ (4096 ≤ block * 1024 ∧ block * 1024 ≤ 524288) ∧ block ∣ 65536 := by
    decide
  obtain ⟨hrange, hbytes, hpages, hlarge, hdivides⟩ := hfits _ hpage _ hblock
  have hmin : 64 ≤ (extendedSizes m id4).blockSizeInKilobytes := by
    simp only [List.mem_cons, List.not_mem_nil, or_false] at hblock
    omega
  have hmega : 1024 * (extendedSizes m id4).deviceSizeInMegabytes = 65536 * k := by
    rw [hsame, ← Nat.mul_assoc]
  refine ⟨hrange, hbytes, hpages, hlarge, ?_, ?_, hle, hplain⟩
  · rw [hmega]
    exact Nat.dvd_mul_right_of_dvd hdivides k
  · rw [hmega]
    have hsmall : 65536 * k / (extendedSizes m id4).blockSizeInKilobytes ≤ 65536 * k / 64 :=
      Nat.div_le_div_left hmin (by decide)
    omega

theorem modelFind_sized {chipId : UInt32} {m : NandFlashModel} (h : modelFind nandFlashModelList chipId = .ok m) :
    Sized m := by
  unfold modelFind at h
  dsimp only at h
  cases hfind : nandFlashModelList.find? fun m => m.deviceId = (chipId >>> 8).toUInt8 with
  | none =>
      rw [hfind] at h
      cases h
  | some entry =>
      rw [hfind] at h
      obtain rfl := Except.ok.inj h
      rcases nandFlashModelList_sized entry (List.mem_of_find?_eq_some hfind) with
        ⟨hblock, hpage, hsized⟩ | ⟨hblock, hdevice, hle, hplain⟩
      · rw [if_neg (not_or.mpr ⟨hblock, hpage⟩)]
        exact hsized
      · rw [if_pos (Or.inl hblock)]
        exact extendedSizes_sized hdevice hle hplain _

/-! ### Accesses -/

section Access

variable {m : NandFlashModel} (hm : Sized m)
include hm

theorem Sized.page_pos : 0 < m.pageDataSize := Nat.lt_of_lt_of_le (by decide) hm.page.1

theorem Sized.blockBytes : m.blockSizeInBytes = m.pageDataSize * m.blockSizeInPages :=
  (Nat.mul_div_cancel' hm.pages).symm

theorem Sized.pages_pos : 0 < m.blockSizeInPages := by
  apply Nat.pos_of_ne_zero
  intro hzero
  have hblock := hm.block.1
  rw [hm.blockBytes, hzero, Nat.mul_zero] at hblock
  omega

theorem Sized.pages_lt : m.blockSizeInPages < 65536 := by
  apply Nat.div_lt_of_lt_mul
  have hpage := hm.page.1
  have hblock : m.blockSizeInKilobytes * 1024 ≤ 524288 := hm.block.2
  have hlarge : 256 * 65536 ≤ m.pageSizeInBytes * 65536 := Nat.mul_le_mul_right _ hpage
  omega

theorem Sized.deviceBlocks : m.blockSizeInKilobytes * m.deviceSizeInBlocks = 1024 * m.deviceSizeInMegabytes := by
  rw [NandFlashModel.deviceSizeInBlocks, Nat.mod_eq_of_lt hm.many, Nat.mul_div_cancel' hm.blocks]

theorem Sized.deviceBytes : m.deviceSizeInBytes = m.blockSizeInBytes * m.deviceSizeInBlocks := by
  rw [NandFlashModel.blockSizeInBytes, Nat.mul_right_comm, hm.deviceBlocks, NandFlashModel.deviceSizeInBytes]
  omega

theorem Sized.deviceBytes_le : m.deviceSizeInBytes ≤ 2147483648 := by
  have hdevice := hm.device
  rw [NandFlashModel.deviceSizeInBytes]
  omega

theorem Sized.devicePages : m.deviceSizeInPages = m.deviceSizeInBlocks * m.blockSizeInPages := by
  have hle : m.deviceSizeInBlocks * m.blockSizeInPages ≤ m.deviceSizeInBytes := by
    rw [hm.deviceBytes, hm.blockBytes, Nat.mul_comm, Nat.mul_assoc]
    exact Nat.le_mul_of_pos_left _ hm.page_pos
  have hbytes := hm.deviceBytes_le
  exact Nat.mod_eq_of_lt (by omega)

theorem Sized.row {block page : Nat} (hblock : block < m.deviceSizeInBlocks) (hpage : page < m.blockSizeInPages) :
    rowAddress m block page = block * m.blockSizeInPages + page ∧ rowAddress m block page < m.deviceSizeInPages := by
  have hlt : block * m.blockSizeInPages + page < m.deviceSizeInPages := by
    rw [hm.devicePages]
    calc block * m.blockSizeInPages + page
        < block * m.blockSizeInPages + m.blockSizeInPages := Nat.add_lt_add_left hpage _
      _ = (block + 1) * m.blockSizeInPages := (Nat.succ_mul _ _).symm
      _ ≤ m.deviceSizeInBlocks * m.blockSizeInPages := Nat.mul_le_mul_right _ hblock
  have hrow : rowAddress m block page = block * m.blockSizeInPages + page := by
    have hmod : m.deviceSizeInPages < 4294967296 := Nat.mod_lt _ (by decide)
    exact Nat.mod_eq_of_lt (by omega)
  exact ⟨hrow, hrow ▸ hlt⟩

/-- The place of an address: in which block, in which page of it and where in the page. -/
structure Placed (m : NandFlashModel) (address block page offset : Nat) : Prop where
  block_lt : block < m.deviceSizeInBlocks
  page_lt : page < m.blockSizeInPages
  offset_lt : offset < m.pageDataSize
  address_eq : block * m.blockSizeInBytes + page * m.pageDataSize + offset = address
  row_eq : rowAddress m block page = address / m.pageDataSize

theorem translateAccess_placed {address size : UInt32} (hend : address.toNat + size.toNat ≤ m.deviceSizeInBytes)
    (hstart : address.toNat < m.deviceSizeInBytes) :
    ∃ block page offset, translateAccess m address size = .ok (block, page, offset) ∧
      Placed m address.toNat block page offset := by
  have hbytes := hm.deviceBytes_le
  have hsum : (address + size).toNat = address.toNat + size.toNat := by
    rw [UInt32.toNat_add, Nat.mod_eq_of_lt (by omega)]
  have haccepted : ¬ (address + size).toNat > m.deviceSizeInBytes := by
    rw [hsum]
    omega
  generalize haddress : address.toNat = a at *
  have hblock : a / m.blockSizeInBytes < m.deviceSizeInBlocks := by
    apply Nat.div_lt_of_lt_mul
    rwa [← hm.deviceBytes]
  have hblocks : m.deviceSizeInBlocks < 65536 := Nat.mod_lt _ (by decide)
  have hrest : a - a / m.blockSizeInBytes * m.blockSizeInBytes = a % m.blockSizeInBytes := by
    have := Nat.div_add_mod a m.blockSizeInBytes
    rw [Nat.mul_comm] at this
    omega
  have hpage : a % m.blockSizeInBytes / m.pageDataSize = a / m.pageDataSize % m.blockSizeInPages := by
    rw [hm.blockBytes, Nat.mod_mul_right_div_self]
  have hpagelt : a % m.blockSizeInBytes / m.pageDataSize < m.blockSizeInPages := by
    rw [hpage]
    exact Nat.mod_lt _ hm.pages_pos
  have hoffset : a % m.blockSizeInBytes - a % m.blockSizeInBytes / m.pageDataSize * m.pageDataSize =
      a % m.blockSizeInBytes % m.pageDataSize := by
    have := Nat.div_add_mod (a % m.blockSizeInBytes) m.pageDataSize
    rw [Nat.mul_comm] at this
    omega
  have hoffsetlt : a % m.blockSizeInBytes % m.pageDataSize < m.pageDataSize := Nat.mod_lt _ hm.page_pos
  have hpagesize : m.pageDataSize ≤ 8192 := hm.page.2
  have hpages := hm.pages_lt
  refine ⟨a / m.blockSizeInBytes, a % m.blockSizeInBytes / m.pageDataSize, a % m.blockSizeInBytes % m.pageDataSize, ?_,
    hblock, hpagelt, hoffsetlt, ?_, ?_⟩
  · rw [translateAccess, if_neg haccepted, haddress]
    dsimp only
    rw [Nat.mod_eq_of_lt (Nat.lt_trans hblock hblocks), hrest, Nat.mod_eq_of_lt (Nat.lt_trans hpagelt hpages), hoffset,
      Nat.mod_eq_of_lt (show a % m.blockSizeInBytes % m.pageDataSize < 65536 by omega)]
  · rw [Nat.add_assoc, Nat.mul_comm _ m.pageDataSize, Nat.div_add_mod, Nat.mul_comm, Nat.div_add_mod]
  · rw [(hm.row hblock hpagelt).1, hpage, hm.blockBytes, ← Nat.div_div_eq_div_mul, Nat.mul_comm, Nat.div_add_mod]

end Access

end ContikiAtsam.Nand
