import ContikiAtsam.Flash.Efc

/-!
# Erasing a sector

The Coffee file system lies in the upper half of the flash, one sector a page. `COFFEE_ERASE` takes a sector number, but `flash_erase` takes it as a `uint8_t`: of the 1024 sectors it reaches the first 256, and any other number erases the sector it is congruent to. The guard on the address range, written against writes outside the file system, sees the reduced number and never stops a call.
-/

namespace ContikiAtsam.Flash

def contikiFlashBanksNum : Nat := 4
def contikiFlashSizeBank : Nat := iflashSize / contikiFlashBanksNum

/-- `CONTIKI_FLASH_ADDR_BANK2`. -/
def coffeeAddress : Nat := iflashAddr + contikiFlashSizeBank + contikiFlashSizeBank

def coffeePageSize : Nat := iflashPageSize
def coffeeSectorSize : Nat := iflashPageSize
def coffeePages : Nat := (iflashSize - (coffeeAddress - iflashAddr)) / coffeePageSize
def coffeeStart : Nat := coffeeAddress &&& (0xffffffff - (coffeePageSize - 1))
def coffeeSize : Nat := coffeePages * coffeePageSize

/-- The loop of `flash_erase`, four bytes a turn. -/
def eraseFrom (flash : Memory) (addr endAddr : Nat) : Memory :=
  if addr < endAddr then eraseFrom (flashWrite flash addr [0, 0, 0, 0]) (addr + 4) endAddr else flash
termination_by endAddr - addr

def flashErase (flash : Memory) (sector : UInt8) : Memory :=
  let addr := coffeeStart + sector.toNat * coffeeSectorSize
  let endAddr := addr + coffeeSectorSize
  if ¬ (addr ≥ coffeeStart ∧ endAddr ≤ coffeeStart + coffeeSize - 1) then flash
  else eraseFrom flash addr endAddr

/-- `COFFEE_ERASE`: the sector number is converted to the parameter's type. -/
def coffeeErase (flash : Memory) (sector : Int) : Memory := flashErase flash (UInt8.ofInt sector)

/-- The address lies in the sector. -/
def InSector (sector : Int) (addr : Nat) : Prop :=
  coffeeStart + sector * coffeeSectorSize ≤ addr ∧ (addr : Int) < coffeeStart + (sector + 1) * coffeeSectorSize

instance (sector : Int) (addr : Nat) : Decidable (InSector sector addr) :=
  inferInstanceAs (Decidable (_ ∧ _))

/-- The file system has a sector of that number. -/
def IsSector (sector : Int) : Prop := 0 ≤ sector ∧ sector < coffeePages

instance (sector : Int) : Decidable (IsSector sector) := inferInstanceAs (Decidable (_ ∧ _))

/-- The sector, if there is one of that number, becomes zero, and no other byte changes. -/
def Erased (flash flash' : Memory) (sector : Int) : Prop :=
  ∀ addr, flash' addr = if IsSector sector ∧ InSector sector addr then 0 else flash addr

/-- Every byte of the sector is zero. -/
def Blank (flash : Memory) (sector : Int) : Prop := ∀ addr, InSector sector addr → flash addr = 0

/-! ### What is erased -/

theorem coffeeStart_eq : coffeeStart = 0x480000 := by decide

theorem coffeePages_eq : coffeePages = 1024 := by decide

theorem eraseFrom_apply (flash : Memory) (addr endAddr : Nat) (hflash : iflashAddr ≤ addr)
    (hwords : 4 ∣ endAddr - addr) (i : Nat) :
    eraseFrom flash addr endAddr i = if addr ≤ i ∧ i < endAddr then 0 else flash i := by
  induction flash, addr using eraseFrom.induct endAddr with
  | case1 flash addr hlt ih =>
      rw [eraseFrom, if_pos hlt, ih (by omega) (by omega), flashWrite_eq_store _ _ _ hflash,
        Memory.store_apply]
      -- the four bytes just written are zero, the others are those of the rest of the loop
      by_cases hnow : addr ≤ i ∧ i - addr < [(0 : UInt8), 0, 0, 0].length
      · have hzero : [(0 : UInt8), 0, 0, 0][i - addr] = 0 :=
          List.eq_of_mem_replicate (n := 4) (List.getElem_mem hnow.2)
        have hi : addr ≤ i ∧ i < endAddr := by
          have hlength := hnow.2
          simp only [List.length_cons, List.length_nil] at hlength
          omega
        rw [dif_pos hnow, if_pos hi, hzero, ite_self]
      · rw [dif_neg hnow]
        simp only [List.length_cons, List.length_nil] at hnow
        exact if_congr (by omega) rfl rfl
  | case2 flash addr hdone =>
      rw [eraseFrom, if_neg hdone, if_neg (by omega)]

theorem flashErase_apply (flash : Memory) (sector : UInt8) (addr : Nat) :
    flashErase flash sector addr = if InSector sector.toNat addr then 0 else flash addr := by
  have hsector := sector.toNat_lt
  have hsize : coffeeSize = 0x80000 := by decide
  unfold flashErase
  rw [if_neg (by rw [hsize]; simp only [coffeeSectorSize, iflashPageSize]; omega),
    eraseFrom_apply _ _ _ (by rw [coffeeStart_eq, iflashAddr]; omega)
      (by rw [Nat.add_sub_cancel_left]; decide)]
  apply if_congr _ rfl rfl
  simp only [InSector, coffeeSectorSize, iflashPageSize]
  omega

theorem coffeeErase_apply (flash : Memory) (sector : Int) (addr : Nat) :
    coffeeErase flash sector addr = if InSector (sector % 256) addr then 0 else flash addr := by
  have hreduced : ((UInt8.ofInt sector).toNat : Int) = sector % 256 := by
    change ((UInt8.ofNat (sector % 256).toNat).toNat : Int) = sector % 256
    rw [UInt8.toNat_ofNat_of_lt' (by change (sector % 256).toNat < 256; omega)]
    omega
  rw [coffeeErase, flashErase_apply, hreduced]

theorem InSector.unique {sector sector' : Int} {addr : Nat} (h : InSector sector addr)
    (h' : InSector sector' addr) : sector = sector' := by
  unfold InSector coffeeSectorSize iflashPageSize at h h'
  omega

/-- **Erasing.** `COFFEE_ERASE` erases the sector it is given, and changes nothing for a number that is no sector's, exactly for the first 256 sectors and where the sector it erases instead, and the one it should have erased, are blank already. -/
theorem coffeeErase_iff (flash : Memory) (sector : Int) :
    Erased flash (coffeeErase flash sector) sector ↔
      (0 ≤ sector ∧ sector < 256) ∨
        (Blank flash (sector % 256) ∧ (IsSector sector → Blank flash sector)) := by
  unfold Erased
  simp only [coffeeErase_apply]
  constructor
  · intro h
    by_cases hsmall : 0 ≤ sector ∧ sector < 256
    · exact .inl hsmall
    have hne : sector ≠ sector % 256 := by omega
    refine .inr ⟨fun addr haddr => ?_, fun hsector addr haddr => ?_⟩
    · have hother : ¬ InSector sector addr := fun hin => hne (hin.unique haddr)
      have := h addr
      rw [if_pos haddr, if_neg (fun hin => hother hin.2)] at this
      exact this.symm
    · have hother : ¬ InSector (sector % 256) addr := fun hin => hne (haddr.unique hin)
      have := h addr
      rwa [if_neg hother, if_pos ⟨hsector, haddr⟩] at this
  · rintro (⟨hpos, hlt⟩ | ⟨hblank, hsector⟩) addr
    · have hsame : sector % 256 = sector := by omega
      have his : IsSector sector := ⟨hpos, by rw [coffeePages_eq]; omega⟩
      rw [hsame]
      exact if_congr (by simp [his]) rfl rfl
    · split
      · rename_i hin
        split
        · rfl
        · exact (hblank addr hin).symm
      · split
        · rename_i hin
          exact hsector hin.1 addr hin.2
        · rfl

/-- Sector 256 of a written flash stays as it is, and sector 0 is erased in its place. -/
theorem coffeeErase_sector_256 :
    coffeeErase (fun _ => 0xff) 256 0x4a0000 = 0xff ∧ coffeeErase (fun _ => 0xff) 256 0x480000 = 0 ∧
      ¬ Erased (fun _ => 0xff) (coffeeErase (fun _ => 0xff) 256) 256 := by
  have hkept : coffeeErase (fun _ => 0xff) 256 0x4a0000 = 0xff := by
    rw [coffeeErase_apply, if_neg (by decide)]
  have hlost : coffeeErase (fun _ => 0xff) 256 0x480000 = 0 := by
    rw [coffeeErase_apply, if_pos (by decide)]
  refine ⟨hkept, hlost, fun h => ?_⟩
  have := h 0x480000
  rw [hlost, if_neg (by decide)] at this
  exact absurd this (by decide)

end ContikiAtsam.Flash
