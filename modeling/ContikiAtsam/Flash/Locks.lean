import ContikiAtsam.Base.Loop
import ContikiAtsam.Base.Run
import ContikiAtsam.Flash.Efc
import Mathlib.Logic.Function.Basic

/-!
# Lock regions

The flash is locked in regions of 8 KB. `flash_lock` and `flash_unlock` widen an address range to whole regions and give the controller one command for each; `flash_is_locked` reads the lock bits as a sequence of words, skips those before the range and counts the bits of the range. The controller is a parameter: it may refuse any command. Over any calls of the three the answers are those of a table of what is known of each region.
-/

namespace ContikiAtsam.Flash

def iflashLockRegionSize : Nat := 8192
def numPagesInRegion : Nat := iflashLockRegionSize / iflashPageSize

inductive LockFault where
  | assertion
  | endless
  deriving DecidableEq

def efcFcmdSlb : UInt32 := 0x08
def efcFcmdClb : UInt32 := 0x09
def efcFcmdGlb : UInt32 := 0x0A

/-- The flash controller. `word` is the number of the word of lock bits that the next result is. -/
structure Eefc where
  State : Type
  performCommand : State → UInt32 → Nat → UInt32 × State
  getResult : State → UInt32 × State
  lockBit : State → Nat → Bool
  word : State → Nat

/-- The command sets the lock bit of a page's region to a value, if it succeeds, and never another one. -/
structure Eefc.Sets (efc : Eefc) (command : UInt32) (value : Bool) : Prop where
  done : ∀ s page, (efc.performCommand s command page).1 = 0 →
    efc.lockBit (efc.performCommand s command page).2 (page / numPagesInRegion) = value
  others : ∀ s page r, r ≠ page / numPagesInRegion → efc.lockBit (efc.performCommand s command page).2 r = efc.lockBit s r

/-- What the service relies on. -/
structure Eefc.Lawful (efc : Eefc) : Prop where
  set : efc.Sets efcFcmdSlb true
  clear : efc.Sets efcFcmdClb false
  get : ∀ s, efc.lockBit (efc.performCommand s efcFcmdGlb 0).2 = efc.lockBit s ∧
    ((efc.performCommand s efcFcmdGlb 0).1 = 0 → efc.word (efc.performCommand s efcFcmdGlb 0).2 = 0)
  result : ∀ s, efc.lockBit (efc.getResult s).2 = efc.lockBit s ∧ efc.word (efc.getResult s).2 = efc.word s + 1 ∧
    ∀ b < 32, (efc.getResult s).1.toBitVec.getLsbD b = efc.lockBit s (32 * efc.word s + b)

/-- The number of the lock region of an address. -/
def region (addr : Nat) : Nat := (addr - iflashAddr) / iflashLockRegionSize

def computeLockRange (start endAddr : Nat) : Nat × Nat :=
  (start - start % iflashLockRegionSize, endAddr - endAddr % iflashLockRegionSize + iflashLockRegionSize - 1)

/-- `translate_address` with its assertions. -/
def assertedPage (addr : Nat) : Except LockFault Nat :=
  if iflashAddr ≤ addr ∧ addr ≤ iflashAddr + iflashSize then .ok (translateAddress addr).1 else .error .assertion

variable (efc : Eefc)

/-- The loop of `flash_lock` and `flash_unlock`. -/
def lockPages (command : UInt32) (s : efc.State) (startPage endPage : Nat) : UInt32 × efc.State :=
  if startPage < endPage then
    let r := efc.performCommand s command startPage
    if r.1 ≠ 0 then r else lockPages command r.2 (startPage + numPagesInRegion) endPage
  else (0, s)
termination_by endPage - startPage
decreasing_by
  have hpages : numPagesInRegion = 16 := rfl
  omega

/-- What `flash_lock` and `flash_unlock` do, each with its command. -/
def lockRange (command : UInt32) (s : efc.State) (start endAddr : Nat) : Except LockFault (UInt32 × (Nat × Nat) × efc.State) := do
  let actual := computeLockRange start endAddr
  let startPage ← assertedPage actual.1
  let endPage ← assertedPage actual.2
  let r := lockPages efc command s startPage endPage
  return (r.1, actual, r.2)

def flashLock (s : efc.State) (start endAddr : Nat) : Except LockFault (UInt32 × (Nat × Nat) × efc.State) :=
  lockRange efc efcFcmdSlb s start endAddr

def flashUnlock (s : efc.State) (start endAddr : Nat) : Except LockFault (UInt32 × (Nat × Nat) × efc.State) :=
  lockRange efc efcFcmdClb s start endAddr

/-- `ul_status` and `ul_count`, with the controller. -/
structure LockWords where
  status : UInt32
  count : Nat
  s : efc.State

/-- A turn of the loop that skips words. -/
def skipTurn (startRegion : Nat) (w : LockWords efc) : Except LockFault (Turn (LockWords efc) (LockWords efc)) :=
  if ¬ (w.count ≤ startRegion ∧ startRegion < w.count + 32) then
    let r := efc.getResult w.s
    .ok (.again ⟨r.1, w.count + 32, r.2⟩)
  else .ok (.leave w)

/-- The loop that counts, over the number of regions left, from `bit` of `status` on. -/
def countLocked : Nat → UInt32 → Nat → Nat → efc.State → Nat × efc.State
  | 0, _, _, locked, s => (locked, s)
  | count + 1, status, bit, locked, s =>
    let locked := if status &&& 1 <<< UInt32.ofNat bit ≠ 0 then locked + 1 else locked
    let bit := bit + 1
    if bit = 32 then
      let r := efc.getResult s
      countLocked count r.1 0 locked r.2
    else countLocked count status bit locked s

/-- `flash_is_locked` returns what the controller says if it refuses the command. -/
def flashIsLocked (fuel : Nat) (s : efc.State) (start endAddr : Nat) : Except LockFault (UInt32 × efc.State) :=
  if ¬ (start ≤ endAddr ∧ iflashAddr ≤ start ∧ endAddr ≤ iflashAddr + iflashSize) then .error .assertion
  else
    let startRegion := (translateAddress start).1 / numPagesInRegion
    let endRegion := (translateAddress endAddr).1 / numPagesInRegion
    let got := efc.performCommand s efcFcmdGlb 0
    if got.1 ≠ 0 then .ok got
    else do
      let first := efc.getResult got.2
      let w ← Loop.runChecked (skipTurn efc startRegion) .endless fuel ⟨first.1, 0, first.2⟩
      let r := countLocked efc (endRegion - startRegion + 1) w.status (startRegion - w.count) 0 w.s
      return (UInt32.ofNat r.1, r.2)

variable {efc} {s : efc.State} {start endAddr : Nat}

theorem region_eq (addr : Nat) : (translateAddress addr).1 / numPagesInRegion = region addr :=
  Nat.div_div_eq_div_mul _ _ _

/-! ### Locking and unlocking -/

/-- The commands set the regions of the pages one after the other, as far as they succeed. -/
theorem lockPages_spec {command : UInt32} {value : Bool} (hsets : efc.Sets command value) (s : efc.State) (first last : Nat) :
    (∀ r, r < first ∨ last < r →
      efc.lockBit (lockPages efc command s (numPagesInRegion * first) (numPagesInRegion * last + 15)).2 r = efc.lockBit s r) ∧
    ((lockPages efc command s (numPagesInRegion * first) (numPagesInRegion * last + 15)).1 = 0 →
      ∀ r, first ≤ r → r ≤ last →
        efc.lockBit (lockPages efc command s (numPagesInRegion * first) (numPagesInRegion * last + 15)).2 r = value) := by
  have hpages : numPagesInRegion = 16 := rfl
  generalize hleft : last + 1 - first = left
  induction left generalizing first s with
  | zero =>
      have hstop : ¬ numPagesInRegion * first < numPagesInRegion * last + 15 := by
        rw [hpages]
        omega
      rw [lockPages, if_neg hstop]
      exact ⟨fun _ _ => rfl, fun _ r hfirst hlast => by omega⟩
  | succ left ih =>
      have hgo : numPagesInRegion * first < numPagesInRegion * last + 15 := by
        rw [hpages]
        omega
      have hregion : numPagesInRegion * first / numPagesInRegion = first := Nat.mul_div_cancel_left _ (by decide)
      have hnext : numPagesInRegion * first + numPagesInRegion = numPagesInRegion * (first + 1) := (Nat.mul_succ _ _).symm
      have hothers := hsets.others s (numPagesInRegion * first)
      have hdone := hsets.done s (numPagesInRegion * first)
      rw [hregion] at hothers hdone
      rw [lockPages, if_pos hgo, hnext]
      dsimp only
      generalize efc.performCommand s command (numPagesInRegion * first) = r at hothers hdone ⊢
      by_cases herror : r.1 ≠ 0
      · rw [if_pos herror]
        exact ⟨fun q hq => hothers q (by omega), fun hzero => absurd hzero herror⟩
      · rw [if_neg herror]
        obtain ⟨houtside, hinside⟩ := ih r.2 (first + 1) (by omega)
        refine ⟨fun q hq => ?_, fun hzero q hfirst hlast => ?_⟩
        · rw [houtside q (by omega), hothers q (by omega)]
        · by_cases hq : q = first
          · rw [hq, houtside first (by omega), hdone (not_not.mp herror)]
          · exact hinside hzero q (by omega) hlast

/-- What locking or unlocking a range does. -/
structure Ranged (efc : Eefc) (value : Bool) (s : efc.State) (start endAddr : Nat) (status : UInt32)
    (actual : Nat × Nat) (s' : efc.State) : Prop where
  actual : ∀ addr, actual.1 ≤ addr ∧ addr ≤ actual.2 ↔
    iflashAddr ≤ addr ∧ region start ≤ region addr ∧ region addr ≤ region endAddr
  outside : ∀ q, q < region start ∨ region endAddr < q → efc.lockBit s' q = efc.lockBit s q
  inside : status = 0 → ∀ q, region start ≤ q → q ≤ region endAddr → efc.lockBit s' q = value

theorem lockRange_eq {command : UInt32} {p q : Nat} (hfirst : assertedPage (computeLockRange start endAddr).1 = .ok p)
    (hlast : assertedPage (computeLockRange start endAddr).2 = .ok q) :
    lockRange efc command s start endAddr =
      .ok ((lockPages efc command s p q).1, computeLockRange start endAddr, (lockPages efc command s p q).2) := by
  unfold lockRange
  dsimp only
  rw [hfirst, hlast]
  rfl

theorem assertedPage_eq {addr page : Nat} (haddr : iflashAddr ≤ addr) (hle : addr ≤ iflashAddr + iflashSize)
    (hpage : (addr - iflashAddr) / iflashPageSize = page) : assertedPage addr = .ok page := by
  rw [assertedPage, if_pos ⟨haddr, hle⟩, ← hpage]
  rfl

/-- The actual range is made of the pages of the regions that the range touches. -/
theorem computeLockRange_pages {base size : Nat} (hbase : 8192 ∣ base) (hsize : 8192 ∣ size) (hstart : base ≤ start)
    (hle : start ≤ endAddr) (hend : endAddr < base + size) :
    (base ≤ (computeLockRange start endAddr).1 ∧ (computeLockRange start endAddr).1 ≤ base + size ∧
      ((computeLockRange start endAddr).1 - base) / 512 = 16 * ((start - base) / 8192)) ∧
    (base ≤ (computeLockRange start endAddr).2 ∧ (computeLockRange start endAddr).2 ≤ base + size ∧
      ((computeLockRange start endAddr).2 - base) / 512 = 16 * ((endAddr - base) / 8192) + 15) ∧
    ∀ addr, (computeLockRange start endAddr).1 ≤ addr ∧ addr ≤ (computeLockRange start endAddr).2 ↔
      base ≤ addr ∧ (start - base) / 8192 ≤ (addr - base) / 8192 ∧ (addr - base) / 8192 ≤ (endAddr - base) / 8192 := by
  obtain ⟨k, rfl⟩ := hbase
  obtain ⟨m, rfl⟩ := hsize
  unfold computeLockRange iflashLockRegionSize
  dsimp only
  refine ⟨⟨by omega, by omega, by omega⟩, ⟨by omega, by omega, by omega⟩, fun addr => ?_⟩
  constructor
  · rintro ⟨hfrom, hto⟩
    exact ⟨by omega, by omega, by omega⟩
  · rintro ⟨hfrom, hfirst, hlast⟩
    exact ⟨by omega, by omega⟩

theorem lockRange_spec {command : UInt32} {value : Bool} (hsets : efc.Sets command value) (s : efc.State)
    (hstart : iflashAddr ≤ start) (hle : start ≤ endAddr) (hend : endAddr < iflashAddr + iflashSize) :
    ∃ status actual s', lockRange efc command s start endAddr = .ok (status, actual, s') ∧
      Ranged efc value s start endAddr status actual s' := by
  obtain ⟨⟨hfrom, hto, hpage⟩, ⟨hfrom', hto', hpage'⟩, hactual⟩ :=
    computeLockRange_pages (show 8192 ∣ iflashAddr by decide) (show 8192 ∣ iflashSize by decide) hstart hle hend
  have hregion : ∀ addr, (addr - iflashAddr) / 8192 = region addr := fun _ => rfl
  have hsixteen : 16 = numPagesInRegion := rfl
  have hsize : 512 = iflashPageSize := rfl
  simp only [hregion] at hpage hpage' hactual
  rw [hsixteen, hsize] at hpage hpage'
  obtain ⟨houtside, hinside⟩ := lockPages_spec hsets s (region start) (region endAddr)
  exact ⟨_, _, _, lockRange_eq (assertedPage_eq hfrom hto hpage) (assertedPage_eq hfrom' hto' hpage'),
    hactual, houtside, hinside⟩

/-! ### Asking -/

theorem and_bit_ne_zero_iff (status : UInt32) {bit : Nat} (hbit : bit < 32) :
    status &&& 1 <<< UInt32.ofNat bit ≠ 0 ↔ status.toBitVec.getLsbD bit = true := by
  have hmask : ∀ b < 32, (1 <<< UInt32.ofNat b : UInt32).toBitVec = BitVec.twoPow 32 b := by decide
  have hzero : (status &&& 1 <<< UInt32.ofNat bit).toBitVec =
      if status.toBitVec.getLsbD bit then BitVec.twoPow 32 bit else 0#32 := by
    rw [UInt32.toBitVec_and, hmask bit hbit, BitVec.and_twoPow]
  rw [ne_eq, ← UInt32.toBitVec_inj, hzero]
  by_cases hset : status.toBitVec.getLsbD bit = true
  · rw [if_pos hset]
    refine iff_of_true (fun h => ?_) hset
    have hat := congrArg (fun y => y.getLsbD bit) h
    simp [hbit] at hat
  · rw [if_neg hset]
    exact iff_of_false (fun h => h rfl) hset

/-- The state in which `status` holds a word of lock bits and the next result is the next word. -/
structure Holding (locks : Nat → Bool) (word : Nat) (status : UInt32) (s : efc.State) : Prop where
  lockBits : efc.lockBit s = locks
  next : efc.word s = word + 1
  status : ∀ b < 32, status.toBitVec.getLsbD b = locks (32 * word + b)

theorem Holding.getResult (hefc : efc.Lawful) {locks : Nat → Bool} {word : Nat} {status : UInt32}
    (h : Holding locks word status s) : Holding locks (word + 1) (efc.getResult s).1 (efc.getResult s).2 := by
  obtain ⟨hlocks, hword, hbits⟩ := hefc.result s
  refine ⟨hlocks.trans h.lockBits, by rw [hword, h.next], fun b hb => ?_⟩
  rw [hbits b hb, h.next, h.lockBits]

theorem countLocked_eq (hefc : efc.Lawful) {locks : Nat → Bool} (count : Nat) {word : Nat} {status : UInt32}
    (h : Holding locks word status s) {bit : Nat} (hbit : bit < 32) (locked : Nat) :
    (countLocked efc count status bit locked s).1 = locked + (List.range' (32 * word + bit) count).countP locks ∧
      efc.lockBit (countLocked efc count status bit locked s).2 = locks := by
  induction count generalizing word status bit locked s with
  | zero => exact ⟨rfl, h.lockBits⟩
  | succ count ih =>
      have hone : (if status &&& 1 <<< UInt32.ofNat bit ≠ 0 then locked + 1 else locked) =
          locked + if locks (32 * word + bit) = true then 1 else 0 := by
        rw [← h.status bit hbit]
        by_cases hset : status.toBitVec.getLsbD bit = true
        · rw [if_pos ((and_bit_ne_zero_iff status hbit).mpr hset), if_pos hset]
        · rw [if_neg fun hne => hset ((and_bit_ne_zero_iff status hbit).mp hne), if_neg hset, Nat.add_zero]
      rw [countLocked, hone, List.range'_succ, List.countP_cons]
      dsimp only
      by_cases hend : bit + 1 = 32
      · have hnext : 32 * word + bit + 1 = 32 * (word + 1) + 0 := by omega
        obtain ⟨hcount, hlocks⟩ := ih (h.getResult hefc) (show 0 < 32 by decide)
          (locked + if locks (32 * word + bit) = true then 1 else 0)
        rw [if_pos hend, hcount, hnext, Nat.add_right_comm, Nat.add_assoc]
        exact ⟨rfl, hlocks⟩
      · obtain ⟨hcount, hlocks⟩ := ih h (show bit + 1 < 32 by omega)
          (locked + if locks (32 * word + bit) = true then 1 else 0)
        rw [if_neg hend, hcount, Nat.add_right_comm, Nat.add_assoc, Nat.add_assoc (32 * word)]
        exact ⟨rfl, hlocks⟩

theorem skip_spec (hefc : efc.Lawful) {locks : Nat → Bool} (startRegion fuel : Nat) (hfuel : startRegion / 32 < fuel)
    {status : UInt32} (h : Holding locks 0 status s) :
    ∃ w, Loop.runChecked (skipTurn efc startRegion) .endless fuel ⟨status, 0, s⟩ = .ok w ∧
      w.count = 32 * (startRegion / 32) ∧ Holding locks (startRegion / 32) w.status w.s := by
  apply Loop.runChecked_of_variant LockFault.endless
    (fun w left => ∃ word, w.count = 32 * word ∧ word + left = startRegion / 32 ∧ Holding locks word w.status w.s)
  · rintro w left ⟨word, hcount, hleft, hw⟩
    by_cases hstop : w.count ≤ startRegion ∧ startRegion < w.count + 32
    · have hword : word = startRegion / 32 := by omega
      rw [skipTurn, if_neg (not_not.mpr hstop)]
      exact Or.inr ⟨w, rfl, hcount.trans (by rw [hword]), hword ▸ hw⟩
    · rw [skipTurn, if_pos hstop]
      exact Or.inl ⟨_, left - 1, rfl, ⟨word + 1, show w.count + 32 = _ by omega, by omega, hw.getResult hefc⟩, by omega⟩
  · exact ⟨0, rfl, Nat.zero_add _, h⟩
  · exact hfuel

/-- The regions of a range. -/
def regions (start endAddr : Nat) : List Nat :=
  List.range' (region start) (region endAddr - region start + 1)

theorem mem_regions {q : Nat} (hle : start ≤ endAddr) :
    q ∈ regions start endAddr ↔ region start ≤ q ∧ q ≤ region endAddr := by
  have hregion : region start ≤ region endAddr := Nat.div_le_div_right (Nat.sub_le_sub_right hle _)
  rw [regions, List.mem_range'_1]
  omega

/-- **Asking.** Every region of the range is looked at once, whatever words their bits are in. -/
theorem flashIsLocked_eq (hefc : efc.Lawful) {fuel : Nat} (hfuel : region start / 32 < fuel) (hstart : iflashAddr ≤ start)
    (hle : start ≤ endAddr) (hend : endAddr ≤ iflashAddr + iflashSize) :
    ∃ status s', flashIsLocked efc fuel s start endAddr = .ok (status, s') ∧ efc.lockBit s' = efc.lockBit s ∧
      status = if (efc.performCommand s efcFcmdGlb 0).1 ≠ 0 then (efc.performCommand s efcFcmdGlb 0).1
        else UInt32.ofNat ((regions start endAddr).countP (efc.lockBit s)) := by
  obtain ⟨hlocks, hword⟩ := hefc.get s
  unfold flashIsLocked
  rw [if_neg (not_not.mpr ⟨hle, hstart, hend⟩)]
  dsimp only
  rw [region_eq, region_eq]
  generalize efc.performCommand s efcFcmdGlb 0 = got at hlocks hword ⊢
  by_cases herror : got.1 ≠ 0
  · rw [if_pos herror, if_pos herror]
    exact ⟨_, _, rfl, hlocks, rfl⟩
  · rw [if_neg herror, if_neg herror]
    obtain ⟨hlocks', hword', hbits⟩ := hefc.result got.2
    rw [hword (not_not.mp herror)] at hword' hbits
    have hfirst : Holding (efc.lockBit s) 0 (efc.getResult got.2).1 (efc.getResult got.2).2 :=
      ⟨hlocks'.trans hlocks, hword', fun b hb => by rw [hbits b hb, hlocks]⟩
    obtain ⟨w, hrun, hcount, hw⟩ := skip_spec hefc (region start) fuel hfuel hfirst
    obtain ⟨hcounted, hlocks''⟩ := countLocked_eq hefc (region endAddr - region start + 1) hw
      (Nat.mod_lt (region start) (show 32 > 0 by decide)) 0
    have hbit : region start - w.count = region start % 32 := by omega
    rw [hrun]
    refine ⟨_, _, rfl, ?_, ?_⟩
    · rw [hbit]
      exact hlocks''
    · rw [hbit, hcounted, Nat.zero_add, Nat.div_add_mod, regions]

/-! ### Calls of all three -/

/-- A range of addresses of the flash. -/
structure FlashRange where
  start : Nat
  endAddr : Nat
  hstart : iflashAddr ≤ start
  hle : start ≤ endAddr
  hend : endAddr < iflashAddr + iflashSize

def FlashRange.regions (range : FlashRange) : List Nat :=
  Flash.regions range.start range.endAddr

inductive LockCall where
  | lock (range : FlashRange)
  | unlock (range : FlashRange)
  | isLocked (range : FlashRange)

/-- A call returns a status or a number. -/
def lockCall (efc : Eefc) (fuel : Nat) (s : efc.State) : LockCall → Except LockFault (UInt32 × efc.State)
  | .lock range => (flashLock efc s range.start range.endAddr).map fun r => (r.1, r.2.2)
  | .unlock range => (flashUnlock efc s range.start range.endAddr).map fun r => (r.1, r.2.2)
  | .isLocked range => flashIsLocked efc fuel s range.start range.endAddr

/-- What is known of the regions of a range after a call that was to give them a value: nothing if it failed. -/
def learn (known : Nat → Option Bool) (range : FlashRange) (value : Bool) (status : UInt32) (q : Nat) : Option Bool :=
  if q ∈ range.regions then if status = 0 then some value else none else known q

/-- What a call does to what is known, and that the answer to a question about known regions is right. -/
def LockMeets (efc : Eefc) (s : efc.State) (known : Nat → Option Bool) : LockCall → UInt32 → efc.State →
    (Nat → Option Bool) → Prop
  | .lock range, status, _, known' => known' = learn known range true status
  | .unlock range, status, _, known' => known' = learn known range false status
  | .isLocked range, status, _, known' => known' = known ∧
      if (efc.performCommand s efcFcmdGlb 0).1 ≠ 0 then status = (efc.performCommand s efcFcmdGlb 0).1
      else (∀ q ∈ range.regions, known q ≠ none) →
        status.toNat = range.regions.countP fun q => known q == some true

/-- What is known is the case. -/
def Knows (efc : Eefc) (s : efc.State) (known : Nat → Option Bool) : Prop :=
  ∀ q v, known q = some v → efc.lockBit s q = v

theorem Knows.learn {known : Nat → Option Bool} (h : Knows efc s known) {range : FlashRange} {value : Bool}
    {status : UInt32} {actual : Nat × Nat} {s' : efc.State}
    (hranged : Ranged efc value s range.start range.endAddr status actual s') :
    Knows efc s' (learn known range value status) := by
  intro q v hv
  rw [Flash.learn] at hv
  by_cases hq : q ∈ range.regions
  · obtain ⟨hfirst, hlast⟩ := (mem_regions range.hle).mp hq
    rw [if_pos hq] at hv
    by_cases hstatus : status = 0
    · rw [if_pos hstatus] at hv
      exact (hranged.inside hstatus q hfirst hlast).trans (Option.some.inj hv)
    · rw [if_neg hstatus] at hv
      cases hv
  · rw [if_neg hq] at hv
    rw [hranged.outside q ?_, h q v hv]
    rw [FlashRange.regions, mem_regions range.hle] at hq
    omega

theorem Knows.countP {known : Nat → Option Bool} (h : Knows efc s known) {qs : List Nat}
    (hknown : ∀ q ∈ qs, known q ≠ none) :
    qs.countP (efc.lockBit s) = qs.countP fun q => known q == some true := by
  apply List.countP_congr
  intro q hq
  obtain ⟨v, hv⟩ := Option.ne_none_iff_exists'.mp (hknown q hq)
  rw [h q v hv, hv]
  cases v <;> decide

theorem FlashRange.region_lt (range : FlashRange) : region range.endAddr < 128 := by
  have hend := range.hend
  unfold region iflashLockRegionSize
  unfold iflashAddr iflashSize at *
  omega

theorem FlashRange.length_regions (range : FlashRange) : range.regions.length ≤ 128 := by
  have hlast := range.region_lt
  rw [FlashRange.regions, Flash.regions, List.length_range']
  omega

/-- **Lock regions.** In any calls of `flash_lock`, `flash_unlock` and `flash_is_locked` on ranges of the flash, by a controller that refuses any of the commands, every call returns, and a question about regions whose last call succeeded, or that no call was about, is answered with the number of those that were locked. -/
theorem flash_locks_conform (hefc : efc.Lawful) {fuel : Nat} (hfuel : 4 ≤ fuel) (s : efc.State) (calls : List LockCall) :
    Conforms (lockCall efc fuel) (fun _ _ => True) (LockMeets efc) s (fun q => some (efc.lockBit s q)) calls := by
  apply Conforms.of_simulation (Knows efc)
  · intro s known call hknows _
    cases call with
    | lock range =>
        obtain ⟨status, actual, s', hlock, hranged⟩ := lockRange_spec hefc.set s range.hstart range.hle range.hend
        refine ⟨status, s', learn known range true status, ?_, rfl, hknows.learn hranged⟩
        rw [lockCall, flashLock, hlock]
        rfl
    | unlock range =>
        obtain ⟨status, actual, s', hlock, hranged⟩ := lockRange_spec hefc.clear s range.hstart range.hle range.hend
        refine ⟨status, s', learn known range false status, ?_, rfl, hknows.learn hranged⟩
        rw [lockCall, flashUnlock, hlock]
        rfl
    | isLocked range =>
        have hlast := range.region_lt
        have hregion : region range.start ≤ region range.endAddr :=
          Nat.div_le_div_right (Nat.sub_le_sub_right range.hle _)
        obtain ⟨status, s', hasked, hlocks, hstatus⟩ :=
          flashIsLocked_eq (s := s) hefc (show region range.start / 32 < fuel by omega) range.hstart range.hle
            (Nat.le_of_lt range.hend)
        refine ⟨status, s', known, hasked, ⟨rfl, ?_⟩, fun q v hv => by rw [hlocks, hknows q v hv]⟩
        by_cases herror : (efc.performCommand s efcFcmdGlb 0).1 ≠ 0
        · rw [if_pos herror] at hstatus ⊢
          exact hstatus
        · rw [if_neg herror] at hstatus ⊢
          intro hknown
          have hcount : range.regions.countP (efc.lockBit s) ≤ 128 := Nat.le_trans List.countP_le_length range.length_regions
          rw [hstatus, ← hknows.countP hknown, UInt32.toNat_ofNat', Nat.mod_eq_of_lt]
          · rfl
          · exact Nat.lt_of_le_of_lt hcount (by decide)
  · intro q v hv
    exact Option.some.inj hv

/-- A controller that does as it is told. -/
def obedient : Eefc where
  State := (Nat → Bool) × Nat
  performCommand := fun s command page =>
    if command = efcFcmdSlb then (0, Function.update s.1 (page / numPagesInRegion) true, s.2)
    else if command = efcFcmdClb then (0, Function.update s.1 (page / numPagesInRegion) false, s.2)
    else (0, s.1, 0)
  getResult := fun s =>
    (UInt32.ofBitVec ((BitVec.ofBoolListLE ((List.range 32).map fun b => s.1 (32 * s.2 + b))).setWidth 32), s.1, s.2 + 1)
  lockBit := fun s => s.1
  word := fun s => s.2

theorem obedient_lawful : obedient.Lawful where
  set := ⟨fun _ _ _ => Function.update_self .., fun _ _ _ hr => Function.update_of_ne hr ..⟩
  clear := ⟨fun _ _ _ => Function.update_self .., fun _ _ _ hr => Function.update_of_ne hr ..⟩
  get := fun _ => ⟨rfl, fun _ => rfl⟩
  result := fun s => ⟨rfl, rfl, fun b hb => by
    show ((BitVec.ofBoolListLE ((List.range 32).map fun b => s.1 (32 * s.2 + b))).setWidth 32).getLsbD b = _
    rw [BitVec.getLsbD_setWidth, BitVec.getLsbD_ofBoolListLE]
    simp [hb, List.getD_eq_getElem?_getD]
    rfl⟩

theorem flash_locks_conform_obedient :
    Conforms (lockCall obedient 4) (fun _ _ => True) (LockMeets obedient) (fun _ => false, 0) (fun _ => some false)
      [.lock ⟨0x400000, 0x443000, by decide, by decide, by decide⟩,
        .unlock ⟨0x402000, 0x402000, by decide, by decide, by decide⟩,
        .isLocked ⟨0x401000, 0x447FFF, by decide, by decide, by decide⟩] :=
  flash_locks_conform obedient_lawful (Nat.le_refl 4) _ _

end ContikiAtsam.Flash
