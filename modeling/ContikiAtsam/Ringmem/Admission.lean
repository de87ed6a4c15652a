import ContikiAtsam.Ringmem.Calls

/-!
# Which blocks a ring memory takes

`ringmem_alloc` decides with `aLen`, a count of free bytes that may be split over both ends of the buffer, and with two bounds on the pointers. In every state that calls lead to it takes a block exactly if one of the gaps that the order of the blocks leaves open is long enough, and a refused call changes nothing.

The fields are 16 bits wide. `Counters` repeats what the code does to them on integers, where an assignment that does not fit ends in `none`; the fields always agree with it.
-/

namespace ContikiAtsam.Ringmem

/-! ### Gaps -/

/-- The blocks lie one after another between the two pointers. -/
def Unwrapped (r : Ringmem) (bs : List Block) : Prop := Consecutive r.getPtr.toNat bs r.putPtr.toNat

/-- The older blocks end at `wrapPtr`, the newer ones start over at the start of the buffer. -/
def Wraps (r : Ringmem) (bs : List Block) : Prop :=
  ∃ old new, bs = old ++ new ∧ old ≠ [] ∧ new ≠ [] ∧
    Consecutive r.getPtr.toNat old r.wrapPtr.toNat ∧ Consecutive 0 new r.putPtr.toNat

/-- `n` free bytes in a row, where the next block may stand: behind the newest block or, if the blocks do not wrap yet, below the oldest one. -/
inductive Gap (r : Ringmem) (bs : List Block) (n : Nat) : Prop where
  | behind (hshape : Unwrapped r bs) (hgap : r.putPtr.toNat + n ≤ r.size.toNat)
  | below (hshape : Unwrapped r bs) (hgap : n ≤ r.getPtr.toNat)
  | between (hshape : Wraps r bs) (hgap : r.putPtr.toNat + n ≤ r.getPtr.toNat)

theorem Consecutive.of_append {start stop : Nat} {bs bs' : List Block} (h : Consecutive start (bs ++ bs') stop) :
    ∃ mid, Consecutive start bs mid ∧ Consecutive mid bs' stop := by
  induction bs generalizing start with
  | nil => exact ⟨start, rfl, h⟩
  | cons b bs ih =>
      obtain ⟨mid, hbs, hbs'⟩ := ih h.2
      exact ⟨mid, ⟨h.1, hbs⟩, hbs'⟩

/-- The two shapes exclude each other: no block but the oldest of unwrapped ones starts at `0`. -/
theorem Unwrapped.not_wraps {r : Ringmem} {bs : List Block} (h : Unwrapped r bs) : ¬ Wraps r bs := by
  rintro ⟨old, new, rfl, hold_ne, hnew_ne, _, hnew⟩
  obtain ⟨mid, hold, hrest⟩ := h.of_append
  have hmid := hold.lt hold_ne
  cases new with
  | nil => exact hnew_ne rfl
  | cons b new =>
      have hzero : b.offset = 0 := hnew.1
      have hoffset : b.offset = mid := hrest.1
      omega

theorem Wrapped.wraps {r : Ringmem} {old new : List Block} (h : Wrapped r old new) : Wraps r (old ++ new) :=
  ⟨old, new, rfl, h.old_ne, h.new_ne, h.blocks_old, h.blocks_new⟩

theorem Stores.straight {r : Ringmem} {bs : List Block} (h : Stores r bs) (hshape : Unwrapped r bs) :
    Straight r bs := by
  rcases h.shape with hs | ⟨old, new, rfl, hw⟩
  · exact hs
  · exact absurd hw.wraps hshape.not_wraps

theorem Stores.wrapped {r : Ringmem} {bs : List Block} (h : Stores r bs) (hshape : Wraps r bs) :
    ∃ old new, bs = old ++ new ∧ Wrapped r old new := by
  rcases h.shape with hs | hw
  · exact absurd hshape (Unwrapped.not_wraps hs.blocks)
  · exact hw

theorem Stores.unwrapped_or_wraps {r : Ringmem} {bs : List Block} (h : Stores r bs) :
    Unwrapped r bs ∨ Wraps r bs := by
  rcases h.shape with hs | ⟨old, new, rfl, hw⟩
  · exact Or.inl hs.blocks
  · exact Or.inr hw.wraps

theorem Stores.gap_free {r : Ringmem} {bs : List Block} (h : Stores r bs) {n : Nat} (hgap : Gap r bs n) :
    ∃ ptr, ptr + n ≤ r.size.toNat ∧ ∀ b ∈ bs, b.offset + b.extent ≤ ptr ∨ ptr + n ≤ b.offset := by
  cases hgap with
  | behind hshape hgap => exact ⟨r.putPtr.toNat, hgap, fun b hb => Or.inl (hshape.within b hb).2⟩
  | below hshape hgap =>
      have hs := h.straight hshape
      have hle := hs.blocks.le
      have hput := hs.putPtr_le
      refine ⟨0, by omega, fun b hb => Or.inr ?_⟩
      have := (hshape.within b hb).1
      omega
  | between hshape hgap =>
      obtain ⟨old, new, rfl, hw⟩ := h.wrapped hshape
      have hget := hw.getPtr_lt
      have hwrap := hw.wrapPtr_le
      refine ⟨r.putPtr.toNat, by omega, fun b hb => ?_⟩
      rcases List.mem_append.mp hb with hb | hb
      · have := (hw.blocks_old.within b hb).1
        exact Or.inr (by omega)
      · exact Or.inl (hw.blocks_new.within b hb).2

/-! ### Admission -/

section Alloc

variable {r : Ringmem} {bs : List Block} (data : Memory) (len : UInt16)

/-- With a gap the block is taken: `aLen` never refuses what fits. -/
theorem ringmemAlloc_of_gap (h : Stores r bs) (hgap : Gap r bs (len.toNat + 2)) :
    ∃ r', ringmemAlloc r data len = .ok (1, r') := by
  cases hgap with
  | behind hshape hgap =>
      have haLen := (h.straight hshape).aLen
      exact ⟨_, ringmemAlloc_straight (by omega) hgap⟩
  | below hshape hgap =>
      have hs := h.straight hshape
      have haLen := hs.aLen
      have hle := hs.blocks.le
      have hput := hs.putPtr_le
      by_cases hend : r.putPtr.toNat + (len.toNat + 2) ≤ r.size.toNat
      · exact ⟨_, ringmemAlloc_straight (by omega) hend⟩
      · exact ⟨_, ringmemAlloc_wrap (by omega) (by omega) hgap (by omega)⟩
  | between hshape hgap =>
      obtain ⟨old, new, rfl, hw⟩ := h.wrapped hshape
      have haLen := hw.aLen
      have hget := hw.getPtr_lt
      have hwrap := hw.wrapPtr_le
      exact ⟨_, ringmemAlloc_straight (by omega) (by omega)⟩

theorem ringmemAlloc_of_not_gap (h : Stores r bs) (hgap : ¬ Gap r bs (len.toNat + 2)) :
    ringmemAlloc r data len = .ok (0, r) := by
  by_cases hroom : len.toNat + 2 ≤ r.aLen.toNat
  swap
  · exact ringmemAlloc_full (by omega)
  rcases h.shape with hs | ⟨old, new, rfl, hw⟩
  · have hend : ¬ r.putPtr.toNat + (len.toNat + 2) ≤ r.size.toNat := fun hend =>
      hgap (.behind hs.blocks hend)
    have hbelow : ¬ len.toNat + 2 ≤ r.getPtr.toNat := fun hbelow => hgap (.below hs.blocks hbelow)
    exact ringmemAlloc_noGap hroom (by omega) (by omega)
  · have haLen := hw.aLen
    have hput := hw.putPtr_le
    exact absurd (.between hw.wraps (by omega)) hgap

theorem ringmemAlloc_iff_gap (h : Stores r bs) :
    (∃ r', ringmemAlloc r data len = .ok (1, r')) ↔ Gap r bs (len.toNat + 2) := by
  constructor
  · rintro ⟨r', hret⟩
    by_contra hgap
    rw [ringmemAlloc_of_not_gap data len h hgap] at hret
    cases hret
  · exact ringmemAlloc_of_gap data len h

end Alloc

theorem Stores.gap_nil_iff {r : Ringmem} (h : Stores r []) (n : Nat) : Gap r [] n ↔ n ≤ r.size.toNat := by
  rcases h.shape with hs | ⟨old, new, hbs, hw⟩
  · have hget : r.getPtr.toNat = 0 := by simp [hs.rewound rfl]
    have hput : r.getPtr.toNat = r.putPtr.toNat := hs.blocks
    constructor
    · intro hgap
      cases hgap with
      | behind _ hgap => omega
      | below _ hgap => omega
      | between hshape _ => exact absurd hshape (Unwrapped.not_wraps hs.blocks)
    · intro hn
      exact .behind hs.blocks (by omega)
  · exact absurd (List.append_eq_nil_iff.mp hbs.symm).1 hw.old_ne

/-! ### The fields as integers -/

/-- The fields of a ring memory. -/
@[ext] structure Counters where
  size : Int
  aLen : Int
  putPtr : Int
  getPtr : Int
  wrapPtr : Int

def counters (r : Ringmem) : Counters where
  size := r.size.toNat
  aLen := r.aLen.toNat
  putPtr := r.putPtr.toNat
  getPtr := r.getPtr.toNat
  wrapPtr := r.wrapPtr.toNat

/-- The value, if a 16-bit field can take it. -/
def fit (x : Int) : Option Int := if 0 ≤ x ∧ x < 65536 then some x else none

namespace Counters

def alloc (c : Counters) (len : Int) : Option (Nat × Counters) :=
  if len + 2 > c.aLen then some (0, c)
  else if len + 2 + c.putPtr > c.size then
    if len + 2 > c.getPtr then some (0, c)
    else do
      let putPtr ← fit (len + 2)
      let aLen ← fit (c.getPtr - putPtr)
      some (1, { c with wrapPtr := c.putPtr, putPtr, aLen })
  else do
    let putPtr ← fit (len + 2 + c.putPtr)
    let aLen ← fit (c.aLen - (len + 2))
    some (1, { c with putPtr, aLen })

def leaveWrap (c : Counters) : Counters :=
  if c.getPtr = c.wrapPtr ∧ c.wrapPtr ≠ 0 then { c with getPtr := 0, wrapPtr := 0 } else c

def getNextBlockPtr (c : Counters) : Counters := if c.aLen = c.size then c else c.leaveWrap

def recount (c : Counters) : Option Counters :=
  if c.getPtr = c.putPtr then some { c with getPtr := 0, putPtr := 0, aLen := c.size }
  else if c.getPtr < c.putPtr then (fit ((c.size - c.putPtr) + c.getPtr)).map fun aLen => { c with aLen }
  else (fit (c.getPtr - c.putPtr)).map fun aLen => { c with aLen }

/-- `len` is what the length prefix of the oldest block says. -/
def freeBlock (c : Counters) (len : Int) : Option Counters :=
  (fit (c.getPtr + (len + 2))).bind fun getPtr => (leaveWrap { c with getPtr }).recount

end Counters

/-! ### No field overflows -/

theorem fit_of_range {x : Int} (hnonneg : 0 ≤ x) (hlt : x < 65536) : fit x = some x := if_pos ⟨hnonneg, hlt⟩

private theorem cast_toNat_inj (x y : UInt16) : (x.toNat : Int) = y.toNat ↔ x = y := by
  rw [← UInt16.toNat_inj]
  omega

section Exact

variable {r : Ringmem} {bs : List Block}

theorem counters_alloc (h : Stores r bs) (data : Memory) (len : UInt16) :
    ∃ n r', ringmemAlloc r data len = .ok (n, r') ∧
      (counters r).alloc len.toNat = some (n, counters r') := by
  have hsize := h.size_le
  rw [maxsize_toNat] at hsize
  by_cases hroom : len.toNat + 2 ≤ r.aLen.toNat
  swap
  · refine ⟨0, r, ringmemAlloc_full (by omega), ?_⟩
    rw [Counters.alloc, if_pos (by simp only [counters]; omega)]
  have haLen : (counters r).aLen = r.aLen.toNat := rfl
  have hput : (counters r).putPtr = r.putPtr.toNat := rfl
  have hget : (counters r).getPtr = r.getPtr.toNat := rfl
  have hlimit : (counters r).size = r.size.toNat := rfl
  have haLen_lt := r.aLen.toNat_lt
  by_cases hend : r.putPtr.toNat + (len.toNat + 2) ≤ r.size.toNat
  · refine ⟨1, _, ringmemAlloc_straight hroom hend, ?_⟩
    rw [Counters.alloc, if_neg (by omega), if_neg (by omega), fit_of_range (by omega) (by omega),
      fit_of_range (by omega) (by omega)]
    simp only [bind, Option.bind, Option.some.injEq, Prod.mk.injEq, true_and]
    apply Counters.ext <;> simp only [counters]
    · rw [toNat_sub_tot hroom]
      omega
    · rw [toNat_put_add _ _ (by omega)]
      omega
  by_cases hgap : len.toNat + 2 ≤ r.getPtr.toNat
  · obtain ⟨hget_le, hput_lt⟩ : r.getPtr.toNat ≤ r.size.toNat ∧ r.putPtr.toNat ≤ r.size.toNat := by
      rcases h.shape with hs | ⟨old, new, rfl, hw⟩
      · exact ⟨Nat.le_trans hs.blocks.le hs.putPtr_le, hs.putPtr_le⟩
      · have hget := hw.getPtr_lt
        have hwrap := hw.wrapPtr_le
        have hput := hw.putPtr_le
        omega
    refine ⟨1, _, ringmemAlloc_wrap hroom (by omega) hgap (by omega), ?_⟩
    rw [Counters.alloc, if_neg (by omega), if_pos (by omega), if_neg (by omega),
      fit_of_range (by omega) (by omega)]
    simp only [bind, Option.bind]
    rw [fit_of_range (by omega) (by omega)]
    simp only [Option.some.injEq, Prod.mk.injEq, true_and]
    apply Counters.ext <;> simp only [counters]
    · rw [toNat_sub_tot hgap]
      omega
    · rw [toNat_add_two _ (by omega)]
      omega
  · refine ⟨0, r, ringmemAlloc_noGap hroom (by omega) (by omega), ?_⟩
    rw [Counters.alloc, if_neg (by omega), if_pos (by omega), if_pos (by omega)]

theorem counters_leaveWrap (r : Ringmem) : counters (leaveWrap r) = (counters r).leaveWrap := by
  have hwrap : (counters r).getPtr = (counters r).wrapPtr ∧ (counters r).wrapPtr ≠ 0 ↔
      r.getPtr = r.wrapPtr ∧ r.wrapPtr ≠ 0 :=
    and_congr (cast_toNat_inj _ _) (not_congr (cast_toNat_inj _ 0))
  simp only [Counters.leaveWrap, leaveWrap, hwrap]
  split_ifs <;> rfl

theorem counters_getNextBlockPtr (r : Ringmem) :
    counters (ringmemGetNextBlockPtr r).2 = (counters r).getNextBlockPtr := by
  have hempty : (counters r).aLen = (counters r).size ↔ r.aLen = r.size := cast_toNat_inj _ _
  simp only [ringmemGetNextBlockPtr, Counters.getNextBlockPtr, hempty]
  split_ifs
  · rfl
  · exact counters_leaveWrap r

theorem counters_recount (hput : r.putPtr.toNat ≤ r.size.toNat) :
    (counters r).recount = some (counters (recount r)) := by
  have := r.size.toNat_lt
  have heq : (counters r).getPtr = (counters r).putPtr ↔ r.getPtr = r.putPtr := cast_toNat_inj _ _
  have hlt : (counters r).getPtr < (counters r).putPtr ↔ r.getPtr < r.putPtr := by
    simp [counters, UInt16.lt_iff_toNat_lt]
  simp only [Counters.recount, recount, heq, hlt]
  split_ifs with hsame hbelow
  · rfl
  · rw [UInt16.lt_iff_toNat_lt] at hbelow
    have haLen : ((r.size - r.putPtr) + r.getPtr).toNat =
        r.size.toNat - r.putPtr.toNat + r.getPtr.toNat := by
      rw [UInt16.toNat_add, UInt16.toNat_sub_of_le _ _ (UInt16.le_iff_toNat_le.mpr hput)]
      omega
    rw [fit_of_range (by simp only [counters]; omega) (by simp only [counters]; omega)]
    simp only [counters, Option.map_some, haLen]
    congr 2
    omega
  · have hge : r.putPtr ≤ r.getPtr := UInt16.not_lt.mp hbelow
    have hge' := UInt16.le_iff_toNat_le.mp hge
    have := r.getPtr.toNat_lt
    rw [fit_of_range (by simp only [counters]; omega) (by simp only [counters]; omega)]
    simp only [counters, Option.map_some, UInt16.toNat_sub_of_le _ _ hge]
    congr 2
    omega

theorem counters_freeBlock {b : Block} (h : Stores r (b :: bs)) :
    ∃ r', ringmemFreeBlock r = .ok r' ∧
      (counters r).freeBlock (r.data.load16 r.getPtr.toNat).toNat = some (counters r') := by
  have hsize := h.size_le
  rw [maxsize_toNat] at hsize
  have hin := h.within b (by simp)
  have hlen := (h.held b (by simp)).1
  rw [h.offset_eq] at hin hlen
  have hextent : b.extent = b.bytes.length + 2 := rfl
  have hput : r.putPtr.toNat ≤ r.size.toNat := by
    rcases h.shape with hs | ⟨old, new, hbs, hw⟩
    · exact hs.putPtr_le
    · have hget := hw.getPtr_lt
      have hwrap := hw.wrapPtr_le
      have hput := hw.putPtr_le
      omega
  set len := r.data.load16 r.getPtr.toNat with hlen_def
  have hsum := toNat_put_add r.getPtr len (by omega)
  have hmoved : { counters r with getPtr := (counters r).getPtr + ((len.toNat : Int) + 2) } =
      counters { r with getPtr := r.getPtr + (len + 2) } := by
    simp [counters, hsum]
  refine ⟨recount (leaveWrap { r with getPtr := r.getPtr + (len + 2) }), ?_, ?_⟩
  · rw [ringmemFreeBlock, if_neg (by simp [h.aLen_eq_size_iff])]
    simp only [read16, if_pos (show r.getPtr.toNat + 2 ≤ r.size.toNat by omega), bind, Except.bind, ← hlen_def]
  · rw [Counters.freeBlock, fit_of_range (by simp only [counters]; omega) (by simp only [counters]; omega),
      Option.bind_some, hmoved, ← counters_leaveWrap]
    apply counters_recount
    rw [leaveWrap_size]
    unfold leaveWrap
    split_ifs <;> exact hput

end Exact

/-! ### Every state that calls lead to -/

/-- The ring memory after some calls, and the byte strings that were taken and not freed since, oldest first. A block is freed only while there is one. -/
inductive Reachable (a : Memory) (size : UInt16) : Ringmem → List (List UInt8) → Prop where
  | init : Reachable a size (ringmemInit a size) []
  | alloc {r r' : Ringmem} {queue : List (List UInt8)} {n : Nat} (data : Memory) (len : UInt16)
      (h : Reachable a size r queue) (hret : ringmemAlloc r data len = .ok (n, r')) :
      Reachable a size r' (if n = 1 then queue ++ [data.load 0 len.toNat] else queue)
  | get {r : Ringmem} {queue : List (List UInt8)} (h : Reachable a size r queue) :
      Reachable a size (ringmemGetNextBlockPtr r).2 queue
  | free {r r' : Ringmem} {queue : List (List UInt8)} (h : Reachable a size r queue) (hne : queue ≠ [])
      (hret : ringmemFreeBlock r = .ok r') : Reachable a size r' queue.tail

theorem Reachable.stores {a : Memory} {size : UInt16} {r : Ringmem} {queue : List (List UInt8)}
    (h : Reachable a size r queue) : ∃ bs, bs.map Block.bytes = queue ∧ Stores r bs := by
  induction h with
  | init => exact ⟨[], rfl, stores_init a size⟩
  | alloc data len _ hret ih =>
      obtain ⟨bs, rfl, hstores⟩ := ih
      rcases ringmemAlloc_spec data len hstores with hspec | ⟨r', ptr, hspec, hstores', _⟩
      · obtain ⟨rfl, rfl⟩ := Prod.mk.inj (Except.ok.inj (hspec.symm.trans hret))
        exact ⟨bs, rfl, hstores⟩
      · obtain ⟨rfl, rfl⟩ := Prod.mk.inj (Except.ok.inj (hspec.symm.trans hret))
        exact ⟨_, by simp [newBlock], hstores'⟩
  | get _ ih =>
      obtain ⟨bs, hbytes, hstores⟩ := ih
      rw [ringmemGetNextBlockPtr_spec hstores]
      exact ⟨bs, hbytes, hstores⟩
  | free _ hne hret ih =>
      obtain ⟨bs, rfl, hstores⟩ := ih
      cases bs with
      | nil => exact absurd rfl hne
      | cons b bs =>
          obtain ⟨r', hspec, hstores', _⟩ := ringmemFreeBlock_spec hstores
          obtain rfl := Except.ok.inj (hspec.symm.trans hret)
          exact ⟨bs, rfl, hstores'⟩

/-- What holds of a ring memory that stores these blocks, and of the next call on it. -/
structure Admission (r : Ringmem) (bs : List Block) : Prop where
  held : ∀ b ∈ bs, b.HeldIn r.data
  shape : Unwrapped r bs ∨ Wraps r bs
  accepts : ∀ data len, (∃ r', ringmemAlloc r data len = .ok (1, r')) ↔ Gap r bs (len.toNat + 2)
  refuses : ∀ data len, ¬ Gap r bs (len.toNat + 2) → ringmemAlloc r data len = .ok (0, r)
  free : ∀ n, Gap r bs n → ∃ ptr, ptr + n ≤ r.size.toNat ∧
    ∀ b ∈ bs, b.offset + b.extent ≤ ptr ∨ ptr + n ≤ b.offset
  whole : bs = [] → ∀ n, Gap r bs n ↔ n ≤ r.size.toNat
  aLen_unwrapped : Unwrapped r bs → (counters r).aLen =
    (counters r).size - (counters r).putPtr + (counters r).getPtr
  aLen_wraps : Wraps r bs → (counters r).aLen = (counters r).getPtr - (counters r).putPtr
  aLen_size : r.aLen = r.size ↔ bs = []
  alloc_fits : ∀ data len, ∃ n r', ringmemAlloc r data len = .ok (n, r') ∧
    (counters r).alloc len.toNat = some (n, counters r')
  get_fits : counters (ringmemGetNextBlockPtr r).2 = (counters r).getNextBlockPtr
  free_fits : bs ≠ [] → ∃ r', ringmemFreeBlock r = .ok r' ∧
    (counters r).freeBlock (r.data.load16 r.getPtr.toNat).toNat = some (counters r')

theorem Stores.admission {r : Ringmem} {bs : List Block} (h : Stores r bs) : Admission r bs where
  held := h.held
  shape := h.unwrapped_or_wraps
  accepts := fun data len => ringmemAlloc_iff_gap data len h
  refuses := fun data len => ringmemAlloc_of_not_gap data len h
  free := fun _ => h.gap_free
  whole := by
    rintro rfl n
    exact h.gap_nil_iff n
  aLen_unwrapped := by
    intro hshape
    have hs := h.straight hshape
    have haLen := hs.aLen
    have hput := hs.putPtr_le
    simp only [counters]
    omega
  aLen_wraps := by
    intro hshape
    obtain ⟨old, new, rfl, hw⟩ := h.wrapped hshape
    have haLen := hw.aLen
    have hput := hw.putPtr_le
    simp only [counters]
    omega
  aLen_size := h.aLen_eq_size_iff
  alloc_fits := counters_alloc h
  get_fits := counters_getNextBlockPtr r
  free_fits := by
    intro hne
    obtain ⟨b, bs, rfl⟩ := List.exists_cons_of_ne_nil hne
    exact counters_freeBlock h

/-- **Admission to the ring memory is exact**, in every state that calls lead to. -/
theorem ringmemAlloc_admission {a : Memory} {size : UInt16} {r : Ringmem} {queue : List (List UInt8)}
    (h : Reachable a size r queue) : ∃ bs, bs.map Block.bytes = queue ∧ Admission r bs := by
  obtain ⟨bs, hbytes, hstores⟩ := h.stores
  exact ⟨bs, hbytes, hstores.admission⟩

/-- Two blocks of four bytes in a buffer of 14, the older one freed, and a third one that wraps. -/
theorem ringmemAlloc_admission_wrapped : ∃ r bs, r.getPtr = 6 ∧ r.putPtr = 4 ∧ r.wrapPtr = 12 ∧
    bs.map Block.bytes = [[0, 0, 0, 0], [0, 0]] ∧ Admission r bs := by
  have hinit : Reachable (fun _ => 0) 14 (ringmemInit (fun _ => 0) 14) [] := .init
  have htwo := Reachable.alloc (fun _ => 0) 4 (.alloc (fun _ => 0) 4 hinit rfl) rfl
  have hfreed := Reachable.free htwo (List.cons_ne_nil _ _) rfl
  obtain ⟨bs, h⟩ := ringmemAlloc_admission (.alloc (fun _ => 0) 2 hfreed rfl)
  exact ⟨_, bs, rfl, rfl, rfl, h⟩

end ContikiAtsam.Ringmem
