import ContikiAtsam.Base.Ring
import ContikiAtsam.Base.Run
import ContikiAtsam.Ringbuf32.Code

/-!
# A FIFO while the put pointer fits a byte

`ringbuf32_put` stores the new put pointer through an 8-bit access, so only its lowest byte changes. The buffer is the bounded queue it is meant to be as long as the upper bytes need not change: always when the buffer has at most 256 bytes, and for the first 255 puts otherwise. The 256th put into a larger buffer breaks it.
-/

namespace ContikiAtsam.Ringbuf32

theorem ccAccessNow8_toNat (x v : UInt32) :
    (ccAccessNow8 x v).toNat = 2 ^ 8 * (x.toNat / 2 ^ 8) + v.toNat % 2 ^ 8 := by
  have hmask : (0xFFFFFF00 : Nat) = 2 ^ 8 * (2 ^ 24 - 1) + 0 := by decide
  have hx := x.toNat_lt
  apply Nat.eq_of_testBit_eq
  intro i
  have hlow : v.toNat % 2 ^ 8 < 2 ^ 8 := Nat.mod_lt _ (by decide)
  simp only [ccAccessNow8, UInt32.toNat_or, UInt32.toNat_and, Nat.testBit_or, Nat.testBit_and,
    UInt32.reduceToNat, Nat.testBit_two_pow_mul_add _ hlow]
  rw [hmask, Nat.testBit_two_pow_mul_add _ (by decide), show (255 : Nat) = 2 ^ 8 - 1 from rfl,
    Nat.testBit_two_pow_sub_one, Nat.testBit_two_pow_sub_one, Nat.testBit_mod_two_pow, Nat.testBit_div_two_pow]
  by_cases hi : i < 8
  · simp [hi]
  · have hback : i - 8 + 8 = i := by omega
    by_cases hi32 : i < 32
    · simp [hi, show i - 8 < 24 by omega, hback]
    · have hbig : x.toNat.testBit i = false :=
        Nat.testBit_lt_two_pow (Nat.lt_of_lt_of_le hx (Nat.pow_le_pow_right (by decide) (by omega)))
      simp [hi, hback, hbig]

/-! ### The layout -/

/-- The buffer has `2 ^ k` bytes and the queue lies in it from `getPtr` on. -/
structure Stores (k : Nat) (r : Ringbuf32) (queue : List UInt8) : Prop where
  dataLen : r.dataLen = 2 ^ k
  mask : r.mask.toNat = 2 ^ k - 1
  length_lt : queue.length < 2 ^ k
  getPtr_lt : r.getPtr.toNat < 2 ^ k
  putPtr : r.putPtr.toNat = (r.getPtr.toNat + queue.length) % 2 ^ k
  bytes : Ring.Holds (2 ^ k) r.data r.getPtr.toNat queue

variable {k : Nat} {r : Ringbuf32} {queue : List UInt8}

private theorem two_pow_toNat (hk : k ≤ 31) : (UInt32.ofNat (2 ^ k)).toNat = 2 ^ k := by
  rw [UInt32.toNat_ofNat']
  exact Nat.mod_eq_of_lt (Nat.pow_lt_pow_right (by decide) (by omega))

theorem stores_init (data : Memory) (hk : k ≤ 31) :
    Stores k (ringbuf32Init data (2 ^ k) (UInt32.ofNat (2 ^ k))) [] where
  dataLen := rfl
  mask := by
    have hpos : 1 ≤ 2 ^ k := Nat.one_le_two_pow
    have hle : (1 : UInt32) ≤ UInt32.ofNat (2 ^ k) := by
      rw [UInt32.le_iff_toNat_le, two_pow_toNat hk]
      exact hpos
    rw [ringbuf32Init, UInt32.toNat_sub_of_le _ _ hle, two_pow_toNat hk]
    rfl
  length_lt := Nat.two_pow_pos k
  getPtr_lt := Nat.two_pow_pos k
  putPtr := by simp [ringbuf32Init]
  bytes := Ring.holds_nil

theorem Stores.and_mask (h : Stores k r queue) (x : UInt32) : (x &&& r.mask).toNat = x.toNat % 2 ^ k := by
  rw [UInt32.toNat_and, h.mask, Nat.and_two_pow_sub_one_eq_mod]

private theorem mod_two_pow_mod (hk : k ≤ 31) (x : Nat) : x % 2 ^ 32 % 2 ^ k = x % 2 ^ k :=
  Nat.mod_mod_of_dvd x (Nat.pow_dvd_pow 2 (by omega))

theorem Stores.elements (h : Stores k r queue) (hk : k ≤ 31) :
    ((r.putPtr - r.getPtr) &&& r.mask).toNat = queue.length := by
  have hget := h.getPtr_lt
  have hget32 := r.getPtr.toNat_lt
  rw [h.and_mask, UInt32.toNat_sub, mod_two_pow_mod hk]
  have hmod : r.getPtr.toNat + (2 ^ 32 - r.getPtr.toNat + r.putPtr.toNat) ≡
      r.getPtr.toNat + queue.length [MOD 2 ^ k] := by
    have hdvd : 2 ^ 32 % 2 ^ k = 0 := Nat.mod_eq_zero_of_dvd (Nat.pow_dvd_pow 2 (by omega))
    rw [show r.getPtr.toNat + (2 ^ 32 - r.getPtr.toNat + r.putPtr.toNat) = 2 ^ 32 + r.putPtr.toNat by omega,
      Nat.ModEq, Nat.add_mod, hdvd, Nat.zero_add, Nat.mod_mod, h.putPtr, Nat.mod_mod]
  have hlen := Nat.ModEq.add_left_cancel' _ hmod
  rwa [Nat.ModEq, Nat.mod_eq_of_lt h.length_lt] at hlen

theorem Stores.next (h : Stores k r queue) (hk : k ≤ 31) (x : UInt32) :
    ((x + 1) &&& r.mask).toNat = (x.toNat + 1) % 2 ^ k := by
  rw [h.and_mask, UInt32.toNat_add, mod_two_pow_mod hk]
  rfl

theorem toInt32_of_lt {x : UInt32} (hx : x.toNat < 2 ^ 31) : x.toInt32.toInt = x.toNat := by
  rw [← Int32.toInt_toBitVec, UInt32.toBitVec_toInt32, BitVec.toInt_eq_toNat_of_lt (by
    rw [UInt32.toNat_toBitVec]
    omega), UInt32.toNat_toBitVec]

theorem Stores.ringbuf32Elements_eq (h : Stores k r queue) (hk : k ≤ 31) :
    ringbuf32Elements r = queue.length := by
  have hlen := h.elements hk
  have hlt := h.length_lt
  have hpow : 2 ^ k ≤ 2 ^ 31 := Nat.pow_le_pow_right (by decide) hk
  rw [ringbuf32Elements, toInt32_of_lt (by omega), hlen]

/-! ### The calls -/

/-- What a put into a buffer with room leaves behind. -/
def stored (r : Ringbuf32) (c : UInt8) : Ringbuf32 :=
  { r with data := r.data.store r.putPtr.toNat [c]
           putPtr := ccAccessNow8 r.putPtr ((r.putPtr + 1) &&& r.mask) }

theorem Stores.and_mask_eq_iff (h : Stores k r queue) (hk : k ≤ 31) :
    (r.putPtr - r.getPtr) &&& r.mask = r.mask ↔ queue.length = 2 ^ k - 1 := by
  rw [← UInt32.toNat_inj, h.elements hk, h.mask]

theorem ringbuf32Put_full (h : Stores k r queue) (hk : k ≤ 31) (hfull : queue.length = 2 ^ k - 1)
    (c : UInt8) : ringbuf32Put r c = .ok (0, r) := by
  rw [ringbuf32Put, if_pos ((h.and_mask_eq_iff hk).mpr hfull)]

theorem ringbuf32Put_room (h : Stores k r queue) (hk : k ≤ 31) (hroom : queue.length ≠ 2 ^ k - 1)
    (c : UInt8) : ringbuf32Put r c = .ok (1, stored r c) := by
  have hput : r.putPtr.toNat < r.dataLen := by
    rw [h.dataLen, h.putPtr]
    exact Nat.mod_lt _ (Nat.two_pow_pos k)
  rw [ringbuf32Put, if_neg (mt (h.and_mask_eq_iff hk).mp hroom), if_pos hput]
  rfl

/-- The byte-wide store of the put pointer is right when the upper bytes of the next one are those of the old one. -/
theorem Stores.stored_putPtr (h : Stores k r queue) (hk : k ≤ 31) (c : UInt8)
    (hupper : (r.putPtr.toNat + 1) % 2 ^ k / 2 ^ 8 = r.putPtr.toNat / 2 ^ 8) :
    (stored r c).putPtr.toNat = (r.putPtr.toNat + 1) % 2 ^ k := by
  rw [stored, ccAccessNow8_toNat, h.next hk, ← hupper, Nat.div_add_mod]

theorem Stores.put (h : Stores k r queue) (hk : k ≤ 31) (c : UInt8) (hroom : queue.length ≠ 2 ^ k - 1)
    (hupper : (r.putPtr.toNat + 1) % 2 ^ k / 2 ^ 8 = r.putPtr.toNat / 2 ^ 8) :
    Stores k (stored r c) (queue ++ [c]) where
  dataLen := h.dataLen
  mask := h.mask
  length_lt := by
    have := h.length_lt
    rw [List.length_append, List.length_singleton]
    omega
  getPtr_lt := h.getPtr_lt
  putPtr := by
    rw [h.stored_putPtr hk c hupper, h.putPtr, Nat.mod_add_mod, List.length_append, List.length_singleton]
    rfl
  bytes := by
    refine h.bytes.push h.length_lt ?_ ?_
    · rw [← h.putPtr]
      have hone : 0 < [c].length := Nat.succ_pos 0
      exact Memory.store_of_inside hone
    · intro i hi
      rw [← h.putPtr] at hi
      refine Memory.store_of_outside ?_
      rw [List.length_singleton]
      omega

theorem ringbuf32Get_empty (h : Stores k r []) (hk : k ≤ 31) : ringbuf32Get r = .ok (-1, r) := by
  have hzero := h.elements hk
  rw [ringbuf32Get, if_neg (by
    rw [gt_iff_lt, UInt32.lt_iff_toNat_lt, hzero]
    exact Nat.lt_irrefl 0)]

theorem ringbuf32Get_cons {c : UInt8} (h : Stores k r (c :: queue)) (hk : k ≤ 31) :
    ∃ r', ringbuf32Get r = .ok ((c.toNat : Int), r') ∧ Stores k r' queue ∧ r'.putPtr = r.putPtr ∧
      r'.getPtr.toNat = (r.getPtr.toNat + 1) % 2 ^ k := by
  have hlen := h.elements hk
  have hget := h.getPtr_lt
  refine ⟨{ r with getPtr := (r.getPtr + 1) &&& r.mask }, ?_, ?_, rfl, h.next hk _⟩
  · have hpos : (r.putPtr - r.getPtr) &&& r.mask > 0 := by
      rw [gt_iff_lt, UInt32.lt_iff_toNat_lt, hlen]
      exact Nat.succ_pos _
    rw [ringbuf32Get, if_pos hpos, if_pos (by rw [h.dataLen]; exact hget), h.bytes.head hget]
  · have hlt := h.length_lt
    rw [List.length_cons] at hlt
    refine ⟨h.dataLen, h.mask, Nat.lt_of_succ_lt hlt, ?_, ?_, ?_⟩
    · rw [h.next hk]
      exact Nat.mod_lt _ (Nat.two_pow_pos k)
    · rw [h.next hk, h.putPtr, Nat.mod_add_mod, List.length_cons]
      congr 1
      omega
    · rw [h.next hk]
      exact h.bytes.pop

/-! ### Every list of calls -/

inductive Call where
  | put (c : UInt8)
  | get

def call (r : Ringbuf32) : Call → Except Fault (Int × Ringbuf32)
  | .put c => ringbuf32Put r c
  | .get => ringbuf32Get r

def Call.isPut : Call → Bool
  | .put _ => true
  | .get => false

/-- The bounded queue: what a call answers and what the queue is after it. -/
def QueueStep (capacity : Nat) (queue : List UInt8) : Call → Int → List UInt8 → Prop
  | .put c, n, queue' => if queue.length = capacity then n = 0 ∧ queue' = queue else n = 1 ∧ queue' = queue ++ [c]
  | .get, n, queue' => (queue = [] ∧ n = -1 ∧ queue' = []) ∨ ∃ c, queue = c :: queue' ∧ n = c.toNat

/-- The specification of one call: the queue's step, nothing changed by a put into a full queue, and `ringbuf32_elements` right after it. -/
structure Meets (capacity : Nat) (r : Ringbuf32) (queue : List UInt8) (i : Call) (n : Int)
    (r' : Ringbuf32) (queue' : List UInt8) : Prop where
  step : QueueStep capacity queue i n queue'
  full : i.isPut → queue.length = capacity → r' = r
  elements : ringbuf32Elements r' = queue'.length

theorem QueueStep.unique {capacity : Nat} {i : Call} {n : Int} {q q' : List UInt8}
    (h : QueueStep capacity queue i n q) (h' : QueueStep capacity queue i n q') : q = q' := by
  cases i with
  | put c =>
      simp only [QueueStep] at h h'
      split at h
      · rw [if_pos ‹_›] at h'
        exact h.2.trans h'.2.symm
      · rw [if_neg ‹_›] at h'
        exact h.2.trans h'.2.symm
  | get =>
      rcases h with ⟨hnil, -, rfl⟩ | ⟨c, hcons, -⟩ <;>
        rcases h' with ⟨hnil', -, rfl⟩ | ⟨c', hcons', -⟩ <;> simp_all

/-- Every call does what the queue does, but for the put whose next pointer differs in the upper bytes; short of the end of the buffer, only a put moves the put pointer. -/
theorem call_spec (hk : k ≤ 31) (h : Stores k r queue) (i : Call)
    (hupper : i.isPut → queue.length ≠ 2 ^ k - 1 →
      (r.putPtr.toNat + 1) % 2 ^ k / 2 ^ 8 = r.putPtr.toNat / 2 ^ 8) :
    ∃ n r' queue', call r i = .ok (n, r') ∧ Meets (2 ^ k - 1) r queue i n r' queue' ∧ Stores k r' queue' ∧
      (r.putPtr.toNat = r.getPtr.toNat + queue.length → r.putPtr.toNat + 1 < 2 ^ k →
        r'.putPtr.toNat = r'.getPtr.toNat + queue'.length ∧
          r'.putPtr.toNat = r.putPtr.toNat + if i.isPut then 1 else 0) := by
  cases i with
  | put c =>
      by_cases hfull : queue.length = 2 ^ k - 1
      · refine ⟨0, r, queue, ringbuf32Put_full h hk hfull c,
          ⟨by simp [QueueStep, hfull], fun _ _ => rfl, h.ringbuf32Elements_eq hk⟩, h, ?_⟩
        omega
      · have hstored := h.put hk c hfull (hupper rfl hfull)
        refine ⟨1, stored r c, queue ++ [c], ringbuf32Put_room h hk hfull c,
          ⟨by simp [QueueStep, hfull], fun _ hfull' => absurd hfull' hfull, hstored.ringbuf32Elements_eq hk⟩,
          hstored, ?_⟩
        intro hstraight hroom
        have hget : (stored r c).getPtr = r.getPtr := rfl
        rw [h.stored_putPtr hk c (hupper rfl hfull), Nat.mod_eq_of_lt hroom, hget, List.length_append,
          List.length_singleton]
        exact ⟨by omega, rfl⟩
  | get =>
      cases queue with
      | nil =>
          exact ⟨-1, r, [], ringbuf32Get_empty h hk,
            ⟨Or.inl ⟨rfl, rfl, rfl⟩, fun _ _ => rfl, h.ringbuf32Elements_eq hk⟩, h, fun hstraight _ => ⟨hstraight, rfl⟩⟩
      | cons c queue =>
          obtain ⟨r', hret, hstores, hput, hget⟩ := ringbuf32Get_cons h hk
          refine ⟨c.toNat, r', queue, hret,
            ⟨Or.inr ⟨c, rfl, rfl⟩, fun hput => by simp [Call.isPut] at hput, hstores.ringbuf32Elements_eq hk⟩,
            hstores, ?_⟩
          intro hstraight hroom
          rw [List.length_cons] at hstraight
          rw [hput, hget, Nat.mod_eq_of_lt (by omega)]
          exact ⟨by omega, rfl⟩

theorem conforms_of_le_eight (hk : k ≤ 8) (h : Stores k r queue) (calls : List Call) :
    Conforms call (fun _ _ => True) (Meets (2 ^ k - 1)) r queue calls := by
  refine Conforms.of_simulation (Stores k) ?_ calls h
  intro r queue i h _
  have hpow : 2 ^ k ≤ 2 ^ 8 := Nat.pow_le_pow_right (by decide) hk
  have hput : r.putPtr.toNat < 2 ^ k := by
    rw [h.putPtr]
    exact Nat.mod_lt _ (Nat.two_pow_pos k)
  have hnext : (r.putPtr.toNat + 1) % 2 ^ k < 2 ^ k := Nat.mod_lt _ (Nat.two_pow_pos k)
  obtain ⟨n, r', queue', hcall, hmeets, hstores, -⟩ := call_spec (by omega) h i fun _ _ => by
    rw [Nat.div_eq_of_lt (by omega), Nat.div_eq_of_lt (by omega)]
  exact ⟨n, r', queue', hcall, hmeets, hstores⟩

/-- The put that should carry into the second byte leaves a buffer with the wrong number of elements. -/
theorem not_meets_of_carry (hk : k ≤ 31) (hlarge : 9 ≤ k) (h : Stores k r queue)
    (hput : r.putPtr.toNat = 255) (hstraight : r.putPtr.toNat = r.getPtr.toNat + queue.length) (c : UInt8)
    (queue' : List UInt8) : ¬ Meets (2 ^ k - 1) r queue (.put c) 1 (stored r c) queue' := by
  intro hmeets
  have hpow : 2 ^ 9 ≤ 2 ^ k := Nat.pow_le_pow_right (by decide) hlarge
  have hpow31 : 2 ^ k ≤ 2 ^ 31 := Nat.pow_le_pow_right (by decide) hk
  have hqueue : queue'.length = queue.length + 1 := by
    have hstep := hmeets.step
    rw [QueueStep, if_neg (by omega)] at hstep
    rw [hstep.2, List.length_append, List.length_singleton]
  have hzero : (stored r c).putPtr.toNat = 0 := by
    rw [stored, ccAccessNow8_toNat, h.next hk, hput, Nat.mod_eq_of_lt (by omega : 255 + 1 < 2 ^ k)]
    rfl
  have hcount : (((stored r c).putPtr - r.getPtr) &&& r.mask).toNat =
      (2 ^ 32 - r.getPtr.toNat) % 2 ^ k := by
    rw [h.and_mask, UInt32.toNat_sub, mod_two_pow_mod hk, hzero, Nat.add_zero]
  have hlt : (2 ^ 32 - r.getPtr.toNat) % 2 ^ k < 2 ^ k := Nat.mod_lt _ (Nat.two_pow_pos k)
  have helements := hmeets.elements
  rw [ringbuf32Elements, show (stored r c).getPtr = r.getPtr from rfl, show (stored r c).mask = r.mask from rfl,
    toInt32_of_lt (by omega), hcount] at helements
  have hmod : r.getPtr.toNat + (2 ^ 32 - r.getPtr.toNat) ≡ r.getPtr.toNat + queue'.length [MOD 2 ^ k] := by
    refine Nat.ModEq.add_left _ ?_
    rw [Nat.ModEq, Nat.mod_eq_of_lt (by omega : queue'.length < 2 ^ k)]
    omega
  have hdvd : 2 ^ 32 % 2 ^ k = 0 := Nat.mod_eq_zero_of_dvd (Nat.pow_dvd_pow 2 (by omega))
  rw [Nat.ModEq, show r.getPtr.toNat + (2 ^ 32 - r.getPtr.toNat) = 2 ^ 32 by omega, hdvd,
    Nat.mod_eq_of_lt (by omega)] at hmod
  omega

theorem conforms_iff_of_large (hk : k ≤ 31) (hlarge : 9 ≤ k) :
    ∀ (calls : List Call) {r : Ringbuf32} {queue : List UInt8}, Stores k r queue → r.putPtr.toNat ≤ 255 →
      r.putPtr.toNat = r.getPtr.toNat + queue.length →
      (Conforms call (fun _ _ => True) (Meets (2 ^ k - 1)) r queue calls ↔
        r.putPtr.toNat + calls.countP Call.isPut ≤ 255)
  | [], r, queue, _, hput, _ => by simpa [Conforms] using hput
  | i :: calls, r, queue, h, hput, hstraight => by
      have hpow : 2 ^ 9 ≤ 2 ^ k := Nat.pow_le_pow_right (by decide) hlarge
      by_cases hcarry : i.isPut ∧ r.putPtr.toNat = 255
      · cases i with
        | get => simp [Call.isPut] at hcarry
        | put c =>
            rw [List.countP_cons_of_pos hcarry.1]
            refine iff_of_false ?_ (by omega)
            intro hconforms
            obtain ⟨n, r', queue', hcall, hmeets, -⟩ := hconforms trivial
            rw [call, ringbuf32Put_room h hk (by omega)] at hcall
            obtain ⟨rfl, rfl⟩ := Prod.mk.inj (Except.ok.inj hcall)
            exact not_meets_of_carry hk hlarge h hcarry.2 hstraight c queue' hmeets
      · obtain ⟨n, r', queue', hcall, hmeets, hstores, hmove⟩ := call_spec hk h i fun hisPut _ => by
          have : r.putPtr.toNat ≠ 255 := fun heq => hcarry ⟨hisPut, heq⟩
          rw [Nat.mod_eq_of_lt (by omega), Nat.div_eq_of_lt (by omega), Nat.div_eq_of_lt (by omega)]
        rw [Conforms.cons_iff trivial hcall hmeets fun _ h' => h'.step.unique hmeets.step]
        obtain ⟨hstraight', hput'⟩ := hmove hstraight (by omega)
        rw [conforms_iff_of_large hk hlarge calls hstores ?_ hstraight', hput', List.countP_cons]
        · omega
        · split at hput'
          · have : r.putPtr.toNat ≠ 255 := fun heq => hcarry ⟨‹_›, heq⟩
            omega
          · omega

/-- **When the ring buffer is a bounded FIFO queue**: exactly when it has at most 256 bytes, or at most 255 bytes are put. -/
theorem ringbuf32_fifo_iff (k : Nat) (hpos : 1 ≤ k) (hk : k ≤ 31) (buf : Memory) (calls : List Call) :
    Conforms call (fun _ _ => True) (Meets (2 ^ k - 1))
        (ringbuf32Init buf (2 ^ k) (UInt32.ofNat (2 ^ k))) [] calls ↔
      k ≤ 8 ∨ calls.countP Call.isPut ≤ 255 := by
  have hinit := stores_init buf hk
  rcases Nat.lt_or_ge 8 k with hlarge | hsmall
  · rw [conforms_iff_of_large hk hlarge calls hinit (by simp [ringbuf32Init]) (by simp [ringbuf32Init])]
    simp [ringbuf32Init]
    omega
  · simp [hsmall, conforms_of_le_eight hsmall hinit calls]

theorem ringbuf32_fifo_iff_two : Conforms call (fun _ _ => True) (Meets (2 ^ 1 - 1))
    (ringbuf32Init (fun _ => 0) (2 ^ 1) (UInt32.ofNat (2 ^ 1))) [] [.put 7, .put 8, .get, .get] :=
  (ringbuf32_fifo_iff 1 (by decide) (by decide) _ _).mpr (Or.inl (by decide))

/-- 256 puts into an empty buffer of 512 bytes: it answers as if it were empty again. -/
theorem ringbuf32_not_fifo : ¬ Conforms call (fun _ _ => True) (Meets (2 ^ 9 - 1))
    (ringbuf32Init (fun _ => 0) (2 ^ 9) (UInt32.ofNat (2 ^ 9))) [] (List.replicate 256 (.put 0)) := by
  have hinit : Stores 9 (ringbuf32Init (fun _ => 0) (2 ^ 9) (UInt32.ofNat (2 ^ 9))) [] :=
    stores_init _ (by decide)
  rw [conforms_iff_of_large (by decide) (by decide) _ hinit (by decide) (by decide),
    List.countP_replicate]
  decide

end ContikiAtsam.Ringbuf32
