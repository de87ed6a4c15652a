import ContikiAtsam.Base.Bits
import ContikiAtsam.Nand.Ecc

/-!
# The code is a Hamming code

The address of a bit of a block has eleven bits: eight say which byte it is in, three which bit of the byte it is. `compute256` computes the two check sums of the block's 2048 bits, and lays out their bits over the three bytes of the code, an odd parity above the even one for the same bit of the address, all inverted; the lowest two bits of the last byte are always ones.
-/

open ContikiAtsam.Bits ContikiAtsam.Hamming

namespace ContikiAtsam.Nand

/-- The bits of a block, from the lowest bit of its first byte on. -/
def blockBit (m : Memory) (data : Nat) : Nat → Bool := fun p => (m (data + p / 8)).toBitVec.getLsbD (p % 8)

/-- The bits of a code, from the lowest bit of its first byte on. -/
def Code256.bits (c : Code256) : Nat → Bool := fun q =>
  if q < 8 then c.line1.toBitVec.getLsbD q
  else if q < 16 then c.line2.toBitVec.getLsbD (q - 8)
  else c.column.toBitVec.getLsbD (q - 16)

/-- Two check words laid out over the bits of a code, before they are inverted. -/
def spread (odd even : BitVec 11) : Nat → Bool := fun q =>
  let check := if q % 2 = 1 then odd else even
  if q < 8 then check.getLsbD (7 + q / 2)
  else if q < 16 then check.getLsbD (3 + (q - 8) / 2)
  else decide (18 ≤ q) && check.getLsbD ((q - 18) / 2)

/-! ### Counting bits -/

theorem and_one_ne_zero_iff (b : UInt8) : b &&& 1 ≠ 0 ↔ b.toBitVec.getLsbD 0 = true := by
  have hbit : b.toBitVec.getLsbD 0 = decide (b.toNat % 2 = 1) := by
    rw [BitVec.getLsbD, Nat.testBit_zero]
    rfl
  rw [ne_eq, ← UInt8.toNat_inj, UInt8.toNat_and, hbit, decide_eq_true_iff]
  change ¬ b.toNat &&& 1 = 0 ↔ _
  rw [Nat.and_one_is_mod]
  omega

theorem weight_byte (b : UInt8) :
    weight b.toBitVec.getLsbD 8 = (b.toBitVec.getLsbD 0).toNat + weight (b >>> 1).toBitVec.getLsbD 8 := by
  have hshift : weight (b >>> 1).toBitVec.getLsbD 8 = weight (fun i => b.toBitVec.getLsbD (i + 1)) 8 := by
    apply weight_congr
    intro i _
    rw [UInt8.toBitVec_shiftRight]
    change (b.toBitVec >>> 1).getLsbD i = _
    rw [BitVec.getLsbD_ushiftRight, Nat.add_comm]
  have htop : b.toBitVec.getLsbD 8 = false := BitVec.getLsbD_of_ge _ _ (Nat.le_refl _)
  rw [hshift, ← weight_succ_left, weight.eq_2 _ 8, htop, Bool.toNat_false, Nat.add_zero]

theorem countBitsFrom_toNat (byte : UInt8) (count : UInt32) :
    countBitsFrom byte count = count + UInt32.ofNat (weight byte.toBitVec.getLsbD 8) := by
  induction byte, count using countBitsFrom.induct with
  | case1 byte count h ih =>
      rw [dite_eq_ite] at ih
      rw [countBitsFrom, dif_pos h, ih, weight_byte byte]
      by_cases hlow : byte.toBitVec.getLsbD 0 = true
      · rw [if_pos ((and_one_ne_zero_iff byte).mpr hlow), hlow, Bool.toNat_true, UInt32.ofNat_add, ← UInt32.add_assoc]
        rfl
      · rw [if_neg fun hne => hlow ((and_one_ne_zero_iff byte).mp hne), Bool.eq_false_iff.mpr hlow, Bool.toNat_false,
          Nat.zero_add]
  | case2 byte count h =>
      have hzero : byte = 0 := by
        rw [← UInt8.toNat_inj]
        have hle : ¬ 0 < byte.toNat := fun hlt => h (UInt8.lt_iff_toNat_lt.mpr hlt)
        change byte.toNat = 0
        omega
      have hnone : weight (0 : UInt8).toBitVec.getLsbD 8 = 0 := by decide
      rw [countBitsFrom, dif_neg h, hzero, hnone]
      exact (UInt32.add_zero count).symm

theorem countBitsInByte_eq (byte : UInt8) : countBitsInByte byte = UInt32.ofNat (weight byte.toBitVec.getLsbD 8) := by
  rw [countBitsInByte, countBitsFrom_toNat, UInt32.zero_add]

/-- Only the parity of the count matters to the code. -/
theorem countBitsInByte_odd_iff (byte : UInt8) :
    countBitsInByte byte &&& 1 = 1 ↔ weight byte.toBitVec.getLsbD 8 % 2 = 1 := by
  have hle : weight byte.toBitVec.getLsbD 8 ≤ 8 := by
    have := weight_add_weight_not byte.toBitVec.getLsbD 8
    omega
  have hmod : (UInt32.ofNat (weight byte.toBitVec.getLsbD 8)).toNat = weight byte.toBitVec.getLsbD 8 := by
    rw [UInt32.toNat_ofNat']
    exact Nat.mod_eq_of_lt (by omega)
  rw [countBitsInByte_eq, ← UInt32.toNat_inj, UInt32.toNat_and, hmod]
  change _ &&& 1 = 1 ↔ _
  rw [Nat.and_one_is_mod]

theorem weight_bits (c : Code256) : weight c.bits 24 = weight c.line1.toBitVec.getLsbD 8 +
    weight c.line2.toBitVec.getLsbD 8 + weight c.column.toBitVec.getLsbD 8 := by
  simp [weight, Code256.bits, Nat.add_assoc]

theorem countBitsInCode256_eq (c : Code256) : countBitsInCode256 c = UInt32.ofNat (weight c.bits 24) := by
  rw [countBitsInCode256, countBitsInByte_eq, countBitsInByte_eq, countBitsInByte_eq, weight_bits, UInt32.ofNat_add,
    UInt32.ofNat_add]

/-! ### The loops -/

variable (m : Memory) (data : Nat)

theorem ofNat_complement {i : Nat} (hi : i < 256) : (UInt8.ofNat (255 - i)).toBitVec = ~~~ BitVec.ofNat 8 i := by
  apply BitVec.eq_of_toNat_eq
  rw [BitVec.toNat_not, BitVec.toNat_ofNat, UInt8.toNat_toBitVec, UInt8.toNat_ofNat']
  omega

/-- The line parities after some turns, and the column sum. -/
structure LineInv (n : Nat) (s : LineSums) : Prop where
  column : s.columnSum.toBitVec = xorSum (fun i => (m (data + i)).toBitVec) n
  odd : s.oddLineCode.toBitVec =
    xorSum (fun i => if weight (m (data + i)).toBitVec.getLsbD 8 % 2 = 1 then BitVec.ofNat 8 i else 0#8) n
  even : s.evenLineCode.toBitVec =
    xorSum (fun i => if weight (m (data + i)).toBitVec.getLsbD 8 % 2 = 1 then ~~~ BitVec.ofNat 8 i else 0#8) n

theorem LineInv.turn {n : Nat} {s : LineSums} (h : LineInv m data n s) (hn : n < 256) :
    LineInv m data (n + 1) (lineTurn m data s n) := by
  unfold lineTurn
  by_cases hodd : weight (m (data + n)).toBitVec.getLsbD 8 % 2 = 1
  · rw [if_pos ((countBitsInByte_odd_iff _).mpr hodd)]
    refine ⟨?_, ?_, ?_⟩
    · rw [xorSum, UInt8.toBitVec_xor, h.column]
    · rw [xorSum, UInt8.toBitVec_xor, h.odd, if_pos hodd]
      rfl
    · rw [xorSum, UInt8.toBitVec_xor, h.even, if_pos hodd, ofNat_complement hn]
  · rw [if_neg fun hcount => hodd ((countBitsInByte_odd_iff _).mp hcount)]
    refine ⟨?_, ?_, ?_⟩
    · rw [xorSum, UInt8.toBitVec_xor, h.column]
    · rw [xorSum, if_neg hodd, BitVec.xor_zero, h.odd]
    · rw [xorSum, if_neg hodd, BitVec.xor_zero, h.even]

theorem lineSums_inv : LineInv m data 256 (lineSums m data) := by
  have hturns : ∀ n ≤ 256, LineInv m data n ((List.range n).foldl (lineTurn m data) ⟨0, 0, 0⟩) := by
    intro n hn
    induction n with
    | zero => exact ⟨rfl, rfl, rfl⟩
    | succ n ih =>
        rw [List.range_succ, List.foldl_append]
        exact (ih (by omega)).turn m data (by omega)
  exact hturns 256 (Nat.le_refl _)

/-- The column parities after some turns. -/
structure ColumnInv (column : UInt8) (n : Nat) (s : ColumnSums) : Prop where
  rest : s.columnSum.toBitVec = column.toBitVec >>> n
  odd : s.oddColumnCode.toBitVec = xorSum (fun i => if column.toBitVec.getLsbD i then BitVec.ofNat 8 i else 0#8) n
  even : s.evenColumnCode.toBitVec =
    xorSum (fun i => if column.toBitVec.getLsbD i then BitVec.ofNat 8 (7 - i) else 0#8) n

theorem ColumnInv.turn {column : UInt8} {n : Nat} {s : ColumnSums} (h : ColumnInv column n s) :
    ColumnInv column (n + 1) (columnTurn s n) := by
  have hbit : s.columnSum &&& 1 ≠ 0 ↔ column.toBitVec.getLsbD n = true := by
    rw [and_one_ne_zero_iff, h.rest, BitVec.getLsbD_ushiftRight, Nat.add_zero]
  have hrest : (s.columnSum >>> 1).toBitVec = column.toBitVec >>> (n + 1) := by
    rw [UInt8.toBitVec_shiftRight, h.rest, BitVec.shiftRight_add]
    rfl
  unfold columnTurn
  by_cases hset : column.toBitVec.getLsbD n = true
  · rw [if_pos (hbit.mpr hset)]
    refine ⟨hrest, ?_, ?_⟩
    · rw [xorSum, if_pos hset, UInt8.toBitVec_xor, h.odd]
      rfl
    · rw [xorSum, if_pos hset, UInt8.toBitVec_xor, h.even]
      rfl
  · rw [if_neg fun hne => hset (hbit.mp hne)]
    refine ⟨hrest, ?_, ?_⟩
    · rw [xorSum, if_neg hset, BitVec.xor_zero, h.odd]
    · rw [xorSum, if_neg hset, BitVec.xor_zero, h.even]

theorem columnSums_inv (column : UInt8) : ColumnInv column 8 (columnSums column) := by
  have hturns : ∀ n, ColumnInv column n ((List.range n).foldl columnTurn ⟨column, 0, 0⟩) := by
    intro n
    induction n with
    | zero => exact ⟨rfl, rfl, rfl⟩
    | succ n ih =>
        rw [List.range_succ, List.foldl_append]
        exact ih.turn
  exact hturns 8

/-! ### The sums over the bits of the block -/

theorem blockBit_byte (i : Nat) {b : Nat} (hb : b < 8) :
    blockBit m data (8 * i + b) = (m (data + i)).toBitVec.getLsbD b := by
  have hbyte : (8 * i + b) / 8 = i := by omega
  have hbit : (8 * i + b) % 8 = b := by omega
  rw [blockBit, hbyte, hbit]

theorem sum_by_byte {φ : BitVec 11 → BitVec 8} {a : Nat → BitVec 11} {c : Nat → BitVec 8} (hzero : φ 0#11 = 0#8)
    (hxor : ∀ x y, φ (x ^^^ y) = φ x ^^^ φ y) (haddr : ∀ i b, b < 8 → φ (a (8 * i + b)) = c i) :
    φ (xorSum (fun p => if blockBit m data p then a p else 0#11) 2048) =
      xorSum (fun i => if weight (m (data + i)).toBitVec.getLsbD 8 % 2 = 1 then c i else 0#8) 256 := by
  rw [map_xorSum φ hzero hxor, xorSum_mul _ 8 256]
  apply xorSum_congr
  intro i _
  have hterms : xorSum (fun b => φ (if blockBit m data (8 * i + b) then a (8 * i + b) else 0#11)) 8 =
      xorSum (fun b => if (m (data + i)).toBitVec.getLsbD b then c i else 0#8) 8 := by
    apply xorSum_congr
    intro b hb
    rw [blockBit_byte m data i hb, apply_ite φ, hzero, haddr i b hb]
  rw [hterms, xorSum_ite]

/-- A part of a check sum that depends on the bit's place in its byte only: it can be taken of the column sum. -/
theorem sum_by_bit {φ : BitVec 11 → BitVec 8} {a : Nat → BitVec 11} {c : Nat → BitVec 8} (hzero : φ 0#11 = 0#8)
    (hxor : ∀ x y, φ (x ^^^ y) = φ x ^^^ φ y) (haddr : ∀ i b, b < 8 → φ (a (8 * i + b)) = c b) :
    φ (xorSum (fun p => if blockBit m data p then a p else 0#11) 2048) =
      xorSum (fun b => if (xorSum (fun i => (m (data + i)).toBitVec) 256).getLsbD b then c b else 0#8) 8 := by
  have hcolumn := map_xorSum (fun x : BitVec 8 => xorSum (fun b => if x.getLsbD b then c b else 0#8) 8)
    (xorSum_zero 8) (fun x y => by
      rw [← xorSum_xor]
      apply xorSum_congr
      intro b _
      rw [BitVec.getLsbD_xor]
      cases x.getLsbD b <;> cases y.getLsbD b <;> simp)
    (fun i => (m (data + i)).toBitVec) 256
  rw [map_xorSum φ hzero hxor, xorSum_mul _ 8 256, hcolumn]
  apply xorSum_congr
  intro i _
  apply xorSum_congr
  intro b hb
  rw [blockBit_byte m data i hb, apply_ite φ, hzero, haddr i b hb]

/-- The byte of an address. -/
def byteOf (a : BitVec 11) : BitVec 8 := a.extractLsb' 3 8

/-- The place in its byte, as the code keeps it in eight bits. -/
def bitOf (a : BitVec 11) : BitVec 8 := (a.setWidth 3).setWidth 8

theorem byteOf_xor (x y : BitVec 11) : byteOf (x ^^^ y) = byteOf x ^^^ byteOf y := BitVec.extractLsb'_xor

theorem bitOf_xor (x y : BitVec 11) : bitOf (x ^^^ y) = bitOf x ^^^ bitOf y := by
  rw [bitOf, BitVec.setWidth_xor, BitVec.setWidth_xor]
  rfl

theorem byteOf_ofNat (i : Nat) {b : Nat} (hb : b < 8) : byteOf (BitVec.ofNat 11 (8 * i + b)) = BitVec.ofNat 8 i := by
  apply BitVec.eq_of_toNat_eq
  rw [byteOf, BitVec.extractLsb'_toNat, BitVec.toNat_ofNat, BitVec.toNat_ofNat, Nat.shiftRight_eq_div_pow]
  omega

theorem byteOf_not (a : BitVec 11) : byteOf (~~~ a) = ~~~ byteOf a := by
  apply BitVec.eq_of_getLsbD_eq
  intro i hi
  simp [byteOf, hi, show 3 + i < 11 by omega]

theorem bitOf_ofNat (i : Nat) {b : Nat} (hb : b < 8) : bitOf (BitVec.ofNat 11 (8 * i + b)) = BitVec.ofNat 8 b := by
  apply BitVec.eq_of_toNat_eq
  rw [bitOf, BitVec.toNat_setWidth, BitVec.toNat_setWidth, BitVec.toNat_ofNat, BitVec.toNat_ofNat]
  omega

theorem bitOf_not (i : Nat) {b : Nat} (hb : b < 8) :
    bitOf (~~~ BitVec.ofNat 11 (8 * i + b)) = BitVec.ofNat 8 (7 - b) := by
  apply BitVec.eq_of_toNat_eq
  rw [bitOf, BitVec.toNat_setWidth, BitVec.toNat_setWidth, BitVec.toNat_not, BitVec.toNat_ofNat, BitVec.toNat_ofNat]
  omega

/-- The first loop computes the bytes' part of the check sums, the second one the bits' part. -/
theorem oddLineCode_eq : (lineSums m data).oddLineCode.toBitVec = byteOf (oddCheck 11 (blockBit m data) 2048) := by
  rw [(lineSums_inv m data).odd, oddCheck, sum_by_byte m data rfl byteOf_xor fun i b hb => byteOf_ofNat i hb]

theorem evenLineCode_eq : (lineSums m data).evenLineCode.toBitVec = byteOf (evenCheck 11 (blockBit m data) 2048) := by
  rw [(lineSums_inv m data).even, evenCheck, sum_by_byte m data rfl byteOf_xor fun i b hb => by
    rw [byteOf_not, byteOf_ofNat i hb]]

theorem oddColumnCode_eq : (columnSums (lineSums m data).columnSum).oddColumnCode.toBitVec =
    bitOf (oddCheck 11 (blockBit m data) 2048) := by
  rw [(columnSums_inv _).odd, (lineSums_inv m data).column, oddCheck,
    sum_by_bit m data rfl bitOf_xor fun i b hb => bitOf_ofNat i hb]

theorem evenColumnCode_eq : (columnSums (lineSums m data).columnSum).evenColumnCode.toBitVec =
    bitOf (evenCheck 11 (blockBit m data) 2048) := by
  rw [(columnSums_inv _).even, (lineSums_inv m data).column, evenCheck,
    sum_by_bit m data rfl bitOf_xor fun i b hb => bitOf_not i hb]

/-! ### The layout -/

theorem getLsbD_pushBits (byte odd even : UInt8) {mask : UInt8} {k i : Nat} (hk : k < 8) (hi : i < 8)
    (hmask : mask.toBitVec = BitVec.twoPow 8 k) :
    (pushBits byte odd even mask).toBitVec.getLsbD i =
      if i = 0 then even.toBitVec.getLsbD k else if i = 1 then odd.toBitVec.getLsbD k
      else byte.toBitVec.getLsbD (i - 2) := by
  have hshift : ∀ j, (byte <<< 2).toBitVec.getLsbD j = (decide (j < 8) && !decide (j < 2) && byte.toBitVec.getLsbD (j - 2)) := by
    intro j
    rw [UInt8.toBitVec_shiftLeft]
    change (byte.toBitVec <<< 2).getLsbD j = _
    rw [BitVec.getLsbD_shiftLeft]
  have htwo : (2 : UInt8).toBitVec = BitVec.twoPow 8 1 := rfl
  have hone : (1 : UInt8).toBitVec = BitVec.twoPow 8 0 := rfl
  unfold pushBits
  simp only [and_mask_ne_zero_iff hk hmask]
  by_cases hodd : odd.toBitVec.getLsbD k = true <;> by_cases heven : even.toBitVec.getLsbD k = true
  · rw [if_pos hodd, if_pos heven, UInt8.toBitVec_or, UInt8.toBitVec_or, BitVec.getLsbD_or, BitVec.getLsbD_or, hshift,
      htwo, hone, BitVec.getLsbD_twoPow, BitVec.getLsbD_twoPow, hodd, heven]
    grind
  · rw [if_pos hodd, if_neg heven, UInt8.toBitVec_or, BitVec.getLsbD_or, hshift, htwo, BitVec.getLsbD_twoPow, hodd,
      Bool.eq_false_iff.mpr heven]
    grind
  · rw [if_neg hodd, if_pos heven, UInt8.toBitVec_or, BitVec.getLsbD_or, hshift, hone, BitVec.getLsbD_twoPow, heven,
      Bool.eq_false_iff.mpr hodd]
    grind
  · rw [if_neg hodd, if_neg heven, hshift, Bool.eq_false_iff.mpr hodd, Bool.eq_false_iff.mpr heven]
    grind

/-- After `n` turns a byte holds the bits of the parities from bit `k` down, two at a time. -/
def Pushed (k n : Nat) (odd even : BitVec 8) (byte : UInt8) : Prop :=
  ∀ i < 8, byte.toBitVec.getLsbD i =
    (decide (i < 2 * n ∧ n ≤ k + 1 + i / 2) && (if i % 2 = 1 then odd else even).getLsbD (k + 1 + i / 2 - n))

theorem Pushed.push {k n : Nat} {odd even : BitVec 8} {byte mask odd' even' : UInt8} (h : Pushed k n odd even byte)
    (hk : k < 8) (hmask : mask.toBitVec = BitVec.twoPow 8 k) (hodd : odd'.toBitVec = odd <<< n)
    (heven : even'.toBitVec = even <<< n) : Pushed k (n + 1) odd even (pushBits byte odd' even' mask) := by
  intro i hi
  rw [getLsbD_pushBits _ _ _ hk hi hmask, hodd, heven, BitVec.getLsbD_shiftLeft, BitVec.getLsbD_shiftLeft]
  by_cases hzero : i = 0
  · subst hzero
    grind
  by_cases hone : i = 1
  · subst hone
    grind
  · obtain ⟨j, rfl⟩ := Nat.exists_eq_add_of_le (show 2 ≤ i by omega)
    have hj := h j (by omega)
    have hdiv : k + 1 + (2 + j) / 2 - (n + 1) = k + 1 + j / 2 - n := by omega
    have hmod : (2 + j) % 2 = j % 2 := by omega
    have hbounds : decide (2 + j < 2 * (n + 1) ∧ n + 1 ≤ k + 1 + (2 + j) / 2) = decide (j < 2 * n ∧ n ≤ k + 1 + j / 2) :=
      decide_eq_decide.mpr (by omega)
    rw [if_neg hzero, if_neg hone, Nat.add_sub_cancel_left, hj, hdiv, hmod, hbounds]

/-- The third loop after some turns. -/
structure LayoutInv (s₀ : Layout) (n : Nat) (s : Layout) : Prop where
  oddLine : s.oddLineCode.toBitVec = s₀.oddLineCode.toBitVec <<< n
  evenLine : s.evenLineCode.toBitVec = s₀.evenLineCode.toBitVec <<< n
  oddColumn : s.oddColumnCode.toBitVec = s₀.oddColumnCode.toBitVec <<< n
  evenColumn : s.evenColumnCode.toBitVec = s₀.evenColumnCode.toBitVec <<< n
  line1 : Pushed 7 n s₀.oddLineCode.toBitVec s₀.evenLineCode.toBitVec s.code.line1
  line2 : Pushed 3 n s₀.oddLineCode.toBitVec s₀.evenLineCode.toBitVec s.code.line2
  column : Pushed 2 n s₀.oddColumnCode.toBitVec s₀.evenColumnCode.toBitVec s.code.column

theorem shiftLeft_one_of {x : UInt8} {y : BitVec 8} {n : Nat} (h : x.toBitVec = y <<< n) :
    (x <<< 1).toBitVec = y <<< (n + 1) := by
  rw [UInt8.toBitVec_shiftLeft, h, BitVec.shiftLeft_add]
  rfl

theorem LayoutInv.turn {s₀ s : Layout} {n : Nat} (h : LayoutInv s₀ n s) : LayoutInv s₀ (n + 1) (layoutTurn s) where
  oddLine := shiftLeft_one_of h.oddLine
  evenLine := shiftLeft_one_of h.evenLine
  oddColumn := shiftLeft_one_of h.oddColumn
  evenColumn := shiftLeft_one_of h.evenColumn
  line1 := h.line1.push (by decide) rfl h.oddLine h.evenLine
  line2 := h.line2.push (by decide) rfl h.oddLine h.evenLine
  column := h.column.push (by decide) rfl h.oddColumn h.evenColumn

theorem layout_inv (evenLine oddLine evenColumn oddColumn : UInt8) (n : Nat) :
    LayoutInv ⟨⟨0, 0, 0⟩, evenLine, oddLine, evenColumn, oddColumn⟩ n
      ((List.range n).foldl (fun s _ => layoutTurn s) ⟨⟨0, 0, 0⟩, evenLine, oddLine, evenColumn, oddColumn⟩) := by
  have hempty : ∀ k odd even, Pushed k 0 odd even 0 := by
    intro k odd even i _
    simp
  induction n with
  | zero => exact ⟨by simp, by simp, by simp, by simp, hempty _ _ _, hempty _ _ _, hempty _ _ _⟩
  | succ n ih =>
      rw [List.range_succ, List.foldl_append]
      exact ih.turn

theorem getLsbD_byteOf (a : BitVec 11) {k : Nat} (hk : k < 8) : (byteOf a).getLsbD k = a.getLsbD (3 + k) := by
  rw [byteOf, BitVec.getLsbD_extractLsb', decide_eq_true hk, Bool.true_and]

theorem getLsbD_bitOf (a : BitVec 11) {k : Nat} (hk : k < 3) : (bitOf a).getLsbD k = a.getLsbD k := by
  rw [bitOf, BitVec.getLsbD_setWidth, BitVec.getLsbD_setWidth, decide_eq_true (show k < 8 by omega), decide_eq_true hk,
    Bool.true_and, Bool.true_and]

theorem layout_bits {odd even : BitVec 11} {s : Layout} (hline1 : Pushed 7 4 (byteOf odd) (byteOf even) s.code.line1)
    (hline2 : Pushed 3 4 (byteOf odd) (byteOf even) s.code.line2)
    (hcolumn : Pushed 2 4 (bitOf odd) (bitOf even) s.code.column) {q : Nat} (hq : q < 24) :
    s.code.bits q = spread odd even q := by
  rw [Code256.bits, spread]
  by_cases h8 : q < 8
  · have hindex : 7 + 1 + q / 2 - 4 = 4 + q / 2 := by omega
    rw [if_pos h8, if_pos h8, hline1 q h8, decide_eq_true (by omega), Bool.true_and, hindex, ← apply_ite byteOf,
      getLsbD_byteOf _ (by omega), ← Nat.add_assoc]
  rw [if_neg h8, if_neg h8]
  by_cases h16 : q < 16
  · have hindex : 3 + 1 + (q - 8) / 2 - 4 = (q - 8) / 2 := by omega
    have hparity : (q - 8) % 2 = q % 2 := by omega
    rw [if_pos h16, if_pos h16, hline2 (q - 8) (by omega), decide_eq_true (by omega), Bool.true_and, hindex, hparity,
      ← apply_ite byteOf, getLsbD_byteOf _ (by omega)]
  · have hindex : 2 + 1 + (q - 16) / 2 - 4 = (q - 18) / 2 := by omega
    have hparity : (q - 16) % 2 = q % 2 := by omega
    have hpad : decide (q - 16 < 2 * 4 ∧ 4 ≤ 2 + 1 + (q - 16) / 2) = decide (18 ≤ q) :=
      decide_eq_decide.mpr (by omega)
    rw [if_neg h16, if_neg h16, hcolumn (q - 16) (by omega), hpad, hindex, hparity, ← apply_ite bitOf,
      getLsbD_bitOf _ (by omega)]

theorem bits_not (c : Code256) {q : Nat} (hq : q < 24) :
    (⟨~~~ c.line1, ~~~ c.line2, ~~~ c.column⟩ : Code256).bits q = !c.bits q := by
  rw [Code256.bits, Code256.bits]
  by_cases h8 : q < 8
  · rw [if_pos h8, if_pos h8, UInt8.toBitVec_not, BitVec.getLsbD_not, decide_eq_true h8, Bool.true_and]
  rw [if_neg h8, if_neg h8]
  by_cases h16 : q < 16
  · rw [if_pos h16, if_pos h16, UInt8.toBitVec_not, BitVec.getLsbD_not, decide_eq_true (show q - 8 < 8 by omega),
      Bool.true_and]
  · rw [if_neg h16, if_neg h16, UInt8.toBitVec_not, BitVec.getLsbD_not, decide_eq_true (show q - 16 < 8 by omega),
      Bool.true_and]

/-- **The code.** `compute256` lays out the two check sums of the block's bits, inverted. -/
theorem compute256_bits {q : Nat} (hq : q < 24) : (compute256 m data).bits q =
    !spread (oddCheck 11 (blockBit m data) 2048) (evenCheck 11 (blockBit m data) 2048) q := by
  have hlayout := layout_inv (lineSums m data).evenLineCode (lineSums m data).oddLineCode
    (columnSums (lineSums m data).columnSum).evenColumnCode (columnSums (lineSums m data).columnSum).oddColumnCode 4
  obtain ⟨_, _, _, _, hline1, hline2, hcolumn⟩ := hlayout
  rw [oddLineCode_eq, evenLineCode_eq] at hline1 hline2
  rw [oddColumnCode_eq, evenColumnCode_eq] at hcolumn
  rw [compute256, bits_not _ hq, layout_bits hline1 hline2 hcolumn hq]

/-! ### Reading the layout -/

theorem weight_spread (odd even : BitVec 11) : weight (spread odd even) 24 = checkWeight odd even := by
  simp only [weight, spread, checkWeight]
  simp
  omega

theorem getLsbD_and_mask {mask : UInt8} {k i : Nat} (hmask : mask.toBitVec = BitVec.twoPow 8 k) (hi : i < 8) (x : UInt8) :
    (x &&& mask).toBitVec.getLsbD i = (decide (k = i) && x.toBitVec.getLsbD k) := by
  rw [UInt8.toBitVec_and, hmask, BitVec.getLsbD_and, BitVec.getLsbD_twoPow]
  by_cases hki : k = i
  · rw [hki, decide_eq_true rfl, decide_eq_true hi, Bool.and_self, Bool.and_true, Bool.true_and]
  · rw [decide_eq_false hki, Bool.and_false, Bool.and_false, Bool.false_and]

theorem getLsbD_shiftLeft_and {mask s : UInt8} {k i : Nat} (hmask : mask.toBitVec = BitVec.twoPow 8 k) (hk : k < 8)
    (hi : i < 8) (hs : s.toNat % 8 ≤ k) (x : UInt8) :
    ((x <<< s) &&& mask).toBitVec.getLsbD i = (decide (k = i) && x.toBitVec.getLsbD (k - s.toNat % 8)) := by
  have hshift : (x <<< s).toBitVec.getLsbD k = x.toBitVec.getLsbD (k - s.toNat % 8) := by
    rw [UInt8.toBitVec_shiftLeft, BitVec.shiftLeft_eq', BitVec.getLsbD_shiftLeft, decide_eq_true hk, Bool.true_and]
    change (!decide (k < s.toNat % 8) && _) = _
    rw [decide_eq_false (by omega), Bool.not_false, Bool.true_and]
    rfl
  rw [getLsbD_and_mask hmask hi, hshift]

theorem getLsbD_shiftRight_and {mask s : UInt8} {k i : Nat} (hmask : mask.toBitVec = BitVec.twoPow 8 k) (hi : i < 8)
    (x : UInt8) :
    ((x >>> s) &&& mask).toBitVec.getLsbD i = (decide (k = i) && x.toBitVec.getLsbD (s.toNat % 8 + k)) := by
  have hshift : (x >>> s).toBitVec.getLsbD k = x.toBitVec.getLsbD (s.toNat % 8 + k) := by
    rw [UInt8.toBitVec_shiftRight, BitVec.ushiftRight_eq', BitVec.getLsbD_ushiftRight]
    rfl
  rw [getLsbD_and_mask hmask hi, hshift]

section Reading

variable {c : Code256} {odd even : BitVec 11} (h : ∀ q < 24, c.bits q = spread odd even q)
include h

theorem line1_odd {k : Nat} (hk : k < 4) : c.line1.toBitVec.getLsbD (2 * k + 1) = odd.getLsbD (7 + k) := by
  have hq := h (2 * k + 1) (by omega)
  have h8 : 2 * k + 1 < 8 := by omega
  have hodd : (2 * k + 1) % 2 = 1 := by omega
  have hindex : (2 * k + 1) / 2 = k := by omega
  rwa [Code256.bits, spread, if_pos h8, if_pos h8, if_pos hodd, hindex] at hq

theorem line2_odd {k : Nat} (hk : k < 4) : c.line2.toBitVec.getLsbD (2 * k + 1) = odd.getLsbD (3 + k) := by
  have hq := h (8 + (2 * k + 1)) (by omega)
  have h8 : ¬ 8 + (2 * k + 1) < 8 := by omega
  have h16 : 8 + (2 * k + 1) < 16 := by omega
  have hodd : (8 + (2 * k + 1)) % 2 = 1 := by omega
  have hindex : (2 * k + 1) / 2 = k := by omega
  rwa [Code256.bits, spread, if_neg h8, if_neg h8, if_pos h16, if_pos h16, if_pos hodd, Nat.add_sub_cancel_left,
    hindex] at hq

theorem column_odd {k : Nat} (hk : k < 3) : c.column.toBitVec.getLsbD (2 * k + 3) = odd.getLsbD k := by
  have hq := h (16 + (2 * k + 3)) (by omega)
  have h8 : ¬ 16 + (2 * k + 3) < 8 := by omega
  have h16 : ¬ 16 + (2 * k + 3) < 16 := by omega
  have hodd : (16 + (2 * k + 3)) % 2 = 1 := by omega
  have hpad : 18 ≤ 16 + (2 * k + 3) := by omega
  have hindex : (16 + (2 * k + 3) - 18) / 2 = k := by omega
  rwa [Code256.bits, spread, if_neg h8, if_neg h8, if_neg h16, if_neg h16, if_pos hodd, Nat.add_sub_cancel_left,
    decide_eq_true hpad, Bool.true_and, hindex] at hq

theorem wrongByte_eq : (wrongByte c).toBitVec = byteOf odd := by
  apply BitVec.eq_of_getLsbD_eq
  intro i hi
  rw [getLsbD_byteOf _ hi]
  unfold wrongByte
  simp only [UInt8.toBitVec_or, BitVec.getLsbD_or,
    getLsbD_and_mask (show (0x80 : UInt8).toBitVec = BitVec.twoPow 8 7 from rfl) hi,
    getLsbD_shiftLeft_and (show (0x40 : UInt8).toBitVec = BitVec.twoPow 8 6 from rfl) (by decide) hi (show (1 : UInt8).toNat % 8 ≤ 6 by decide),
    getLsbD_shiftLeft_and (show (0x20 : UInt8).toBitVec = BitVec.twoPow 8 5 from rfl) (by decide) hi (show (2 : UInt8).toNat % 8 ≤ 5 by decide),
    getLsbD_shiftLeft_and (show (0x10 : UInt8).toBitVec = BitVec.twoPow 8 4 from rfl) (by decide) hi (show (3 : UInt8).toNat % 8 ≤ 4 by decide),
    getLsbD_shiftRight_and (show (0x08 : UInt8).toBitVec = BitVec.twoPow 8 3 from rfl) hi,
    getLsbD_shiftRight_and (show (0x04 : UInt8).toBitVec = BitVec.twoPow 8 2 from rfl) hi,
    getLsbD_shiftRight_and (show (0x02 : UInt8).toBitVec = BitVec.twoPow 8 1 from rfl) hi,
    getLsbD_shiftRight_and (show (0x01 : UInt8).toBitVec = BitVec.twoPow 8 0 from rfl) hi]
  have h7 : c.line1.toBitVec.getLsbD 7 = odd.getLsbD 10 := line1_odd h (show 3 < 4 by decide)
  have h6 : c.line1.toBitVec.getLsbD 5 = odd.getLsbD 9 := line1_odd h (show 2 < 4 by decide)
  have h5 : c.line1.toBitVec.getLsbD 3 = odd.getLsbD 8 := line1_odd h (show 1 < 4 by decide)
  have h4 : c.line1.toBitVec.getLsbD 1 = odd.getLsbD 7 := line1_odd h (show 0 < 4 by decide)
  have h3 : c.line2.toBitVec.getLsbD 7 = odd.getLsbD 6 := line2_odd h (show 3 < 4 by decide)
  have h2 : c.line2.toBitVec.getLsbD 5 = odd.getLsbD 5 := line2_odd h (show 2 < 4 by decide)
  have h1 : c.line2.toBitVec.getLsbD 3 = odd.getLsbD 4 := line2_odd h (show 1 < 4 by decide)
  have h0 : c.line2.toBitVec.getLsbD 1 = odd.getLsbD 3 := line2_odd h (show 0 < 4 by decide)
  match i, hi with
  | 0, _ => simpa using h0
  | 1, _ => simpa using h1
  | 2, _ => simpa using h2
  | 3, _ => simpa using h3
  | 4, _ => simpa using h4
  | 5, _ => simpa using h5
  | 6, _ => simpa using h6
  | 7, _ => simpa using h7

theorem wrongBit_eq : (wrongBit c).toBitVec = bitOf odd := by
  apply BitVec.eq_of_getLsbD_eq
  intro i hi
  unfold wrongBit
  simp only [UInt8.toBitVec_or, BitVec.getLsbD_or,
    getLsbD_shiftRight_and (show (0x04 : UInt8).toBitVec = BitVec.twoPow 8 2 from rfl) hi,
    getLsbD_shiftRight_and (show (0x02 : UInt8).toBitVec = BitVec.twoPow 8 1 from rfl) hi,
    getLsbD_shiftRight_and (show (0x01 : UInt8).toBitVec = BitVec.twoPow 8 0 from rfl) hi]
  have h2 : c.column.toBitVec.getLsbD 7 = odd.getLsbD 2 := column_odd h (show 2 < 3 by decide)
  have h1 : c.column.toBitVec.getLsbD 5 = odd.getLsbD 1 := column_odd h (show 1 < 3 by decide)
  have h0 : c.column.toBitVec.getLsbD 3 = odd.getLsbD 0 := column_odd h (show 0 < 3 by decide)
  match i, hi with
  | 0, _ => simpa [bitOf] using h0
  | 1, _ => simpa [bitOf] using h1
  | 2, _ => simpa [bitOf] using h2
  | 3, _ | 4, _ | 5, _ | 6, _ | 7, _ => simp [bitOf]

end Reading

end ContikiAtsam.Nand
