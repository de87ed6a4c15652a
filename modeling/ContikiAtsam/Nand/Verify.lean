import ContikiAtsam.Nand.Checks

/-!
# One wrong bit and two

What `verify256` makes of a block read back with its code. If one bit has changed it finds it: a bit of the data is put right, and of the code it says so. If two bits have changed, in the data, in the code or one in each, it never takes them for anything else, and leaves the data as they are.
-/

open ContikiAtsam.Hamming

namespace ContikiAtsam.Nand

/-- A bit inverted in a block's data or in its code. -/
inductive Flip where
  | data (p : Fin 2048)
  | code (q : Fin 24)
  deriving DecidableEq

/-- The memory with one bit inverted, counted from the lowest bit of the byte at `base`. -/
def flipBit (m : Memory) (base p : Nat) : Memory :=
  m.store (base + p / 8) [m (base + p / 8) ^^^ 1 <<< UInt8.ofNat (p % 8)]

/-- The flip in the block and the code that start at these addresses. -/
def Flip.apply (data code : Nat) (s : Memory × Memory) : Flip → Memory × Memory
  | .data p => (flipBit s.1 data p, s.2)
  | .code q => (s.1, flipBit s.2 code q)

variable (m codes : Memory) (data code : Nat)

/-! ### Flipping a bit -/

theorem getLsbD_flip (b : UInt8) {k i : Nat} (hk : k < 8) :
    (b ^^^ 1 <<< UInt8.ofNat k).toBitVec.getLsbD i = if i = k then !b.toBitVec.getLsbD i else b.toBitVec.getLsbD i := by
  have hmask : (1 <<< UInt8.ofNat k : UInt8).toBitVec = BitVec.twoPow 8 k := by
    match k, hk with
    | 0, _ | 1, _ | 2, _ | 3, _ | 4, _ | 5, _ | 6, _ | 7, _ => rfl
  rw [UInt8.toBitVec_xor, hmask, BitVec.getLsbD_xor, BitVec.getLsbD_twoPow, decide_eq_true hk, Bool.true_and]
  by_cases h : i = k
  · rw [if_pos h, decide_eq_true h.symm, Bool.xor_true]
  · rw [if_neg h, decide_eq_false (Ne.symm h), Bool.xor_false]

theorem flipBit_apply (base p i : Nat) : flipBit m base p i =
    if i = base + p / 8 then m i ^^^ 1 <<< UInt8.ofNat (p % 8) else m i := by
  rw [flipBit, Memory.store_apply]
  by_cases h : i = base + p / 8
  · subst h
    simp
  · rw [if_neg h, dif_neg]
    simp only [List.length_cons, List.length_nil]
    omega

theorem blockBit_flipBit (base p : Nat) : blockBit (flipBit m base p) base = flip (blockBit m base) p := by
  funext i
  rw [blockBit, flipBit_apply]
  by_cases hbyte : i / 8 = p / 8
  · rw [if_pos (by rw [hbyte]), getLsbD_flip _ (Nat.mod_lt _ (by decide))]
    by_cases hbit : i % 8 = p % 8
    · have hi : i = p := by omega
      rw [if_pos hbit, hi, flip_self, blockBit]
    · have hi : i ≠ p := fun h => hbit (by rw [h])
      rw [if_neg hbit, flip_of_ne _ hi, blockBit]
  · have hi : i ≠ p := fun h => hbyte (by rw [h])
    rw [if_neg (by omega), flip_of_ne _ hi, blockBit]

theorem flipBit_flipBit (base p : Nat) : flipBit (flipBit m base p) base p = m := by
  funext i
  rw [flipBit_apply, flipBit_apply]
  split
  · rw [UInt8.xor_assoc, UInt8.xor_self, UInt8.xor_zero]
  · rfl

/-! ### Codes as words of 24 bits -/

theorem loadCode_bits {q : Nat} (hq : q < 24) : (loadCode codes code).bits q = blockBit codes code q := by
  rw [Code256.bits, blockBit]
  by_cases h8 : q < 8
  · rw [if_pos h8, show q / 8 = 0 by omega, show q % 8 = q by omega]
    rfl
  rw [if_neg h8]
  by_cases h16 : q < 16
  · rw [if_pos h16, show q / 8 = 1 by omega, show q % 8 = q - 8 by omega]
    rfl
  · rw [if_neg h16, show q / 8 = 2 by omega, show q % 8 = q - 16 by omega]
    rfl

theorem bits_xor (c c' : Code256) (q : Nat) : (c.xor c').bits q = (c.bits q ^^ c'.bits q) := by
  rw [Code256.bits, Code256.bits, Code256.bits]
  split
  · exact BitVec.getLsbD_xor
  · split
    · exact BitVec.getLsbD_xor
    · exact BitVec.getLsbD_xor

theorem spread_xor (odd even odd' even' : BitVec 11) (q : Nat) :
    spread (odd ^^^ odd') (even ^^^ even') q = (spread odd even q ^^ spread odd' even' q) := by
  have hcheck : ∀ k, (if q % 2 = 1 then odd ^^^ odd' else even ^^^ even').getLsbD k =
      ((if q % 2 = 1 then odd else even).getLsbD k ^^ (if q % 2 = 1 then odd' else even').getLsbD k) := by
    intro k
    split
    · exact BitVec.getLsbD_xor
    · exact BitVec.getLsbD_xor
  simp only [spread, hcheck]
  split
  · rfl
  · split
    · rfl
    · cases decide (18 ≤ q) <;> rfl

theorem bits_eq_zero_iff (c : Code256) :
    c.line1 = 0 ∧ c.line2 = 0 ∧ c.column = 0 ↔ weight c.bits 24 = 0 := by
  have hbyte : ∀ b : UInt8, b = 0 ↔ weight b.toBitVec.getLsbD 8 = 0 := by
    intro b
    constructor
    · rintro rfl
      decide
    · intro hzero
      rw [← UInt8.toBitVec_inj]
      apply BitVec.eq_of_getLsbD_eq
      intro i hi
      rw [UInt8.toBitVec_zero, BitVec.getLsbD_zero]
      exact eq_false_of_weight_eq_zero hzero hi
  rw [hbyte, hbyte, hbyte, weight_bits]
  omega

/-! ### The correction code -/

/-- The correction code of `verify256`. -/
abbrev correction : Code256 := (compute256 m data).xor (loadCode codes code)

theorem count_eq_iff (c : Code256) {n : Nat} (hn : n ≤ 24) :
    countBitsInCode256 c = UInt32.ofNat n ↔ weight c.bits 24 = n := by
  have hle : weight c.bits 24 ≤ 24 := by
    have := weight_add_weight_not c.bits 24
    omega
  rw [countBitsInCode256_eq, ← UInt32.toNat_inj, UInt32.toNat_ofNat', UInt32.toNat_ofNat']
  omega

variable {m codes data code}

/-- The verdict is read off the number of bits in which the codes differ. -/
theorem verify256_eq : verify256 m data codes code =
    if weight (correction m codes data code).bits 24 = 0 then (0, m)
    else if weight (correction m codes data code).bits 24 = 11 then
      (hammingErrorSingleBit, m.store (data + (wrongByte (correction m codes data code)).toNat)
        [m (data + (wrongByte (correction m codes data code)).toNat) ^^^ 1 <<< wrongBit (correction m codes data code)])
    else if weight (correction m codes data code).bits 24 = 1 then (hammingErrorEcc, m)
    else (hammingErrorMultipleBits, m) := by
  have heleven : countBitsInCode256 (correction m codes data code) = 11 ↔ _ := count_eq_iff _ (n := 11) (by decide)
  have hone : countBitsInCode256 (correction m codes data code) = 1 ↔ _ := count_eq_iff _ (n := 1) (by decide)
  simp only [verify256, bits_eq_zero_iff, heleven, hone]

theorem verify256_none (h : weight (correction m codes data code).bits 24 = 0) :
    verify256 m data codes code = (0, m) := by
  rw [verify256_eq, if_pos h]

theorem verify256_ecc (h : weight (correction m codes data code).bits 24 = 1) :
    verify256 m data codes code = (hammingErrorEcc, m) := by
  rw [verify256_eq, if_neg (by omega), if_neg (by omega), if_pos h]

theorem verify256_multiple (hnone : weight (correction m codes data code).bits 24 ≠ 0)
    (hecc : weight (correction m codes data code).bits 24 ≠ 1)
    (hsingle : weight (correction m codes data code).bits 24 ≠ 11) :
    verify256 m data codes code = (hammingErrorMultipleBits, m) := by
  rw [verify256_eq, if_neg hnone, if_neg hsingle, if_neg hecc]

/-- Eleven wrong check bits in one pattern: the odd ones are the address of the bit that is put right. -/
theorem verify256_single {a : BitVec 11} (h : ∀ q < 24, (correction m codes data code).bits q = spread a (~~~ a) q) :
    verify256 m data codes code = (hammingErrorSingleBit, flipBit m data a.toNat) := by
  have hweight : weight (correction m codes data code).bits 24 = 11 := by
    rw [weight_congr h, weight_spread, checkWeight_address]
  have hbyte : (wrongByte (correction m codes data code)).toNat = a.toNat / 8 := by
    have ha := a.isLt
    rw [← UInt8.toNat_toBitVec, wrongByte_eq h, byteOf, BitVec.extractLsb'_toNat, Nat.shiftRight_eq_div_pow]
    omega
  have hbit : wrongBit (correction m codes data code) = UInt8.ofNat (a.toNat % 8) := by
    rw [← UInt8.toNat_inj, ← UInt8.toNat_toBitVec, wrongBit_eq h, bitOf, BitVec.toNat_setWidth, BitVec.toNat_setWidth,
      UInt8.toNat_ofNat']
  rw [verify256_eq, if_neg (by omega), if_pos hweight, hbyte, hbit, flipBit]

/-! ### The flips -/

/-- What a flip adds to the sum of the addresses. -/
def Flip.odd : Flip → BitVec 11
  | .data p => BitVec.ofNat 11 p
  | .code _ => 0#11

def Flip.even : Flip → BitVec 11
  | .data p => ~~~ BitVec.ofNat 11 p
  | .code _ => 0#11

/-- The bits of the code that a flip inverts. -/
def Flip.change : Flip → Nat → Bool
  | .data _, _ => false
  | .code q, i => decide (i = q)

/-- The block's check sums are off by these words from those the code was computed from, and the code by these bits. -/
structure Off (m₀ : Memory) (data code : Nat) (s : Memory × Memory) (odd even : BitVec 11) (change : Nat → Bool) : Prop where
  odd : oddCheck 11 (blockBit s.1 data) 2048 = oddCheck 11 (blockBit m₀ data) 2048 ^^^ odd
  even : evenCheck 11 (blockBit s.1 data) 2048 = evenCheck 11 (blockBit m₀ data) 2048 ^^^ even
  code : ∀ q < 24, (loadCode s.2 code).bits q = ((compute256 m₀ data).bits q ^^ change q)

theorem Off.start (hcode : loadCode codes code = compute256 m data) :
    Off m data code (m, codes) 0#11 0#11 fun _ => false where
  odd := BitVec.xor_zero.symm
  even := BitVec.xor_zero.symm
  code q _ := by rw [hcode, Bool.xor_false]

theorem loadCode_flipBit (q : Fin 24) {i : Nat} (hi : i < 24) :
    (loadCode (flipBit codes code q) code).bits i = ((loadCode codes code).bits i ^^ decide (i = q)) := by
  rw [loadCode_bits _ _ hi, loadCode_bits _ _ hi, blockBit_flipBit]
  by_cases h : i = q
  · rw [h, flip_self, decide_eq_true rfl, Bool.xor_true]
  · rw [flip_of_ne _ h, decide_eq_false h, Bool.xor_false]

theorem Off.apply {m₀ : Memory} {s : Memory × Memory} {odd even : BitVec 11} {change : Nat → Bool}
    (h : Off m₀ data code s odd even change) (f : Flip) :
    Off m₀ data code (f.apply data code s) (odd ^^^ f.odd) (even ^^^ f.even) fun q => change q ^^ f.change q := by
  cases f with
  | data p =>
      refine ⟨?_, ?_, fun q hq => ?_⟩
      · rw [← BitVec.xor_assoc, ← h.odd]
        exact blockBit_flipBit s.1 data p ▸ oddCheck_flip _ p.isLt
      · rw [← BitVec.xor_assoc, ← h.even]
        exact blockBit_flipBit s.1 data p ▸ evenCheck_flip _ p.isLt
      · rw [Flip.change, Bool.xor_false]
        exact h.code q hq
  | code q =>
      refine ⟨?_, ?_, fun i hi => ?_⟩
      · rw [Flip.odd, BitVec.xor_zero]
        exact h.odd
      · rw [Flip.even, BitVec.xor_zero]
        exact h.even
      · rw [← Bool.xor_assoc, ← h.code i hi]
        exact loadCode_flipBit q hi

theorem Off.correction_bits {m₀ : Memory} {s : Memory × Memory} {odd even : BitVec 11} {change : Nat → Bool}
    (h : Off m₀ data code s odd even change) :
    ∀ q < 24, (correction s.1 s.2 data code).bits q = (spread odd even q ^^ change q) := by
  intro q hq
  rw [bits_xor, compute256_bits s.1 data hq, h.code q hq, compute256_bits m₀ data hq, h.odd, h.even, spread_xor]
  cases spread (oddCheck 11 (blockBit m₀ data) 2048) (evenCheck 11 (blockBit m₀ data) 2048) q <;>
    cases spread odd even q <;> cases change q <;> rfl

theorem spread_zero (q : Nat) : spread 0#11 0#11 q = false := by simp [spread]

theorem xor_decide_eq_flip (d : Nat → Bool) (q i : Nat) : (d i ^^ decide (i = q)) = flip d q i := by
  by_cases h : i = q
  · rw [h, flip_self, decide_eq_true rfl, Bool.xor_true]
  · rw [flip_of_ne _ h, decide_eq_false h, Bool.xor_false]

theorem address_toNat (p : Fin 2048) : (BitVec.ofNat 11 p.val).toNat = p := by
  rw [BitVec.toNat_ofNat]
  exact Nat.mod_eq_of_lt p.isLt

theorem address_ne {p p' : Fin 2048} (h : p ≠ p') : BitVec.ofNat 11 p.val ≠ BitVec.ofNat 11 p'.val := by
  intro heq
  have := congrArg BitVec.toNat heq
  rw [address_toNat, address_toNat] at this
  exact h (Fin.ext this)

theorem weight_flip_false (q : Fin 24) : weight (flip (fun _ => false) q) 24 = 1 := by
  have := weight_flip (fun _ => false) q.isLt
  rw [weight_zero] at this
  exact this

/-- **One flip** is found: a bit of the data is put right, one of the code is reported. -/
theorem verify256_one_flip (hcode : loadCode codes code = compute256 m data) (f : Flip) :
    verify256 (f.apply data code (m, codes)).1 data (f.apply data code (m, codes)).2 code =
      match f with
      | .data _ => (hammingErrorSingleBit, m)
      | .code _ => (hammingErrorEcc, m) := by
  have hbits := ((Off.start hcode).apply f).correction_bits
  cases f with
  | data p =>
      have hspread : ∀ q < 24, (correction (flipBit m data p) codes data code).bits q =
          spread (BitVec.ofNat 11 p) (~~~ BitVec.ofNat 11 p) q := by
        intro q hq
        have := hbits q hq
        rwa [Flip.odd, Flip.even, Flip.change, BitVec.zero_xor, BitVec.zero_xor, Bool.xor_false, Bool.xor_false] at this
      have hsingle := verify256_single hspread
      rwa [address_toNat, flipBit_flipBit] at hsingle
  | code q =>
      have hflip : ∀ i < 24, (correction m (flipBit codes code q) data code).bits i = flip (fun _ => false) q i := by
        intro i hi
        have := hbits i hi
        rwa [Flip.odd, Flip.even, Flip.change, BitVec.xor_zero, spread_zero, Bool.false_xor, Bool.false_xor,
          ← Bool.false_xor (decide (i = q.val)), xor_decide_eq_flip (fun _ => false)] at this
      have hone := weight_congr hflip
      rw [weight_flip_false] at hone
      exact verify256_ecc hone

theorem weight_both (p : Fin 2048) (q : Fin 24) {bits : Nat → Bool}
    (h : ∀ i < 24, bits i = (spread (BitVec.ofNat 11 p) (~~~ BitVec.ofNat 11 p) i ^^ decide (i = q.val))) :
    weight bits 24 = 10 ∨ weight bits 24 = 12 := by
  have hflip : weight bits 24 = weight (flip (spread (BitVec.ofNat 11 p) (~~~ BitVec.ofNat 11 p)) q) 24 := by
    apply weight_congr
    intro i hi
    rw [h i hi, xor_decide_eq_flip]
  have hone := weight_flip (spread (BitVec.ofNat 11 p) (~~~ BitVec.ofNat 11 p)) q.isLt
  rw [weight_spread, checkWeight_address] at hone
  rw [hflip]
  cases hbit : spread (BitVec.ofNat 11 p) (~~~ BitVec.ofNat 11 p) q.val with
  | false =>
      rw [hbit, Bool.toNat_false, Bool.not_false, Bool.toNat_true] at hone
      omega
  | true =>
      rw [hbit, Bool.toNat_true, Bool.not_true, Bool.toNat_false] at hone
      omega

theorem weight_two_flips {f g : Flip} (hne : f ≠ g) {bits : Nat → Bool}
    (h : ∀ q < 24, bits q = (spread (f.odd ^^^ g.odd) (f.even ^^^ g.even) q ^^ (f.change q ^^ g.change q))) :
    weight bits 24 ≠ 0 ∧ weight bits 24 ≠ 1 ∧ weight bits 24 ≠ 11 := by
  cases f with
  | data p =>
      cases g with
      | data p' =>
          obtain ⟨k, hk, hweight⟩ := checkWeight_addresses (address_ne fun h => hne (congrArg Flip.data h))
          have htwice : weight bits 24 = 2 * k := by
            rw [weight_congr h, ← hweight, ← weight_spread]
            apply weight_congr
            intro q _
            rw [Flip.change, Flip.change, Bool.xor_false, Bool.xor_false]
            rfl
          omega
      | code q =>
          simp only [Flip.odd, Flip.even, Flip.change, BitVec.xor_zero, Bool.false_xor] at h
          have := weight_both p q h
          omega
  | code q =>
      cases g with
      | data p =>
          simp only [Flip.odd, Flip.even, Flip.change, BitVec.zero_xor, Bool.xor_false] at h
          have := weight_both p q h
          omega
      | code q' =>
          have hqq : q'.val ≠ q.val := fun h => hne (congrArg Flip.code (Fin.ext h.symm))
          have htwo := weight_flip (flip (fun _ => false) q) q'.isLt
          rw [flip_of_ne _ hqq, weight_flip_false, Bool.toNat_false, Bool.not_false, Bool.toNat_true] at htwo
          have hbits : weight bits 24 = weight (flip (flip (fun _ => false) q) q') 24 := by
            apply weight_congr
            intro i hi
            rw [h i hi, ← xor_decide_eq_flip, ← xor_decide_eq_flip, Bool.false_xor]
            simp only [Flip.odd, Flip.even, Flip.change, BitVec.xor_zero, spread_zero, Bool.false_xor]
          omega

/-- **Two flips** are found, and are not taken for one: the data stay as they were read. -/
theorem verify256_two_flips (hcode : loadCode codes code = compute256 m data) {f g : Flip} (hne : f ≠ g) :
    verify256 (g.apply data code (f.apply data code (m, codes))).1 data
        (g.apply data code (f.apply data code (m, codes))).2 code =
      (hammingErrorMultipleBits, (g.apply data code (f.apply data code (m, codes))).1) := by
  have hbits := (((Off.start hcode).apply f).apply g).correction_bits
  simp only [BitVec.zero_xor, Bool.false_xor] at hbits
  obtain ⟨hnone, hecc, hsingle⟩ := weight_two_flips hne hbits
  exact verify256_multiple hnone hecc hsingle

end ContikiAtsam.Nand
