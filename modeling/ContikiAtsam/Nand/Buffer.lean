import ContikiAtsam.Nand.Verify
import Mathlib.Data.List.Basic

/-!
# Whole buffers

`hamming_compute_256x` and `hamming_verify_256x` go through a buffer block by block. They return only if the size is a multiple of a block: any other size steps past zero. Verifying puts right every block that has one wrong bit of data, up to the first block that it cannot put right; that block and those after it are left as they were read, and they are not looked at.
-/

namespace ContikiAtsam.Nand

variable {m codes : Memory} {data code : Nat}

/-! ### Only the block matters -/

theorem lineSums_congr {m' : Memory} (h : ∀ i < 256, m' (data + i) = m (data + i)) :
    lineSums m' data = lineSums m data := by
  apply List.foldl_ext
  intro s i hi
  rw [lineTurn, lineTurn, h i (List.mem_range.mp hi)]

theorem compute256_congr {m' : Memory} (h : ∀ i < 256, m' (data + i) = m (data + i)) :
    compute256 m' data = compute256 m data := by
  rw [compute256, compute256, lineSums_congr h]

theorem verify256_frame {m' codes' : Memory} (h : ∀ i < 256, m' (data + i) = m (data + i))
    (hcode : loadCode codes' code = loadCode codes code) :
    (verify256 m' data codes' code).1 = (verify256 m data codes code).1 ∧
      ∀ i, (verify256 m' data codes' code).2 i =
        if data ≤ i ∧ i < data + 256 then (verify256 m data codes code).2 i else m' i := by
  have hsame : ∀ i, m' i = if data ≤ i ∧ i < data + 256 then m i else m' i := by
    intro i
    split
    · rename_i hi
      have := h (i - data) (by omega)
      rwa [Nat.add_sub_cancel' hi.1] at this
    · rfl
  unfold verify256
  rw [compute256_congr h, hcode]
  dsimp only
  split
  · exact ⟨rfl, hsame⟩
  · split
    · refine ⟨rfl, fun i => ?_⟩
      have hbyte := (wrongByte ((compute256 m data).xor (loadCode codes code))).toNat_lt
      dsimp only
      rw [h _ hbyte, Memory.store_apply, Memory.store_apply]
      simp only [List.length_cons, List.length_nil]
      split
      · rw [if_pos (by omega)]
      · exact hsame i
    · split
      · exact ⟨rfl, hsame⟩
      · exact ⟨rfl, hsame⟩

/-! ### The size -/

theorem ofNat_sub_block {n : Nat} (hpos : 0 < n) (hn : 256 * n < 4294967296) :
    UInt32.ofNat (256 * n) - 256 = UInt32.ofNat (256 * (n - 1)) := by
  have hsub : UInt32.ofNat (256 * n) - UInt32.ofNat 256 = UInt32.ofNat (256 * n - 256) :=
    (UInt32.ofNat_sub (by omega)).symm
  rw [show (256 : UInt32) = UInt32.ofNat 256 from rfl, hsub, Nat.mul_sub, Nat.mul_one]

theorem ofNat_block_pos {n : Nat} (hpos : 0 < n) (hn : 256 * n < 4294967296) : UInt32.ofNat (256 * n) > 0 := by
  rw [gt_iff_lt, UInt32.lt_iff_toNat_lt, UInt32.toNat_ofNat']
  change 0 < _
  omega

/-- A size that is no multiple of a block never becomes zero. -/
theorem size_turn {size : UInt32} (h : ¬ 256 ∣ size.toNat) : size > 0 ∧ ¬ 256 ∣ (size - 256).toNat := by
  have hlt := size.toNat_lt
  constructor
  · rw [gt_iff_lt, UInt32.lt_iff_toNat_lt]
    change 0 < _
    omega
  · rw [UInt32.toNat_sub]
    change ¬ 256 ∣ (2 ^ 32 - 256 + size.toNat) % 2 ^ 32
    omega

/-! ### Computing -/

theorem hammingCompute256x_endless (fuel : Nat) (s : ComputeState) (h : ¬ 256 ∣ s.size.toNat) :
    Loop.run (computeTurn m) fuel s = none := by
  induction fuel generalizing s with
  | zero => rfl
  | succ fuel ih =>
      obtain ⟨hpos, hnext⟩ := size_turn h
      have hturn : computeTurn m s = .again ⟨s.data + 256, s.size - 256,
          s.codes.store s.code (compute256 m s.data).toList, s.code + 3⟩ := if_pos hpos
      rw [Loop.run_again hturn]
      exact ih _ hnext

theorem loadCode_store_self (codes : Memory) (c : Code256) : loadCode (codes.store code c.toList) code = c := by
  have hbytes : ∀ i (hi : i < c.toList.length), codes.store code c.toList (code + i) = c.toList[i] :=
    fun i hi => Memory.store_of_inside hi
  have hline1 := hbytes 0 (Nat.zero_lt_succ 2)
  have hline2 := hbytes 1 (Nat.succ_lt_succ (Nat.zero_lt_succ 1))
  have hcolumn := hbytes 2 (Nat.lt_succ_self 2)
  rw [Nat.add_zero] at hline1
  rw [loadCode, hline1, hline2, hcolumn]
  rfl

theorem loadCode_store_of_ne (codes : Memory) (c : Code256) {code' : Nat} (h : code' + 3 ≤ code ∨ code + 3 ≤ code') :
    loadCode (codes.store code c.toList) code' = loadCode codes code' := by
  have hlength : c.toList.length = 3 := rfl
  rw [loadCode, loadCode, Memory.store_of_outside (by omega), Memory.store_of_outside (by omega),
    Memory.store_of_outside (by omega)]

/-- The memory for the codes after some blocks. -/
structure Computed (m : Memory) (data code n : Nat) (codes codes' : Memory) : Prop where
  stored : ∀ k < n, loadCode codes' (code + 3 * k) = compute256 m (data + 256 * k)
  outside : ∀ i, i < code ∨ code + 3 * n ≤ i → codes' i = codes i

theorem hammingCompute256x_blocks (m codes : Memory) (data code : Nat) {n : Nat} (hn : 256 * n < 4294967296) :
    ∃ codes', Computed m data code n codes codes' ∧
      ∀ fuel > n, hammingCompute256x fuel m data (UInt32.ofNat (256 * n)) codes code = some codes' := by
  have hrun : ∀ j ≤ n, ∃ codes', Computed m data code j codes codes' ∧ ∀ fuel,
      hammingCompute256x (fuel + j) m data (UInt32.ofNat (256 * n)) codes code =
        Loop.run (computeTurn m) fuel ⟨data + 256 * j, UInt32.ofNat (256 * (n - j)), codes', code + 3 * j⟩ := by
    intro j hj
    induction j with
    | zero => exact ⟨codes, ⟨fun k hk => absurd hk (Nat.not_lt_zero k), fun _ _ => rfl⟩, fun _ => rfl⟩
    | succ j ih =>
        obtain ⟨codes', hcomputed, hturns⟩ := ih (by omega)
        have hpos := ofNat_block_pos (n := n - j) (by omega) (by omega)
        have hturn : computeTurn m ⟨data + 256 * j, UInt32.ofNat (256 * (n - j)), codes', code + 3 * j⟩ =
            .again ⟨data + 256 * (j + 1), UInt32.ofNat (256 * (n - (j + 1))),
              codes'.store (code + 3 * j) (compute256 m (data + 256 * j)).toList, code + 3 * (j + 1)⟩ := by
          rw [computeTurn, if_pos hpos, ofNat_sub_block (by omega) (by omega), Nat.sub_sub, Nat.mul_succ, Nat.mul_succ,
            Nat.add_assoc, Nat.add_assoc]
        refine ⟨codes'.store (code + 3 * j) (compute256 m (data + 256 * j)).toList,
          ⟨fun k hk => ?_, fun i hi => ?_⟩, fun fuel => ?_⟩
        · by_cases hlast : k = j
          · rw [hlast, loadCode_store_self]
          · rw [loadCode_store_of_ne _ _ (by omega), hcomputed.stored k (by omega)]
        · have hlength : (compute256 m (data + 256 * j)).toList.length = 3 := rfl
          rw [Memory.store_of_outside (by omega), hcomputed.outside i (by omega)]
        · rw [show fuel + (j + 1) = fuel + 1 + j by omega, hturns, Loop.run_again hturn]
  obtain ⟨codes', hcomputed, hturns⟩ := hrun n (Nat.le_refl n)
  refine ⟨codes', hcomputed, fun fuel hfuel => ?_⟩
  obtain ⟨rest, rfl⟩ : ∃ rest, fuel = rest + 1 + n := ⟨fuel - 1 - n, by omega⟩
  have hdone : ¬ UInt32.ofNat (256 * (n - n)) > 0 := by
    rw [Nat.sub_self]
    decide
  have hleave : computeTurn m ⟨data + 256 * n, UInt32.ofNat (256 * (n - n)), codes', code + 3 * n⟩ = .leave codes' :=
    if_neg hdone
  rw [hturns, Loop.run_leave hleave]

/-- **Computing codes** comes to an end exactly for sizes in whole blocks. -/
theorem hammingCompute256x_returns_iff (m codes : Memory) (data code : Nat) (size : UInt32) :
    (∃ fuel codes', hammingCompute256x fuel m data size codes code = some codes') ↔ 256 ∣ size.toNat := by
  constructor
  · rintro ⟨fuel, codes', hret⟩
    by_contra h
    rw [hammingCompute256x, hammingCompute256x_endless fuel _ h] at hret
    cases hret
  · rintro ⟨n, hn⟩
    have hlt := size.toNat_lt
    obtain ⟨codes', _, hret⟩ := hammingCompute256x_blocks m codes data code (n := n) (by omega)
    refine ⟨n + 1, codes', ?_⟩
    rw [← hret (n + 1) (by omega), ← hn, UInt32.ofNat_toNat]

/-! ### Verifying -/

/-- The block and its code with bits inverted one after the other. -/
def spoil (data code : Nat) (s : Memory × Memory) (flips : List Flip) : Memory × Memory :=
  flips.foldl (Flip.apply data code) s

/-- What is said of a block in which at most two bits have changed. -/
def verdict : List Flip → UInt32
  | [] => 0
  | [.data _] => hammingErrorSingleBit
  | [.code _] => hammingErrorEcc
  | _ => hammingErrorMultipleBits

/-- No bit has changed, or one of the data. -/
def Correctable (flips : List Flip) : Prop := verdict flips = 0 ∨ verdict flips = hammingErrorSingleBit

instance (flips : List Flip) : Decidable (Correctable flips) := inferInstanceAs (Decidable (_ ∨ _))

theorem verdict_eq_zero {flips : List Flip} (h : verdict flips = 0) : flips = [] := by
  match flips, h with
  | [], _ => rfl
  | [.data _], h => exact absurd h (show ¬ hammingErrorSingleBit = 0 by decide)
  | [.code _], h => exact absurd h (show ¬ hammingErrorEcc = 0 by decide)
  | .data _ :: _ :: _, h => exact absurd h (show ¬ hammingErrorMultipleBits = 0 by decide)
  | .code _ :: _ :: _, h => exact absurd h (show ¬ hammingErrorMultipleBits = 0 by decide)

theorem verify256_spoiled (hcode : loadCode codes code = compute256 m data) {flips : List Flip} (hnodup : flips.Nodup)
    (hfew : flips.length ≤ 2) :
    verify256 (spoil data code (m, codes) flips).1 data (spoil data code (m, codes) flips).2 code =
      (verdict flips, if Correctable flips then m else (spoil data code (m, codes) flips).1) := by
  match flips with
  | [] =>
      have hclean := (Off.start hcode).correction_bits
      have hzero : Hamming.weight (correction m codes data code).bits 24 = 0 := by
        rw [← Hamming.weight_zero 24]
        apply Hamming.weight_congr
        intro q hq
        rw [hclean q hq, spread_zero, Bool.xor_false]
      exact verify256_none hzero
  | [.data p] => exact verify256_one_flip hcode (.data p)
  | [.code q] => exact verify256_one_flip hcode (.code q)
  | [f, g] =>
      have hne : f ≠ g := by
        rintro rfl
        simp at hnodup
      have hverdict : verdict [f, g] = hammingErrorMultipleBits := by
        cases f <;> rfl
      have hnot : ¬ Correctable [f, g] := by
        unfold Correctable
        rw [hverdict]
        decide
      rw [if_neg hnot, hverdict]
      exact verify256_two_flips hcode hne
  | _ :: _ :: _ :: _ =>
      simp only [List.length_cons] at hfew
      omega

/-- A buffer of blocks and their codes, as they were written and as they are read back: in each block at most two bits have changed. -/
structure Spoiled (m codes m' codes' : Memory) (data code n : Nat) (flips : Nat → List Flip) : Prop where
  nodup : ∀ k < n, (flips k).Nodup
  few : ∀ k < n, (flips k).length ≤ 2
  stored : ∀ k < n, loadCode codes (code + 3 * k) = compute256 m (data + 256 * k)
  readData : ∀ k < n, ∀ i < 256, m' (data + 256 * k + i) =
    (spoil (data + 256 * k) (code + 3 * k) (m, codes) (flips k)).1 (data + 256 * k + i)
  readCode : ∀ k < n, loadCode codes' (code + 3 * k) =
    loadCode (spoil (data + 256 * k) (code + 3 * k) (m, codes) (flips k)).2 (code + 3 * k)

/-- The memory with the first blocks put right. -/
def repaired (m m' : Memory) (data k : Nat) : Memory := fun i => if data ≤ i ∧ i < data + 256 * k then m i else m' i

/-- The result as far as these blocks go. -/
def resultOf (flips : Nat → List Flip) (k : Nat) : UInt32 :=
  if ∀ i < k, flips i = [] then 0 else hammingErrorSingleBit

section Verifying

variable {m' codes' : Memory} {n : Nat} {flips : Nat → List Flip} (h : Spoiled m codes m' codes' data code n flips)
include h

theorem Spoiled.verify256 {k : Nat} (hk : k < n) :
    verify256 (repaired m m' data k) (data + 256 * k) codes' (code + 3 * k) =
      (verdict (flips k), if Correctable (flips k) then repaired m m' data (k + 1) else repaired m m' data k) := by
  have hblock : ∀ i < 256, repaired m m' data k (data + 256 * k + i) =
      (spoil (data + 256 * k) (code + 3 * k) (m, codes) (flips k)).1 (data + 256 * k + i) := by
    intro i hi
    rw [repaired, if_neg (by omega), h.readData k hk i hi]
  have hspoiled := verify256_spoiled (h.stored k hk) (h.nodup k hk) (h.few k hk)
  obtain ⟨hverdict, hmemory⟩ := verify256_frame hblock (h.readCode k hk)
  rw [hspoiled] at hverdict hmemory
  refine Prod.ext hverdict ?_
  funext i
  rw [hmemory i]
  by_cases hin : data + 256 * k ≤ i ∧ i < data + 256 * k + 256
  · rw [if_pos hin]
    by_cases hcorrectable : Correctable (flips k)
    · simp only [if_pos hcorrectable]
      rw [repaired, if_pos (by omega)]
    · simp only [if_neg hcorrectable]
      have hread := hblock (i - (data + 256 * k)) (by omega)
      rw [Nat.add_sub_cancel' hin.1] at hread
      exact hread.symm
  · rw [if_neg hin]
    by_cases hcorrectable : Correctable (flips k)
    · simp only [if_pos hcorrectable]
      rw [repaired, repaired]
      exact if_congr (by omega) rfl rfl
    · simp only [if_neg hcorrectable]

theorem Spoiled.turn {k : Nat} (hn : 256 * n < 4294967296) (hk : k < n) (hcorrectable : Correctable (flips k)) :
    verifyTurn codes' ⟨repaired m m' data k, data + 256 * k, UInt32.ofNat (256 * (n - k)), code + 3 * k, resultOf flips k⟩ =
      .again ⟨repaired m m' data (k + 1), data + 256 * (k + 1), UInt32.ofNat (256 * (n - (k + 1))), code + 3 * (k + 1),
        resultOf flips (k + 1)⟩ := by
  have hpos := ofNat_block_pos (n := n - k) (by omega) (by omega)
  have hsize := ofNat_sub_block (n := n - k) (by omega) (by omega)
  rw [verifyTurn, if_pos hpos, h.verify256 hk, if_pos hcorrectable]
  dsimp only
  rw [hsize, Nat.sub_sub, Nat.mul_succ, Nat.mul_succ, Nat.add_assoc, Nat.add_assoc]
  by_cases hclean : flips k = []
  · have hresult : resultOf flips (k + 1) = resultOf flips k := by
      refine if_congr ⟨fun hall i hi => hall i (by omega), fun hall i hi => ?_⟩ rfl rfl
      by_cases hlast : i = k
      · rw [hlast, hclean]
      · exact hall i (by omega)
    rw [hclean, hresult, if_neg (by decide), if_neg (by decide)]
  · have hsingle : verdict (flips k) = hammingErrorSingleBit :=
      hcorrectable.resolve_left fun hzero => hclean (verdict_eq_zero hzero)
    have hresult : resultOf flips (k + 1) = hammingErrorSingleBit :=
      if_neg fun hall => hclean (hall k (Nat.lt_succ_self k))
    rw [if_pos hsingle, hresult]

theorem Spoiled.turns (hn : 256 * n < 4294967296) {k : Nat} (hk : k ≤ n) (hbefore : ∀ j < k, Correctable (flips j))
    (fuel : Nat) : hammingVerify256x (fuel + k) m' data (UInt32.ofNat (256 * n)) codes' code =
      Loop.run (verifyTurn codes') fuel ⟨repaired m m' data k, data + 256 * k, UInt32.ofNat (256 * (n - k)), code + 3 * k,
        resultOf flips k⟩ := by
  induction k generalizing fuel with
  | zero =>
      have hnone : repaired m m' data 0 = m' := by
        funext i
        rw [repaired, if_neg (by omega)]
      rw [hnone]
      rfl
  | succ k ih =>
      have hturn := h.turn hn (by omega) (hbefore k (Nat.lt_succ_self k))
      rw [show fuel + (k + 1) = fuel + 1 + k by omega, ih (by omega) (fun j hj => hbefore j (by omega)),
        Loop.run_again hturn]

theorem Spoiled.all (hn : 256 * n < 4294967296) (hbefore : ∀ j < n, Correctable (flips j)) {fuel : Nat} (hfuel : n < fuel) :
    hammingVerify256x fuel m' data (UInt32.ofNat (256 * n)) codes' code = some (resultOf flips n, repaired m m' data n) := by
  obtain ⟨rest, rfl⟩ : ∃ rest, fuel = rest + 1 + n := ⟨fuel - 1 - n, by omega⟩
  have hdone : ¬ UInt32.ofNat (256 * (n - n)) > 0 := by
    rw [Nat.sub_self]
    decide
  have hleave : verifyTurn codes' ⟨repaired m m' data n, data + 256 * n, UInt32.ofNat (256 * (n - n)), code + 3 * n,
      resultOf flips n⟩ = .leave (resultOf flips n, repaired m m' data n) := if_neg hdone
  rw [h.turns hn (Nat.le_refl n) hbefore, Loop.run_leave hleave]

/-- Verifying stops at the first block that cannot be put right. -/
theorem Spoiled.stops (hn : 256 * n < 4294967296) {k : Nat} (hk : k < n) (hbefore : ∀ j < k, Correctable (flips j))
    (hbad : ¬ Correctable (flips k)) {fuel : Nat} (hfuel : n < fuel) :
    hammingVerify256x fuel m' data (UInt32.ofNat (256 * n)) codes' code =
      some (verdict (flips k), repaired m m' data k) := by
  obtain ⟨rest, rfl⟩ : ∃ rest, fuel = rest + 1 + k := ⟨fuel - 1 - k, by omega⟩
  have hpos := ofNat_block_pos (n := n - k) (by omega) (by omega)
  have hleave : verifyTurn codes' ⟨repaired m m' data k, data + 256 * k, UInt32.ofNat (256 * (n - k)), code + 3 * k,
      resultOf flips k⟩ = .leave (verdict (flips k), repaired m m' data k) := by
    rw [verifyTurn, if_pos hpos, h.verify256 hk, if_neg hbad]
    dsimp only
    rw [if_neg fun hsingle => hbad (.inr hsingle), if_pos fun hzero => hbad (.inl hzero)]
  rw [h.turns hn (Nat.le_of_lt hk) hbefore, Loop.run_leave hleave]

/-- **Verifying a buffer.** The blocks up to the first that cannot be put right are put right. If that is all of them, the result says whether any had to be; if not, it is what is wrong with the first that cannot be, and this block and all after it stay as they were read. -/
theorem hammingVerify256x_spoiled (hn : 256 * n < 4294967296) {k : Nat} (hk : k ≤ n)
    (hbefore : ∀ j < k, Correctable (flips j)) (hstop : k = n ∨ ¬ Correctable (flips k)) {fuel : Nat} (hfuel : n < fuel) :
    hammingVerify256x fuel m' data (UInt32.ofNat (256 * n)) codes' code =
      some (if k = n then resultOf flips n else verdict (flips k), repaired m m' data k) := by
  by_cases hend : k = n
  · subst hend
    rw [h.all hn hbefore hfuel, if_pos rfl]
  · rw [h.stops hn (by omega) hbefore (hstop.resolve_left hend) hfuel, if_neg hend]

end Verifying

/-- Two blocks of zeros and their codes: one wrong bit in the first, two in the second. -/
theorem hammingVerify256x_spoiled_zeros : ∃ codes, hammingCompute256x 3 (fun _ => 0) 0 512 (fun _ => 0) 0 = some codes ∧
    hammingVerify256x 3 (repaired (flipBit (fun _ => 0) 0 5) (flipBit (flipBit (fun _ => 0) 256 0) 256 9) 0 1) 0 512 codes 0 =
      some (hammingErrorMultipleBits, repaired (fun _ => 0)
        (repaired (flipBit (fun _ => 0) 0 5) (flipBit (flipBit (fun _ => 0) 256 0) 256 9) 0 1) 0 1) := by
  obtain ⟨codes, hcomputed, hret⟩ := hammingCompute256x_blocks (fun _ => 0) (fun _ => 0) 0 0 (show 256 * 2 < 4294967296 by decide)
  refine ⟨codes, hret 3 (by decide), ?_⟩
  have hspoiled : Spoiled (fun _ => 0) codes
      (repaired (flipBit (fun _ => 0) 0 5) (flipBit (flipBit (fun _ => 0) 256 0) 256 9) 0 1) codes 0 0 2
      fun k => if k = 0 then [.data 5] else [.data 0, .data 9] := by
    refine ⟨fun k _ => ?_, fun k _ => ?_, hcomputed.stored, fun k hk i hi => ?_, fun k hk => ?_⟩
    · split <;> decide
    · split <;> decide
    · obtain rfl | rfl : k = 0 ∨ k = 1 := by omega
      · exact if_pos (by omega)
      · exact if_neg (by omega)
    · obtain rfl | rfl : k = 0 ∨ k = 1 := by omega
      · rfl
      · rfl
  have hfirst : ∀ j < 1, Correctable (if j = 0 then [Flip.data 5] else [.data 0, .data 9]) := by
    intro j hj
    rw [if_pos (by omega)]
    exact .inr rfl
  exact hammingVerify256x_spoiled hspoiled (by decide) (by decide) hfirst (.inr (by decide)) (by decide)

end ContikiAtsam.Nand
