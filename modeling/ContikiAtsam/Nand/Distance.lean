import ContikiAtsam.Nand.Buffer

/-!
# What is never accepted

Two blocks with their codes differ in at least four bits. So a block in which one, two or three bits have changed, of its data or of its code, is never taken for one that is as it was written. Three wrong bits of data can still be taken for one, which `verify256` then inverts as well.
-/

open ContikiAtsam.Hamming

namespace ContikiAtsam.Nand

def Flip.isData : Flip → Bool
  | .data _ => true
  | .code _ => false

/-- The sums of what the flips of a list add, and the bits of the code that they invert. -/
def oddOf (flips : List Flip) : BitVec 11 := flips.foldr (fun f sum => f.odd ^^^ sum) 0#11

def evenOf (flips : List Flip) : BitVec 11 := flips.foldr (fun f sum => f.even ^^^ sum) 0#11

def changeOf (flips : List Flip) (q : Nat) : Bool := flips.foldr (fun f c => f.change q ^^ c) false

variable {flips : List Flip}

theorem oddOf_cons (f : Flip) : oddOf (f :: flips) = f.odd ^^^ oddOf flips := rfl

theorem evenOf_cons (f : Flip) : evenOf (f :: flips) = f.even ^^^ evenOf flips := rfl

theorem changeOf_cons (f : Flip) (q : Nat) : changeOf (f :: flips) q = (f.change q ^^ changeOf flips q) := rfl

/-! ### The patterns of a list of flips -/

/-- The sums are complements after an odd number of flips of the data, and equal after an even number. -/
theorem evenOf_eq (flips : List Flip) :
    evenOf flips = if flips.countP Flip.isData % 2 = 1 then ~~~ oddOf flips else oddOf flips := by
  induction flips with
  | nil => rfl
  | cons f flips ih =>
      rw [evenOf_cons, oddOf_cons, ih, List.countP_cons]
      cases f with
      | code q =>
          simp only [Flip.odd, Flip.even, Flip.isData, Bool.false_eq_true, if_false, Nat.add_zero, BitVec.zero_xor]
      | data p =>
          simp only [Flip.odd, Flip.even, Flip.isData, if_true]
          rcases Nat.mod_two_eq_zero_or_one (flips.countP Flip.isData) with heven | hodd
          · rw [if_neg (by omega), if_pos (by omega)]
            exact BitVec.not_xor_left.symm
          · rw [if_pos hodd, if_neg (by omega)]
            exact not_xor_not _ _

theorem oddOf_of_none (h : flips.countP Flip.isData = 0) : oddOf flips = 0#11 := by
  induction flips with
  | nil => rfl
  | cons f flips ih =>
      rw [List.countP_cons] at h
      cases f with
      | code q => rw [oddOf_cons, ih (by omega), Flip.odd, BitVec.xor_zero]
      | data p => simp [Flip.isData] at h

theorem oddOf_of_one (h : flips.countP Flip.isData = 1) : ∃ p, Flip.data p ∈ flips ∧ oddOf flips = BitVec.ofNat 11 p := by
  induction flips with
  | nil => cases h
  | cons f flips ih =>
      rw [List.countP_cons] at h
      cases f with
      | code q =>
          obtain ⟨p, hp, hodd⟩ := ih (by simpa [Flip.isData] using h)
          exact ⟨p, List.mem_cons_of_mem _ hp, by rw [oddOf_cons, hodd, Flip.odd, BitVec.zero_xor]⟩
      | data p =>
          have hnone : oddOf flips = 0#11 := oddOf_of_none (by simpa [Flip.isData] using h)
          exact ⟨p, List.mem_cons_self, by rw [oddOf_cons, hnone, Flip.odd, BitVec.xor_zero]⟩

theorem oddOf_of_two (hnodup : flips.Nodup) (h : flips.countP Flip.isData = 2) :
    ∃ a b : BitVec 11, a ≠ b ∧ oddOf flips = a ^^^ b := by
  induction flips with
  | nil => cases h
  | cons f flips ih =>
      rw [List.countP_cons] at h
      obtain ⟨hnotin, hrest⟩ := List.nodup_cons.mp hnodup
      cases f with
      | code q =>
          obtain ⟨a, b, hne, hodd⟩ := ih hrest (by simpa [Flip.isData] using h)
          exact ⟨a, b, hne, by rw [oddOf_cons, hodd, Flip.odd, BitVec.zero_xor]⟩
      | data p =>
          have hone : flips.countP Flip.isData = 1 := by simpa [Flip.isData] using h
          obtain ⟨p', hp', hodd⟩ := oddOf_of_one hone
          have hne : p ≠ p' := by
            rintro rfl
            exact hnotin hp'
          exact ⟨_, _, address_ne hne, by rw [oddOf_cons, hodd, Flip.odd]⟩

theorem weight_changeOf_le (flips : List Flip) :
    weight (changeOf flips) 24 + flips.countP Flip.isData ≤ flips.length := by
  induction flips with
  | nil => exact Nat.le_of_eq (weight_zero 24)
  | cons f flips ih =>
      rw [List.countP_cons, List.length_cons]
      cases f with
      | data p =>
          have hsame : weight (changeOf (Flip.data p :: flips)) 24 = weight (changeOf flips) 24 :=
            weight_congr fun q _ => Bool.false_xor _
          rw [hsame, Flip.isData, if_pos rfl]
          omega
      | code q =>
          have hflip : weight (changeOf (Flip.code q :: flips)) 24 = weight (flip (changeOf flips) q) 24 := by
            apply weight_congr
            intro i _
            rw [changeOf_cons, Flip.change, Bool.xor_comm, xor_decide_eq_flip]
          have hone := weight_flip (changeOf flips) q.isLt
          rw [hflip, Flip.isData, if_neg Bool.false_ne_true]
          cases hbit : changeOf flips q.val with
          | false =>
              rw [hbit, Bool.toNat_false, Bool.not_false, Bool.toNat_true] at hone
              omega
          | true =>
              rw [hbit, Bool.toNat_true, Bool.not_true, Bool.toNat_false] at hone
              omega

theorem changeOf_of_notMem {q : Fin 24} (h : Flip.code q ∉ flips) : changeOf flips q = false := by
  induction flips with
  | nil => rfl
  | cons f flips ih =>
      obtain ⟨hne, hnotin⟩ := not_or.mp fun hor => h (List.mem_cons.mpr hor)
      rw [changeOf_cons, ih hnotin, Bool.xor_false]
      cases f with
      | data p => rfl
      | code q' => exact decide_eq_false fun heq => hne (congrArg Flip.code (Fin.ext heq))

theorem exists_change (hnodup : flips.Nodup) (hcodes : flips.countP Flip.isData = 0) (hne : flips ≠ []) :
    ∃ q < 24, changeOf flips q = true := by
  cases flips with
  | nil => exact absurd rfl hne
  | cons f flips =>
      cases f with
      | data p => simp [Flip.isData] at hcodes
      | code q =>
          refine ⟨q, q.isLt, ?_⟩
          rw [changeOf_cons, changeOf_of_notMem (List.nodup_cons.mp hnodup).1, Flip.change, decide_eq_true rfl]
          rfl

theorem pattern_ne (hnodup : flips.Nodup) (hfew : flips.length ≤ 3) (hne : flips ≠ [])
    (hcancel : ∀ q < 24, spread (oddOf flips) (evenOf flips) q = changeOf flips q) : False := by
  have hle := weight_changeOf_le flips
  have hweight : checkWeight (oddOf flips) (evenOf flips) = weight (changeOf flips) 24 := by
    rw [← weight_spread]
    exact weight_congr hcancel
  have heven := evenOf_eq flips
  rcases Nat.mod_two_eq_zero_or_one (flips.countP Flip.isData) with hmod | hmod
  · rw [if_neg (by omega)] at heven
    by_cases hnone : flips.countP Flip.isData = 0
    · obtain ⟨q, hq, hchange⟩ := exists_change hnodup hnone hne
      have hzero := hcancel q hq
      rw [heven, oddOf_of_none hnone, spread_zero, hchange] at hzero
      cases hzero
    · obtain ⟨a, b, hab, hodd⟩ := oddOf_of_two hnodup (show flips.countP Flip.isData = 2 by omega)
      obtain ⟨k, hk, htwice⟩ := checkWeight_addresses hab
      rw [heven, hodd] at hweight
      rw [not_xor_not] at htwice
      omega
  · rw [if_pos hmod] at heven
    rw [heven, checkWeight_address] at hweight
    omega

/-! ### Accepting a block -/

variable {m codes : Memory} {data code : Nat}

theorem Off.spoil {m₀ : Memory} {s : Memory × Memory} {odd even : BitVec 11} {change : Nat → Bool}
    (h : Off m₀ data code s odd even change) (flips : List Flip) :
    Off m₀ data code (Nand.spoil data code s flips) (odd ^^^ oddOf flips) (even ^^^ evenOf flips)
      fun q => change q ^^ changeOf flips q := by
  induction flips generalizing s odd even change with
  | nil =>
      refine ⟨?_, ?_, fun q hq => ?_⟩
      · exact BitVec.xor_zero.symm ▸ h.odd
      · exact BitVec.xor_zero.symm ▸ h.even
      · exact (Bool.xor_false (change q)).symm ▸ h.code q hq
  | cons f flips ih =>
      have hrest := ih (h.apply f)
      refine ⟨?_, ?_, fun q hq => ?_⟩
      · rw [oddOf_cons, ← BitVec.xor_assoc odd]
        exact hrest.odd
      · rw [evenOf_cons, ← BitVec.xor_assoc even]
        exact hrest.even
      · rw [changeOf_cons, ← Bool.xor_assoc (change q)]
        exact hrest.code q hq

theorem verify256_accepted (h : (verify256 m data codes code).1 = 0) :
    weight (correction m codes data code).bits 24 = 0 := by
  by_contra hne
  rw [verify256_eq, if_neg hne] at h
  split at h
  · exact absurd h (show ¬ hammingErrorSingleBit = 0 by decide)
  · split at h
    · exact absurd h (show ¬ hammingErrorEcc = 0 by decide)
    · exact absurd h (show ¬ hammingErrorMultipleBits = 0 by decide)

/-- **Nothing wrong is accepted** where at most three bits have changed since the code was computed. -/
theorem verify256_accepts_iff (hcode : loadCode codes code = compute256 m data) (hnodup : flips.Nodup)
    (hfew : flips.length ≤ 3) :
    (verify256 (spoil data code (m, codes) flips).1 data (spoil data code (m, codes) flips).2 code).1 = 0 ↔ flips = [] := by
  constructor
  · intro haccepted
    by_contra hne
    have hzero := verify256_accepted haccepted
    have hbits := ((Off.start hcode).spoil flips).correction_bits
    apply pattern_ne hnodup hfew hne
    intro q hq
    have hbit := hbits q hq
    rw [eq_false_of_weight_eq_zero hzero hq, BitVec.zero_xor, BitVec.zero_xor, Bool.false_xor] at hbit
    exact (bne_eq_false_iff_eq).mp hbit.symm
  · rintro rfl
    rw [verify256_spoiled hcode hnodup (Nat.zero_le _)]
    rfl

/-- A block of zeros with two wrong bits of data and one of its code. -/
theorem verify256_accepts_iff_zeros :
    (verify256
      (spoil 0 0 (fun _ => 0, Memory.store (fun _ => 0) 0 (compute256 (fun _ => 0) 0).toList)
        [.data 0, .data 2047, .code 23]).1 0
      (spoil 0 0 (fun _ => 0, Memory.store (fun _ => 0) 0 (compute256 (fun _ => 0) 0).toList)
        [.data 0, .data 2047, .code 23]).2 0).1 ≠ 0 := by
  intro hzero
  have hcode : loadCode (Memory.store (fun _ => 0) 0 (compute256 (fun _ => 0) 0).toList) 0 = compute256 (fun _ => 0) 0 :=
    loadCode_store_self _ _
  have hnodup : [Flip.data 0, .data 2047, .code 23].Nodup := by decide
  cases (verify256_accepts_iff hcode hnodup (Nat.le_refl 3)).mp hzero

end ContikiAtsam.Nand
