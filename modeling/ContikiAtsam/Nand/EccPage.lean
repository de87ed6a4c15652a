import ContikiAtsam.Nand.Buffer
import ContikiAtsam.Nand.Pages

/-!
# Pages with codes

`nand_flash_ecc_sw.c`. A page is written with the codes of its data in the spare area; when it is read back, the codes are taken from there and the data verified and put right. Whether that works depends on the chip: its spare areas need room for a code for every 256 bytes, where the scheme of the model puts them.
-/

namespace ContikiAtsam.Nand

section Functions

variable (chip : NandChip) (m : NandFlashModel)

/-- The bytes of a buffer, from its first on. -/
def NandBuffer.bytes (buffer : NandBuffer) : Memory := fun i => buffer.memory (buffer.addr + i)

/-- The buffer with its bytes replaced. -/
def NandBuffer.replace (buffer : NandBuffer) (bytes : Memory) : NandBuffer :=
  { buffer with memory := fun i => if buffer.addr ≤ i then bytes (i - buffer.addr) else buffer.memory i }

/-- The spare area is filled with ones first. -/
def blank (spare : NandBuffer) : NandBuffer :=
  spare.store (List.replicate nandCommonMaxPageSpareSize 0xFF)

/-- `nand_flash_ecc_write_page`; `spare` is the buffer of the caller or, without one, of the function. -/
def eccWritePage (fuel : Nat) (block page : Nat) (data : Option NandBuffer) (spare : NandBuffer) (s : chip.State) :
    Option (UInt32 × NandBuffer × chip.State) := do
  let hammingCode : Memory := fun _ => 0xFF
  let hammingCode ←
    match data with
    | some data => hammingCompute256x fuel data.memory data.addr (UInt32.ofNat m.pageDataSize) hammingCode 0
    | none => some hammingCode
  let spare := blank spare
  let spare := spare.replace (writeEcc m.scheme spare.bytes hammingCode)
  let r := rawWritePage chip m block page data (some spare) s
  return (r.1, spare, r.2)

/-- `nand_flash_ecc_read_page`; `hammingCode` is what is in the array for the codes before. -/
def eccReadPage (fuel : Nat) (block page : Nat) (data spare : NandBuffer) (hammingCode : Memory) (s : chip.State) :
    Option (UInt32 × NandBuffer × NandBuffer × chip.State) := do
  let spare := blank spare
  let r := rawReadPage chip m block page (some data) (some spare) s
  let data := r.1.getD data
  let spare := r.2.1.getD spare
  let hammingCode := readEcc m.scheme spare.bytes hammingCode
  let v ← hammingVerify256x fuel data.memory data.addr (UInt32.ofNat m.pageDataSize) hammingCode 0
  return (if v.1 ≠ 0 ∧ v.1 ≠ hammingErrorSingleBit then errorCorruptedData else 0, { data with memory := v.2 }, spare, r.2.2)

end Functions

variable {chip : NandChip} {m : NandFlashModel}

/-- The spare areas of the chip have room for the codes where the scheme puts them. -/
structure Covered (m : NandFlashModel) : Prop where
  codes : 3 * (m.pageDataSize / 256) ≤ m.scheme.eccByteNumber
  inside : ∀ p ∈ m.scheme.eccBytesPositions, p < m.pageSpareSize

instance (m : NandFlashModel) : Decidable (Covered m) :=
  decidable_of_iff (3 * (m.pageDataSize / 256) ≤ m.scheme.eccByteNumber ∧
    ∀ p ∈ m.scheme.eccBytesPositions, p < m.pageSpareSize) ⟨fun ⟨h, h'⟩ => ⟨h, h'⟩, fun h => ⟨h.codes, h.inside⟩⟩

/-- Small chips have room, and of the large ones those with pages of 2048 bytes. -/
theorem nandFlashModelList_covered : ∀ m ∈ nandFlashModelList,
    (m.blockSizeInKilobytes ≠ 0 ∧ m.pageSizeInBytes ≠ 0 ∧ Covered m ∧ (m.pageDataSize = 256 ∨ m.pageDataSize = 512)) ∨
      (m.blockSizeInKilobytes = 0 ∧ m.scheme.eccByteNumber = 24 ∧ m.scheme.eccBytesPositions = List.range' 40 24) := by
  decide

theorem modelFind_covered_iff {chipId : UInt32} (h : modelFind nandFlashModelList chipId = .ok m) :
    Covered m ↔ m.pageDataSize = 256 ∨ m.pageDataSize = 512 ∨ m.pageDataSize = 2048 := by
  unfold modelFind at h
  dsimp only at h
  cases hfind : nandFlashModelList.find? fun m => m.deviceId = (chipId >>> 8).toUInt8 with
  | none =>
      rw [hfind] at h
      cases h
  | some entry =>
      rw [hfind] at h
      obtain rfl := Except.ok.inj h
      rcases nandFlashModelList_covered entry (List.mem_of_find?_eq_some hfind) with
        ⟨hblock, hpage, hcovered, hsize⟩ | ⟨hblock, hnumber, hpositions⟩
      · rw [if_neg (not_or.mpr ⟨hblock, hpage⟩)]
        exact iff_of_true hcovered (by omega)
      · rw [if_pos (Or.inl hblock)]
        obtain ⟨hmem, _⟩ := extendedSizes_mem entry (chipId >>> 24).toUInt8
        have hscheme : (extendedSizes entry (chipId >>> 24).toUInt8).scheme = entry.scheme := rfl
        generalize extendedSizes entry (chipId >>> 24).toUInt8 = large at hmem hscheme ⊢
        have hcovered : Covered large ↔ 3 * (large.pageSizeInBytes / 256) ≤ 24 ∧
            ∀ p ∈ List.range' 40 24, p < large.pageSizeInBytes / 32 := by
          rw [← hpositions, ← hnumber, ← hscheme]
          exact ⟨fun h => ⟨h.codes, h.inside⟩, fun ⟨h, h'⟩ => ⟨h, h'⟩⟩
        have hsizes : ∀ size ∈ [1024, 2048, 4096, 8192], (3 * (size / 256) ≤ 24 ∧ ∀ p ∈ List.range' 40 24, p < size / 32) ↔
            size = 256 ∨ size = 512 ∨ size = 2048 := by
          decide
        exact hcovered.trans (hsizes _ hmem)

/-! ### The same block at another address -/

theorem compute256_shift {memory memory' : Memory} {data data' : Nat} (h : ∀ i < 256, memory' (data' + i) = memory (data + i)) :
    compute256 memory' data' = compute256 memory data := by
  have hline : lineSums memory' data' = lineSums memory data := by
    apply List.foldl_ext
    intro sums i hi
    rw [lineTurn, lineTurn, h i (List.mem_range.mp hi)]
  rw [compute256, compute256, hline]

theorem flipBit_at (memory : Memory) (base p i : Nat) :
    flipBit memory base p (base + i) = if i = p / 8 then memory (base + i) ^^^ 1 <<< UInt8.ofNat (p % 8) else memory (base + i) := by
  rw [flipBit_apply]
  exact if_congr (by omega) rfl rfl

theorem spoil_shift {data data' code code' : Nat} {s s' : Memory × Memory} (hdata : ∀ i < 256, s'.1 (data' + i) = s.1 (data + i))
    (hcode : ∀ j < 3, s'.2 (code' + j) = s.2 (code + j)) (flips : List Flip) :
    (∀ i < 256, (spoil data' code' s' flips).1 (data' + i) = (spoil data code s flips).1 (data + i)) ∧
      ∀ j < 3, (spoil data' code' s' flips).2 (code' + j) = (spoil data code s flips).2 (code + j) := by
  induction flips generalizing s s' with
  | nil => exact ⟨hdata, hcode⟩
  | cons f flips ih =>
      cases f with
      | data p =>
          refine ih (fun i hi => ?_) hcode
          rw [Flip.apply, Flip.apply]
          dsimp only
          rw [flipBit_at, flipBit_at, hdata i hi]
      | code q =>
          refine ih hdata fun j hj => ?_
          rw [Flip.apply, Flip.apply]
          dsimp only
          rw [flipBit_at, flipBit_at, hcode j hj]

theorem loadCode_congr {codes codes' : Memory} {code code' : Nat} (h : ∀ j < 3, codes' (code' + j) = codes (code + j)) :
    loadCode codes' code' = loadCode codes code := by
  have hfirst := h 0 (by decide)
  rw [Nat.add_zero, Nat.add_zero] at hfirst
  rw [loadCode, loadCode, hfirst, h 1 (by decide), h 2 (by decide)]

/-! ### Codes in the spare area -/

theorem getD_eccPosition {i : Nat} (hi : i < m.scheme.eccByteNumber) (f : Memory) :
    f (eccPosition m.scheme i) = (gather f m.scheme.eccBytesPositions).getD i 0 := by
  have hlt : i < m.scheme.eccBytesPositions.length := m.scheme.ecc ▸ hi
  rw [eccPosition, List.getD_eq_getElem _ _ hlt, gather, List.getD_eq_getElem _ _ (by rwa [List.length_map]),
    List.getElem_map]

theorem eccPosition_mem {i : Nat} (hi : i < m.scheme.eccByteNumber) : eccPosition m.scheme i ∈ m.scheme.eccBytesPositions := by
  have hlt : i < m.scheme.eccBytesPositions.length := m.scheme.ecc ▸ hi
  rw [eccPosition, List.getD_eq_getElem _ _ hlt]
  exact List.getElem_mem hlt

theorem writeEcc_at {i : Nat} (hi : i < m.scheme.eccByteNumber) (spare ecc : Memory) :
    writeEcc m.scheme spare ecc (eccPosition m.scheme i) = ecc i := by
  have hgather : gather (writeEcc m.scheme spare ecc) m.scheme.eccBytesPositions = ecc.load 0 m.scheme.eccByteNumber :=
    congrArg SpareView.ecc (@writeEcc_view m.scheme spare ecc)
  rw [getD_eccPosition hi (writeEcc m.scheme spare ecc), hgather, List.getD_eq_getElem _ _ (by rwa [Memory.load_length]), Memory.getElem_load, Nat.zero_add]

theorem readEcc_at {i : Nat} (hi : i < m.scheme.eccByteNumber) (spare ecc : Memory) :
    readEcc m.scheme spare ecc i = spare (eccPosition m.scheme i) := by
  have hlt : i < (gather spare m.scheme.eccBytesPositions).length := by
    rwa [length_gather, m.scheme.ecc]
  have hstored : ecc.store 0 (gather spare m.scheme.eccBytesPositions) (0 + i) =
      (gather spare m.scheme.eccBytesPositions)[i] := Memory.store_of_inside hlt
  rw [Nat.zero_add] at hstored
  rw [readEcc_eq, hstored, getD_eccPosition hi spare, List.getD_eq_getElem _ _ hlt]

/-- The codes of a page, where the scheme puts them. -/
def codeArea (m : NandFlashModel) (page : Memory) : Memory := fun i => page (m.pageDataSize + eccPosition m.scheme i)

theorem replace_bytes (buffer : NandBuffer) (bytes : Memory) : (buffer.replace bytes).bytes = bytes := by
  funext i
  show (if buffer.addr ≤ buffer.addr + i then bytes (buffer.addr + i - buffer.addr) else _) = bytes i
  rw [if_pos (Nat.le_add_right _ _), Nat.add_sub_cancel_left]

theorem pageImage_data (data spare : NandBuffer) {i : Nat} (hi : i < m.pageDataSize) :
    pageImage m data spare i = data.bytes i := by
  have hlength : i < (data.load m.pageDataSize).length := by
    rwa [NandBuffer.load, Memory.load_length]
  rw [pageImage, imageOf, List.getD_append _ _ _ _ hlength, List.getD_eq_getElem _ _ hlength]
  exact Memory.getElem_load _ _ _ _ _

theorem pageImage_spare (data spare : NandBuffer) {p : Nat} (hp : p < m.pageSpareSize) :
    pageImage m data spare (m.pageDataSize + p) = spare.bytes p := by
  have hlength : (data.load m.pageDataSize).length = m.pageDataSize := Memory.load_length _ _ _
  have hspare : p < (spare.load m.pageSpareSize).length := by
    rwa [NandBuffer.load, Memory.load_length]
  rw [pageImage, imageOf, List.getD_append_right _ _ _ _ (by omega), hlength, Nat.add_sub_cancel_left,
    List.getD_eq_getElem _ _ hspare]
  exact Memory.getElem_load _ _ _ _ _

/-! ### Writing -/

/-- A page holds the data and, in the spare area, their codes. -/
structure Holds (m : NandFlashModel) (page : Memory) (data : NandBuffer) : Prop where
  bytes : ∀ i < m.pageDataSize, page i = data.bytes i
  codes : ∀ k < m.pageDataSize / 256, loadCode (codeArea m page) (3 * k) = compute256 data.memory (data.addr + 256 * k)

section Pages

variable (hchip : chip.Lawful m) (hm : Sized m) (hcovered : Covered m) {block page : Nat}
  (hrow : rowAddress m block page < m.deviceSizeInPages)

include hm in
theorem Sized.blocks_eq : 256 * (m.pageDataSize / 256) = m.pageDataSize := Nat.mul_div_cancel' hm.bytes

include hchip hm hcovered hrow

theorem eccWritePage_spec (data spare : NandBuffer) {s : chip.State}
    (herased : ∀ c, chip.cells s (rowAddress m block page) c = 0xFF) {fuel : Nat} (hfuel : m.pageDataSize / 256 < fuel) :
    ∃ status spare' s', eccWritePage chip m fuel block page (some data) spare s = some (status, spare', s') ∧
      (∀ r, r ≠ rowAddress m block page → chip.cells s' r = chip.cells s r) ∧
      (status = 0 → Holds m (chip.cells s' (rowAddress m block page)) data) := by
  have hsize : 256 * (m.pageDataSize / 256) < 4294967296 := by
    have hpage : m.pageDataSize ≤ 8192 := hm.page.2
    omega
  obtain ⟨codes, hcomputed, hret⟩ := hammingCompute256x_blocks data.memory (fun _ => 0xFF) data.addr 0 hsize
  have hcompute := hret fuel hfuel
  rw [hm.blocks_eq] at hcompute
  generalize hspare : (blank spare).replace (writeEcc m.scheme (blank spare).bytes codes) = spare'
  obtain ⟨hwrote, hdone⟩ := rawWritePage_spec hchip hm hrow data spare' s
  refine ⟨(rawWritePage chip m block page (some data) (some spare') s).1, spare',
    (rawWritePage chip m block page (some data) (some spare') s).2, ?_, hwrote.others, fun hzero => ?_⟩
  · rw [← hspare]
    simp only [eccWritePage, hcompute, Option.bind_eq_bind, Option.bind_some, Option.pure_def]
  have hpage : ∀ c, chip.cells (rawWritePage chip m block page (some data) (some spare') s).2 (rowAddress m block page) c =
      pageImage m data spare' c := by
    intro c
    rw [hdone hzero c, herased c]
    exact UInt8.neg_one_and
  refine ⟨fun i hi => (hpage i).trans (pageImage_data data spare' hi), fun k hk => ?_⟩
  have hcode : ∀ i < 3 * (m.pageDataSize / 256),
      codeArea m (chip.cells (rawWritePage chip m block page (some data) (some spare') s).2 (rowAddress m block page)) i =
        codes i := by
    intro i hi
    have hnumber : i < m.scheme.eccByteNumber := Nat.lt_of_lt_of_le hi hcovered.codes
    rw [codeArea, hpage, pageImage_spare _ _ (hcovered.inside _ (eccPosition_mem hnumber)), ← hspare, replace_bytes,
      writeEcc_at hnumber]
  have hstored := hcomputed.stored k hk
  rw [Nat.zero_add] at hstored
  rw [← hstored, loadCode, loadCode, hcode _ (by omega), hcode _ (by omega), hcode _ (by omega)]

/-! ### Reading -/

/-- A page as it is read and as it was: in each block and its code at most two bits have changed. -/
structure Decayed (m : NandFlashModel) (page page' : Memory) (flips : Nat → List Flip) : Prop where
  nodup : ∀ k < m.pageDataSize / 256, (flips k).Nodup
  few : ∀ k < m.pageDataSize / 256, (flips k).length ≤ 2
  readData : ∀ k < m.pageDataSize / 256, ∀ i < 256,
    page' (256 * k + i) = (spoil (256 * k) (3 * k) (page, codeArea m page) (flips k)).1 (256 * k + i)
  readCode : ∀ k < m.pageDataSize / 256, ∀ j < 3,
    codeArea m page' (3 * k + j) = (spoil (256 * k) (3 * k) (page, codeArea m page) (flips k)).2 (3 * k + j)

omit hchip hm hcovered hrow in
theorem Decayed.spoiled {stored now : Memory} {data : NandBuffer} (hholds : Holds m stored data) {flips : Nat → List Flip}
    (h : Decayed m stored now flips) (buffer : NandBuffer) {codes : Memory}
    (hcodes : ∀ i < 3 * (m.pageDataSize / 256), codes i = codeArea m now i) :
    Spoiled (buffer.replace stored).memory (codeArea m stored) (buffer.store (now.load 0 m.pageDataSize)).memory codes
      buffer.addr 0 (m.pageDataSize / 256) flips := by
  have hat : ∀ i, (buffer.replace stored).memory (buffer.addr + i) = stored i :=
    fun i => congrFun (replace_bytes buffer stored) i
  have hshift : ∀ k, (∀ i < 256,
        (spoil (buffer.addr + 256 * k) (0 + 3 * k) ((buffer.replace stored).memory, codeArea m stored) (flips k)).1
          (buffer.addr + 256 * k + i) =
        (spoil (256 * k) (3 * k) (stored, codeArea m stored) (flips k)).1 (256 * k + i)) ∧
      ∀ j < 3, (spoil (buffer.addr + 256 * k) (0 + 3 * k) ((buffer.replace stored).memory, codeArea m stored) (flips k)).2
          (0 + 3 * k + j) =
        (spoil (256 * k) (3 * k) (stored, codeArea m stored) (flips k)).2 (3 * k + j) := by
    intro k
    apply spoil_shift
    · intro i _
      rw [Nat.add_assoc]
      exact hat _
    · intro j _
      rw [Nat.zero_add]
  refine ⟨h.nodup, h.few, fun k hk => ?_, fun k hk i hi => ?_, fun k hk => ?_⟩
  · rw [Nat.zero_add, hholds.codes k hk]
    apply compute256_shift
    intro i hi
    have hlt : 256 * k + i < m.pageDataSize := by omega
    rw [Nat.add_assoc, Nat.add_assoc, hat, hholds.bytes _ hlt]
    rfl
  · have hlt : 256 * k + i < (now.load 0 m.pageDataSize).length := by
      rw [Memory.load_length]
      omega
    have hread : (buffer.store (now.load 0 m.pageDataSize)).memory (buffer.addr + (256 * k + i)) =
        (now.load 0 m.pageDataSize)[256 * k + i] := Memory.store_of_inside hlt
    rw [(hshift k).1 i hi, Nat.add_assoc, hread, Memory.getElem_load, Nat.zero_add, h.readData k hk i hi]
  · apply loadCode_congr
    intro j hj
    rw [(hshift k).2 j hj, Nat.zero_add, hcodes _ (by omega), h.readCode k hk j hj]

omit hchip hm hcovered hrow in
theorem exists_first (flips : Nat → List Flip) (n : Nat) :
    (∀ j < n, Correctable (flips j)) ∨ ∃ k < n, (∀ j < k, Correctable (flips j)) ∧ ¬ Correctable (flips k) := by
  induction n with
  | zero => exact Or.inl fun j hj => absurd hj (Nat.not_lt_zero j)
  | succ n ih =>
      rcases ih with hall | ⟨k, hk, hbefore, hbad⟩
      · by_cases hlast : Correctable (flips n)
        · refine Or.inl fun j hj => ?_
          rcases Nat.lt_succ_iff_lt_or_eq.mp hj with hlt | rfl
          · exact hall j hlt
          · exact hlast
        · exact Or.inr ⟨n, Nat.lt_succ_self n, hall, hlast⟩
      · exact Or.inr ⟨k, Nat.lt_succ_of_lt hk, hbefore, hbad⟩

omit hchip hm hcovered hrow in
theorem status_of_verdict {flips : List Flip} (h : ¬ Correctable flips) :
    (if verdict flips ≠ 0 ∧ verdict flips ≠ hammingErrorSingleBit then errorCorruptedData else 0) = errorCorruptedData :=
  if_pos (not_or.mp h)

omit hchip hm hcovered hrow in
theorem status_of_result (flips : Nat → List Flip) (n : Nat) :
    (if resultOf flips n ≠ 0 ∧ resultOf flips n ≠ hammingErrorSingleBit then errorCorruptedData else 0) = 0 := by
  refine if_neg fun ⟨hzero, hsingle⟩ => ?_
  unfold resultOf at hzero hsingle
  split at hsingle
  · rename_i hall
    exact hzero (if_pos hall)
  · exact hsingle rfl

theorem eccReadPage_spec {written : NandBuffer} {stored : Memory} (hholds : Holds m stored written) {s : chip.State}
    {flips : Nat → List Flip} (hdecayed : Decayed m stored (chip.cells s (rowAddress m block page)) flips)
    (data spare : NandBuffer) (hammingCode : Memory) {fuel : Nat} (hfuel : m.pageDataSize / 256 < fuel) :
    ∃ status data' spare' s', eccReadPage chip m fuel block page data spare hammingCode s = some (status, data', spare', s') ∧
      chip.cells s' = chip.cells s ∧
      if ∀ k < m.pageDataSize / 256, Correctable (flips k) then
        status = 0 ∧ ∀ i < m.pageDataSize, data'.bytes i = written.bytes i
      else status = errorCorruptedData := by
  have hsize : 256 * (m.pageDataSize / 256) < 4294967296 := by
    have hpage : m.pageDataSize ≤ 8192 := hm.page.2
    omega
  obtain ⟨s', hcells, hread⟩ := rawReadPage_spec hchip hm hrow data (blank spare) s
  generalize chip.cells s (rowAddress m block page) = now at hdecayed hread
  generalize hspare : (blank spare).store (now.load m.pageDataSize m.pageSpareSize) = spare' at hread
  have hcodes : ∀ i < 3 * (m.pageDataSize / 256), readEcc m.scheme spare'.bytes hammingCode i = codeArea m now i := by
    intro i hi
    have hnumber : i < m.scheme.eccByteNumber := Nat.lt_of_lt_of_le hi hcovered.codes
    have hinside := hcovered.inside _ (eccPosition_mem hnumber)
    have hlt : eccPosition m.scheme i < (now.load m.pageDataSize m.pageSpareSize).length := by
      rwa [Memory.load_length]
    have hbyte : spare'.bytes (eccPosition m.scheme i) =
        (now.load m.pageDataSize m.pageSpareSize)[eccPosition m.scheme i] := by
      rw [← hspare]
      exact Memory.store_of_inside hlt
    rw [readEcc_at hnumber, hbyte, Memory.getElem_load, codeArea]
  have hspoiled := hdecayed.spoiled hholds data hcodes
  have hcall : ∀ v, hammingVerify256x fuel (data.store (now.load 0 m.pageDataSize)).memory data.addr
      (UInt32.ofNat m.pageDataSize) (readEcc m.scheme spare'.bytes hammingCode) 0 = some v →
      eccReadPage chip m fuel block page data spare hammingCode s =
        some (if v.1 ≠ 0 ∧ v.1 ≠ hammingErrorSingleBit then errorCorruptedData else 0,
          { data with memory := v.2 }, spare', s') := by
    intro v hv
    rw [eccReadPage, hread]
    simp only [Option.getD_some]
    have haddr : (data.store (now.load 0 m.pageDataSize)).addr = data.addr := rfl
    rw [haddr, hv]
    rfl
  rcases exists_first flips (m.pageDataSize / 256) with hall | ⟨k, hk, hbefore, hbad⟩
  · have hverify := hspoiled.all hsize hall hfuel
    rw [hm.blocks_eq] at hverify
    refine ⟨_, _, _, _, hcall _ hverify, hcells, ?_⟩
    rw [if_pos hall, status_of_result]
    refine ⟨rfl, fun i hi => ?_⟩
    have hat : (data.replace stored).memory (data.addr + i) = stored i := congrFun (replace_bytes data stored) i
    have hinside : data.addr ≤ data.addr + i ∧ data.addr + i < data.addr + 256 * (m.pageDataSize / 256) := by
      rw [hm.blocks_eq]
      omega
    exact (if_pos hinside).trans (hat.trans (hholds.bytes i hi))
  · have hverify := hspoiled.stops hsize hk hbefore hbad hfuel
    rw [hm.blocks_eq] at hverify
    refine ⟨_, _, _, _, hcall _ hverify, hcells, ?_⟩
    rw [if_neg fun hall => hbad (hall k hk), status_of_verdict hbad]

end Pages

/-- What is written to an erased page of a chip is read back from it later on. -/
def RoundTrip (chip : NandChip) (m : NandFlashModel) (block page : Nat) (data spare : NandBuffer) (s : chip.State) (fuel : Nat) : Prop :=
  ∃ status spare' s', eccWritePage chip m fuel block page (some data) spare s = some (status, spare', s') ∧
    (∀ r, r ≠ rowAddress m block page → chip.cells s' r = chip.cells s r) ∧
    (status = 0 → ∀ later flips,
      Decayed m (chip.cells s' (rowAddress m block page)) (chip.cells later (rowAddress m block page)) flips →
      ∀ buffer spareBuffer hammingCode, ∃ status' data' spare'' later',
        eccReadPage chip m fuel block page buffer spareBuffer hammingCode later = some (status', data', spare'', later') ∧
        chip.cells later' = chip.cells later ∧
        if ∀ k < m.pageDataSize / 256, Correctable (flips k) then
          status' = 0 ∧ ∀ i < m.pageDataSize, data'.bytes i = data.bytes i
        else status' = errorCorruptedData)

/-- **Pages with codes.** On every chip that is found with pages of 256, 512 or 2048 bytes: if writing to an erased page succeeds and then, in each block of 256 bytes and its code, at most two bits change, reading it gives the data that were written, if no block has changed but in one bit of its data; otherwise it says that the data are corrupted. -/
theorem eccPage_roundTrip {chipId : UInt32} (hfind : modelFind nandFlashModelList chipId = .ok m)
    (hsize : m.pageDataSize = 256 ∨ m.pageDataSize = 512 ∨ m.pageDataSize = 2048) (hchip : chip.Lawful m) {block page : Nat}
    (hblock : block < m.deviceSizeInBlocks) (hpage : page < m.blockSizeInPages) (data spare : NandBuffer) {s : chip.State}
    (herased : ∀ c, chip.cells s (rowAddress m block page) c = 0xFF) {fuel : Nat} (hfuel : m.pageDataSize / 256 < fuel) :
    RoundTrip chip m block page data spare s fuel := by
  have hm := modelFind_sized hfind
  have hcovered := (modelFind_covered_iff hfind).mpr hsize
  have hrow := (hm.row hblock hpage).2
  obtain ⟨status, spare', s', hwrite, hothers, hholds⟩ := eccWritePage_spec hchip hm hcovered hrow data spare herased hfuel
  refine ⟨status, spare', s', hwrite, hothers, fun hzero later flips hdecayed buffer spareBuffer hammingCode => ?_⟩
  exact eccReadPage_spec hchip hm hcovered hrow (hholds hzero) hdecayed buffer spareBuffer hammingCode hfuel

theorem eccPage_roundTrip_simple :
    RoundTrip (simpleChip firstModel) firstModel 7 2 ⟨fun i => UInt8.ofNat i, 0⟩ ⟨fun _ => 0, 0⟩ ⟨fun _ _ => 0xFF, 0, [], [], none⟩ 2 :=
  eccPage_roundTrip (show modelFind nandFlashModelList 0x6e00 = .ok firstModel from rfl) (by decide)
    (simpleChip_lawful firstModel_sized) (by decide) (by decide) _ _ (fun _ => rfl) (by decide)

end ContikiAtsam.Nand
