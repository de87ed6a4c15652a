import ContikiAtsam.Nand.SimpleChip

/-!
# What the functions do to the cells

Whatever errors the chip reports, writing touches one page and only clears cells that are to be cleared, erasing touches one block, and reading touches nothing. When a function says that it has succeeded, the page or the block is as it should be, however many tries it took.
-/

namespace ContikiAtsam.Nand

variable {chip : NandChip} {m : NandFlashModel}

/-! ### Programming again -/

theorem between_refl (old new : Memory) : Between old new old := by
  intro c
  refine ⟨UInt8.and_self, ?_⟩
  calc old c &&& new c &&& old c
      = old c &&& old c &&& new c := by ac_rfl
    _ = old c &&& new c := by rw [UInt8.and_self]

theorem Between.trans {old new now later : Memory} (h : Between old new now) (h' : Between now new later) :
    Between old new later := by
  intro c
  obtain ⟨hclear, hkeep⟩ := h c
  obtain ⟨hclear', hkeep'⟩ := h' c
  constructor
  · rw [← hclear', UInt8.and_assoc, hclear]
  · calc old c &&& new c &&& later c
        = old c &&& new c &&& now c &&& later c := by rw [hkeep]
      _ = old c &&& (now c &&& new c &&& later c) := by ac_rfl
      _ = old c &&& (now c &&& new c) := by rw [hkeep']
      _ = old c &&& new c &&& now c := by ac_rfl
      _ = old c &&& new c := hkeep

theorem Between.and_eq {old new now : Memory} (h : Between old new now) (c : Nat) :
    now c &&& new c = old c &&& new c := by
  obtain ⟨hclear, hkeep⟩ := h c
  calc now c &&& new c
      = now c &&& old c &&& new c := by rw [hclear]
    _ = old c &&& new c &&& now c := by ac_rfl
    _ = old c &&& new c := hkeep

/-- What an operation does that keeps `I` and, if it succeeds, gives `Q`, trying several times does as well. -/
theorem tries_spec {operation : chip.State → UInt32 × chip.State} {I Q : chip.State → Prop}
    (hoperation : ∀ s, I s → I (operation s).2 ∧ ((operation s).1 = 0 → Q (operation s).2)) (numTry : Nat) {s : chip.State}
    (hs : I s) : I (tries chip operation numTry s).2 ∧
      ((tries chip operation numTry s).1 = 0 → Q (tries chip operation numTry s).2) := by
  induction numTry generalizing s with
  | zero => exact ⟨hs, fun h => absurd h (show ¬ errorBadBlock = 0 by decide)⟩
  | succ numTry ih =>
      obtain ⟨hkeep, hdone⟩ := hoperation s hs
      rw [tries]
      by_cases hzero : (operation s).1 = 0
      · rw [if_pos hzero]
        exact ⟨hkeep, fun _ => hdone hzero⟩
      · rw [if_neg hzero]
        exact ih hkeep

/-! ### Writing -/

/-- What a page is to hold: the data and then the spare area. -/
def pageImage (m : NandFlashModel) (data spare : NandBuffer) : Memory :=
  imageOf (data.load m.pageDataSize ++ spare.load m.pageSpareSize)

/-- Other rows stay, and of the page only cells are cleared that are to be. -/
structure Wrote (row : Nat) (new : Memory) (s s' : chip.State) : Prop where
  others : ∀ r, r ≠ row → chip.cells s' r = chip.cells s r
  between : Between (chip.cells s row) new (chip.cells s' row)

theorem wrote_refl (row : Nat) (new : Memory) (s : chip.State) : Wrote row new s s :=
  ⟨fun _ _ => rfl, between_refl _ _⟩

theorem Wrote.trans {row : Nat} {new : Memory} {s s' s'' : chip.State} (h : Wrote row new s s') (h' : Wrote row new s' s'') :
    Wrote row new s s'' :=
  ⟨fun r hr => (h'.others r hr).trans (h.others r hr), h.between.trans h'.between⟩

section Operations

variable (hchip : chip.Lawful m) (hm : Sized m) {block page : Nat} (hrow : rowAddress m block page < m.deviceSizeInPages)
include hchip hm hrow

theorem writePage_spec (data spare : NandBuffer) (s : chip.State) :
    Wrote (rowAddress m block page) (pageImage m data spare) s (writePage chip m block page (some data) (some spare) s).2 ∧
      ((writePage chip m block page (some data) (some spare) s).1 = 0 →
        ∀ c, chip.cells (writePage chip m block page (some data) (some spare) s).2 (rowAddress m block page) c =
          chip.cells s (rowAddress m block page) c &&& pageImage m data spare c) := by
  have hlength : (data.load m.pageDataSize ++ spare.load m.pageSpareSize).length = m.pageDataSize + m.pageSpareSize := by
    rw [List.length_append, NandBuffer.load, NandBuffer.load, Memory.load_length, Memory.load_length]
  have hcycles : writeData m data.odd (data.load m.pageDataSize) ++ writeData m spare.odd (spare.load m.pageSpareSize) =
      dataCycles m (data.load m.pageDataSize ++ spare.load m.pageSpareSize) := by
    have heven : (data.load m.pageDataSize).length % 2 = 0 := by
      rw [NandBuffer.load, Memory.load_length]
      exact hm.even.1
    rw [writeData_eq, writeData_eq, dataCycles_append _ heven, dataCycles, dataCycles]
  obtain ⟨hothers, hbetween, hdone⟩ := hchip.program s _ _ _ _ (hm.addressed hrow) hlength
  have hsequence : writePage chip m block page (some data) (some spare) s = finish chip errorCannotWrite
      (sendAll chip s ([.command 0x80] ++ addressCycles m (columnCycles m.pageDataSize 0) ++
        addressCycles m (rowCycles m.deviceSizeInPages (rowAddress m block page)) ++
        dataCycles m (data.load m.pageDataSize ++ spare.load m.pageSpareSize) ++ [.command 0x10])) := by
    rw [writePage, write_eq_sendAll, sendAll_append, sendAll_append, ← hcycles, writeColumnAddress_zero, writeRowAddress_eq]
    simp only [List.append_assoc]
  rw [hsequence, finish_cells hchip]
  refine ⟨⟨?_, ?_⟩, fun hzero => hdone (finish_eq_zero (by decide) hzero)⟩
  · intro r hr
    rw [finish_cells hchip]
    exact hothers r hr
  · rw [finish_cells hchip]
    exact hbetween

theorem rawWritePage_spec (data spare : NandBuffer) (s : chip.State) :
    Wrote (rowAddress m block page) (pageImage m data spare) s (rawWritePage chip m block page (some data) (some spare) s).2 ∧
      ((rawWritePage chip m block page (some data) (some spare) s).1 = 0 →
        ∀ c, chip.cells (rawWritePage chip m block page (some data) (some spare) s).2 (rowAddress m block page) c =
          chip.cells s (rowAddress m block page) c &&& pageImage m data spare c) := by
  apply tries_spec (I := Wrote (rowAddress m block page) (pageImage m data spare) s)
    (Q := fun s' => ∀ c, chip.cells s' (rowAddress m block page) c =
      chip.cells s (rowAddress m block page) c &&& pageImage m data spare c)
  · intro s' hs'
    obtain ⟨hwrote, hdone⟩ := writePage_spec hchip hm hrow data spare s'
    exact ⟨hs'.trans hwrote, fun hzero c => (hdone hzero c).trans (hs'.between.and_eq c)⟩
  · exact wrote_refl _ _ s

/-! ### Reading -/

theorem rawReadPage_spec (data spare : NandBuffer) (s : chip.State) : ∃ s', chip.cells s' = chip.cells s ∧
    rawReadPage chip m block page (some data) (some spare) s =
      (some (data.store ((chip.cells s (rowAddress m block page)).load 0 m.pageDataSize)),
        some (spare.store ((chip.cells s (rowAddress m block page)).load m.pageDataSize m.pageSpareSize)), s') := by
  obtain ⟨hcells, houtput⟩ := hchip.read s _ _ _ (hm.addressed hrow)
  have hsequence : chip.write (if m.smallBlock then
        sendAll chip s ([.command 0x00] ++ writeColumnAddress m 0 ++ writeRowAddress m (rowAddress m block page))
      else sendAll chip s ([.command 0x00] ++ writeColumnAddress m 0 ++ writeRowAddress m (rowAddress m block page) ++
        [.command 0x30])) (.command 0x00) =
      sendAll chip s ([.command 0x00] ++ addressCycles m (columnCycles m.pageDataSize 0) ++
        addressCycles m (rowCycles m.deviceSizeInPages (rowAddress m block page)) ++
        (if m.smallBlock then [] else [.command 0x30]) ++ [.command 0x00]) := by
    rw [writeColumnAddress_zero, writeRowAddress_eq, write_eq_sendAll]
    split <;> simp only [sendAll_append, List.append_nil]
  unfold rawReadPage
  simp only [Option.isSome_some, if_true]
  rw [hsequence]
  generalize sendAll chip s ([.command 0x00] ++ addressCycles m (columnCycles m.pageDataSize 0) ++
    addressCycles m (rowCycles m.deviceSizeInPages (rowAddress m block page)) ++
    (if m.smallBlock then [] else [.command 0x30]) ++ [.command 0x00]) = s₁ at hcells houtput
  have hdata := readData_given hchip.toReads m data.odd hm.even.1 houtput
  have hspare := readData_given hchip.toReads m spare.odd hm.even.2 hdata.output
  refine ⟨(readData chip m spare.odd m.pageSpareSize (readData chip m data.odd m.pageDataSize s₁).2).2, ?_, ?_⟩
  · rw [hspare.cells, hdata.cells, hcells]
  · rw [hdata.bytes, hspare.bytes, hdata.cells, hcells, Nat.zero_add]

end Operations

/-! ### Erasing -/

section Blocks

variable (hchip : chip.Lawful m) (hm : Sized m)
include hchip hm

/-- Other blocks stay. -/
def ApartFrom (block : Nat) (s s' : chip.State) : Prop :=
  ∀ r, r / m.blockSizeInPages ≠ block → chip.cells s' r = chip.cells s r

/-- All cells of the block are set. -/
def Erased (block : Nat) (s : chip.State) : Prop :=
  ∀ r, r / m.blockSizeInPages = block → ∀ c, chip.cells s r c = 0xFF

theorem rawEraseBlock_spec {block : Nat} (hblock : block < m.deviceSizeInBlocks) (s : chip.State) :
    ApartFrom (m := m) block s (rawEraseBlock chip m block s).2 ∧
      ((rawEraseBlock chip m block s).1 = 0 → Erased (m := m) block (rawEraseBlock chip m block s).2) := by
  obtain ⟨hrow, hlt⟩ := hm.row hblock hm.pages_pos
  have hrowBlock : rowAddress m block 0 / m.blockSizeInPages = block := by
    rw [hrow, Nat.add_zero, Nat.mul_div_cancel _ hm.pages_pos]
  apply tries_spec (I := ApartFrom (m := m) block s) (Q := Erased (m := m) block)
  · intro s' hs'
    obtain ⟨hothers, herased⟩ := hchip.erase s' _ _ (lt_span_rowCycles m.deviceSizeInPages (rowAddress m block 0))
      (fromCycles_rowCycles _ (Nat.le_of_lt hlt)) hlt
    rw [hrowBlock] at hothers herased
    constructor
    · intro r hr
      rw [eraseBlock, finish_cells hchip, writeRowAddress_eq, hothers r hr, hs' r hr]
    · intro hzero r hr c
      rw [eraseBlock, finish_cells hchip, writeRowAddress_eq]
      exact herased (finish_eq_zero (by decide) hzero) r hr c
  · exact fun _ _ => rfl

/-! ### Copying -/

omit hchip hm in
theorem NandBuffer.load_store (buffer : NandBuffer) (bytes : List UInt8) {size : Nat} (hsize : bytes.length = size) :
    (buffer.store bytes).load size = bytes := by
  rw [← hsize]
  exact Memory.load_store_self _ _ _

/-- What the copy of a page is to hold. -/
def copyImage (m : NandFlashModel) (source : Memory) : Memory :=
  imageOf (source.load 0 (m.pageDataSize + m.pageSpareSize))

theorem copyPage_spec {sourceBlock sourcePage destBlock destPage : Nat}
    (hsource : rowAddress m sourceBlock sourcePage < m.deviceSizeInPages)
    (hdest : rowAddress m destBlock destPage < m.deviceSizeInPages) (data spare : NandBuffer) (s : chip.State) :
    Wrote (rowAddress m destBlock destPage) (copyImage m (chip.cells s (rowAddress m sourceBlock sourcePage))) s
        (copyPage chip m data spare sourceBlock sourcePage destBlock destPage s).2 ∧
      ((copyPage chip m data spare sourceBlock sourcePage destBlock destPage s).1 = 0 →
        ∀ c, chip.cells (copyPage chip m data spare sourceBlock sourcePage destBlock destPage s).2
            (rowAddress m destBlock destPage) c =
          chip.cells s (rowAddress m destBlock destPage) c &&&
            copyImage m (chip.cells s (rowAddress m sourceBlock sourcePage)) c) := by
  obtain ⟨s', hcells, hread⟩ := rawReadPage_spec hchip hm hsource data spare s
  have himage : pageImage m
      (data.store ((chip.cells s (rowAddress m sourceBlock sourcePage)).load 0 m.pageDataSize))
      (spare.store ((chip.cells s (rowAddress m sourceBlock sourcePage)).load m.pageDataSize m.pageSpareSize)) =
      copyImage m (chip.cells s (rowAddress m sourceBlock sourcePage)) := by
    rw [pageImage, NandBuffer.load_store _ _ (Memory.load_length _ _ _), NandBuffer.load_store _ _ (Memory.load_length _ _ _),
      copyImage, Memory.load_add, Nat.zero_add]
  have hwrote := rawWritePage_spec hchip hm hdest
    (data.store ((chip.cells s (rowAddress m sourceBlock sourcePage)).load 0 m.pageDataSize))
    (spare.store ((chip.cells s (rowAddress m sourceBlock sourcePage)).load m.pageDataSize m.pageSpareSize)) s'
  have hplain : ¬ m.hasCopyBack = true := by
    rw [hm.plain]
    decide
  rw [himage] at hwrote
  rw [copyPage, if_neg hplain, hread]
  dsimp only
  generalize rawWritePage chip m destBlock destPage _ _ s' = w at hwrote ⊢
  obtain ⟨⟨hothers, hbetween⟩, hdone⟩ := hwrote
  rw [hcells] at hothers hbetween hdone
  refine ⟨⟨hothers, hbetween⟩, fun hzero => hdone ?_⟩
  by_contra hfailed
  rw [if_pos hfailed] at hzero
  exact absurd hzero (by decide)

theorem rawCopyPage_spec {sourceBlock sourcePage destBlock destPage : Nat}
    (hsource : rowAddress m sourceBlock sourcePage < m.deviceSizeInPages)
    (hdest : rowAddress m destBlock destPage < m.deviceSizeInPages)
    (hne : rowAddress m sourceBlock sourcePage ≠ rowAddress m destBlock destPage) (data spare : NandBuffer) (s : chip.State) :
    Wrote (rowAddress m destBlock destPage) (copyImage m (chip.cells s (rowAddress m sourceBlock sourcePage))) s
        (rawCopyPage chip m data spare sourceBlock sourcePage destBlock destPage s).2 ∧
      ((rawCopyPage chip m data spare sourceBlock sourcePage destBlock destPage s).1 = 0 →
        ∀ c, chip.cells (rawCopyPage chip m data spare sourceBlock sourcePage destBlock destPage s).2
            (rowAddress m destBlock destPage) c =
          chip.cells s (rowAddress m destBlock destPage) c &&&
            copyImage m (chip.cells s (rowAddress m sourceBlock sourcePage)) c) := by
  apply tries_spec
    (I := Wrote (rowAddress m destBlock destPage) (copyImage m (chip.cells s (rowAddress m sourceBlock sourcePage))) s)
    (Q := fun s' => ∀ c, chip.cells s' (rowAddress m destBlock destPage) c =
      chip.cells s (rowAddress m destBlock destPage) c &&& copyImage m (chip.cells s (rowAddress m sourceBlock sourcePage)) c)
  · intro s' hs'
    obtain ⟨hwrote, hdone⟩ := copyPage_spec hchip hm hsource hdest data spare s'
    -- the source is what it was before the tries that failed
    rw [hs'.others _ hne] at hwrote hdone
    exact ⟨hs'.trans hwrote, fun hzero c => (hdone hzero c).trans (hs'.between.and_eq c)⟩
  · exact wrote_refl _ _ s

/-- The first pages of a block are copied, and the others of it as they were. -/
structure Copied (m : NandFlashModel) (source dest i : Nat) (s s' : chip.State) : Prop where
  apart : ApartFrom (m := m) dest s s'
  before : ∀ p < i, ∀ c, chip.cells s' (rowAddress m dest p) c =
    chip.cells s (rowAddress m dest p) c &&& copyImage m (chip.cells s (rowAddress m source p)) c
  after : ∀ p, i ≤ p → p < m.blockSizeInPages → chip.cells s' (rowAddress m dest p) = chip.cells s (rowAddress m dest p)

omit hchip in
theorem Sized.row_div {block page : Nat} (hblock : block < m.deviceSizeInBlocks) (hpage : page < m.blockSizeInPages) :
    rowAddress m block page / m.blockSizeInPages = block := by
  rw [(hm.row hblock hpage).1, Nat.mul_comm, Nat.mul_add_div hm.pages_pos, Nat.div_eq_of_lt hpage, Nat.add_zero]

omit hchip in
theorem Sized.row_inj {block page page' : Nat} (hblock : block < m.deviceSizeInBlocks) (hpage : page < m.blockSizeInPages)
    (hpage' : page' < m.blockSizeInPages) (h : rowAddress m block page = rowAddress m block page') : page = page' := by
  rw [(hm.row hblock hpage).1, (hm.row hblock hpage').1] at h
  omega

theorem copyPages_spec {source dest : Nat} (hsource : source < m.deviceSizeInBlocks) (hdest : dest < m.deviceSizeInBlocks)
    (hne : source ≠ dest) (data spare : NandBuffer) {s : chip.State} (left : Nat) {i : Nat}
    (hleft : i + left = m.blockSizeInPages) {s' : chip.State} (h : Copied m source dest i s s') :
    ApartFrom (m := m) dest s (copyPages chip m data spare source dest left i s').2 ∧
      ((copyPages chip m data spare source dest left i s').1 = 0 →
        Copied m source dest m.blockSizeInPages s (copyPages chip m data spare source dest left i s').2) := by
  induction left generalizing i s' with
  | zero =>
      rw [Nat.add_zero] at hleft
      subst hleft
      exact ⟨h.apart, fun _ => h⟩
  | succ left ih =>
      have hi : i < m.blockSizeInPages := by omega
      have hsourceBlock := hm.row_div hsource hi
      have hdestBlock := hm.row_div hdest hi
      have hrows : rowAddress m source i ≠ rowAddress m dest i :=
        fun heq => hne (hsourceBlock.symm.trans ((congrArg (· / m.blockSizeInPages) heq).trans hdestBlock))
      obtain ⟨⟨hothers, _⟩, hdone⟩ := rawCopyPage_spec hchip hm (hm.row hsource hi).2 (hm.row hdest hi).2 hrows data spare s'
      rw [h.after i (Nat.le_refl i) hi, h.apart _ fun heq => hne (hsourceBlock.symm.trans heq)] at hdone
      rw [copyPages]
      generalize rawCopyPage chip m data spare source i dest i s' = r at hothers hdone ⊢
      have hapart : ApartFrom (m := m) dest s r.2 := by
        intro q hq
        rw [hothers q fun heq => hq (heq ▸ hdestBlock), h.apart q hq]
      by_cases hfailed : r.1 ≠ 0
      · rw [if_pos hfailed]
        exact ⟨hapart, fun hzero => absurd hzero (show ¬ errorBadBlock = 0 by decide)⟩
      · rw [if_neg hfailed]
        refine ih (by omega) ⟨hapart, fun p hp c => ?_, fun p hp hlt => ?_⟩
        · by_cases hlast : p = i
          · rw [hlast]
            exact hdone (not_not.mp hfailed) c
          · rw [hothers _ fun heq => hlast (hm.row_inj hdest (by omega) hi heq)]
            exact h.before p (by omega) c
        · rw [hothers _ fun heq => by have := hm.row_inj hdest hlt hi heq; omega]
          exact h.after p (by omega) hlt

omit hchip hm in
theorem copyImage_apply (source : Memory) {c : Nat} (hc : c < m.pageDataSize + m.pageSpareSize) :
    copyImage m source c = source c := by
  rw [copyImage, imageOf, List.getD_eq_getElem _ _ (by rwa [Memory.load_length]), Memory.getElem_load, Nat.zero_add]

/-- **Copying a block.** If a block is erased and then another one copied to it, no other block changes, whatever errors the chip reports; and if both functions say that they have succeeded, after however many tries, every page of it holds what the same page of the other one does. -/
theorem rawCopyBlock_erased {source dest : Nat} (hsource : source < m.deviceSizeInBlocks)
    (hdest : dest < m.deviceSizeInBlocks) (hne : source ≠ dest) (hfits : m.pageDataSize ≤ nandCommonMaxPageSize)
    (data spare : NandBuffer) (s : chip.State) :
    ∃ status s', rawCopyBlock chip m data spare source dest (rawEraseBlock chip m dest s).2 = .ok (status, s') ∧
      ApartFrom (m := m) dest s s' ∧
      ((rawEraseBlock chip m dest s).1 = 0 → status = 0 →
        ∀ page < m.blockSizeInPages, ∀ c < m.pageDataSize + m.pageSpareSize,
          chip.cells s' (rowAddress m dest page) c = chip.cells s (rowAddress m source page) c) := by
  obtain ⟨hapart, herased⟩ := rawEraseBlock_spec hchip hm hdest s
  generalize rawEraseBlock chip m dest s = e at hapart herased ⊢
  have hfitsBoth : copyFits m = true := by
    have hspare : m.pageSpareSize ≤ nandCommonMaxPageSpareSize := by
      unfold NandFlashModel.pageSpareSize nandCommonMaxPageSpareSize
      unfold NandFlashModel.pageDataSize nandCommonMaxPageSize at hfits
      omega
    exact decide_eq_true (Or.inr ⟨hfits, hspare⟩)
  have hstart : Copied m source dest 0 e.2 e.2 :=
    ⟨fun _ _ => rfl, fun p hp => absurd hp (Nat.not_lt_zero p), fun _ _ _ => rfl⟩
  obtain ⟨hrest, hcopied⟩ :=
    copyPages_spec hchip hm hsource hdest hne data spare m.blockSizeInPages (Nat.zero_add _) hstart
  generalize hcopies : copyPages chip m data spare source dest m.blockSizeInPages 0 e.2 = r at hrest hcopied
  refine ⟨r.1, r.2, ?_, fun q hq => (hrest q hq).trans (hapart q hq), fun hzero hcopy page hpage c hc => ?_⟩
  · rw [rawCopyBlock, if_neg hne, if_pos hfitsBoth, Nat.mod_eq_of_lt hm.pages_lt, hcopies]
  · have hset := herased hzero _ (hm.row_div hdest hpage) c
    have hsame := hapart _ fun heq => hne ((hm.row_div hsource hpage).symm.trans heq)
    rw [(hcopied hcopy).before page hpage c, hset, hsame, copyImage_apply _ hc]
    exact UInt8.neg_one_and

end Blocks

theorem rawCopyBlock_erased_simple : ∃ status s',
    rawCopyBlock (simpleChip firstModel) firstModel ⟨fun _ => 0, 0⟩ ⟨fun _ => 0, 1⟩ 3 5
      (rawEraseBlock (simpleChip firstModel) firstModel 5 zeroState).2 = .ok (status, s') ∧
      ApartFrom (m := firstModel) 5 zeroState s' ∧
      ((rawEraseBlock (simpleChip firstModel) firstModel 5 zeroState).1 = 0 → status = 0 →
        ∀ page < firstModel.blockSizeInPages, ∀ c < firstModel.pageDataSize + firstModel.pageSpareSize,
          (simpleChip firstModel).cells s' (rowAddress firstModel 5 page) c =
            (simpleChip firstModel).cells zeroState (rowAddress firstModel 3 page) c) :=
  rawCopyBlock_erased (simpleChip_lawful firstModel_sized) firstModel_sized (by decide) (by decide) (by decide) (by decide)
    ⟨fun _ => 0, 0⟩ ⟨fun _ => 0, 1⟩ zeroState

end ContikiAtsam.Nand
