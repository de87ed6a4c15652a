import ContikiAtsam.Nand.Raw
import Mathlib.Logic.Function.Basic

/-!
# A chip without errors

A chip that keeps the bytes of an address and of the data until the command that ends a sequence comes, and then does what it is told. It is of the kind that the driver relies on, for every model.
-/

namespace ContikiAtsam.Nand

structure SimpleState where
  cells : Nat → Memory
  start : UInt8
  addresses : List UInt8
  data : List UInt8
  output : Option (Nat × Nat)

section

variable (m : NandFlashModel)

/-- The row that has been sent, after the bytes of the column. -/
def SimpleState.row (s : SimpleState) : Nat :=
  fromCycles (s.addresses.drop (if m.smallBlock then 1 else 2))

def SimpleState.begin (s : SimpleState) (c : UInt8) (output : Option (Nat × Nat)) : SimpleState :=
  { s with start := c, addresses := [], data := [], output := output }

def simpleCommand (s : SimpleState) (c : UInt8) : SimpleState :=
  if c = 0x00 then s.begin c (if s.start = 0x00 then some (s.row m, 0) else none)
  else if c = 0x80 ∨ c = 0x60 then s.begin c none
  else if c = 0x10 then
    { s with cells := Function.update s.cells (s.row m) fun column => s.cells (s.row m) column &&& imageOf s.data column }
  else if c = 0xD0 then
    { s with cells := fun r =>
        if r / m.blockSizeInPages = fromCycles s.addresses / m.blockSizeInPages then fun _ => 0xFF else s.cells r }
  else { s with output := none }

def simpleWrite (s : SimpleState) : Cycle → SimpleState
  | .command c => simpleCommand m s c
  | .address _ a => { s with addresses := s.addresses ++ [a] }
  | .data8 b => { s with data := s.data ++ [b] }
  | .data16 w => { s with data := s.data ++ Memory.halfword w }

def simpleChip : NandChip where
  State := SimpleState
  write := simpleWrite m
  read8 := fun s =>
    match s.output with
    | some (row, column) => (s.cells row column, { s with output := some (row, column + 1) })
    | none => (0x40, s)
  read16 := fun s =>
    match s.output with
    | some (row, column) => ((s.cells row).load16 column, { s with output := some (row, column + 2) })
    | none => (0x40, s)
  cells := SimpleState.cells
  output := SimpleState.output

end

variable {m : NandFlashModel}

theorem simpleChip_reads : (simpleChip m).Reads where
  cells8 s := by
    obtain ⟨cells, start, addresses, data, output⟩ := s
    cases output <;> rfl
  cells16 s := by
    obtain ⟨cells, start, addresses, data, output⟩ := s
    cases output <;> rfl
  output8 s row column h := by
    obtain ⟨cells, start, addresses, data, output⟩ := s
    obtain rfl : output = some (row, column) := h
    exact ⟨rfl, rfl⟩
  output16 s row column h := by
    obtain ⟨cells, start, addresses, data, output⟩ := s
    obtain rfl : output = some (row, column) := h
    exact ⟨rfl, rfl⟩

theorem simple_addresses (bytes : List UInt8) (s : SimpleState) :
    sendAll (simpleChip m) s (addressCycles m bytes) = ({ s with addresses := s.addresses ++ bytes } : SimpleState) := by
  induction bytes generalizing s with
  | nil =>
      rw [List.append_nil]
      rfl
  | cons a bytes ih =>
      have hrest := ih { s with addresses := s.addresses ++ [a] }
      rw [List.append_assoc] at hrest
      exact hrest

theorem halfword_ofNat (a b : UInt8) : Memory.halfword (UInt16.ofNat (a.toNat + 256 * b.toNat)) = [a, b] := by
  have hlow := a.toNat_lt
  have hhigh := b.toNat_lt
  have hword : (UInt16.ofNat (a.toNat + 256 * b.toNat)).toNat = a.toNat + 256 * b.toNat := by
    rw [UInt16.toNat_ofNat']
    exact Nat.mod_eq_of_lt (by omega)
  have hfirst : UInt8.ofNat (a.toNat + 256 * b.toNat) = a := by
    rw [← UInt8.toNat_inj, toNat_ofNat_byte]
    omega
  have hsecond : UInt8.ofNat ((a.toNat + 256 * b.toNat) / 256) = b := by
    rw [← UInt8.toNat_inj, toNat_ofNat_byte]
    omega
  rw [Memory.halfword, hword, hfirst, hsecond]

theorem simple_words : ∀ (bytes : List UInt8) (_ : bytes.length % 2 = 0) (s : SimpleState),
    sendAll (simpleChip m) s (byteWords bytes) = ({ s with data := s.data ++ bytes } : SimpleState)
  | [], _, s => by
      rw [List.append_nil]
      rfl
  | [_], h, _ => absurd h (show ¬ 1 % 2 = 0 by decide)
  | a :: b :: rest, h, s => by
      have hrest : rest.length % 2 = 0 := by
        simp only [List.length_cons] at h
        omega
      have hwords := simple_words rest hrest
        { s with data := s.data ++ Memory.halfword (UInt16.ofNat (a.toNat + 256 * b.toNat)) }
      dsimp only at hwords
      rw [halfword_ofNat, List.append_assoc] at hwords
      have hword : sendAll (simpleChip m) s (byteWords (a :: b :: rest)) = sendAll (simpleChip m)
          ({ s with data := s.data ++ Memory.halfword (UInt16.ofNat (a.toNat + 256 * b.toNat)) } : SimpleState)
          (byteWords rest) := rfl
      rw [hword, halfword_ofNat]
      exact hwords

theorem simple_bytes (bytes : List UInt8) (s : SimpleState) :
    sendAll (simpleChip m) s (bytes.map .data8) = ({ s with data := s.data ++ bytes } : SimpleState) := by
  induction bytes generalizing s with
  | nil =>
      rw [List.append_nil]
      rfl
  | cons b bytes ih =>
      have hrest := ih { s with data := s.data ++ [b] }
      rw [List.append_assoc] at hrest
      exact hrest

theorem simple_data {bytes : List UInt8} (heven : bytes.length % 2 = 0) (s : SimpleState) :
    sendAll (simpleChip m) s (dataCycles m bytes) = ({ s with data := s.data ++ bytes } : SimpleState) := by
  unfold dataCycles
  split
  · exact simple_words bytes heven s
  · exact simple_bytes bytes s

theorem between_and (old new : Memory) : Between old new fun c => old c &&& new c := by
  intro c
  constructor
  · calc old c &&& new c &&& old c
        = old c &&& old c &&& new c := by ac_rfl
      _ = old c &&& new c := by rw [UInt8.and_self]
  · exact UInt8.and_self

theorem simple_erase {s : SimpleState} (r : Nat) : (sendAll (simpleChip m) s [.command 0xD0]).cells r =
    if r / m.blockSizeInPages = fromCycles s.addresses / m.blockSizeInPages then fun _ => 0xFF else s.cells r := rfl

theorem simpleChip_lawful (hm : Sized m) : (simpleChip m).Lawful m where
  toReads := simpleChip_reads
  status _ := rfl
  read s columns rows row h := by
    have hrow : fromCycles ((columns ++ rows).drop (if m.smallBlock then 1 else 2)) = row := by
      rw [List.drop_left' h.columns_length, h.rows_eq]
    have hbegin : ∃ output, sendAll (simpleChip m) s [.command 0x00] = SimpleState.begin s 0x00 output := ⟨_, rfl⟩
    obtain ⟨output, hbegin⟩ := hbegin
    rw [← sendAll_append, ← sendAll_append, ← sendAll_append, ← sendAll_append, hbegin, simple_addresses,
      simple_addresses]
    have hlast : ∀ output', (simpleChip m).cells (sendAll (simpleChip m)
        (⟨s.cells, 0x00, [] ++ columns ++ rows, [], output'⟩ : SimpleState) [.command 0x00]) = s.cells ∧
        (simpleChip m).output (sendAll (simpleChip m)
          (⟨s.cells, 0x00, [] ++ columns ++ rows, [], output'⟩ : SimpleState) [.command 0x00]) = some (row, 0) := by
      intro output'
      refine ⟨rfl, ?_⟩
      rw [← hrow]
      rfl
    split
    · exact hlast output
    · exact hlast none
  program s columns rows row bytes h hlength := by
    have hrow : fromCycles ((columns ++ rows).drop (if m.smallBlock then 1 else 2)) = row := by
      rw [List.drop_left' h.columns_length, h.rows_eq]
    have heven : bytes.length % 2 = 0 := by
      have := hm.even
      omega
    have hbegin : sendAll (simpleChip m) s [.command 0x80] = SimpleState.begin s 0x80 none := rfl
    rw [← sendAll_append, ← sendAll_append, ← sendAll_append, ← sendAll_append, hbegin, simple_addresses,
      simple_addresses, simple_data heven]
    have hcells : (simpleChip m).cells (sendAll (simpleChip m)
        (⟨s.cells, 0x80, [] ++ columns ++ rows, [] ++ bytes, none⟩ : SimpleState) [.command 0x10]) =
        Function.update s.cells row fun column => s.cells row column &&& imageOf bytes column := by
      rw [← hrow]
      rfl
    have hpage := (congrFun hcells row).trans (Function.update_self ..)
    refine ⟨fun r hr => ?_, ?_, fun _ c => ?_⟩
    · exact (congrFun hcells r).trans (Function.update_of_ne hr ..)
    · exact Eq.mpr (congrArg (Between (s.cells row) (imageOf bytes)) hpage) (between_and _ _)
    · exact congrFun hpage c
  erase s rows row hspan hrows hlt := by
    have hbegin : sendAll (simpleChip m) s [.command 0x60] = SimpleState.begin s 0x60 none := rfl
    rw [← sendAll_append, ← sendAll_append, hbegin, simple_addresses]
    refine ⟨fun r hr => ?_, fun _ r hr c => ?_⟩
    · exact (simple_erase r).trans (if_neg (by rw [← hrows] at hr; exact hr))
    · exact congrFun ((simple_erase r).trans (if_pos (by rw [← hrows] at hr; exact hr))) c

/-- The first model of the list. -/
def firstModel : NandFlashModel := ⟨0x6e, dataBus8, 256, 1, 4, spareScheme256⟩

theorem firstModel_sized : Sized firstModel := by decide

/-- A chip that holds only zeros. -/
def zeroState : SimpleState := ⟨fun _ _ => 0, 0, [], [], none⟩

end ContikiAtsam.Nand
