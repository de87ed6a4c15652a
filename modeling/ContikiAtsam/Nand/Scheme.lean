import ContikiAtsam.Base.Memory
import ContikiAtsam.Base.Run
import ContikiAtsam.Base.Scatter

/-!
# Spare areas

`nand_flash_spare_scheme.c`. The spare area of a page keeps the bad block marker, the codes and some extra bytes, each at positions that a scheme gives. A scheme uses no position twice, so the three are kept apart: whatever is done through a scheme, each is what was last written to it.
-/

namespace ContikiAtsam.Nand

structure SpareScheme where
  badBlockMarkerPosition : Nat
  eccByteNumber : Nat
  eccBytesPositions : List Nat
  extraByteNumber : Nat
  extraBytesPositions : List Nat
  ecc : eccBytesPositions.length = eccByteNumber
  extra : extraBytesPositions.length = extraByteNumber
  nodup : (badBlockMarkerPosition :: (eccBytesPositions ++ extraBytesPositions)).Nodup

theorem scheme256_nodup : (5 :: ([0, 1, 2] ++ [3, 4, 6, 7])).Nodup := by decide

def spareScheme256 : SpareScheme where
  badBlockMarkerPosition := 5
  eccByteNumber := 3
  eccBytesPositions := [0, 1, 2]
  extraByteNumber := 4
  extraBytesPositions := [3, 4, 6, 7]
  ecc := rfl
  extra := rfl
  nodup := scheme256_nodup

theorem scheme512_nodup : (5 :: ([0, 1, 2, 3, 6, 7] ++ List.range' 8 8)).Nodup := by decide

def spareScheme512 : SpareScheme where
  badBlockMarkerPosition := 5
  eccByteNumber := 6
  eccBytesPositions := [0, 1, 2, 3, 6, 7]
  extraByteNumber := 8
  extraBytesPositions := List.range' 8 8
  ecc := rfl
  extra := rfl
  nodup := scheme512_nodup

theorem nodup_ranges {mid last n k : Nat} (hmid : 0 < mid) (hlast : mid + n ≤ last) :
    (0 :: (List.range' last k ++ List.range' mid n)).Nodup := by
  refine List.nodup_cons.mpr ⟨fun h => ?_, List.nodup_append.mpr ⟨List.nodup_range', List.nodup_range', ?_⟩⟩
  · rcases List.mem_append.mp h with h | h
    · have := (List.mem_range'_1.mp h).1
      omega
    · have := (List.mem_range'_1.mp h).1
      omega
  · intro i hi j hj hij
    have := (List.mem_range'_1.mp hi).1
    have := (List.mem_range'_1.mp hj).2
    omega

def spareScheme2048 : SpareScheme where
  badBlockMarkerPosition := 0
  eccByteNumber := 24
  eccBytesPositions := List.range' 40 24
  extraByteNumber := 38
  extraBytesPositions := List.range' 2 38
  ecc := rfl
  extra := rfl
  nodup := nodup_ranges (Nat.zero_lt_succ 1) (Nat.le_refl 40)

def spareScheme4096 : SpareScheme where
  badBlockMarkerPosition := 0
  eccByteNumber := 48
  eccBytesPositions := List.range' 80 48
  extraByteNumber := 78
  extraBytesPositions := List.range' 2 78
  ecc := rfl
  extra := rfl
  nodup := nodup_ranges (Nat.zero_lt_succ 1) (Nat.le_refl 80)

/-- The loops of the functions: bytes go from some indices of one buffer to some indices of another. -/
def copyBytes (source : Memory) (src : Nat → Nat) (target : Memory) (dst : Nat → Nat) (n : Nat) : Memory :=
  (List.range n).foldl (fun target i => Function.update target (dst i) (source (src i))) target

variable (scheme : SpareScheme)

/-- `marker` is the buffer that the marker is read to. -/
def readBadBlockMarker (spare marker : Memory) : Memory :=
  Function.update marker 0 (spare scheme.badBlockMarkerPosition)

def writeBadBlockMarker (spare : Memory) (marker : UInt8) : Memory :=
  Function.update spare scheme.badBlockMarkerPosition marker

def eccPosition (i : Nat) : Nat := scheme.eccBytesPositions.getD i 0

def extraPosition (i : Nat) : Nat := scheme.extraBytesPositions.getD i 0

def readEcc (spare ecc : Memory) : Memory :=
  copyBytes spare (eccPosition scheme) ecc id scheme.eccByteNumber

def writeEcc (spare ecc : Memory) : Memory :=
  copyBytes ecc id spare (eccPosition scheme) scheme.eccByteNumber

def readExtra (spare extra : Memory) (size offset : UInt8) : Except Fault Memory :=
  if size.toNat + offset.toNat < scheme.extraByteNumber then
    .ok (copyBytes spare (fun i => extraPosition scheme (i + offset.toNat)) extra id size.toNat)
  else .error .assertion

def writeExtra (spare extra : Memory) (size offset : UInt8) : Except Fault Memory :=
  if size.toNat + offset.toNat < scheme.extraByteNumber then
    .ok (copyBytes extra id spare (fun i => extraPosition scheme (i + offset.toNat)) size.toNat)
  else .error .assertion

variable {scheme} {spare : Memory}

/-! ### The loops -/

theorem copyBytes_eq (source : Memory) (src : Nat → Nat) (target : Memory) (dst : Nat → Nat) (n : Nat) :
    copyBytes source src target dst n =
      scatter target ((List.range n).map dst) ((List.range n).map fun i => source (src i)) := by
  unfold copyBytes
  generalize List.range n = is
  induction is generalizing target with
  | nil => rfl
  | cons i is ih => exact ih _

theorem scatter_range (target : Memory) (values : List UInt8) :
    scatter target (List.range' 0 values.length) values = target.store 0 values := by
  funext i
  by_cases hi : i < values.length
  · have hlength : values.length = (List.range' 0 values.length).length := List.length_range'.symm
    have hvalues := gather_scatter List.nodup_range' target hlength
    have hat := congrArg (fun l => l[i]?) hvalues
    rw [gather, List.getElem?_map, List.getElem?_range' hi, List.getElem?_eq_getElem hi, Option.map_some, Nat.zero_add,
      Nat.one_mul] at hat
    have hstore : target.store 0 values (0 + i) = values[i] := Memory.store_of_inside hi
    rw [Nat.zero_add] at hstore
    rw [hstore, Option.some.inj hat]
  · rw [scatter_of_notMem (fun h => hi (by have := (List.mem_range'_1.mp h).2; omega)),
      Memory.store_of_outside (by omega)]

theorem copyBytes_read {positions : List Nat} (spare buffer : Memory) {offset n : Nat} (hn : offset + n ≤ positions.length) :
    copyBytes spare (fun i => positions.getD (i + offset) 0) buffer id n =
      buffer.store 0 (((gather spare positions).drop offset).take n) := by
  have hvalues : (List.range n).map (fun i => spare (positions.getD (i + offset) 0)) =
      ((gather spare positions).drop offset).take n := by
    apply List.ext_getElem
    · simp only [List.length_map, List.length_range, List.length_take, List.length_drop, length_gather]
      omega
    · intro i hi _
      rw [List.length_map, List.length_range] at hi
      rw [List.getElem_map, List.getElem_range, List.getElem_take, List.getElem_drop, List.getD_eq_getElem _ _ (by omega)]
      simp only [gather, List.getElem_map, Nat.add_comm]
  have hlength : (((gather spare positions).drop offset).take n).length = n := by
    rw [List.length_take, List.length_drop, length_gather]
    omega
  rw [copyBytes_eq, hvalues, List.map_id, List.range_eq_range', ← scatter_range, hlength]

theorem copyBytes_write {positions : List Nat} (spare buffer : Memory) {offset n : Nat} (hn : offset + n ≤ positions.length) :
    copyBytes buffer id spare (fun i => positions.getD (i + offset) 0) n =
      scatter spare ((positions.drop offset).take n) (buffer.load 0 n) := by
  have hpositions : (List.range n).map (fun i => positions.getD (i + offset) 0) = (positions.drop offset).take n := by
    apply List.ext_getElem
    · simp only [List.length_map, List.length_range, List.length_take, List.length_drop]
      omega
    · intro i hi _
      rw [List.length_map, List.length_range] at hi
      rw [List.getElem_map, List.getElem_range, List.getElem_take, List.getElem_drop, List.getD_eq_getElem _ _ (by omega)]
      simp only [Nat.add_comm]
  have hvalues : (List.range n).map (fun i => buffer (id i)) = buffer.load 0 n := by
    rw [Memory.load]
    simp only [id_eq, Nat.zero_add]
  rw [copyBytes_eq, hpositions, hvalues]

/-! ### Functions of the scheme -/

theorem readEcc_eq (ecc : Memory) : readEcc scheme spare ecc = ecc.store 0 (gather spare scheme.eccBytesPositions) := by
  have hfits : 0 + scheme.eccByteNumber ≤ scheme.eccBytesPositions.length :=
    Nat.le_of_eq ((Nat.zero_add _).trans scheme.ecc.symm)
  have hread := copyBytes_read spare ecc hfits
  have hall : (gather spare scheme.eccBytesPositions).take scheme.eccByteNumber = gather spare scheme.eccBytesPositions :=
    List.take_of_length_le (Nat.le_of_eq ((length_gather _ _).trans scheme.ecc))
  rw [List.drop_zero, hall] at hread
  exact hread

theorem writeEcc_eq (ecc : Memory) :
    writeEcc scheme spare ecc = scatter spare scheme.eccBytesPositions (ecc.load 0 scheme.eccByteNumber) := by
  have hfits : 0 + scheme.eccByteNumber ≤ scheme.eccBytesPositions.length :=
    Nat.le_of_eq ((Nat.zero_add _).trans scheme.ecc.symm)
  have hwrite := copyBytes_write spare ecc hfits
  have hall : scheme.eccBytesPositions.take scheme.eccByteNumber = scheme.eccBytesPositions :=
    List.take_of_length_le (Nat.le_of_eq scheme.ecc)
  rw [List.drop_zero, hall] at hwrite
  exact hwrite

/-! ### Three records in one area -/

/-- What a spare area holds, seen through a scheme. -/
structure SpareView where
  marker : UInt8
  ecc : List UInt8
  extra : List UInt8

def SpareScheme.view (scheme : SpareScheme) (spare : Memory) : SpareView :=
  ⟨spare scheme.badBlockMarkerPosition, gather spare scheme.eccBytesPositions, gather spare scheme.extraBytesPositions⟩

def SpareScheme.positions (scheme : SpareScheme) : List Nat :=
  scheme.badBlockMarkerPosition :: (scheme.eccBytesPositions ++ scheme.extraBytesPositions)

inductive SpareOp where
  | readBadBlockMarker
  | writeBadBlockMarker
  | readEcc
  | writeEcc
  | readExtra (size offset : UInt8)
  | writeExtra (size offset : UInt8)

/-- A function of the file, with the buffer it reads to or writes from. -/
structure SpareCall where
  op : SpareOp
  buffer : Memory

/-- The caller's buffer and the spare area after the call. -/
def spareCall (scheme : SpareScheme) (spare : Memory) (call : SpareCall) : Except Fault (Memory × Memory) :=
  match call.op with
  | .readBadBlockMarker => .ok (readBadBlockMarker scheme spare call.buffer, spare)
  | .writeBadBlockMarker => .ok (call.buffer, writeBadBlockMarker scheme spare (call.buffer 0))
  | .readEcc => .ok (readEcc scheme spare call.buffer, spare)
  | .writeEcc => .ok (call.buffer, writeEcc scheme spare call.buffer)
  | .readExtra size offset => (readExtra scheme spare call.buffer size offset).map fun extra => (extra, spare)
  | .writeExtra size offset => (writeExtra scheme spare call.buffer size offset).map fun spare => (call.buffer, spare)

/-- The assertion of the functions for extra bytes; it keeps out the last one. -/
def SpareAllowed (scheme : SpareScheme) (call : SpareCall) : Prop :=
  match call.op with
  | .readExtra size offset => size.toNat + offset.toNat < scheme.extraByteNumber
  | .writeExtra size offset => size.toNat + offset.toNat < scheme.extraByteNumber
  | _ => True

/-- Each record is read as it is, and written by its own function only. -/
def SpareStep (scheme : SpareScheme) (view : SpareView) (call : SpareCall) (buffer : Memory) (view' : SpareView) : Prop :=
  match call.op with
  | .readBadBlockMarker => view' = view ∧ buffer = call.buffer.store 0 [view.marker]
  | .writeBadBlockMarker => view' = { view with marker := call.buffer 0 } ∧ buffer = call.buffer
  | .readEcc => view' = view ∧ buffer = call.buffer.store 0 view.ecc
  | .writeEcc => view' = { view with ecc := call.buffer.load 0 scheme.eccByteNumber } ∧ buffer = call.buffer
  | .readExtra size offset =>
      view' = view ∧ buffer = call.buffer.store 0 ((view.extra.drop offset.toNat).take size.toNat)
  | .writeExtra size offset =>
      view' = { view with extra := view.extra.take offset.toNat ++
        (call.buffer.load 0 size.toNat ++ view.extra.drop (offset.toNat + size.toNat)) } ∧ buffer = call.buffer

/-- With it, bytes at no position of the scheme stay. -/
def SpareMeets (scheme : SpareScheme) (spare : Memory) (view : SpareView) (call : SpareCall) (buffer spare' : Memory)
    (view' : SpareView) : Prop :=
  SpareStep scheme view call buffer view' ∧ ∀ i ∉ scheme.positions, spare' i = spare i

section Positions

variable (scheme)

theorem marker_notMem : scheme.badBlockMarkerPosition ∉ scheme.eccBytesPositions ∧
    scheme.badBlockMarkerPosition ∉ scheme.extraBytesPositions :=
  not_or.mp fun h => (List.nodup_cons.mp scheme.nodup).1 (List.mem_append.mpr h)

theorem nodup_ecc : scheme.eccBytesPositions.Nodup :=
  (List.nodup_append.mp (List.nodup_cons.mp scheme.nodup).2).1

theorem nodup_extra : scheme.extraBytesPositions.Nodup :=
  (List.nodup_append.mp (List.nodup_cons.mp scheme.nodup).2).2.1

theorem ecc_ne_extra {i : Nat} (hecc : i ∈ scheme.eccBytesPositions) : i ∉ scheme.extraBytesPositions :=
  fun hextra => (List.nodup_append.mp (List.nodup_cons.mp scheme.nodup).2).2.2 i hecc i hextra rfl

end Positions

theorem gather_update_of_notMem {positions : List Nat} {p : Nat} (hp : p ∉ positions) (spare : Memory) (x : UInt8) :
    gather (Function.update spare p x) positions = gather spare positions :=
  List.map_congr_left fun _ hi => Function.update_of_ne (ne_of_mem_of_not_mem hi hp) ..

theorem update_eq_store (m : Memory) (x : UInt8) : Function.update m 0 x = m.store 0 [x] := by
  have hone := scatter_range m [x]
  exact hone

theorem writeBadBlockMarker_view (marker : UInt8) :
    scheme.view (writeBadBlockMarker scheme spare marker) = { scheme.view spare with marker := marker } := by
  obtain ⟨hecc, hextra⟩ := marker_notMem scheme
  unfold SpareScheme.view writeBadBlockMarker
  rw [Function.update_self, gather_update_of_notMem hecc, gather_update_of_notMem hextra]

theorem writeEcc_view (ecc : Memory) :
    scheme.view (writeEcc scheme spare ecc) = { scheme.view spare with ecc := ecc.load 0 scheme.eccByteNumber } := by
  have hlength : (ecc.load 0 scheme.eccByteNumber).length = scheme.eccBytesPositions.length := by
    rw [Memory.load_length, scheme.ecc]
  rw [writeEcc_eq]
  unfold SpareScheme.view
  rw [scatter_of_notMem (marker_notMem scheme).1, gather_scatter (nodup_ecc scheme) spare hlength,
    gather_scatter_of_disjoint fun i hextra hecc => ecc_ne_extra scheme hecc hextra]

theorem readExtra_eq (extra : Memory) {size offset : UInt8} (h : size.toNat + offset.toNat < scheme.extraByteNumber) :
    readExtra scheme spare extra size offset =
      .ok (extra.store 0 (((scheme.view spare).extra.drop offset.toNat).take size.toNat)) := by
  have hfits : offset.toNat + size.toNat ≤ scheme.extraBytesPositions.length := by
    rw [scheme.extra]
    omega
  rw [readExtra, if_pos h]
  exact congrArg _ (copyBytes_read spare extra hfits)

theorem writeExtra_eq (extra : Memory) {size offset : UInt8} (h : size.toNat + offset.toNat < scheme.extraByteNumber) :
    writeExtra scheme spare extra size offset =
      .ok (scatter spare ((scheme.extraBytesPositions.drop offset.toNat).take size.toNat) (extra.load 0 size.toNat)) := by
  have hfits : offset.toNat + size.toNat ≤ scheme.extraBytesPositions.length := by
    rw [scheme.extra]
    omega
  rw [writeExtra, if_pos h]
  exact congrArg _ (copyBytes_write spare extra hfits)

theorem writeExtra_view (extra : Memory) {size offset : Nat} (h : offset + size ≤ scheme.extraByteNumber) :
    scheme.view (scatter spare ((scheme.extraBytesPositions.drop offset).take size) (extra.load 0 size)) =
      { scheme.view spare with extra := (scheme.view spare).extra.take offset ++
          (extra.load 0 size ++ (scheme.view spare).extra.drop (offset + size)) } := by
  have hsome : ∀ i ∈ (scheme.extraBytesPositions.drop offset).take size, i ∈ scheme.extraBytesPositions :=
    fun i hi => List.mem_of_mem_drop (List.mem_of_mem_take hi)
  have hsplit : scheme.extraBytesPositions = scheme.extraBytesPositions.take offset ++
      ((scheme.extraBytesPositions.drop offset).take size ++ scheme.extraBytesPositions.drop (offset + size)) := by
    rw [← List.drop_drop, List.take_append_drop, List.take_append_drop]
  have hlength : (extra.load 0 size).length = ((scheme.extraBytesPositions.drop offset).take size).length := by
    rw [Memory.load_length, List.length_take, List.length_drop, scheme.extra]
    omega
  have hextra := gather_scatter_slice (hsplit ▸ nodup_extra scheme) spare hlength
  rw [← hsplit] at hextra
  unfold SpareScheme.view
  rw [scatter_of_notMem fun hi => (marker_notMem scheme).2 (hsome _ hi),
    gather_scatter_of_disjoint fun i hecc hi => ecc_ne_extra scheme hecc (hsome i hi), hextra]
  simp only [gather, List.map_take, List.map_drop]

/-- **Spare areas.** Whatever functions of a scheme are called on a spare area, each reads what was last written of its own record, whatever has been written of the others, and no other byte changes. -/
theorem spare_conforms (scheme : SpareScheme) (spare : Memory) (calls : List SpareCall) :
    Conforms (spareCall scheme) (fun _ call => SpareAllowed scheme call) (SpareMeets scheme) spare (scheme.view spare) calls := by
  apply Conforms.of_simulation fun spare view => scheme.view spare = view
  · rintro spare view ⟨op, buffer⟩ hview hallowed
    subst hview
    cases op with
    | readBadBlockMarker =>
        exact ⟨_, _, _, rfl, ⟨⟨rfl, update_eq_store buffer _⟩, fun _ _ => rfl⟩, rfl⟩
    | writeBadBlockMarker =>
        refine ⟨_, _, _, rfl, ⟨⟨rfl, rfl⟩, fun i hi => ?_⟩, writeBadBlockMarker_view _⟩
        exact Function.update_of_ne (ne_of_mem_of_not_mem (List.mem_cons_self ..) hi).symm ..
    | readEcc =>
        exact ⟨_, _, _, rfl, ⟨⟨rfl, readEcc_eq buffer⟩, fun _ _ => rfl⟩, rfl⟩
    | writeEcc =>
        refine ⟨_, _, _, rfl, ⟨⟨rfl, rfl⟩, fun i hi => ?_⟩, writeEcc_view _⟩
        rw [writeEcc_eq]
        exact scatter_of_notMem (fun h => hi (List.mem_cons_of_mem _ (List.mem_append_left _ h))) ..
    | readExtra size offset =>
        refine ⟨_, _, _, ?_, ⟨⟨rfl, rfl⟩, fun _ _ => rfl⟩, rfl⟩
        rw [spareCall]
        dsimp only
        rw [readExtra_eq buffer hallowed]
        rfl
    | writeExtra size offset =>
        have hfits : size.toNat + offset.toNat < scheme.extraByteNumber := hallowed
        refine ⟨_, _, _, ?_, ⟨⟨rfl, rfl⟩, fun i hi => ?_⟩, writeExtra_view buffer (by omega)⟩
        · rw [spareCall]
          dsimp only
          rw [writeExtra_eq buffer hallowed]
          rfl
        · refine scatter_of_notMem (fun h => hi ?_) ..
          exact List.mem_cons_of_mem _ (List.mem_append_right _ (List.mem_of_mem_drop (List.mem_of_mem_take h)))
  · rfl

/-- Extra bytes, a code and a marker written to the spare area of a page of 512 bytes, and read back. -/
theorem spare_conforms_records :
    let blank : Memory := fun _ => 0
    let calls : List SpareCall := [⟨.writeExtra 3 1, fun i => UInt8.ofNat (i + 1)⟩, ⟨.writeEcc, fun _ => 7⟩,
      ⟨.writeBadBlockMarker, fun _ => 5⟩, ⟨.readExtra 4 0, blank⟩, ⟨.readEcc, blank⟩, ⟨.readBadBlockMarker, blank⟩]
    (∃ buffers spare, answers (spareCall spareScheme512) (fun _ => 0xFF) calls = .ok (buffers, spare) ∧
      (buffers.drop 3).map (·.load 0 7) = [[0xFF, 1, 2, 3, 0, 0, 0], [7, 7, 7, 7, 7, 7, 0], [5, 0, 0, 0, 0, 0, 0]]) ∧
    Conforms (spareCall spareScheme512) (fun _ call => SpareAllowed spareScheme512 call) (SpareMeets spareScheme512)
      (fun _ => 0xFF) (spareScheme512.view fun _ => 0xFF) calls :=
  ⟨⟨_, _, rfl, rfl⟩, spare_conforms _ _ _⟩

end ContikiAtsam.Nand
