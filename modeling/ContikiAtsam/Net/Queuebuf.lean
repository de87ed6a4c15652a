import ContikiAtsam.Base.Run
import ContikiAtsam.Nbr.FirstFit
import ContikiAtsam.Net.Packetbuf
import Mathlib.Data.Fintype.EquivFin

/-!
# Queued packets

`queuebuf.c`, as configured, with all buffers in memory. A queued packet is a copy of what is in the packet buffer, taken in two blocks of two pools of the same size: a handle and the block that the handle points to. The packets that are queued are a table from handles to copies: a copy is what was last put under its handle, whatever has been queued, freed or put in the packet buffer since.
-/

namespace ContikiAtsam

open Nbr (NbrLib)

/-- `struct queuebuf_data`. -/
structure QueuebufData where
  data : Memory
  len : UInt16
  attrs : PacketbufAttr → UInt16
  addrs : PacketbufAddr → Linkaddr6

/-- The pools and the blocks in them, with the packet buffer. A pointer is the index of its block. -/
structure Queuebufs (lib : NbrLib) where
  bufmem : lib.Memb
  buframmem : lib.Memb
  ramPtr : Nat → Option Nat
  ram : Nat → QueuebufData
  pb : Packetbuf

/-- `QUEUEBUF_NUM`, as configured. -/
def queuebufNum : Nat := 8

variable {lib : NbrLib}

namespace Queuebufs

variable (s : Queuebufs lib)

def init (lib : NbrLib) (ram : Nat → QueuebufData) (pb : Packetbuf) : Queuebufs lib where
  bufmem := lib.membInit
  buframmem := lib.membInit
  ramPtr := fun _ => none
  ram
  pb

/-- `queuebuf_load_to_ram`; a handle that has no block stands for a null pointer that is followed. -/
def loadToRam (buf : Nat) : Except Fault Nat :=
  match s.ramPtr buf with
  | some p => .ok p
  | none => .error .outOfBounds

/-- The packet and its attributes are copied to a block. -/
def fill (p : Nat) : Queuebufs lib :=
  let copied := packetbufCopyto s.pb (s.ram p).data
  { s with ram := Function.update s.ram p ⟨copied.2, UInt16.ofNat copied.1, s.pb.attrs, s.pb.addrs⟩ }

def newFromPacketbuf : Option Nat × Queuebufs lib :=
  match lib.membAlloc s.bufmem with
  | none => (none, s)
  | some (buf, bufmem) =>
    match lib.membAlloc s.buframmem with
    | none => (none, { s with bufmem := lib.membFree bufmem buf, ramPtr := Function.update s.ramPtr buf none })
    | some (p, buframmem) =>
      (some buf, fill { s with bufmem, buframmem, ramPtr := Function.update s.ramPtr buf (some p) } p)

def updateAttrFromPacketbuf (buf : Nat) : Except Fault (Queuebufs lib) := do
  let p ← s.loadToRam buf
  return { s with ram := Function.update s.ram p { s.ram p with attrs := s.pb.attrs, addrs := s.pb.addrs } }

def updateFromPacketbuf (buf : Nat) : Except Fault (Queuebufs lib) := do
  let p ← s.loadToRam buf
  return s.fill p

def free (buf : Nat) : Except Fault (Queuebufs lib) :=
  if lib.membInmemb s.bufmem buf then do
    let p ← s.loadToRam buf
    return { s with buframmem := lib.membFree s.buframmem p, bufmem := lib.membFree s.bufmem buf }
  else .ok s

def toPacketbuf (buf : Nat) : Except Fault (Queuebufs lib) :=
  if lib.membInmemb s.bufmem buf then do
    let p ← s.loadToRam buf
    let pb := (packetbufCopyfrom s.pb (s.ram p).data (s.ram p).len).2
    return { s with pb := packetbufAttrCopyfrom pb (s.ram p).attrs (s.ram p).addrs }
  else .ok s

def datalen (buf : Nat) : Except Fault UInt16 := do
  let p ← s.loadToRam buf
  return (s.ram p).len

/-- `queuebuf_dataptr`, as the bytes that the caller finds there. -/
def data (buf : Nat) : Except Fault (List UInt8) := do
  let p ← s.loadToRam buf
  return (s.ram p).data.load 0 (s.ram p).len.toNat

end Queuebufs

/-! ### Copies -/

/-- A copy of a packet. -/
structure PacketCopy where
  bytes : List UInt8
  attrs : PacketbufAttr → UInt16
  addrs : PacketbufAddr → Linkaddr6

/-- The packet as it is copied: no more than a packet buffer holds, and else nothing. -/
def Packetbuf.whole (pb : Packetbuf) : List UInt8 :=
  let hdr := pb.packetbuf.load (packetbufHdrptr pb) (packetbufHdrSize - pb.hdrptr.toNat)
  if hdr.length + pb.data.length > packetbufSize then [] else hdr ++ pb.data

def Packetbuf.copy (pb : Packetbuf) : PacketCopy := ⟨pb.whole, pb.attrs, pb.addrs⟩

theorem Packetbuf.length_whole_le (pb : Packetbuf) : pb.whole.length ≤ packetbufSize := by
  unfold Packetbuf.whole
  dsimp only
  split
  · exact Nat.zero_le _
  · rw [List.length_append]
    omega

theorem packetbufCopyto_eq (pb : Packetbuf) (dst : Memory) :
    (packetbufCopyto pb dst).1 = pb.whole.length ∧ (packetbufCopyto pb dst).2.load 0 pb.whole.length = pb.whole := by
  unfold packetbufCopyto Packetbuf.whole
  dsimp only
  rw [Memory.load_length, Packetbuf.data, Memory.load_length, packetbufDatalen]
  split
  · exact ⟨rfl, rfl⟩
  · have hstore := Memory.store_store_append dst 0 (pb.packetbuf.load (packetbufHdrptr pb) (packetbufHdrSize - pb.hdrptr.toNat))
      (pb.packetbuf.load (packetbufDataptr pb) pb.buflen.toNat)
    rw [Nat.zero_add, Memory.load_length] at hstore
    have hload := Memory.load_store_self dst 0 (pb.packetbuf.load (packetbufHdrptr pb)
      (packetbufHdrSize - pb.hdrptr.toNat) ++ pb.packetbuf.load (packetbufDataptr pb) pb.buflen.toNat)
    rw [hstore]
    refine ⟨?_, hload⟩
    rw [List.length_append, Memory.load_length, Memory.load_length]

/-- The block holds the copy. -/
structure QueuebufData.Holds (d : QueuebufData) (copy : PacketCopy) : Prop where
  len : d.len.toNat = copy.bytes.length
  data : d.data.load 0 copy.bytes.length = copy.bytes
  attrs : d.attrs = copy.attrs
  addrs : d.addrs = copy.addrs

theorem fill_holds (s : Queuebufs lib) (p : Nat) : ((s.fill p).ram p).Holds s.pb.copy := by
  obtain ⟨hlength, hdata⟩ := packetbufCopyto_eq s.pb (s.ram p).data
  have hle := s.pb.length_whole_le
  rw [Queuebufs.fill]
  dsimp only
  rw [Function.update_self]
  refine ⟨?_, hdata, rfl, rfl⟩
  rw [hlength, UInt16.toNat_ofNat', Nat.mod_eq_of_lt]
  · rfl
  · exact Nat.lt_of_le_of_lt hle (by decide)

/-- What a copy that is put back in the packet buffer looks like there: data without headers. -/
theorem copyfrom_copy {d : QueuebufData} {copy : PacketCopy} (hd : d.Holds copy) (hle : copy.bytes.length ≤ packetbufSize)
    (pb : Packetbuf) :
    (packetbufAttrCopyfrom (packetbufCopyfrom pb d.data d.len).2 d.attrs d.addrs).data = copy.bytes ∧
      (packetbufAttrCopyfrom (packetbufCopyfrom pb d.data d.len).2 d.attrs d.addrs).copy = copy := by
  have hfits : ¬ d.len.toNat > packetbufSize := by
    rw [hd.len]
    omega
  have hcopied : packetbufCopyfrom pb d.data d.len =
      (d.len, { packetbufClear pb with
        packetbuf := (packetbufClear pb).packetbuf.store packetbufHdrSize (d.data.load 0 d.len.toNat), buflen := d.len }) := by
    rw [packetbufCopyfrom, if_neg hfits]
  have hdata : (packetbufAttrCopyfrom (packetbufCopyfrom pb d.data d.len).2 d.attrs d.addrs).data = copy.bytes := by
    have hload := Memory.load_store_self (packetbufClear pb).packetbuf packetbufHdrSize (d.data.load 0 d.len.toNat)
    rw [Memory.load_length] at hload
    rw [hcopied]
    refine hload.trans ?_
    rw [hd.len, hd.data]
  refine ⟨hdata, ?_⟩
  have hhdr : (packetbufAttrCopyfrom (packetbufCopyfrom pb d.data d.len).2 d.attrs d.addrs).hdrptr =
      UInt8.ofNat packetbufHdrSize := by
    rw [hcopied]
    rfl
  have hwhole : (packetbufAttrCopyfrom (packetbufCopyfrom pb d.data d.len).2 d.attrs d.addrs).whole = copy.bytes := by
    have hnone : packetbufHdrSize - (UInt8.ofNat packetbufHdrSize).toNat = 0 := rfl
    have hempty : ∀ (m : Memory) (base : Nat), m.load base 0 = [] := fun _ _ => rfl
    rw [Packetbuf.whole, hhdr, hnone, hempty, hdata, List.length_nil, Nat.zero_add, List.nil_append,
      if_neg (by omega)]
  rw [Packetbuf.copy, hwhole]
  show PacketCopy.mk copy.bytes d.attrs d.addrs = copy
  rw [hd.attrs, hd.addrs]

/-! ### The table of copies -/

inductive QueuebufCall where
  | newFromPacketbuf
  | updateAttrFromPacketbuf (buf : Nat)
  | updateFromPacketbuf (buf : Nat)
  | free (buf : Nat)
  | toPacketbuf (buf : Nat)
  | data (buf : Nat)
  /-- The packet buffer becomes another one by other functions. -/
  | packetbuf (pb : Packetbuf)

inductive QueuebufResult where
  | handle (buf : Option Nat)
  | bytes (bytes : List UInt8)
  | done

def queuebufCall (s : Queuebufs lib) : QueuebufCall → Except Fault (QueuebufResult × Queuebufs lib)
  | .newFromPacketbuf => .ok (.handle s.newFromPacketbuf.1, s.newFromPacketbuf.2)
  | .updateAttrFromPacketbuf buf => (s.updateAttrFromPacketbuf buf).map fun s => (.done, s)
  | .updateFromPacketbuf buf => (s.updateFromPacketbuf buf).map fun s => (.done, s)
  | .free buf => (s.free buf).map fun s => (.done, s)
  | .toPacketbuf buf => (s.toPacketbuf buf).map fun s => (.done, s)
  | .data buf => (s.data buf).map fun bytes => (.bytes bytes, s)
  | .packetbuf pb => .ok (.done, { s with pb })

/-- The copies under their handles. -/
abbrev Copies := Nat → Option PacketCopy

/-- Only handles of copies are used. -/
def QueuebufAllowed (copies : Copies) : QueuebufCall → Prop
  | .newFromPacketbuf => True
  | .updateAttrFromPacketbuf buf => copies buf ≠ none
  | .updateFromPacketbuf buf => copies buf ≠ none
  | .free buf => copies buf ≠ none
  | .toPacketbuf buf => copies buf ≠ none
  | .data buf => copies buf ≠ none
  | .packetbuf _ => True

/-- A new copy gets a handle that is not in use, or none if all are in use; the other functions do what they say to the copy of their handle. Only putting a copy back changes the packet buffer. -/
def QueuebufMeets (s : Queuebufs lib) (copies : Copies) :
    QueuebufCall → QueuebufResult → Queuebufs lib → Copies → Prop
  | .newFromPacketbuf, result, s', copies' => s'.pb = s.pb ∧
      ((∃ buf < lib.blocks, result = .handle (some buf) ∧ copies buf = none ∧
        copies' = Function.update copies buf (some s.pb.copy)) ∨
      (result = .handle none ∧ copies' = copies ∧ ∀ buf < lib.blocks, copies buf ≠ none))
  | .updateAttrFromPacketbuf buf, _, s', copies' => s'.pb = s.pb ∧
      ∃ copy, copies buf = some copy ∧
        copies' = Function.update copies buf (some { copy with attrs := s.pb.attrs, addrs := s.pb.addrs })
  | .updateFromPacketbuf buf, _, s', copies' => s'.pb = s.pb ∧ copies' = Function.update copies buf (some s.pb.copy)
  | .free buf, _, s', copies' => s'.pb = s.pb ∧ copies' = Function.update copies buf none
  | .toPacketbuf buf, _, s', copies' => copies' = copies ∧
      ∃ copy, copies buf = some copy ∧ s'.pb.data = copy.bytes ∧ s'.pb.copy = copy
  | .data buf, result, s', copies' => s' = s ∧ copies' = copies ∧
      ∃ copy, copies buf = some copy ∧ result = .bytes copy.bytes
  | .packetbuf pb, _, s', copies' => copies' = copies ∧ s'.pb = pb

/-- Each copy is in a block of its own, and no other block is in use. -/
structure Queued (s : Queuebufs lib) (copies : Copies) : Prop where
  bufmem : ∀ b, lib.allocated s.bufmem b ↔ copies b ≠ none
  inside : ∀ b, copies b ≠ none → b < lib.blocks
  block : ∀ b copy, copies b = some copy → ∃ p, s.ramPtr b = some p ∧ lib.allocated s.buframmem p ∧ (s.ram p).Holds copy ∧
    copy.bytes.length ≤ packetbufSize
  unique : ∀ b b' p, copies b ≠ none → copies b' ≠ none → s.ramPtr b = some p → s.ramPtr b' = some p → b = b'
  used : ∀ p, lib.allocated s.buframmem p → ∃ b, copies b ≠ none ∧ s.ramPtr b = some p

theorem queued_init (hlib : lib.Lawful) (ram : Nat → QueuebufData) (pb : Packetbuf) :
    Queued (Queuebufs.init lib ram pb) fun _ => none where
  bufmem b := iff_of_false (hlib.init_free b) fun h => h rfl
  inside _ h := absurd rfl h
  block _ _ h := by cases h
  unique _ _ _ h := absurd rfl h
  used p h := absurd h (hlib.init_free p)

section Calls

variable {s : Queuebufs lib} {copies : Copies} (h : Queued s copies)
include h

theorem Queued.loadToRam {b : Nat} (hb : copies b ≠ none) : ∃ copy p, copies b = some copy ∧ s.ramPtr b = some p ∧
    s.loadToRam b = .ok p ∧ lib.allocated s.buframmem p ∧ (s.ram p).Holds copy ∧ copy.bytes.length ≤ packetbufSize := by
  obtain ⟨copy, hcopy⟩ := Option.ne_none_iff_exists'.mp hb
  obtain ⟨p, hp, hused, hholds, hle⟩ := h.block b copy hcopy
  exact ⟨copy, p, hcopy, hp, by rw [Queuebufs.loadToRam, hp], hused, hholds, hle⟩

theorem Queued.put {b p : Nat} (hb : copies b ≠ none) (hp : s.ramPtr b = some p) {d : QueuebufData} {copy : PacketCopy}
    (hd : d.Holds copy) (hle : copy.bytes.length ≤ packetbufSize) :
    Queued { s with ram := Function.update s.ram p d } (Function.update copies b (some copy)) := by
  have hsame : ∀ b', Function.update copies b (some copy) b' ≠ none ↔ copies b' ≠ none := by
    intro b'
    by_cases hbb : b' = b
    · rw [hbb, Function.update_self]
      exact iff_of_true (Option.some_ne_none _) hb
    · rw [Function.update_of_ne hbb]
  refine ⟨fun b' => (h.bufmem b').trans (hsame b').symm, fun b' hb' => h.inside b' ((hsame b').mp hb'), ?_, ?_, ?_⟩
  · intro b' copy' hcopy'
    by_cases hbb : b' = b
    · rw [hbb, Function.update_self] at hcopy'
      obtain rfl := Option.some.inj hcopy'
      obtain ⟨_, p', _, hp', _, hused, _⟩ := h.loadToRam hb
      obtain rfl := Option.some.inj (hp.symm.trans hp')
      refine ⟨p, hbb ▸ hp, hused, ?_, hle⟩
      dsimp only
      rw [Function.update_self]
      exact hd
    · rw [Function.update_of_ne hbb] at hcopy'
      obtain ⟨p', hp', hused, hholds, hle'⟩ := h.block b' copy' hcopy'
      have hpp : p' ≠ p := by
        rintro rfl
        exact hbb (h.unique b' b p' (by rw [hcopy']; exact Option.some_ne_none _) hb hp' hp)
      refine ⟨p', hp', hused, ?_, hle'⟩
      dsimp only
      rw [Function.update_of_ne hpp]
      exact hholds
  · intro b₁ b₂ p' hb₁ hb₂
    exact h.unique b₁ b₂ p' ((hsame b₁).mp hb₁) ((hsame b₂).mp hb₂)
  · intro p' hp'
    obtain ⟨b', hb', hptr⟩ := h.used p' hp'
    exact ⟨b', (hsame b').mpr hb', hptr⟩

variable (hlib : lib.Lawful)
include hlib

theorem Queued.release {b p : Nat} (hb : copies b ≠ none) (hp : s.ramPtr b = some p) :
    Queued { s with buframmem := lib.membFree s.buframmem p, bufmem := lib.membFree s.bufmem b }
      (Function.update copies b none) := by
  obtain ⟨_, p', _, hp', _, hused, _⟩ := h.loadToRam hb
  obtain rfl := Option.some.inj (hp.symm.trans hp')
  have hfreed := hlib.free_allocated ((h.bufmem b).mpr hb)
  have hfreedRam := hlib.free_allocated hused
  have hsame : ∀ b', Function.update copies b none b' ≠ none ↔ b' ≠ b ∧ copies b' ≠ none := by
    intro b'
    by_cases hbb : b' = b
    · rw [hbb, Function.update_self]
      exact iff_of_false (fun hne => hne rfl) fun hne => hne.1 rfl
    · rw [Function.update_of_ne hbb]
      exact (and_iff_right hbb).symm
  have hapart : ∀ b', b' ≠ b → copies b' ≠ none → s.ramPtr b' ≠ some p :=
    fun b' hbb hb' hptr => hbb (h.unique b' b p hb' hb hptr hp)
  refine ⟨fun b' => ?_, fun b' hb' => h.inside b' ((hsame b').mp hb').2, ?_, ?_, ?_⟩
  · rw [hsame, ← h.bufmem]
    exact hfreed b'
  · intro b' copy hcopy
    obtain ⟨hbb, hb'⟩ := (hsame b').mp (by rw [hcopy]; exact Option.some_ne_none _)
    rw [Function.update_of_ne hbb] at hcopy
    obtain ⟨p', hptr, hused', hholds⟩ := h.block b' copy hcopy
    have hpp : p' ≠ p := fun heq => hapart b' hbb hb' (heq ▸ hptr)
    exact ⟨p', hptr, (hfreedRam p').mpr ⟨hpp, hused'⟩, hholds⟩
  · intro b₁ b₂ p' hb₁ hb₂
    exact h.unique b₁ b₂ p' ((hsame b₁).mp hb₁).2 ((hsame b₂).mp hb₂).2
  · intro p' hp''
    obtain ⟨hpp, hused'⟩ := (hfreedRam p').mp hp''
    obtain ⟨b', hb', hptr⟩ := h.used p' hused'
    refine ⟨b', (hsame b').mpr ⟨?_, hb'⟩, hptr⟩
    rintro rfl
    exact hpp (Option.some.inj (hptr.symm.trans hp))

theorem Queued.take {b p : Nat} {bufmem buframmem : lib.Memb} (hb : lib.membAlloc s.bufmem = some (b, bufmem))
    (hp : lib.membAlloc s.buframmem = some (p, buframmem)) {d : QueuebufData} {copy : PacketCopy} (hd : d.Holds copy)
    (hle : copy.bytes.length ≤ packetbufSize) :
    Queued { s with bufmem, buframmem, ramPtr := Function.update s.ramPtr b (some p), ram := Function.update s.ram p d }
      (Function.update copies b (some copy)) := by
  obtain ⟨hlt, hfresh⟩ := hlib.alloc_fresh hb
  obtain ⟨_, hfreshRam⟩ := hlib.alloc_fresh hp
  have hallocated := hlib.alloc_allocated hb
  have hallocatedRam := hlib.alloc_allocated hp
  have hnone : copies b = none := not_not.mp fun hne => hfresh ((h.bufmem b).mpr hne)
  have hsame : ∀ b', Function.update copies b (some copy) b' ≠ none ↔ b' = b ∨ copies b' ≠ none := by
    intro b'
    by_cases hbb : b' = b
    · rw [hbb, Function.update_self]
      exact iff_of_true (Option.some_ne_none _) (Or.inl rfl)
    · rw [Function.update_of_ne hbb]
      exact (or_iff_right hbb).symm
  have hold : ∀ b' p', copies b' ≠ none → s.ramPtr b' = some p' → b' ≠ b ∧ p' ≠ p := by
    intro b' p' hb' hptr
    obtain ⟨_, q, _, hq, _, hused, _⟩ := h.loadToRam hb'
    obtain rfl := Option.some.inj (hptr.symm.trans hq)
    exact ⟨fun heq => hb' (heq ▸ hnone), fun heq => hfreshRam (heq ▸ hused)⟩
  refine ⟨fun b' => ?_, fun b' hb' => ?_, ?_, ?_, ?_⟩
  · rw [hsame, ← h.bufmem]
    exact hallocated b'
  · rcases (hsame b').mp hb' with rfl | hb'
    · exact hlt
    · exact h.inside b' hb'
  · intro b' copy' hcopy'
    by_cases hbb : b' = b
    · rw [hbb, Function.update_self] at hcopy'
      obtain rfl := Option.some.inj hcopy'
      refine ⟨p, ?_, (hallocatedRam p).mpr (Or.inl rfl), ?_, hle⟩
      · dsimp only
        rw [hbb, Function.update_self]
      · dsimp only
        rw [Function.update_self]
        exact hd
    · rw [Function.update_of_ne hbb] at hcopy'
      obtain ⟨p', hptr, hused, hholds, hle'⟩ := h.block b' copy' hcopy'
      have hpp := (hold b' p' (by rw [hcopy']; exact Option.some_ne_none _) hptr).2
      refine ⟨p', ?_, (hallocatedRam p').mpr (Or.inr hused), ?_, hle'⟩
      · dsimp only
        rw [Function.update_of_ne hbb]
        exact hptr
      · dsimp only
        rw [Function.update_of_ne hpp]
        exact hholds
  · intro b₁ b₂ p' hb₁ hb₂ hptr₁ hptr₂
    dsimp only at hptr₁ hptr₂
    by_cases h₁ : b₁ = b
    · by_cases h₂ : b₂ = b
      · rw [h₁, h₂]
      · rw [h₁, Function.update_self] at hptr₁
        rw [Function.update_of_ne h₂] at hptr₂
        exact absurd (Option.some.inj hptr₁).symm (hold b₂ p' (((hsame b₂).mp hb₂).resolve_left h₂) hptr₂).2
    · by_cases h₂ : b₂ = b
      · rw [h₂, Function.update_self] at hptr₂
        rw [Function.update_of_ne h₁] at hptr₁
        exact absurd (Option.some.inj hptr₂).symm (hold b₁ p' (((hsame b₁).mp hb₁).resolve_left h₁) hptr₁).2
      · rw [Function.update_of_ne h₁] at hptr₁
        rw [Function.update_of_ne h₂] at hptr₂
        exact h.unique b₁ b₂ p' (((hsame b₁).mp hb₁).resolve_left h₁) (((hsame b₂).mp hb₂).resolve_left h₂) hptr₁ hptr₂
  · intro p' hp'
    rcases (hallocatedRam p').mp hp' with rfl | hused
    · exact ⟨b, (hsame b).mpr (Or.inl rfl), Function.update_self ..⟩
    · obtain ⟨b', hb', hptr⟩ := h.used p' hused
      refine ⟨b', (hsame b').mpr (Or.inr hb'), ?_⟩
      dsimp only
      rw [Function.update_of_ne (hold b' p' hb' hptr).1]
      exact hptr

/-- While there is a free handle there is a free block. -/
theorem Queued.exists_block {b : Nat} (hb : b < lib.blocks) (hnone : copies b = none) :
    lib.membAlloc s.buframmem ≠ none := by
  intro hfull
  have hall : ∀ p : Fin lib.blocks, ∃ b' : Fin lib.blocks, copies b' ≠ none ∧ s.ramPtr b' = some p.val := by
    intro p
    obtain ⟨b', hb', hptr⟩ := h.used p (hlib.alloc_none hfull p p.isLt)
    exact ⟨⟨b', h.inside b' hb'⟩, hb', hptr⟩
  obtain ⟨handle, hhandle⟩ := Classical.axiomOfChoice hall
  have hinj : Function.Injective handle := by
    intro p p' heq
    have hptr := (hhandle p).2
    rw [heq, (hhandle p').2] at hptr
    exact Fin.ext (Option.some.inj hptr).symm
  obtain ⟨p, hp⟩ := Finite.surjective_of_injective hinj ⟨b, hb⟩
  have hlive := (hhandle p).1
  rw [hp] at hlive
  exact hlive hnone

end Calls

/-- **Queued packets.** In whatever order packets are queued, updated, put back, looked at and freed by their handles, and the packet buffer used for other packets, each is what was last put under its handle, with its attributes. A packet is refused only if all handles are in use. -/
theorem queuebuf_conforms (hlib : lib.Lawful) (ram : Nat → QueuebufData) (pb : Packetbuf) (calls : List QueuebufCall) :
    Conforms queuebufCall QueuebufAllowed QueuebufMeets (Queuebufs.init lib ram pb) (fun _ => none) calls := by
  apply Conforms.of_simulation Queued
  · intro s copies call h hallowed
    cases call with
    | newFromPacketbuf =>
        cases hb : lib.membAlloc s.bufmem with
        | none =>
            have hnew : s.newFromPacketbuf = (none, s) := by
              rw [Queuebufs.newFromPacketbuf, hb]
            refine ⟨.handle none, s, copies, ?_, ⟨rfl, Or.inr ⟨rfl, rfl, fun b hlt => ?_⟩⟩, h⟩
            · rw [queuebufCall, hnew]
            · exact (h.bufmem b).mp (hlib.alloc_none hb b hlt)
        | some taken =>
            obtain ⟨b, bufmem⟩ := taken
            obtain ⟨hlt, hfresh⟩ := hlib.alloc_fresh hb
            have hnone : copies b = none := not_not.mp fun hne => hfresh ((h.bufmem b).mpr hne)
            obtain ⟨⟨p, buframmem⟩, hp⟩ := Option.ne_none_iff_exists'.mp (h.exists_block hlib hlt hnone)
            have hnew : s.newFromPacketbuf = (some b, Queuebufs.fill
                { s with bufmem, buframmem, ramPtr := Function.update s.ramPtr b (some p) } p) := by
              rw [Queuebufs.newFromPacketbuf, hb]
              dsimp only
              rw [hp]
            have hfill := fill_holds { s with bufmem, buframmem, ramPtr := Function.update s.ramPtr b (some p) } p
            refine ⟨.handle (some b), Queuebufs.fill
              { s with bufmem, buframmem, ramPtr := Function.update s.ramPtr b (some p) } p, _, ?_,
              ⟨rfl, Or.inl ⟨b, hlt, rfl, hnone, rfl⟩⟩, ?_⟩
            · rw [queuebufCall, hnew]
            · rw [Queuebufs.fill] at hfill
              dsimp only at hfill
              rw [Function.update_self] at hfill
              exact h.take hlib hb hp hfill s.pb.length_whole_le
    | updateAttrFromPacketbuf buf =>
        obtain ⟨copy, p, hcopy, hp, hload, _, hholds, hle⟩ := h.loadToRam hallowed
        refine ⟨.done, { s with ram := Function.update s.ram p { s.ram p with attrs := s.pb.attrs, addrs := s.pb.addrs } },
          _, ?_, ⟨rfl, copy, hcopy, rfl⟩, h.put hallowed hp ⟨hholds.len, hholds.data, rfl, rfl⟩ hle⟩
        rw [queuebufCall, Queuebufs.updateAttrFromPacketbuf, hload]
        rfl
    | updateFromPacketbuf buf =>
        obtain ⟨copy, p, hcopy, hp, hload, _, hholds, hle⟩ := h.loadToRam hallowed
        have hfill := fill_holds s p
        have hput := h.put hallowed hp hfill s.pb.length_whole_le
        refine ⟨.done, s.fill p, _, ?_, ⟨rfl, rfl⟩, ?_⟩
        · rw [queuebufCall, Queuebufs.updateFromPacketbuf, hload]
          rfl
        · rw [Queuebufs.fill] at hput ⊢
          dsimp only at hput
          rw [Function.update_self] at hput
          exact hput
    | free buf =>
        obtain ⟨copy, p, hcopy, hp, hload, _, hholds, hle⟩ := h.loadToRam hallowed
        refine ⟨.done, { s with buframmem := lib.membFree s.buframmem p, bufmem := lib.membFree s.bufmem buf }, _, ?_,
          ⟨rfl, rfl⟩, h.release hlib hallowed hp⟩
        rw [queuebufCall, Queuebufs.free, if_pos (hlib.inmemb (h.inside buf hallowed)), hload]
        rfl
    | toPacketbuf buf =>
        obtain ⟨copy, p, hcopy, hp, hload, _, hholds, hle⟩ := h.loadToRam hallowed
        obtain ⟨hdata, hback⟩ := copyfrom_copy hholds hle s.pb
        generalize hpb : packetbufAttrCopyfrom (packetbufCopyfrom s.pb (s.ram p).data (s.ram p).len).2 (s.ram p).attrs
          (s.ram p).addrs = pb' at hdata hback
        refine ⟨.done, { s with pb := pb' }, copies, ?_, ⟨rfl, copy, hcopy, hdata, hback⟩,
          ⟨h.bufmem, h.inside, h.block, h.unique, h.used⟩⟩
        rw [← hpb]
        rw [queuebufCall, Queuebufs.toPacketbuf, if_pos (hlib.inmemb (h.inside buf hallowed)), hload]
        rfl
    | data buf =>
        obtain ⟨copy, p, hcopy, hp, hload, _, hholds, hle⟩ := h.loadToRam hallowed
        refine ⟨.bytes copy.bytes, s, copies, ?_, ⟨rfl, rfl, copy, hcopy, rfl⟩, h⟩
        rw [queuebufCall, Queuebufs.data, hload]
        show Except.ok (QueuebufResult.bytes ((s.ram p).data.load 0 (s.ram p).len.toNat), s) = _
        rw [hholds.len, hholds.data]
    | packetbuf pb =>
        exact ⟨.done, { s with pb }, copies, rfl, ⟨rfl, rfl⟩, ⟨h.bufmem, h.inside, h.block, h.unique, h.used⟩⟩
  · exact queued_init hlib ram pb

theorem queuebuf_conforms_firstFit :
    Conforms queuebufCall QueuebufAllowed QueuebufMeets
      (Queuebufs.init (Nbr.firstFit queuebufNum) (fun _ => ⟨fun _ => 0, 0, fun _ => 0, fun _ => linkaddr6Null⟩)
        (packetbufClear Packetbuf.zeroed)) (fun _ => none)
      [.newFromPacketbuf, .newFromPacketbuf, .updateFromPacketbuf 0, .toPacketbuf 1, .free 0, .newFromPacketbuf] :=
  queuebuf_conforms (Nbr.firstFit_lawful queuebufNum) _ _ _

end ContikiAtsam
