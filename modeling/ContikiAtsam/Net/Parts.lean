import ContikiAtsam.Base.Run
import ContikiAtsam.Net.Input

/-!
# The packet in the packet buffer

What the functions of `packetbuf.c` do, told without offsets. A packet has three parts that lie one after the other and end at the end of the data: the headers, which grow and shrink at their front, the bytes that have been stripped from the data, and the data. Allocating a header, stripping one, compacting and copying are operations on these lists.

Where both headers and stripped bytes are there, the packet is not in one piece: `packetbuf_copyto` leaves the stripped bytes out, but what the driver takes from `packetbuf_hdrptr` on includes them, and is too short by as much at its end. `packetbuf_compact` puts it right.
-/

namespace ContikiAtsam

/-- The packet, with its attributes. -/
structure PacketParts where
  header : List UInt8
  stripped : List UInt8
  data : List UInt8
  attrs : PacketbufAttr → UInt16
  addrs : PacketbufAddr → Linkaddr6

namespace PacketParts

def empty : PacketParts := ⟨[], [], [], fun _ => 0, fun _ => linkaddr6Null⟩

/-- `packetbuf_totlen`: where there are no headers, the stripped bytes count, but only up to 255. -/
def totlen (p : PacketParts) : Nat :=
  (if p.header = [] then p.stripped.length % 256 else p.header.length) + p.data.length

/-- Headers and data. -/
def whole (p : PacketParts) : List UInt8 := p.header ++ p.data

/-- The packet lies in the packet buffer. -/
structure In (p : PacketParts) (pb : Packetbuf) : Prop where
  hdrptr : pb.hdrptr.toNat + p.header.length = packetbufHdrSize
  bufptr : pb.bufptr.toNat = p.stripped.length
  buflen : pb.buflen.toNat = p.data.length
  room : p.stripped.length + p.data.length ≤ packetbufSize
  header : pb.packetbuf.load (packetbufHdrptr pb) p.header.length = p.header
  stripped : pb.packetbuf.load packetbufHdrSize p.stripped.length = p.stripped
  data : pb.packetbuf.load (packetbufHdrSize + p.stripped.length) p.data.length = p.data
  attrs : pb.attrs = p.attrs
  addrs : pb.addrs = p.addrs

end PacketParts

/-- The functions of the packet buffer, and what the layers above write to it through its pointers. -/
inductive PacketbufCall where
  | clear
  | clearHdr
  | copyfrom (src : Memory) (len : UInt16)
  /-- A frame is read to the data and its length set. -/
  | receive (frame : List UInt8)
  | compact
  | copytoHdr (dst : Memory)
  | copyto (dst : Memory)
  | hdralloc (size : Nat)
  | hdrRemove (size : Nat)
  | hdrreduce (size : Nat)
  | setDatalen (len : UInt16)
  /-- Bytes are written to the headers. -/
  | writeHdr (bytes : List UInt8)
  | setAttr (type : PacketbufAttr) (val : UInt16)
  | attr (type : PacketbufAttr)
  | setAddr (type : PacketbufAddr) (addr : Linkaddr6)
  | addr (type : PacketbufAddr)
  | datalen
  | totlen
  /-- The driver takes the frame. -/
  | frame

inductive PacketbufReply where
  | done
  | succeeded (b : Bool)
  | number (n : Nat)
  | copied (n : Nat) (dst : Memory)
  | linkaddr (addr : Linkaddr6)
  | bytes (bytes : List UInt8)

def packetbufCall (pb : Packetbuf) : PacketbufCall → Except Empty (PacketbufReply × Packetbuf)
  | .clear => .ok (.done, packetbufClear pb)
  | .clearHdr => .ok (.done, packetbufClearHdr pb)
  | .copyfrom src len => .ok (.number (packetbufCopyfrom pb src len).1.toNat, (packetbufCopyfrom pb src len).2)
  | .receive frame => .ok (.done, received pb frame)
  | .compact => .ok (.done, packetbufCompact pb)
  | .copytoHdr dst => .ok (.copied (packetbufCopytoHdr pb dst).1 (packetbufCopytoHdr pb dst).2, pb)
  | .copyto dst => .ok (.copied (packetbufCopyto pb dst).1 (packetbufCopyto pb dst).2, pb)
  | .hdralloc size => .ok (.succeeded (packetbufHdralloc pb size).1, (packetbufHdralloc pb size).2)
  | .hdrRemove size => .ok (.done, packetbufHdrRemove pb size)
  | .hdrreduce size => .ok (.succeeded (packetbufHdrreduce pb size).1, (packetbufHdrreduce pb size).2)
  | .setDatalen len => .ok (.done, packetbufSetDatalen pb len)
  | .writeHdr bytes => .ok (.done, { pb with packetbuf := pb.packetbuf.store (packetbufHdrptr pb) bytes })
  | .setAttr type val => .ok (.done, packetbufSetAttr pb type val)
  | .attr type => .ok (.number (packetbufAttr pb type).toNat, pb)
  | .setAddr type addr => .ok (.done, packetbufSetAddr pb type addr)
  | .addr type => .ok (.linkaddr (packetbufAddr pb type), pb)
  | .datalen => .ok (.number (packetbufDatalen pb).toNat, pb)
  | .totlen => .ok (.number (packetbufTotlen pb).toNat, pb)
  | .frame => .ok (.bytes pb.frame, pb)

/-- What the functions leave to their callers: not to remove or write more header than there is, nor to set a length that goes past the end. -/
def PacketbufAllowed (p : PacketParts) : PacketbufCall → Prop
  | .receive frame => frame.length ≤ ethernetMaxFrameLen
  | .hdrRemove size => size ≤ p.header.length
  | .setDatalen len => p.stripped.length + len.toNat ≤ packetbufSize
  | .writeHdr bytes => bytes.length ≤ p.header.length
  | _ => True

/-- What a call does to the packet. -/
def PacketbufMeets (pb : Packetbuf) (p : PacketParts) (call : PacketbufCall) (reply : PacketbufReply) (pb' : Packetbuf)
    (p' : PacketParts) : Prop :=
  (∀ i, packetbufHdrSize + packetbufSize ≤ i → pb'.packetbuf i = pb.packetbuf i) ∧
  match call, reply with
  | .clear, .done => p' = .empty
  | .clearHdr, .done => p' = { p with header := [] }
  | .copyfrom src len, .number n => n = min len.toNat packetbufSize ∧ p' = { PacketParts.empty with data := src.load 0 n }
  | .receive frame, .done => p' = { PacketParts.empty with data := frame }
  | .compact, .done => p' = { p with stripped := [] }
  | .copytoHdr dst₀, .copied n dst => n = p.header.length ∧ dst = dst₀.store 0 p.header ∧ p' = p
  | .copyto dst₀, .copied n dst =>
    (if p.whole.length ≤ packetbufSize then n = p.whole.length ∧ dst = dst₀.store 0 p.whole else n = 0 ∧ dst = dst₀) ∧ p' = p
  | .hdralloc size, .succeeded b =>
    if p.header.length + size ≤ packetbufHdrSize ∧ p.totlen + size ≤ packetbufSize then
      b = true ∧ ∃ fresh, fresh.length = size ∧ p' = { p with header := fresh ++ p.header }
    else b = false ∧ p' = p
  | .hdrRemove size, .done => p' = { p with header := p.header.drop size }
  | .hdrreduce size, .succeeded b =>
    if size ≤ p.data.length then
      b = true ∧ p' = { p with stripped := p.stripped ++ p.data.take size, data := p.data.drop size }
    else b = false ∧ p' = p
  | .setDatalen len, .done => ∃ fresh, p' = { p with data := p.data.take len.toNat ++ fresh } ∧ p'.data.length = len.toNat
  | .writeHdr bytes, .done => p' = { p with header := bytes ++ p.header.drop bytes.length }
  | .setAttr type val, .done => p' = { p with attrs := fun t => if t = type then val else p.attrs t }
  | .attr type, .number n => n = (p.attrs type).toNat ∧ p' = p
  | .setAddr type addr, .done => p' = { p with addrs := fun t => if t = type then addr else p.addrs t }
  | .addr type, .linkaddr addr => addr = p.addrs type ∧ p' = p
  | .datalen, .number n => n = p.data.length ∧ p' = p
  | .totlen, .number n => n = p.totlen ∧ p' = p
  | .frame, .bytes bytes => bytes = (p.header ++ p.stripped ++ p.data).take p.totlen ∧ p' = p
  | _, _ => False

/-! ### Where the parts lie -/

namespace PacketParts

variable {p : PacketParts} {pb : Packetbuf}

theorem In.room_le (h : p.In pb) : p.stripped.length + p.data.length ≤ 1536 := h.room

theorem In.hdrlen_toNat (h : p.In pb) : (UInt8.ofNat packetbufHdrSize - pb.hdrptr).toNat = p.header.length := by
  have hdr : pb.hdrptr.toNat + p.header.length = 48 := h.hdrptr
  have hle : pb.hdrptr ≤ UInt8.ofNat packetbufHdrSize := by
    rw [UInt8.le_iff_toNat_le]
    change pb.hdrptr.toNat ≤ 48
    omega
  rw [UInt8.toNat_sub_of_le _ _ hle]
  change 48 - pb.hdrptr.toNat = _
  omega

theorem In.hdrlen (h : p.In pb) :
    (packetbufHdrlen pb).toNat = if p.header = [] then p.stripped.length % 256 else p.header.length := by
  have hlen := h.hdrlen_toNat
  rw [packetbufHdrlen]
  by_cases hempty : p.header = []
  · have hzero : UInt8.ofNat packetbufHdrSize - pb.hdrptr = 0 := by
      rw [← UInt8.toNat_inj, hlen, hempty]
      rfl
    simp only [hzero, ne_eq, not_true_eq_false, if_false, if_pos hempty]
    rw [UInt16.toNat_toUInt8, h.bufptr]
  · have hne : UInt8.ofNat packetbufHdrSize - pb.hdrptr ≠ 0 := by
      intro hzero
      rw [hzero] at hlen
      exact hempty (List.eq_nil_of_length_eq_zero hlen.symm)
    simp only [if_pos hne, if_neg hempty]
    exact hlen

theorem In.totlen_eq (h : p.In pb) : (packetbufTotlen pb).toNat = p.totlen := by
  have hlen := h.hdrlen
  have hlt := (packetbufHdrlen pb).toNat_lt
  have hroom := h.room_le
  rw [packetbufTotlen, packetbufDatalen, UInt16.toNat_add, UInt8.toNat_toUInt16, h.buflen, totlen, ← hlen]
  exact Nat.mod_eq_of_lt (by change _ < 65536; omega)

theorem In.load_all (h : p.In pb) :
    pb.packetbuf.load (packetbufHdrptr pb) (p.header ++ p.stripped ++ p.data).length = p.header ++ p.stripped ++ p.data := by
  have hdr : packetbufHdrptr pb + p.header.length = packetbufHdrSize := h.hdrptr
  rw [List.length_append, Memory.load_eq_append_iff, List.length_append, Memory.load_eq_append_iff, hdr, ← Nat.add_assoc, hdr]
  exact ⟨⟨h.header, h.stripped⟩, h.data⟩

theorem In.frame_eq (h : p.In pb) : pb.frame = (p.header ++ p.stripped ++ p.data).take p.totlen := by
  have hle : p.totlen ≤ (p.header ++ p.stripped ++ p.data).length := by
    rw [totlen, List.length_append, List.length_append]
    have hmod := Nat.mod_le p.stripped.length 256
    split <;> omega
  rw [Packetbuf.frame, h.totlen_eq, ← Memory.take_load _ _ _ _ hle, h.load_all]

theorem In.data_eq (h : p.In pb) : pb.data = p.data := by
  rw [Packetbuf.data, packetbufDataptr, packetbufDatalen, h.bufptr, h.buflen, Nat.add_comm]
  exact h.data

theorem in_clear (pb : Packetbuf) : empty.In (packetbufClear pb) :=
  ⟨rfl, rfl, rfl, Nat.zero_le _, rfl, rfl, rfl, rfl, rfl⟩

theorem outside_store (pb : Packetbuf) {bytes : List UInt8} (hroom : bytes.length ≤ packetbufSize) (i : Nat)
    (hi : packetbufHdrSize + packetbufSize ≤ i) : pb.packetbuf.store packetbufHdrSize bytes i = pb.packetbuf i :=
  Memory.store_of_outside (Or.inr (Nat.le_trans (Nat.add_le_add_left hroom _) hi))

theorem in_filled (pb : Packetbuf) {bytes : List UInt8} {len : UInt16} (hlen : len.toNat = bytes.length)
    (hroom : bytes.length ≤ packetbufSize) :
    In { empty with data := bytes } { packetbufClear pb with
      packetbuf := pb.packetbuf.store packetbufHdrSize bytes, buflen := len } :=
  ⟨rfl, rfl, hlen, Nat.le_trans (Nat.le_of_eq (Nat.zero_add _)) hroom, rfl, rfl, Memory.load_store_self .., rfl, rfl⟩

/-! ### What each function does to the parts -/

theorem In.compact (h : p.In pb) : In { p with stripped := [] } (packetbufCompact pb) ∧
    ∀ i, packetbufHdrSize + packetbufSize ≤ i → (packetbufCompact pb).packetbuf i = pb.packetbuf i := by
  have hroom := h.room_le
  have hheader : pb.hdrptr.toNat + p.header.length = 48 := h.hdrptr
  by_cases hptr : pb.bufptr > 0
  · have hmoved : packetbufCompact pb =
        { pb with packetbuf := pb.packetbuf.store packetbufHdrSize p.data, bufptr := 0 } := by
      rw [packetbufCompact, if_pos hptr, Memory.foldl_store_down, ← h.data_eq]
      rfl
    rw [hmoved]
    constructor
    · refine ⟨h.hdrptr, rfl, h.buflen, Nat.le_trans (Nat.le_of_eq (Nat.zero_add _)) (Nat.le_trans (Nat.le_add_left ..) h.room), ?_, rfl, ?_,
        h.attrs, h.addrs⟩
      · exact (Memory.load_store_of_disjoint (Or.inl (Nat.le_of_eq hheader))).trans h.header
      · exact Memory.load_store_self ..
    · intro i hi
      have hi : 48 + 1536 ≤ i := hi
      exact Memory.store_of_outside (Or.inr (by change 48 + _ ≤ i; omega))
  · have hzero : pb.bufptr.toNat = 0 := by
      rw [gt_iff_lt, UInt16.lt_iff_toNat_lt] at hptr
      exact Nat.eq_zero_of_not_pos hptr
    have hnil : p.stripped = [] := List.eq_nil_of_length_eq_zero (h.bufptr.symm.trans hzero)
    rw [packetbufCompact, if_neg hptr, ← hnil]
    exact ⟨h, fun _ _ => rfl⟩

theorem In.hdralloc {size : Nat} (h : p.In pb) (hsize : p.header.length + size ≤ packetbufHdrSize) :
    ∃ fresh : List UInt8, fresh.length = size ∧
      In { p with header := fresh ++ p.header } { pb with hdrptr := pb.hdrptr - UInt8.ofNat size } := by
  have hheader : pb.hdrptr.toNat + p.header.length = 48 := h.hdrptr
  have hsize : p.header.length + size ≤ 48 := hsize
  have hptr : (pb.hdrptr - UInt8.ofNat size).toNat = pb.hdrptr.toNat - size := by
    have hofNat : (UInt8.ofNat size).toNat = size := UInt8.toNat_ofNat_of_lt' (by change size < 256; omega)
    rw [UInt8.toNat_sub_of_le _ _ (by rw [UInt8.le_iff_toNat_le, hofNat]; omega), hofNat]
  refine ⟨pb.packetbuf.load (pb.hdrptr.toNat - size) size, Memory.load_length .., ?_, h.bufptr, h.buflen, h.room, ?_,
    h.stripped, h.data, h.attrs, h.addrs⟩
  · dsimp only
    rw [hptr, List.length_append, Memory.load_length]
    change _ = 48
    omega
  · rw [packetbufHdrptr, hptr, List.length_append, Memory.load_eq_append_iff, Memory.load_length,
      Nat.sub_add_cancel (by omega)]
    exact ⟨rfl, h.header⟩

theorem In.hdrRemove {size : Nat} (h : p.In pb) (hsize : size ≤ p.header.length) :
    In { p with header := p.header.drop size } (packetbufHdrRemove pb size) := by
  have hheader : pb.hdrptr.toNat + p.header.length = 48 := h.hdrptr
  have hptr : (pb.hdrptr + UInt8.ofNat size).toNat = pb.hdrptr.toNat + size := by
    have hofNat : (UInt8.ofNat size).toNat = size := UInt8.toNat_ofNat_of_lt' (by change size < 256; omega)
    rw [UInt8.toNat_add, hofNat]
    exact Nat.mod_eq_of_lt (by omega)
  have hsplit : p.header.length = (p.header.take size).length + (p.header.drop size).length := by
    rw [← List.length_append, List.take_append_drop]
  have hload : pb.packetbuf.load (packetbufHdrptr pb) ((p.header.take size).length + (p.header.drop size).length) =
      p.header.take size ++ p.header.drop size := by
    rw [← hsplit, List.take_append_drop]
    exact h.header
  rw [Memory.load_eq_append_iff] at hload
  refine ⟨?_, h.bufptr, h.buflen, h.room, ?_, h.stripped, h.data, h.attrs, h.addrs⟩
  · change (pb.hdrptr + UInt8.ofNat size).toNat + _ = 48
    rw [hptr, List.length_drop]
    omega
  · change pb.packetbuf.load (pb.hdrptr + UInt8.ofNat size).toNat _ = _
    rw [hptr]
    have hrest := hload.2
    rwa [List.length_take, Nat.min_eq_left hsize] at hrest

theorem In.hdrreduce {size : Nat} (h : p.In pb) (hsize : size ≤ p.data.length) :
    In { p with stripped := p.stripped ++ p.data.take size, data := p.data.drop size }
      { pb with bufptr := pb.bufptr + UInt16.ofNat size, buflen := pb.buflen - UInt16.ofNat size } := by
  have hroom := h.room_le
  have hofNat : (UInt16.ofNat size).toNat = size := UInt16.toNat_ofNat_of_lt' (by change size < 65536; omega)
  have hptr : (pb.bufptr + UInt16.ofNat size).toNat = p.stripped.length + size := by
    rw [UInt16.toNat_add, hofNat, h.bufptr]
    exact Nat.mod_eq_of_lt (by omega)
  have hlen : (pb.buflen - UInt16.ofNat size).toNat = p.data.length - size := by
    rw [UInt16.toNat_sub_of_le _ _ (by rw [UInt16.le_iff_toNat_le, hofNat, h.buflen]; exact hsize), hofNat, h.buflen]
  have htake : (p.data.take size).length = size := by rw [List.length_take, Nat.min_eq_left hsize]
  have hload := h.data
  rw [← List.take_append_drop size p.data, List.length_append, Memory.load_eq_append_iff, htake] at hload
  refine ⟨h.hdrptr, ?_, ?_, ?_, h.header, ?_, ?_, h.attrs, h.addrs⟩
  · rw [hptr, List.length_append, htake]
  · rw [hlen, List.length_drop]
  · change _ ≤ 1536
    rw [List.length_append, htake, List.length_drop]
    omega
  · rw [List.length_append, Memory.load_eq_append_iff, htake]
    exact ⟨h.stripped, hload.1⟩
  · rw [List.length_append, htake, ← Nat.add_assoc]
    exact hload.2

theorem In.setDatalen {len : UInt16} (h : p.In pb) (hlen : p.stripped.length + len.toNat ≤ packetbufSize) :
    ∃ fresh : List UInt8, (p.data.take len.toNat ++ fresh).length = len.toNat ∧
      In { p with data := p.data.take len.toNat ++ fresh } (packetbufSetDatalen pb len) := by
  have hbytes : pb.packetbuf.load (packetbufHdrSize + p.stripped.length) len.toNat =
      p.data.take len.toNat ++ pb.packetbuf.load (packetbufHdrSize + p.stripped.length + p.data.length)
        (len.toNat - p.data.length) := by
    rcases Nat.le_total len.toNat p.data.length with hle | hle
    · rw [Nat.sub_eq_zero_of_le hle, ← Memory.take_load _ _ _ _ hle, h.data]
      exact (List.append_nil _).symm
    · obtain ⟨d, hd⟩ := Nat.exists_eq_add_of_le hle
      rw [List.take_of_length_le hle, hd, Nat.add_sub_cancel_left, Memory.load_add, h.data]
  have hlength := congrArg List.length hbytes
  rw [Memory.load_length] at hlength
  refine ⟨_, hlength.symm, h.hdrptr, h.bufptr, hlength, ?_, h.header, h.stripped, ?_, h.attrs, h.addrs⟩
  · rw [← hlength]
    exact hlen
  · rw [← hlength]
    exact hbytes

theorem In.writeHdr {bytes : List UInt8} (h : p.In pb) (hle : bytes.length ≤ p.header.length) :
    In { p with header := bytes ++ p.header.drop bytes.length }
      { pb with packetbuf := pb.packetbuf.store (packetbufHdrptr pb) bytes } := by
  have hheader : packetbufHdrptr pb + p.header.length = packetbufHdrSize := h.hdrptr
  have hlength : (bytes ++ p.header.drop bytes.length).length = p.header.length := by
    rw [List.length_append, List.length_drop]
    omega
  have hload := h.header
  obtain ⟨d, hd⟩ := Nat.exists_eq_add_of_le hle
  rw [hd, Memory.load_add] at hload
  have hrest : pb.packetbuf.load (packetbufHdrptr pb + bytes.length) d = p.header.drop bytes.length := by
    rw [← hload, List.drop_left' (Memory.load_length ..)]
  refine ⟨?_, h.bufptr, h.buflen, h.room, ?_, ?_, ?_, h.attrs, h.addrs⟩
  · rw [hlength]
    exact h.hdrptr
  · change (pb.packetbuf.store (packetbufHdrptr pb) bytes).load (packetbufHdrptr pb) _ = _
    have hdrop : (p.header.drop bytes.length).length = d := by rw [List.length_drop, hd, Nat.add_sub_cancel_left]
    rw [List.length_append, Memory.load_eq_append_iff, hdrop]
    exact ⟨Memory.load_store_self .., (Memory.load_store_of_disjoint (Or.inr (Nat.le_refl _))).trans hrest⟩
  · exact (Memory.load_store_of_disjoint (Or.inr (by omega))).trans h.stripped
  · exact (Memory.load_store_of_disjoint (Or.inr (by omega))).trans h.data

/-- What `packetbuf_copyto` writes first the headers and then the data, in one piece. -/
theorem In.copyto (h : p.In pb) (dst : Memory) :
    packetbufCopyto pb dst = if p.whole.length ≤ packetbufSize then (p.whole.length, dst.store 0 p.whole) else (0, dst) := by
  have hheader : pb.hdrptr.toNat + p.header.length = packetbufHdrSize := h.hdrptr
  have hhdrlen : packetbufHdrSize - pb.hdrptr.toNat = p.header.length := by omega
  have hlength : p.whole.length = p.header.length + p.data.length := List.length_append
  have hdata : pb.packetbuf.load (packetbufDataptr pb) p.data.length = p.data := by
    rw [packetbufDataptr, h.bufptr, Nat.add_comm]
    exact h.data
  rw [packetbufCopyto, hhdrlen, h.buflen, h.header, hdata, ← hlength]
  by_cases hfits : p.whole.length ≤ packetbufSize
  · rw [if_neg (Nat.not_lt.mpr hfits), if_pos hfits, whole, ← Memory.store_store_append, Nat.zero_add]
  · rw [if_pos (Nat.lt_of_not_le hfits), if_neg hfits]

theorem In.hdralloc_eq (h : p.In pb) (size : Nat) : packetbufHdralloc pb size =
    if p.header.length + size ≤ packetbufHdrSize ∧ p.totlen + size ≤ packetbufSize then
      (true, { pb with hdrptr := pb.hdrptr - UInt8.ofNat size })
    else (false, pb) := by
  have hheader : pb.hdrptr.toNat + p.header.length = packetbufHdrSize := h.hdrptr
  have hroom : (pb.hdrptr.toNat ≥ size ∧ p.totlen + size ≤ packetbufSize) =
      (p.header.length + size ≤ packetbufHdrSize ∧ p.totlen + size ≤ packetbufSize) :=
    propext (and_congr_left fun _ => by omega)
  rw [packetbufHdralloc, h.totlen_eq]
  simp only [hroom]

theorem In.hdrreduce_eq (h : p.In pb) (size : Nat) : packetbufHdrreduce pb size =
    if size ≤ p.data.length then
      (true, { pb with bufptr := pb.bufptr + UInt16.ofNat size, buflen := pb.buflen - UInt16.ofNat size })
    else (false, pb) := by
  rw [packetbufHdrreduce, h.buflen]
  by_cases hsize : size ≤ p.data.length
  · rw [if_neg (Nat.not_lt.mpr hsize), if_pos hsize]
  · rw [if_pos (Nat.lt_of_not_le hsize), if_neg hsize]

end PacketParts

/-! ### Every call -/

open PacketParts

/-- **The packet buffer keeps a packet.** Whatever its functions are called for, in any order, each does to the headers, the stripped bytes and the data what it is there for, and nothing is written past the end of the array. -/
theorem packetbuf_conforms (pb : Packetbuf) (calls : List PacketbufCall) :
    Conforms packetbufCall PacketbufAllowed PacketbufMeets (packetbufClear pb) .empty calls := by
  refine Conforms.of_simulation (fun pb p => p.In pb) ?_ calls (in_clear pb)
  intro pb p call h hallowed
  cases call with
  | clear => exact ⟨_, _, _, rfl, ⟨fun _ _ => rfl, rfl⟩, in_clear pb⟩
  | clearHdr =>
      refine ⟨_, _, _, rfl, ⟨fun _ _ => rfl, rfl⟩, ?_⟩
      exact ⟨rfl, h.bufptr, h.buflen, h.room, rfl, h.stripped, h.data, h.attrs, h.addrs⟩
  | copyfrom src len =>
      have hlen : (packetbufCopyfrom pb src len).1.toNat = min len.toNat packetbufSize := by
        rw [packetbufCopyfrom]
        by_cases hlong : len.toNat > packetbufSize
        · rw [if_pos hlong, Nat.min_eq_right (Nat.le_of_lt hlong)]
          rfl
        · rw [if_neg hlong, Nat.min_eq_left (Nat.le_of_not_lt hlong)]
      have hload : (src.load 0 (packetbufCopyfrom pb src len).1.toNat).length = (packetbufCopyfrom pb src len).1.toNat :=
        Memory.load_length ..
      have hroom : (src.load 0 (packetbufCopyfrom pb src len).1.toNat).length ≤ packetbufSize := by
        rw [hload, hlen]
        exact Nat.min_le_right ..
      exact ⟨_, _, _, rfl, ⟨outside_store pb hroom, hlen, rfl⟩, in_filled pb hload.symm hroom⟩
  | receive frame =>
      have hlen : (UInt16.ofNat frame.length).toNat = frame.length :=
        UInt16.toNat_ofNat_of_lt' (Nat.lt_of_le_of_lt hallowed (by decide))
      exact ⟨_, _, _, rfl, ⟨outside_store pb hallowed, rfl⟩, in_filled pb hlen hallowed⟩
  | compact => exact ⟨_, _, _, rfl, ⟨h.compact.2, rfl⟩, h.compact.1⟩
  | copytoHdr dst =>
      have hheader : pb.hdrptr.toNat + p.header.length = packetbufHdrSize := h.hdrptr
      have hhdrlen : packetbufHdrSize - pb.hdrptr.toNat = p.header.length := by omega
      refine ⟨_, _, p, rfl, ⟨fun _ _ => rfl, hhdrlen, ?_, rfl⟩, h⟩
      rw [packetbufCopytoHdr]
      dsimp only
      rw [hhdrlen, h.header]
  | copyto dst =>
      refine ⟨_, _, p, rfl, ⟨fun _ _ => rfl, ?_, rfl⟩, h⟩
      rw [h.copyto]
      split
      · exact ⟨rfl, rfl⟩
      · exact ⟨rfl, rfl⟩
  | hdralloc size =>
      have hret := congrArg (fun r => (Except.ok (.succeeded r.1, r.2) : Except Empty (PacketbufReply × Packetbuf)))
        (h.hdralloc_eq size)
      by_cases hfits : p.header.length + size ≤ packetbufHdrSize ∧ p.totlen + size ≤ packetbufSize
      · obtain ⟨fresh, hlength, hin⟩ := h.hdralloc hfits.1
        rw [if_pos hfits] at hret
        exact ⟨_, _, _, hret, ⟨fun _ _ => rfl, (if_pos hfits).mpr ⟨rfl, fresh, hlength, rfl⟩⟩, hin⟩
      · rw [if_neg hfits] at hret
        exact ⟨_, _, _, hret, ⟨fun _ _ => rfl, (if_neg hfits).mpr ⟨rfl, rfl⟩⟩, h⟩
  | hdrRemove size => exact ⟨_, _, _, rfl, ⟨fun _ _ => rfl, rfl⟩, h.hdrRemove hallowed⟩
  | hdrreduce size =>
      have hret := congrArg (fun r => (Except.ok (.succeeded r.1, r.2) : Except Empty (PacketbufReply × Packetbuf)))
        (h.hdrreduce_eq size)
      by_cases hsize : size ≤ p.data.length
      · rw [if_pos hsize] at hret
        exact ⟨_, _, _, hret, ⟨fun _ _ => rfl, (if_pos hsize).mpr ⟨rfl, rfl⟩⟩, h.hdrreduce hsize⟩
      · rw [if_neg hsize] at hret
        exact ⟨_, _, _, hret, ⟨fun _ _ => rfl, (if_neg hsize).mpr ⟨rfl, rfl⟩⟩, h⟩
  | setDatalen len =>
      obtain ⟨fresh, hlength, hin⟩ := h.setDatalen hallowed
      exact ⟨_, _, _, rfl, ⟨fun _ _ => rfl, fresh, rfl, hlength⟩, hin⟩
  | writeHdr bytes =>
      refine ⟨_, _, _, rfl, ⟨fun i hi => ?_, rfl⟩, h.writeHdr hallowed⟩
      have hheader : packetbufHdrptr pb + p.header.length = packetbufHdrSize := h.hdrptr
      have hallowed : bytes.length ≤ p.header.length := hallowed
      exact Memory.store_of_outside (Or.inr (by omega))
  | setAttr type val =>
      refine ⟨_, _, { p with attrs := _ }, rfl, ⟨fun _ _ => rfl, rfl⟩, ?_⟩
      exact ⟨h.hdrptr, h.bufptr, h.buflen, h.room, h.header, h.stripped, h.data, by rw [← h.attrs]; rfl, h.addrs⟩
  | attr type => exact ⟨_, _, p, rfl, ⟨fun _ _ => rfl, congrArg (fun attrs => (attrs type).toNat) h.attrs, rfl⟩, h⟩
  | setAddr type addr =>
      refine ⟨_, _, { p with addrs := _ }, rfl, ⟨fun _ _ => rfl, rfl⟩, ?_⟩
      exact ⟨h.hdrptr, h.bufptr, h.buflen, h.room, h.header, h.stripped, h.data, h.attrs, by rw [← h.addrs]; rfl⟩
  | addr type => exact ⟨_, _, p, rfl, ⟨fun _ _ => rfl, congrFun h.addrs type, rfl⟩, h⟩
  | datalen => exact ⟨_, _, p, rfl, ⟨fun _ _ => rfl, h.buflen, rfl⟩, h⟩
  | totlen => exact ⟨_, _, p, rfl, ⟨fun _ _ => rfl, h.totlen_eq, rfl⟩, h⟩
  | frame => exact ⟨_, _, p, rfl, ⟨fun _ _ => rfl, h.frame_eq, rfl⟩, h⟩

/-- A frame loses its first two bytes and gets three of headers: the length is that of headers and data, but the stripped bytes are in between. -/
theorem packetbuf_conforms_headers :
    let calls : List PacketbufCall := [.receive [1, 2, 3, 4, 5], .hdrreduce 2, .hdralloc 3, .writeHdr [9, 8], .datalen,
      .totlen, .frame]
    (∃ pb, answers packetbufCall (packetbufClear .zeroed) calls =
      .ok ([.done, .succeeded true, .succeeded true, .done, .number 3, .number 6, .bytes [9, 8, 0, 1, 2, 3]], pb)) ∧
    Conforms packetbufCall PacketbufAllowed PacketbufMeets (packetbufClear .zeroed) .empty calls :=
  ⟨⟨_, rfl⟩, packetbuf_conforms _ _⟩

end ContikiAtsam
