import ContikiAtsam.Net.Framer

/-!
# What the framer lets in

The controller runs in promiscuous mode, so `parse` sees every frame on the wire and is the only filter. It is meant to let in IPv6 frames for the node itself and for IPv6 multicast, whose addresses start with `33:33`. Since its test looks at the first byte twice, it lets in every address that starts with `33`, and reports the receivers of such frames as the null address.
-/

namespace ContikiAtsam.Framer

variable {node : Linkaddr6} {pb : Packetbuf} {frame : List UInt8}

/-- The frames that are meant for the node. -/
def Wanted (node : Linkaddr6) (frame : List UInt8) : Prop :=
  hdrLength ≤ frame.length ∧ (frame.drop etProtlen).take 2 = [0x86, 0xDD] ∧
    (frame.take 6 = node.toList ∨ frame.take 2 = [0x33, 0x33])

/-- `parse` lets in the wanted frames, stripped of their headers and with the addresses noted, and leaves the others as they are. -/
structure Filters (node : Linkaddr6) (pb : Packetbuf) (frame : List UInt8) : Prop where
  succeeds : (parse node pb).1 ≠ framerFailed ↔ Wanted node frame
  returns : Wanted node frame → (parse node pb).1 = hdrLength
  data : Wanted node frame → (parse node pb).2.data = frame.drop hdrLength
  sender : Wanted node frame → (packetbufAddr (parse node pb).2 .sender).toList = (frame.drop etSrc).take 6
  receiver : Wanted node frame → packetbufAddr (parse node pb).2 .receiver =
    if frame.take 2 = [0x33, 0x33] then linkaddr6Null else node
  unchanged : ¬ Wanted node frame → (parse node pb).2.bufptr = pb.bufptr ∧ (parse node pb).2.buflen = pb.buflen

/-- The frames that the test mistakes: IPv6, for an address that starts with `33` and goes on with another byte. -/
def Mistaken (frame : List UInt8) : Prop :=
  hdrLength ≤ frame.length ∧ (frame.drop etProtlen).take 2 = [0x86, 0xDD] ∧ frame.head? = some 0x33 ∧
    frame.take 2 ≠ [0x33, 0x33]

theorem toList_loadAddr (m : Memory) (base : Nat) : (m.loadAddr base).toList = m.load base 6 := by
  rw [Memory.loadAddr, Vector.toList_ofFn]
  rfl

theorem halfword_load16 (m : Memory) (base : Nat) : Memory.halfword (m.load16 base) = m.load base 2 := by
  have hlow := (m base).toNat_lt
  have hhigh := (m (base + 1)).toNat_lt
  have hvalue : (m.load16 base).toNat = (m base).toNat + 256 * (m (base + 1)).toNat := by
    rw [Memory.load16, UInt16.toNat_ofNat']
    omega
  have hload : m.load base 2 = [m base, m (base + 1)] := rfl
  rw [Memory.halfword, hvalue, hload]
  simp only [List.cons.injEq, and_true, ← UInt8.toNat_inj, UInt8.toNat_ofNat']
  omega

theorem Incoming.eq_ethernetFrame (h : Incoming pb frame) (hlen : hdrLength ≤ frame.length) :
    ∃ dest src protlen payload, frame = ethernetFrame dest src protlen payload := by
  refine ⟨pb.packetbuf.loadAddr 48, pb.packetbuf.loadAddr 54, pb.packetbuf.load16 60,
    pb.packetbuf.load 62 (frame.length - 14), ?_⟩
  have hdata := h.data
  rw [Packetbuf.data, packetbufDataptr, h.bufptr, packetbufDatalen, h.buflen_eq] at hdata
  rw [hdrLength] at hlen
  rw [ethernetFrame, toList_loadAddr, toList_loadAddr, halfword_load16, ← Memory.load_add pb.packetbuf 60 2,
    ← Memory.load_add pb.packetbuf 54 6, ← Memory.load_add pb.packetbuf 48 6]
  rw [show 6 + (6 + (2 + (frame.length - 14))) = frame.length by omega]
  exact hdata.symm

section Fields

variable (dest src : Linkaddr6) (protlen : UInt16) (payload : List UInt8)

theorem length_ethernetFrame : (ethernetFrame dest src protlen payload).length = hdrLength + payload.length := by
  simp [ethernetFrame, hdrLength]
  omega

theorem take_ethernetFrame {n : Nat} (h : n ≤ 6) :
    (ethernetFrame dest src protlen payload).take n = dest.toList.take n := by
  rw [ethernetFrame, List.take_append_of_le_length (by simpa using h)]

theorem head?_ethernetFrame : (ethernetFrame dest src protlen payload).head? = dest.toList.head? := by
  obtain ⟨rest, hlist⟩ := toList_eq_cons dest
  simp [ethernetFrame, hlist]

theorem src_ethernetFrame : ((ethernetFrame dest src protlen payload).drop etSrc).take 6 = src.toList := by
  rw [ethernetFrame, List.drop_left' (by simp [etSrc]), List.take_left' (by simp)]

theorem protlen_ethernetFrame :
    ((ethernetFrame dest src protlen payload).drop etProtlen).take 2 = Memory.halfword protlen := by
  rw [ethernetFrame, ← List.append_assoc, List.drop_left' (by simp [etProtlen]),
    List.take_left' (Memory.halfword_length protlen)]

theorem payload_ethernetFrame : (ethernetFrame dest src protlen payload).drop hdrLength = payload := by
  rw [ethernetFrame, ← List.append_assoc, ← List.append_assoc, List.drop_left' (by simp [hdrLength])]

end Fields

/-! ### The filter -/

theorem filters_of_dropped (hwanted : ¬ Wanted node frame) (haccepted : ¬ Accepted node pb) :
    Filters node pb frame := by
  obtain ⟨hfailed, hunchanged⟩ := parse_of_not_accepted haccepted
  exact
    { succeeds := iff_of_false (not_not.mpr hfailed) hwanted
      returns := fun h => absurd h hwanted
      data := fun h => absurd h hwanted
      sender := fun h => absurd h hwanted
      receiver := fun h => absurd h hwanted
      unchanged := fun _ => hunchanged }

section Parsed

variable {dest src : Linkaddr6} {payload : List UInt8}

theorem wanted_ethernetFrame_iff (node dest src : Linkaddr6) (payload : List UInt8) :
    Wanted node (ethernetFrame dest src (swap16 ethProtIpv6) payload) ↔ dest = node ∨ Ipv6Multicast dest := by
  rw [Wanted, length_ethernetFrame, protlen_ethernetFrame, take_ethernetFrame _ _ _ _ (Nat.le_refl 6),
    take_ethernetFrame _ _ _ _ (by decide), take_toList_iff, List.take_of_length_le (by simp), Vector.toList_inj]
  exact ⟨fun h => h.2.2, fun h => ⟨Nat.le_add_right _ _, by decide, h⟩⟩

theorem mistaken_ethernetFrame_iff (dest src : Linkaddr6) (payload : List UInt8) :
    Mistaken (ethernetFrame dest src (swap16 ethProtIpv6) payload) ↔
      dest.toList.head? = some 0x33 ∧ ¬ Ipv6Multicast dest := by
  rw [Mistaken, length_ethernetFrame, protlen_ethernetFrame, head?_ethernetFrame,
    take_ethernetFrame _ _ _ _ (by decide), ne_eq, take_toList_iff]
  exact ⟨fun h => h.2.2, fun h => ⟨Nat.le_add_right _ _, by decide, h⟩⟩

theorem filters_of_wanted (h : Incoming pb (ethernetFrame dest src (swap16 ethProtIpv6) payload))
    (hdest : dest = node ∨ Ipv6Multicast dest) (hfirst : dest.toList.head? = some 0x33 → Ipv6Multicast dest) :
    Filters node pb (ethernetFrame dest src (swap16 ethProtIpv6) payload) := by
  have hwanted := (wanted_ethernetFrame_iff node dest src payload).mpr hdest
  have htake : (ethernetFrame dest src (swap16 ethProtIpv6) payload).take 2 = [0x33, 0x33] ↔ Ipv6Multicast dest := by
    rw [take_ethernetFrame _ _ _ _ (by decide), take_toList_iff]
  obtain ⟨hresult, hdata, hsender, hreceiver⟩ := parse_frame h (hdest.symm.imp (fun hmulticast => hmulticast.1) id)
  refine ⟨?_, fun _ => hresult, ?_, ?_, ?_, fun hunwanted => absurd hwanted hunwanted⟩
  · rw [hresult]
    exact iff_of_true (by decide) hwanted
  · rw [payload_ethernetFrame]
    exact fun _ => hdata
  · rw [src_ethernetFrame, hsender]
    exact fun _ => rfl
  · intro _
    rw [hreceiver]
    by_cases hmulticast : Ipv6Multicast dest
    · rw [if_pos (htake.mpr hmulticast), if_pos hmulticast.1]
    · rw [if_neg (mt htake.mp hmulticast), if_neg]
      exact fun hbyte => hmulticast (hfirst ((head?_toList_iff dest).mpr hbyte))

/-- An IPv6 frame that is mistaken gets in, reported for the null address. -/
theorem not_filters_of_mistaken (h : Incoming pb (ethernetFrame dest src (swap16 ethProtIpv6) payload))
    (hfirst : dest.toList.head? = some 0x33) (hunicast : ¬ Ipv6Multicast dest) :
    ¬ Filters node pb (ethernetFrame dest src (swap16 ethProtIpv6) payload) := by
  intro hfilters
  have hfirst' := (head?_toList_iff dest).mp hfirst
  obtain ⟨hresult, _, _, hreceiver⟩ : _ ∧ _ ∧ _ ∧ packetbufAddr (parse node pb).2 .receiver = _ :=
    parse_frame h (Or.inl hfirst')
  have hwanted := hfilters.succeeds.mp (by rw [hresult]; decide)
  have hnode : dest = node := ((wanted_ethernetFrame_iff node dest src payload).mp hwanted).resolve_right hunicast
  have hintended := hfilters.receiver hwanted
  rw [hreceiver, if_pos hfirst', if_neg] at hintended
  · rw [hnode, ← hintended] at hfirst
    exact absurd hfirst (by decide)
  · rwa [take_ethernetFrame _ _ _ _ (by decide), take_toList_iff]

end Parsed

/-- **When the filter is right**: exactly when the frame is not one that its test mistakes. -/
theorem filters_iff (node : Linkaddr6) (pb : Packetbuf) (frame : List UInt8) (h : Incoming pb frame) :
    Filters node pb frame ↔ ¬ Mistaken frame := by
  by_cases hlen : hdrLength ≤ frame.length
  swap
  · refine iff_of_true (filters_of_dropped (fun hwanted => hlen hwanted.1) ?_) fun hmistaken => hlen hmistaken.1
    intro haccepted
    have hbuflen := haccepted.1
    rw [h.buflen_eq] at hbuflen
    exact hlen hbuflen
  obtain ⟨dest, src, protlen, payload, rfl⟩ := h.eq_ethernetFrame hlen
  obtain ⟨_, hloadDest, _, hloadProt, _⟩ := h.fields
  have hptr := h.hdrptr_eq
  by_cases htype : swap16 protlen = ethProtIpv6
  swap
  · have hbytes : ¬ Memory.halfword protlen = [0x86, 0xDD] := mt (swap16_eq_ipv6_iff protlen).mpr htype
    refine iff_of_true (filters_of_dropped ?_ ?_) ?_
    · rintro ⟨_, hwire, _⟩
      rw [protlen_ethernetFrame] at hwire
      exact hbytes hwire
    · rintro ⟨_, _, hread⟩
      rw [hptr, show 48 + etProtlen = 60 from rfl, hloadProt] at hread
      exact htype hread
    · rintro ⟨_, hwire, _⟩
      rw [protlen_ethernetFrame] at hwire
      exact hbytes hwire
  obtain rfl : protlen = swap16 ethProtIpv6 := eq_swap16_of_swap16 htype
  rw [mistaken_ethernetFrame_iff]
  by_cases hfirst : dest.toList.head? = some 0x33
  · by_cases hmulticast : Ipv6Multicast dest
    · exact iff_of_true (filters_of_wanted h (Or.inr hmulticast) fun _ => hmulticast)
        fun hmistaken => hmistaken.2 hmulticast
    · exact iff_of_false (not_filters_of_mistaken h hfirst hmulticast) (not_not.mpr ⟨hfirst, hmulticast⟩)
  · refine iff_of_true ?_ fun hmistaken => hfirst hmistaken.1
    by_cases hnode : dest = node
    · exact filters_of_wanted h (Or.inl hnode) fun h => absurd h hfirst
    · refine filters_of_dropped ?_ ?_
      · rw [wanted_ethernetFrame_iff]
        rintro (h | h)
        · exact hnode h
        · exact hfirst ((head?_toList_iff dest).mpr h.1)
      · rintro ⟨_, hdest, _⟩
        rw [hptr, show 48 + etDest = 48 from rfl, hloadDest, ← head?_toList_iff] at hdest
        exact hdest.elim hfirst hnode

/-- An IPv6 frame to `33:33:00:00:00:01`, with one byte of data. -/
private def toGroup : List UInt8 :=
  [0x33, 0x33, 0, 0, 0, 1, 2, 0, 0, 0, 0, 2, 0x86, 0xDD, 0x60]

theorem filters_toGroup : Filters #v[2, 0, 0, 0, 0, 1] (holding toGroup) toGroup :=
  (filters_iff #v[2, 0, 0, 0, 0, 1] (holding toGroup) toGroup (incoming_holding (by decide))).mpr
    fun hmistaken => hmistaken.2.2.2 rfl

/-- An IPv6 frame from one station to another, which starts with `33:00`. -/
private def toStation : List UInt8 :=
  [0x33, 0, 0, 0, 0, 1, 2, 0, 0, 0, 0, 2, 0x86, 0xDD, 0x60]

/-- The node `02:00:00:00:00:01` takes it for its own. -/
theorem station_frame_let_in : (parse #v[2, 0, 0, 0, 0, 1] (holding toStation)).1 = hdrLength ∧
    ¬ Filters #v[2, 0, 0, 0, 0, 1] (holding toStation) toStation := by
  have hresult : (parse #v[2, 0, 0, 0, 0, 1] (holding toStation)).1 = hdrLength := by decide
  refine ⟨hresult, fun hfilters => ?_⟩
  have hwanted := hfilters.succeeds.mp (by rw [hresult]; decide)
  exact absurd hwanted.2.2 (by decide)

end ContikiAtsam.Framer
