import ContikiAtsam.Base.Run
import ContikiAtsam.Net.Framer

/-!
# The network layer's input

A received frame on its way to the IP layer: `gmac_driver_pollhandler` puts it into the packet buffer, `packet_input` has it parsed, and the `input` of `ieee8023_net.c` copies the payload to `uip_buf`. Memory is flat here, with `uip_buf` at its start: what a copy writes past the end of `uip_buf` is visible.
-/

namespace ContikiAtsam

def uipLlhLen : Nat := 0

/-- `UIP_CONF_BUFFER_SIZE`, the size of `uip_buf`. -/
def uipBufsize : Nat := 1280

/-- `uip_len`, and the memory from `uip_buf` on. -/
structure Uip where
  mem : Memory
  len : UInt16

/-- `input`, up to its call of `tcpip_input`. -/
def input (pb : Packetbuf) (uip : Uip) : Uip :=
  if uip.len ≠ 0 then uip
  else
    { mem := uip.mem.store uipLlhLen (pb.packetbuf.load (packetbufDataptr pb) (packetbufDatalen pb).toNat)
      len := packetbufDatalen pb }

/-- `packet_input`. No configuration sets the address filter, and duplicate detection is off. -/
def packetInput (node : Linkaddr6) (pb : Packetbuf) (uip : Uip) : Packetbuf × Uip :=
  let (result, pb) := parse node pb
  if result < 0 then (pb, uip) else (pb, input pb uip)

/-- The packet buffer with a frame read into it, as a turn of the receive loop leaves it to the MAC layer. -/
def received (pb : Packetbuf) (frame : List UInt8) : Packetbuf :=
  let pb := packetbufClear pb
  let pb := { pb with packetbuf := pb.packetbuf.store (packetbufDataptr pb) frame }
  packetbufSetDatalen pb (UInt16.ofNat frame.length)

namespace Input

open Framer

/-- The part of the node that a received frame passes through. -/
structure Stack where
  pb : Packetbuf
  uip : Uip

/-- A frame is received, or the rest of the node does anything to the packet buffer and the IP buffer. -/
inductive Event where
  | receive (frame : List UInt8) (hlen : frame.length ≤ ethernetMaxFrameLen)
  | other (pb : Packetbuf) (uip : Uip)

def step (node : Linkaddr6) (s : Stack) : Event → Option Stack
  | .receive frame _ => some ⟨(packetInput node (received s.pb frame) s.uip).1,
      (packetInput node (received s.pb frame) s.uip).2⟩
  | .other pb uip => some ⟨pb, uip⟩

/-- `input` copied exactly the data of the packet buffer, inside `uip_buf`. -/
structure Copied (pb : Packetbuf) (uip uip' : Uip) : Prop where
  data : uip'.mem.load uipLlhLen (packetbufDatalen pb).toNat = pb.data
  within : uipLlhLen + (packetbufDatalen pb).toNat ≤ uipBufsize
  outside : ∀ i, i < uipLlhLen ∨ uipLlhLen + (packetbufDatalen pb).toNat ≤ i → uip'.mem i = uip.mem i
  len : uip'.len = packetbufDatalen pb

/-- What is asked of every frame that `parse` accepts: it is dropped, or copied inside `uip_buf`. -/
def Safe (node : Linkaddr6) (s : Stack) : Event → Prop
  | .receive frame _ =>
      let (result, pb) := parse node (received s.pb frame)
      0 ≤ result → input pb s.uip = s.uip ∨ Copied pb s.uip (input pb s.uip)
  | .other _ _ => True

/-- The condition on an accepted frame: the IP buffer is in use, or the payload fits. -/
def Fits (node : Linkaddr6) (s : Stack) : Event → Prop
  | .receive frame _ =>
      Accepted node (received s.pb frame) → s.uip.len ≠ 0 ∨ uipLlhLen + (frame.length - hdrLength) ≤ uipBufsize
  | .other _ _ => True

theorem received_buflen (pb : Packetbuf) {frame : List UInt8} (hlen : frame.length ≤ ethernetMaxFrameLen) :
    (received pb frame).buflen.toNat = frame.length := by
  have hlen' : frame.length ≤ 1536 := hlen
  change (UInt16.ofNat frame.length).toNat = frame.length
  rw [UInt16.toNat_ofNat']
  exact Nat.mod_eq_of_lt (by omega)

/-- `input` into an empty IP buffer stays inside it exactly when the data fit. -/
theorem copied_input_iff (pb : Packetbuf) (uip : Uip) (hempty : uip.len = 0) :
    input pb uip = uip ∨ Copied pb uip (input pb uip) ↔
      uipLlhLen + (packetbufDatalen pb).toNat ≤ uipBufsize := by
  rw [input, if_neg (not_not.mpr hempty)]
  constructor
  · rintro (hdropped | hcopied)
    · have hzero : packetbufDatalen pb = 0 := (congrArg Uip.len hdropped).trans hempty
      rw [hzero]
      decide
    · exact hcopied.within
  · intro hfits
    refine Or.inr ⟨?_, hfits, ?_, rfl⟩
    · have hload := Memory.load_store_self uip.mem uipLlhLen pb.data
      rwa [Packetbuf.data, Memory.load_length] at hload
    · intro i hi
      change uip.mem.store uipLlhLen _ i = uip.mem i
      rw [Memory.store_of_outside]
      rwa [Memory.load_length]

theorem stripped_datalen (node : Linkaddr6) {pb : Packetbuf} (h : hdrLength ≤ pb.buflen.toNat) :
    (packetbufDatalen (stripped node pb)).toNat = pb.buflen.toNat - hdrLength := by
  have hle : UInt16.ofNat hdrLength ≤ pb.buflen := UInt16.le_iff_toNat_le.mpr h
  exact UInt16.toNat_sub_of_le _ _ hle

theorem safe_iff_fits (node : Linkaddr6) (s : Stack) (e : Event) : Safe node s e ↔ Fits node s e := by
  cases e with
  | other pb uip => exact Iff.rfl
  | receive frame hlen =>
      simp only [Safe, Fits]
      by_cases haccepted : Accepted node (received s.pb frame)
      · rw [parse_of_accepted haccepted]
        by_cases hempty : s.uip.len = 0
        · simp only [hempty, copied_input_iff _ _ hempty, stripped_datalen node haccepted.1,
            received_buflen s.pb hlen, haccepted, ne_eq, not_true_eq_false, false_or, forall_const]
          exact ⟨fun h => h (Int.natCast_nonneg _), fun h _ => h⟩
        · have hdrop : input (stripped node (received s.pb frame)) s.uip = s.uip := by rw [input, if_pos hempty]
          exact iff_of_true (fun _ => Or.inl hdrop) (fun _ => Or.inl hempty)
      · obtain ⟨hfailed, _⟩ := parse_of_not_accepted haccepted
        refine iff_of_true ?_ (fun h => absurd h haccepted)
        intro hresult
        rw [hfailed] at hresult
        exact absurd hresult (by decide)

/-- **When `input` stays inside `uip_buf`**, in every run: exactly when every accepted frame that it does not drop has a payload of at most the buffer's size. -/
theorem input_safe_iff (node : Linkaddr6) (s : Stack) (es : List Event) :
    Along (step node) (Safe node) s es ↔ Along (step node) (Fits node) s es :=
  along_congr (safe_iff_fits node) es s

theorem incoming_received (pb : Packetbuf) {frame : List UInt8} (hlen : frame.length ≤ ethernetMaxFrameLen) :
    Incoming (received pb frame) frame where
  hdrptr := rfl
  bufptr := rfl
  data := by
    rw [Packetbuf.data, packetbufDatalen, received_buflen pb hlen]
    exact Memory.load_store_self _ _ _

theorem accepted_received (pb : Packetbuf) (node src : Linkaddr6) (payload : List UInt8)
    (hlen : (ethernetFrame node src (swap16 ethProtIpv6) payload).length ≤ ethernetMaxFrameLen) :
    Accepted node (received pb (ethernetFrame node src (swap16 ethProtIpv6) payload)) :=
  (incoming_received pb hlen).accepted (Or.inr rfl)

/-- An IPv6 frame of 1295 bytes: its payload is one byte longer than `uip_buf`. -/
def overlong : List UInt8 :=
  ethernetFrame #v[2, 0, 0, 0, 0, 1] #v[2, 0, 0, 0, 0, 2] (swap16 ethProtIpv6) (List.replicate 1281 0)

theorem overlong_length : overlong.length = 1295 := by
  rw [overlong, ethernetFrame, List.length_append, List.length_append, List.length_append,
    Vector.length_toList, Vector.length_toList, Memory.halfword_length, List.length_replicate]

theorem overlong_le : overlong.length ≤ ethernetMaxFrameLen := by
  rw [overlong_length]
  decide

theorem input_overruns : ¬ Along (step #v[2, 0, 0, 0, 0, 1]) (Safe #v[2, 0, 0, 0, 0, 1])
    ⟨holding [], ⟨fun _ => 0, 0⟩⟩ [.receive overlong overlong_le] := by
  rw [along_singleton, safe_iff_fits]
  intro hfits
  have haccepted : Accepted #v[2, 0, 0, 0, 0, 1] (received (holding []) overlong) :=
    accepted_received _ _ _ _ overlong_le
  rcases hfits haccepted with hbusy | hroom
  · exact hbusy rfl
  · rw [overlong_length] at hroom
    exact absurd hroom (by decide)

end Input

end ContikiAtsam
