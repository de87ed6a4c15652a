import ContikiAtsam.GmacExample.Code
import ContikiAtsam.Net.Filter

/-!
# The frames of the GMAC example

ARP packets and pings as records, with the frames they make, and what the program does to a buffer that holds one. What a buffer holds as a ping reaches as far as the length field says, whether a frame of that length has come in or not.
-/

namespace ContikiAtsam.GmacExample

/-- A field of two bytes on the wire. -/
def networkOrder (x : UInt16) : List UInt8 := Memory.halfword (swap16 x)

/-- The bytes of an array that lies in the buffer. -/
def loadArray (m : Memory) (base n : Nat) : Vector UInt8 n := Vector.ofFn fun i => m (base + i)

structure Arp where
  etDest : Vector UInt8 6
  etSrc : Vector UInt8 6
  /-- The formats of the addresses. -/
  formats : Vector UInt8 6
  op : UInt16
  sha : Vector UInt8 6
  spa : Vector UInt8 4
  tha : Vector UInt8 6
  tpa : Vector UInt8 4

def Arp.frame (a : Arp) : List UInt8 :=
  a.etDest.toList ++ (a.etSrc.toList ++ (networkOrder ethProtArp ++ (a.formats.toList ++ (networkOrder a.op ++
    (a.sha.toList ++ (a.spa.toList ++ (a.tha.toList ++ a.tpa.toList)))))))

/-- An echo message in an IP packet without options. -/
structure Ping where
  etDest : Vector UInt8 6
  etSrc : Vector UInt8 6
  /-- `ip_hl_v` and `ip_tos`. -/
  service : Vector UInt8 2
  /-- `ip_id`, `ip_off` and `ip_ttl`. -/
  ident : Vector UInt8 5
  ipSum : Vector UInt8 2
  ipSrc : Vector UInt8 4
  ipDst : Vector UInt8 4
  type : UInt8
  code : UInt8
  cksum : UInt16
  /-- Identifier, sequence number and data. -/
  body : List UInt8
  room : body.length + 24 < 65536

namespace Ping

variable (p : Ping)

/-- `ip_len`. -/
def len : UInt16 := UInt16.ofNat (p.body.length + 24)

def ipHeader : List UInt8 :=
  p.service.toList ++ (networkOrder p.len ++ (p.ident.toList ++ ([ipProtIcmp] ++ (p.ipSum.toList ++
    (p.ipSrc.toList ++ p.ipDst.toList)))))

def message : List UInt8 := [p.type, p.code] ++ (networkOrder p.cksum ++ p.body)

def frame : List UInt8 :=
  p.etDest.toList ++ (p.etSrc.toList ++ (networkOrder ethProtIp ++ (p.ipHeader ++ p.message)))

end Ping

/-- The ARP packet that a buffer holds. -/
def arpAt (m : Memory) : Arp where
  etDest := loadArray m 0 6
  etSrc := loadArray m 6 6
  formats := loadArray m 14 6
  op := swap16 (m.load16 20)
  sha := loadArray m 22 6
  spa := loadArray m 28 4
  tha := loadArray m 32 6
  tpa := loadArray m 38 4

/-- The length field of the IP header that a buffer holds. -/
def lenAt (m : Memory) : Nat := (swap16 (m.load16 16)).toNat

/-- The ping that a buffer holds. -/
def pingAt (m : Memory) : Ping where
  etDest := loadArray m 0 6
  etSrc := loadArray m 6 6
  service := loadArray m 14 2
  ident := loadArray m 18 5
  ipSum := loadArray m 24 2
  ipSrc := loadArray m 26 4
  ipDst := loadArray m 30 4
  type := m 34
  code := m 35
  cksum := swap16 (m.load16 36)
  body := m.load 38 (lenAt m - 24)
  room := by
    have hlt := (swap16 (m.load16 16)).toNat_lt
    rw [Memory.load_length, lenAt]
    omega

/-- The tests that select the answer. -/
def IsArpRequest (m : Memory) : Prop := swap16 (m.load16 12) = ethProtArp ∧ swap16 (m.load16 20) = arpRequest

def IsEchoRequest (m : Memory) : Prop := swap16 (m.load16 12) = ethProtIp ∧ m 23 = ipProtIcmp ∧ m 34 = icmpEchoRequest

/-! ### Fields -/

section Fields

variable {m : Memory}

@[simp] theorem networkOrder_length (x : UInt16) : (networkOrder x).length = 2 := rfl

theorem toList_loadArray (m : Memory) (base n : Nat) : (loadArray m base n).toList = m.load base n := by
  apply List.ext_getElem
  · rw [Vector.length_toList, Memory.load_length]
  · intro i hi hi'
    simp only [Vector.getElem_toList, loadArray, Vector.getElem_ofFn, Memory.getElem_load]

theorem swap16_swap16 (x : UInt16) : swap16 (swap16 x) = x := (Framer.eq_swap16_of_swap16 rfl).symm

theorem load16_toNat (m : Memory) (base : Nat) : (m.load16 base).toNat = (m base).toNat + 256 * (m (base + 1)).toNat := by
  have hlo := (m base).toNat_lt
  have hhi := (m (base + 1)).toNat_lt
  rw [Memory.load16]
  exact UInt16.toNat_ofNat_of_lt' (by change _ < 65536; omega)

theorem load_networkOrder_iff {base : Nat} {x : UInt16} :
    m.load base 2 = networkOrder x ↔ swap16 (m.load16 base) = x := by
  constructor
  · intro h
    rw [Memory.load16_eq_of_load h, swap16_swap16]
  · rintro rfl
    have hlo := (m base).toNat_lt
    have hhi := (m (base + 1)).toNat_lt
    rw [networkOrder, swap16_swap16, Memory.halfword, load16_toNat]
    change [m base, m (base + 1)] = _
    simp only [List.cons.injEq, and_true, ← UInt8.toNat_inj, UInt8.toNat_ofNat']
    omega

theorem Arp.length_frame (a : Arp) : a.frame.length = 42 := by
  simp only [Arp.frame, List.length_append, Vector.length_toList, networkOrder_length]

theorem Ping.length_ipHeader (p : Ping) : p.ipHeader.length = 20 := by
  simp only [Ping.ipHeader, List.length_append, Vector.length_toList, networkOrder_length, List.length_singleton]

theorem Ping.length_message (p : Ping) : p.message.length = p.body.length + 4 := by
  simp only [Ping.message, List.length_append, networkOrder_length, List.length_cons, List.length_nil]
  omega

theorem Ping.len_toNat (p : Ping) : p.len.toNat = p.body.length + 24 := UInt16.toNat_ofNat_of_lt' p.room

theorem Ping.length_frame (p : Ping) : p.frame.length = p.len.toNat + 14 := by
  simp only [Ping.frame, List.length_append, Vector.length_toList, networkOrder_length, p.length_ipHeader,
    p.length_message, p.len_toNat]
  omega

theorem Arp.holds_iff (a : Arp) : m.load 0 a.frame.length = a.frame ↔
    m.load 0 6 = a.etDest.toList ∧ m.load 6 6 = a.etSrc.toList ∧ m.load 12 2 = networkOrder ethProtArp ∧
      m.load 14 6 = a.formats.toList ∧ m.load 20 2 = networkOrder a.op ∧ m.load 22 6 = a.sha.toList ∧
        m.load 28 4 = a.spa.toList ∧ m.load 32 6 = a.tha.toList ∧ m.load 38 4 = a.tpa.toList := by
  simp only [Arp.frame, Memory.load_append_iff, Vector.length_toList, networkOrder_length, Nat.zero_add, Nat.reduceAdd]

theorem Ping.holds_ipHeader_iff (p : Ping) : m.load 14 p.ipHeader.length = p.ipHeader ↔
    m.load 14 2 = p.service.toList ∧ m.load 16 2 = networkOrder p.len ∧ m.load 18 5 = p.ident.toList ∧
      m.load 23 1 = [ipProtIcmp] ∧ m.load 24 2 = p.ipSum.toList ∧ m.load 26 4 = p.ipSrc.toList ∧
        m.load 30 4 = p.ipDst.toList := by
  simp only [Ping.ipHeader, Memory.load_append_iff, Vector.length_toList, networkOrder_length, List.length_singleton,
    Nat.reduceAdd]

theorem Ping.holds_message_iff (p : Ping) : m.load 34 p.message.length = p.message ↔
    m.load 34 2 = [p.type, p.code] ∧ m.load 36 2 = networkOrder p.cksum ∧ m.load 38 p.body.length = p.body := by
  simp only [Ping.message, Memory.load_append_iff, networkOrder_length, List.length_cons, List.length_nil, Nat.zero_add,
    Nat.reduceAdd]

theorem Ping.holds_iff (p : Ping) : m.load 0 p.frame.length = p.frame ↔
    m.load 0 6 = p.etDest.toList ∧ m.load 6 6 = p.etSrc.toList ∧ m.load 12 2 = networkOrder ethProtIp ∧
      m.load 14 p.ipHeader.length = p.ipHeader ∧ m.load 34 p.message.length = p.message := by
  have hbehind : 14 + p.ipHeader.length = 34 := by rw [p.length_ipHeader]
  simp only [Ping.frame, Memory.load_append_iff, Vector.length_toList, networkOrder_length, Nat.zero_add, Nat.reduceAdd,
    hbehind]

theorem holds_arpAt (h : IsArpRequest m) : m.load 0 (arpAt m).frame.length = (arpAt m).frame := by
  rw [Arp.holds_iff]
  simp only [arpAt, toList_loadArray, load_networkOrder_iff, true_and, and_true]
  exact h.1

theorem holds_pingAt (h : IsEchoRequest m) (hlen : 24 ≤ lenAt m) :
    m.load 0 (pingAt m).frame.length = (pingAt m).frame := by
  have hfield : swap16 (m.load16 16) = (pingAt m).len := by
    have hbody : (pingAt m).body.length = lenAt m - 24 := Memory.load_length ..
    rw [← UInt16.toNat_inj, Ping.len_toNat, hbody, Nat.sub_add_cancel hlen, lenAt]
  have hbody : m.load 38 (pingAt m).body.length = (pingAt m).body := by
    rw [pingAt, Memory.load_length]
  rw [Ping.holds_iff, Ping.holds_ipHeader_iff, Ping.holds_message_iff]
  refine ⟨?_, ?_, load_networkOrder_iff.mpr h.1, ⟨?_, load_networkOrder_iff.mpr hfield, ?_, ?_, ?_, ?_, ?_⟩, rfl,
    load_networkOrder_iff.mpr rfl, hbody⟩
  · exact (toList_loadArray ..).symm
  · exact (toList_loadArray ..).symm
  · exact (toList_loadArray ..).symm
  · exact (toList_loadArray ..).symm
  · exact congrArg (fun b => [b]) h.2.1
  · exact (toList_loadArray ..).symm
  · exact (toList_loadArray ..).symm
  · exact (toList_loadArray ..).symm

theorem loadArray_eq_of_load {base n : Nat} {xs : Vector UInt8 n} (h : m.load base n = xs.toList) : loadArray m base n = xs := by
  apply Vector.toList_inj.mp
  rw [toList_loadArray, h]

theorem pingAt_eq_of_holds (p : Ping) (h : m.load 0 p.frame.length = p.frame) : pingAt m = p := by
  rw [Ping.holds_iff, Ping.holds_ipHeader_iff, Ping.holds_message_iff] at h
  obtain ⟨hdest, hsrc, -, ⟨hservice, hlen, hident, -, hsum, hipSrc, hipDst⟩, htype, hcksum, hbody⟩ := h
  have hlenAt : lenAt m = p.body.length + 24 := by
    rw [lenAt, load_networkOrder_iff.mp hlen, Ping.len_toNat]
  have hload : m.load 38 (lenAt m - 24) = p.body := by rw [hlenAt, Nat.add_sub_cancel, hbody]
  obtain ⟨hkind, hrest⟩ := List.cons.inj htype
  cases p
  rw [pingAt]
  simp only [Ping.mk.injEq]
  exact ⟨loadArray_eq_of_load hdest, loadArray_eq_of_load hsrc, loadArray_eq_of_load hservice,
    loadArray_eq_of_load hident, loadArray_eq_of_load hsum, loadArray_eq_of_load hipSrc, loadArray_eq_of_load hipDst,
    hkind, (List.cons.inj hrest).1, load_networkOrder_iff.mp hcksum, hload⟩

theorem isEchoRequest_of_holds (p : Ping) (h : m.load 0 p.frame.length = p.frame) (htype : p.type = icmpEchoRequest) :
    IsEchoRequest m := by
  rw [Ping.holds_iff, Ping.holds_ipHeader_iff, Ping.holds_message_iff] at h
  obtain ⟨-, -, hformat, ⟨-, -, -, hprot, -⟩, hkind, -⟩ := h
  exact ⟨load_networkOrder_iff.mp hformat, (List.cons.inj hprot).1, (List.cons.inj hkind).1.trans htype⟩

end Fields

end ContikiAtsam.GmacExample
