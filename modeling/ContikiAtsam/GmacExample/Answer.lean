import ContikiAtsam.Base.OnesSum
import ContikiAtsam.GmacExample.Frames

/-!
# What the GMAC example answers

The frame that is handed to `gmac_dev_write` for an ARP request and for a ping, as a function of what the buffer holds.
-/

namespace ContikiAtsam.GmacExample

/-! ### The loops -/

section Loops

variable {n : Nat} {dst src : Nat}

theorem foldl_swapTurn (own : Vector UInt8 n) (m : Memory) (h : dst + n ≤ src ∨ src + n ≤ dst) {k : Nat} (hk : k ≤ n) :
    (List.range k).foldl (swapTurn own dst src) m = (m.store dst (m.load src k)).store src (own.toList.take k) := by
  induction k with
  | zero =>
      rw [List.range_zero, List.foldl_nil, List.take_zero]
      exact ((Memory.store_load_self _ src 0).trans (Memory.store_load_self m dst 0)).symm
  | succ k ih =>
      have hown : own.toList.take (k + 1) = own.toList.take k ++ [own.toList.getD k 0] := by
        have hlt : k < own.toList.length := by
          rw [Vector.length_toList]
          omega
        rw [List.take_succ_eq_append_getElem hlt, List.getD_eq_getElem _ _ hlt]
      have hload : m.load src (k + 1) = m.load src k ++ [m (src + k)] := Memory.load_add ..
      have htake : (own.toList.take k).length = k := by
        rw [List.length_take, Vector.length_toList]
        omega
      have hlen : (m.load src k).length = k := Memory.load_length ..
      have hread : (m.store dst (m.load src k)).store src (own.toList.take k) (src + k) = m (src + k) := by
        rw [Memory.store_of_outside (by omega), Memory.store_of_outside (by omega)]
      have hmove : ((m.store dst (m.load src k)).store src (own.toList.take k)).store (dst + k) [m (src + k)] =
          (m.store dst (m.load src (k + 1))).store src (own.toList.take k) := by
        rw [Memory.store_comm _ (by rw [htake, List.length_singleton]; omega), hload, ← Memory.store_store_append, hlen]
      rw [List.range_succ, List.foldl_append, ih (by omega), List.foldl_cons, List.foldl_nil, swapTurn, hread, hmove, hown,
        ← Memory.store_store_append, htake]

theorem foldl_swapTurn_all (own : Vector UInt8 n) (m : Memory) (h : dst + n ≤ src ∨ src + n ≤ dst) :
    (List.range n).foldl (swapTurn own dst src) m = (m.store dst (m.load src n)).store src own.toList := by
  rw [foldl_swapTurn own m h (Nat.le_refl n), List.take_of_length_le (Nat.le_of_eq own.length_toList)]

theorem foldl_range_comp {σ : Type} {f g : σ → Nat → σ} {n : Nat}
    (hcomm : ∀ s i j, i < n → j < n → f (g s i) j = g (f s j) i) (s : σ) :
    (List.range n).foldl (fun s i => g (f s i) i) s = (List.range n).foldl g ((List.range n).foldl f s) := by
  have hpast : ∀ k ≤ n, ∀ s j, j < n → f ((List.range k).foldl g s) j = (List.range k).foldl g (f s j) := by
    intro k hk s j hj
    induction k with
    | zero => rfl
    | succ k ih =>
        rw [List.range_succ, List.foldl_append, List.foldl_append, List.foldl_cons, List.foldl_nil, List.foldl_cons,
          List.foldl_nil, hcomm _ k j (by omega) hj, ih (by omega)]
  have hrun : ∀ k ≤ n, (List.range k).foldl (fun s i => g (f s i) i) s =
      (List.range k).foldl g ((List.range k).foldl f s) := by
    intro k hk
    induction k with
    | zero => rfl
    | succ k ih =>
        rw [List.range_succ, List.foldl_append, List.foldl_append, List.foldl_append, ih (by omega)]
        simp only [List.foldl_cons, List.foldl_nil]
        rw [hpast k (by omega) _ k (by omega)]
  exact hrun n (Nat.le_refl n)

theorem swapTurn_comm (own own' : Vector UInt8 n) {dst' src' : Nat} (m : Memory) {i j : Nat}
    (h : src + j ≠ dst' + i ∧ src + j ≠ src' + i ∧ dst + j ≠ dst' + i ∧ dst + j ≠ src' + i) :
    swapTurn own dst src (swapTurn own' dst' src' m i) j = swapTurn own' dst' src' (swapTurn own dst src m j) i := by
  obtain ⟨hread, hread', hwrite, hwrite'⟩ := h
  funext a
  simp only [swapTurn, Memory.store_singleton, if_neg hread, if_neg hread', if_neg hread'.symm, if_neg hwrite'.symm]
  split_ifs <;> first | rfl | omega

end Loops

section Node

variable (mac : Vector UInt8 6) (ip : Vector UInt8 4)

/-- The answer to an ARP request, whatever address it asks for. -/
def Arp.reply (a : Arp) : Arp :=
  { a with etDest := a.etSrc, etSrc := mac, op := arpReply, sha := mac, spa := ip, tha := a.sha, tpa := a.spa }

/-- The answer to a ping. -/
def Ping.reply (p : Ping) : Ping :=
  { p with
    etDest := p.etSrc
    etSrc := mac
    ipDst := p.ipSrc
    ipSrc := ip
    type := icmpEchoReply
    code := 0
    cksum := UInt16.ofNat (65535 - OnesSum.carry (OnesSum.wordSum p.body) % 65536) }

variable {mac ip} {m : Memory}

/-- What the loops of `gmac_process_arp_packet` leave in the buffer. -/
def arpSwapped (mac : Vector UInt8 6) (ip : Vector UInt8 4) (m : Memory) : Memory :=
  let m := (m.store 0 (m.load 6 6)).store 6 mac.toList
  let m := (m.store 32 (m.load 22 6)).store 22 mac.toList
  (m.store 38 (m.load 28 4)).store 28 ip.toList

theorem arpSwapped_eq (m : Memory) : (List.range 4).foldl (swapTurn ip (ethHeaderSize + arTpa) (ethHeaderSize + arSpa))
    ((List.range 6).foldl (fun m i =>
      swapTurn mac (ethHeaderSize + arTha) (ethHeaderSize + arSha) (swapTurn mac etDest etSrc m i) i) m) =
    arpSwapped mac ip m := by
  have hether : (List.range 6).foldl (swapTurn mac etDest etSrc) m = (m.store 0 (m.load 6 6)).store 6 mac.toList :=
    foldl_swapTurn_all mac m (Or.inl (Nat.le_refl 6))
  have hhard : ∀ m, (List.range 6).foldl (swapTurn mac (ethHeaderSize + arTha) (ethHeaderSize + arSha)) m =
      (m.store 32 (m.load 22 6)).store 22 mac.toList := fun m => foldl_swapTurn_all mac m (Or.inr (by decide))
  have hproto : ∀ m, (List.range 4).foldl (swapTurn ip (ethHeaderSize + arTpa) (ethHeaderSize + arSpa)) m =
      (m.store 38 (m.load 28 4)).store 28 ip.toList := fun m => foldl_swapTurn_all ip m (Or.inr (by decide))
  have hcomm : ∀ m i j, i < 6 → j < 6 → swapTurn mac etDest etSrc
      (swapTurn mac (ethHeaderSize + arTha) (ethHeaderSize + arSha) m i) j =
        swapTurn mac (ethHeaderSize + arTha) (ethHeaderSize + arSha) (swapTurn mac etDest etSrc m j) i := by
    intro m i j hi hj
    apply swapTurn_comm
    rw [etDest, etSrc, ethHeaderSize, arTha, arSha]
    omega
  rw [foldl_range_comp hcomm, hether, hhard, hproto, arpSwapped]

theorem processArpPacket_request (h : IsArpRequest m) (ulSize : Nat) : gmacProcessArpPacket mac ip m ulSize =
    (arpSwapped mac ip (m.store 20 (networkOrder arpReply)),
      some ((arpSwapped mac ip (m.store 20 (networkOrder arpReply))).load 0 ulSize)) := by
  have hop : swap16 (m.load16 (ethHeaderSize + arOp)) = arpRequest := h.2
  rw [gmacProcessArpPacket, if_pos hop]
  dsimp only
  rw [arpSwapped_eq]
  rfl

/-- **The answer to an ARP request**, and what is behind it stays. -/
theorem load_arpSwapped (h : IsArpRequest m) :
    (arpSwapped mac ip (m.store 20 (networkOrder arpReply))).load 0 42 = ((arpAt m).reply mac ip).frame := by
  obtain ⟨hdest, hsrc, htype, hformats, -, hsha, hspa, htha, htpa⟩ := (Arp.holds_iff _).mp (holds_arpAt h)
  rw [← ((arpAt m).reply mac ip).length_frame, Arp.holds_iff]
  simp (disch := simp) only [arpSwapped, Memory.load_store_of_disjoint, Memory.load_store_of_length]
  exact ⟨hsrc, rfl, htype, hformats, rfl, rfl, rfl, hsha, hspa⟩

theorem arpSwapped_apply {i : Nat} (hi : 42 ≤ i) : arpSwapped mac ip (m.store 20 (networkOrder arpReply)) i = m i := by
  simp (disch := simp; omega) only [arpSwapped, Memory.store_of_outside]

/-! ### Pings -/

theorem sumWords_eq {pBuff ulLen : Nat} (h : pBuff + 2 * ulLen ≤ gmacFrameLentghMax) (ulTmp : UInt32) :
    sumWords m pBuff ulLen ulTmp = .ok (ulTmp + UInt32.ofNat (OnesSum.wordSum (m.load pBuff (2 * ulLen)))) := by
  induction ulLen generalizing pBuff ulTmp with
  | zero =>
      rw [sumWords, Nat.mul_zero]
      exact congrArg Except.ok (UInt32.add_zero ulTmp).symm
  | succ ulLen ih =>
      have hlo := (m pBuff).toNat_lt
      have hhi := (m (pBuff + 1)).toNat_lt
      have hword : (swap16 (m.load16 pBuff)).toUInt32 = UInt32.ofNat (256 * (m pBuff).toNat + (m (pBuff + 1)).toNat) := by
        rw [← UInt32.ofNat_uInt16ToNat, Framer.swap16_toNat, load16_toNat]
        congr 1
        omega
      have hload : m.load pBuff (2 * (ulLen + 1)) = m pBuff :: m (pBuff + 1) :: m.load (pBuff + 2) (2 * ulLen) := by
        rw [Nat.mul_add, Nat.add_comm, Memory.load_add]
        rfl
      rw [sumWords, readWord, if_pos (by omega)]
      dsimp only
      rw [ih (by omega), hload, OnesSum.wordSum, hword, UInt32.add_assoc, ← UInt32.ofNat_add]

theorem complement_toUInt16 (ulTmp : UInt32) :
    (~~~((ulTmp &&& (0xFFFF : UInt32)) + (ulTmp >>> (16 : UInt32)))).toUInt16 =
      UInt16.ofNat (65535 - OnesSum.carry ulTmp.toNat % 65536) := by
  have hlow : (ulTmp &&& (0xFFFF : UInt32)).toNat = ulTmp.toNat % 65536 := by
    rw [UInt32.toNat_and]
    exact Nat.and_two_pow_sub_one_eq_mod ulTmp.toNat 16
  have hhigh : (ulTmp >>> (16 : UInt32)).toNat = ulTmp.toNat / 65536 := by
    rw [UInt32.toNat_shiftRight]
    exact Nat.shiftRight_eq_div_pow ulTmp.toNat 16
  have hlt := ulTmp.toNat_lt
  have hcarry : ((ulTmp &&& (0xFFFF : UInt32)) + (ulTmp >>> (16 : UInt32))).toNat = OnesSum.carry ulTmp.toNat := by
    rw [UInt32.toNat_add, hlow, hhigh, OnesSum.carry]
    omega
  have hround : OnesSum.carry ulTmp.toNat ≤ 131070 := by
    rw [OnesSum.carry]
    omega
  rw [← UInt16.toNat_inj, UInt32.toNat_toUInt16, UInt32.toNat_not, hcarry, UInt16.toNat_ofNat']
  change (4294967296 - 1 - _) % 65536 = _ % 65536
  omega

theorem gmacIcmpChecksum_eq {pBuff ulLen : Nat} (h : pBuff + 2 * ulLen ≤ gmacFrameLentghMax) :
    gmacIcmpChecksum m pBuff ulLen =
      .ok (UInt16.ofNat (65535 - OnesSum.carry (OnesSum.wordSum (m.load pBuff (2 * ulLen))) % 65536)) := by
  have hsmall := OnesSum.wordSum_le (m.load pBuff (2 * ulLen))
  rw [Memory.load_length] at hsmall
  have hbound : pBuff + 2 * ulLen ≤ 1536 := h
  have hsum : (0 + UInt32.ofNat (OnesSum.wordSum (m.load pBuff (2 * ulLen)))).toNat =
      OnesSum.wordSum (m.load pBuff (2 * ulLen)) := by
    rw [UInt32.zero_add]
    exact UInt32.toNat_ofNat_of_lt' (by change _ < 4294967296; omega)
  rw [gmacIcmpChecksum, sumWords_eq h]
  dsimp only
  rw [complement_toUInt16, hsum]

/-- The buffer when the sum is taken: type, code and checksum are zero, and so is the byte behind a message of odd length. -/
def zeroed (m : Memory) : Memory := ((m.store 34 [icmpEchoReply]).store 35 [0]).store 36 (Memory.halfword 0)

def padded (m : Memory) (icmpLen : Nat) : Memory := if icmpLen % 2 = 1 then m.store (34 + icmpLen) [0] else m

/-- The number of the message's words. -/
def wordCount (icmpLen : Nat) : Nat := (icmpLen + 1) / 2

theorem lenAt_congr {m m' : Memory} (h : m.load 16 2 = m'.load 16 2) : lenAt m = lenAt m' := by
  rw [lenAt, lenAt, Memory.load16_congr h]

theorem lenAt_zeroed (m : Memory) : lenAt (zeroed m) = lenAt m := by
  apply lenAt_congr
  simp (disch := simp) only [zeroed, Memory.load_store_of_disjoint]

theorem ulIcmpLen_toNat (m : Memory) : (ulIcmpLen m).toNat = if 20 ≤ lenAt m then lenAt m - 20 else lenAt m + 4294967276 := by
  have hfield : (swap16 (m.load16 (ethHeaderSize + ipLen))).toUInt32.toNat = lenAt m := UInt16.toNat_toUInt32 _
  have hlt : lenAt m < 65536 := (swap16 (m.load16 16)).toNat_lt
  have hsize : (UInt32.ofNat ethIpHeaderSize).toNat = 20 := rfl
  rw [ulIcmpLen, UInt32.toNat_sub, hfield, hsize]
  change (4294967296 - 20 + lenAt m) % 4294967296 = _
  split <;> omega

theorem odd_iff (x : UInt32) : x % 2 ≠ 0 ↔ x.toNat % 2 = 1 := by
  rw [ne_eq, ← UInt32.toNat_inj, UInt32.toNat_mod]
  change ¬ x.toNat % 2 = 0 ↔ _
  omega

/-- The message is made even inside the buffer if its end is there. -/
theorem padMessage_eq {ulIcmpLen : UInt32} (h : ulIcmpLen.toNat ≤ 1502) :
    ∃ words, padMessage m 34 ulIcmpLen = .ok (padded m ulIcmpLen.toNat, words) ∧ words.toNat = wordCount ulIcmpLen.toNat := by
  by_cases hodd : ulIcmpLen.toNat % 2 = 1
  · have hin : 34 + ulIcmpLen.toNat < gmacFrameLentghMax := by
      change _ < 1536
      omega
    refine ⟨(ulIcmpLen + 1) / 2, ?_, ?_⟩
    · rw [padMessage, if_pos ((odd_iff _).mpr hodd), writeByte, if_pos hin, padded, if_pos hodd]
    · rw [UInt32.toNat_div, UInt32.toNat_add, wordCount]
      change (_ + 1) % 4294967296 / 2 = _
      omega
  · refine ⟨ulIcmpLen / 2, ?_, ?_⟩
    · rw [padMessage, if_neg (mt (odd_iff _).mp hodd), padded, if_neg hodd]
    · rw [UInt32.toNat_div, wordCount]
      change _ / 2 = _
      omega

/-- What is left in the buffer where the checksum is `cksum`. -/
def echoed (mac : Vector UInt8 6) (ip : Vector UInt8 4) (m : Memory) (cksum : UInt16) : Memory :=
  let m := (padded (zeroed m) (lenAt m - 20)).store 36 (networkOrder cksum)
  let m := (m.store 30 (m.load 26 4)).store 26 ip.toList
  (m.store 0 (m.load 6 6)).store 6 mac.toList

/-- The sum that the program takes of the message. -/
def sumAt (m : Memory) : Nat :=
  OnesSum.wordSum ((padded (zeroed m) (lenAt m - 20)).load 34 (2 * wordCount (lenAt m - 20)))

def cksumAt (m : Memory) : UInt16 := UInt16.ofNat (65535 - OnesSum.carry (sumAt m) % 65536)

section Echo

variable {base n : Nat} {cksum : UInt16}

theorem load_padded {icmpLen : Nat} (h : base + n ≤ 34 + icmpLen) : (padded m icmpLen).load base n = m.load base n := by
  rw [padded]
  split
  · exact Memory.load_store_of_disjoint (Or.inl h)
  · rfl

theorem load_header {icmpLen : Nat} (h : base + n ≤ 34) : (padded (zeroed m) icmpLen).load base n = m.load base n := by
  rw [load_padded (by omega), zeroed, Memory.load_store_of_disjoint (Or.inl (by omega)),
    Memory.load_store_of_disjoint (Or.inl (by omega)), Memory.load_store_of_disjoint (Or.inl h)]

theorem lenAt_echoed : lenAt (echoed mac ip m cksum) = lenAt m := by
  apply lenAt_congr
  simp (disch := simp) only [echoed, Memory.load_store_of_disjoint, load_header]

theorem zeroed_eq (m : Memory) : ((m.store (ethHeaderSize + ethIpHeaderSize + icmpType) [icmpEchoReply]).store
    (ethHeaderSize + ethIpHeaderSize + icmpCode) [0]).store (ethHeaderSize + ethIpHeaderSize + icmpCksum)
      (Memory.halfword 0) = zeroed m := rfl

/-- **An echo request** whose length field says that it ends inside the buffer becomes its answer there. -/
theorem processIpPacket_eq (h : IsEchoRequest m) (hlow : 20 ≤ lenAt m) (hhigh : lenAt m ≤ 1522) :
    gmacProcessIpPacket mac ip m =
      .ok (echoed mac ip m (cksumAt m), some ((echoed mac ip m (cksumAt m)).load 0 (lenAt m + 14))) := by
  have hprot : m (ethHeaderSize + ipP) = ipProtIcmp := h.2.1
  have htype : m (ethHeaderSize + ethIpHeaderSize + icmpType) = icmpEchoRequest := h.2.2
  have hlen : (ulIcmpLen (zeroed m)).toNat = lenAt m - 20 := by rw [ulIcmpLen_toNat, lenAt_zeroed, if_pos hlow]
  obtain ⟨words, hpad, hwords⟩ := padMessage_eq (m := zeroed m) (show (ulIcmpLen (zeroed m)).toNat ≤ 1502 by omega)
  rw [hlen] at hpad hwords
  have hsum : gmacIcmpChecksum (padded (zeroed m) (lenAt m - 20)) 34 words.toNat = .ok (cksumAt m) := by
    rw [hwords, cksumAt, sumAt]
    apply gmacIcmpChecksum_eq
    change _ ≤ 1536
    rw [wordCount]
    omega
  have hip : ∀ m, (List.range 4).foldl (swapTurn ip (ethHeaderSize + ipDst) (ethHeaderSize + ipSrc)) m =
      (m.store 30 (m.load 26 4)).store 26 ip.toList := fun m => foldl_swapTurn_all ip m (Or.inr (by decide))
  have hether : ∀ m, (List.range 6).foldl (swapTurn mac etDest etSrc) m = (m.store 0 (m.load 6 6)).store 6 mac.toList :=
    fun m => foldl_swapTurn_all mac m (Or.inl (Nat.le_refl 6))
  have hsent : (swap16 ((echoed mac ip m (cksumAt m)).load16 (ethHeaderSize + ipLen))).toNat = lenAt m := lenAt_echoed
  have hmessage : ethHeaderSize + ethIpHeaderSize = 34 := rfl
  have hfield : 34 + icmpCksum = 36 := rfl
  rw [gmacProcessIpPacket]
  dsimp only
  rw [if_pos hprot, if_pos htype, zeroed_eq, hmessage, hpad]
  dsimp only
  rw [hsum]
  dsimp only
  rw [hip, hether]
  exact congrArg (fun n => Except.ok (echoed mac ip m (cksumAt m),
    some ((echoed mac ip m (cksumAt m)).load 0 (n + ethHeaderSize)))) hsent

theorem sumAt_eq_wordSum_load (m : Memory) : sumAt m = OnesSum.wordSum ((zeroed m).load 34 (lenAt m - 20)) := by
  have hmessage : (padded (zeroed m) (lenAt m - 20)).load 34 (lenAt m - 20) = (zeroed m).load 34 (lenAt m - 20) :=
    load_padded (Nat.le_refl _)
  by_cases hodd : (lenAt m - 20) % 2 = 1
  · have hcount : 2 * wordCount (lenAt m - 20) = lenAt m - 20 + 1 := by
      rw [wordCount]
      omega
    have hlast : (padded (zeroed m) (lenAt m - 20)).load (34 + (lenAt m - 20)) 1 = [0] := by
      rw [padded, if_pos hodd]
      exact Memory.load_store_self ..
    rw [sumAt, hcount, Memory.load_add, hlast, hmessage, OnesSum.wordSum_pad]
  · have hcount : 2 * wordCount (lenAt m - 20) = lenAt m - 20 := by
      rw [wordCount]
      omega
    rw [sumAt, hcount, hmessage]

theorem load_zeroed (m : Memory) : (zeroed m).load 34 4 = [0, 0, 0, 0] := rfl

theorem load_zeroed_of_le {base n : Nat} (h : 38 ≤ base) : (zeroed m).load base n = m.load base n := by
  rw [zeroed, Memory.load_store_of_disjoint (Or.inr h), Memory.load_store_of_disjoint (Or.inr (by simp; omega)),
    Memory.load_store_of_disjoint (Or.inr (by simp; omega))]

theorem sumAt_eq (hlow : 24 ≤ lenAt m) : sumAt m = OnesSum.wordSum (pingAt m).body := by
  have hzero : OnesSum.wordSum [0, 0, 0, 0] = 0 := rfl
  have hcount : lenAt m - 20 = 4 + (lenAt m - 24) := by omega
  rw [sumAt_eq_wordSum_load, hcount, Memory.load_add, load_zeroed, OnesSum.wordSum_append _ rfl, hzero, Nat.zero_add,
    load_zeroed_of_le (Nat.le_refl 38), pingAt]

/-- **The answer to a ping.** -/
theorem load_echoed (h : IsEchoRequest m) (hlow : 24 ≤ lenAt m) :
    (echoed mac ip m (cksumAt m)).load 0 (lenAt m + 14) = ((pingAt m).reply mac ip).frame := by
  have hheld := (Ping.holds_iff _).mp (holds_pingAt h hlow)
  rw [Ping.holds_ipHeader_iff, Ping.holds_message_iff] at hheld
  obtain ⟨-, hsrc, htype, ⟨hservice, hlen, hident, hprot, hsum, hipSrc, -⟩, -, -, hbody⟩ := hheld
  have hbodyLen : (pingAt m).body.length = lenAt m - 24 := Memory.load_length ..
  have hframe : ((pingAt m).reply mac ip).frame.length = lenAt m + 14 := by
    rw [Ping.length_frame, Ping.len_toNat]
    change (pingAt m).body.length + 24 + 14 = _
    omega
  rw [← hframe, Ping.holds_iff, Ping.holds_ipHeader_iff, Ping.holds_message_iff]
  have hcksum : cksumAt m = ((pingAt m).reply mac ip).cksum := by rw [cksumAt, sumAt_eq hlow, Ping.reply]
  have hkept : (echoed mac ip m (cksumAt m)).load 38 ((pingAt m).reply mac ip).body.length = (pingAt m).body := by
    change (echoed mac ip m (cksumAt m)).load 38 (pingAt m).body.length = _
    simp (disch := simp) only [echoed, Memory.load_store_of_disjoint, hbodyLen]
    rw [load_padded (by omega), load_zeroed_of_le (Nat.le_refl 38), pingAt]
  have htype' : (echoed mac ip m (cksumAt m)).load 34 2 = [icmpEchoReply, 0] := by
    have hzero : (padded (zeroed m) (lenAt m - 20)).load 34 2 = [icmpEchoReply, 0] := load_padded (by omega)
    simp (disch := simp) only [echoed, Memory.load_store_of_disjoint, hzero]
  rw [← hcksum]
  refine ⟨?_, ?_, ?_, ⟨?_, ?_, ?_, ?_, ?_, ?_, ?_⟩, htype', ?_, hkept⟩
  all_goals simp (disch := simp) only [echoed, Memory.load_store_of_disjoint, Memory.load_store_of_length, load_header]
  · exact hsrc
  · rfl
  · exact htype
  · exact hservice
  · exact hlen
  · exact hident
  · exact hprot
  · exact hsum
  · rfl
  · exact hipSrc
  · exact Memory.load_store_of_length rfl

/-! ### What the answers depend on -/

variable {m' : Memory} {k : Nat}

end Echo

end Node

end ContikiAtsam.GmacExample
