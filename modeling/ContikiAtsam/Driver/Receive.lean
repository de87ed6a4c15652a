import ContikiAtsam.Gmac.Read
import ContikiAtsam.Net.Packetbuf

/-!
# The receive loop of the poll handler

The loop in the RX branch of `gmac_driver_pollhandler`: clear the packet buffer, read a frame into it and hand it to the MAC layer, until `gmac_dev_read` returns anything but `GMAC_OK`. What the MAC layer does with the packet buffer is left open; it does not touch the ring. `receiveList` is the whole loop over the list of buffers that the software owns, in one recursion.
-/

namespace ContikiAtsam

/-- The receive loop's state, with the packets handed to `NETSTACK_0_MAC.input` so far. -/
structure RxRun where
  dev : RxRing
  pb : Packetbuf
  delivered : List (List UInt8)

/-- One turn of the loop; `none` for a read that does not return. -/
def rxTurn (macInput : Packetbuf → Packetbuf) (s : RxRun) : Turn RxRun (Option RxRun) :=
  let pb := packetbufClear s.pb
  match gmacDevRead s.dev pb.packetbuf (packetbufDataptr pb) ethernetMaxFrameLen with
  | none => .leave none
  | some r =>
    let pb := { pb with packetbuf := r.frame }
    if r.status ≠ .ok then .leave (some ⟨r.dev, pb, s.delivered⟩)
    else
      let pb := packetbufSetDatalen pb (UInt16.ofNat r.rcvSize)
      .again ⟨r.dev, macInput pb, s.delivered ++ [pb.data]⟩

def rxBranch (macInput : Packetbuf → Packetbuf) (fuel : Nat) (s : RxRun) : Option RxRun :=
  (Loop.run (rxTurn macInput) fuel s).join

/-! ### The loop over a list of buffers -/

/-- The packets that the loop hands on and the buffers it leaves owned, from any point inside a read. -/
def receiveList (n cap : Nat) : List Buf → List Buf → List UInt8 → List (List UInt8) × List Buf
  | [], held, _ => ([], held)
  | b :: bufs, held, acc =>
    if !b.sof && held.isEmpty then receiveList n cap bufs [] []
    else if (b.hold held).length = n then ([], [])
    else if (b.source held).eof then
      if (b.gather cap held acc).length < (b.source held).len then ([], bufs)
      else ((b.gather cap held acc).take (b.source held).len :: (receiveList n cap bufs [] []).1,
        (receiveList n cap bufs [] []).2)
    else receiveList n cap bufs (b.hold held) (b.gather cap held acc)

theorem receiveList_eq_readList (n cap : Nat) (bufs held : List Buf) (acc : List UInt8) :
    receiveList n cap bufs held acc =
      let r := readList n cap bufs held acc
      if r.status = .ok then (r.bytes :: (receiveList n cap r.rest [] []).1, (receiveList n cap r.rest [] []).2)
      else ([], r.rest) := by
  induction bufs generalizing held acc with
  | nil => simp [receiveList, readList]
  | cons b bufs ih =>
      rw [receiveList, readList]
      split_ifs with hskip hfull heof hsmall
      · exact ih [] []
      · rfl
      · simp
      · simp
      · exact ih _ _

theorem readList_ok_length_lt {n cap : Nat} {bufs held : List Buf} {acc : List UInt8}
    (hok : (readList n cap bufs held acc).status = .ok) :
    (readList n cap bufs held acc).rest.length < bufs.length := by
  induction bufs generalizing held acc with
  | nil => simp [readList] at hok
  | cons b bufs ih =>
      rw [readList] at hok ⊢
      rw [List.length_cons]
      by_cases hskip : (!b.sof && held.isEmpty) = true
      · rw [if_pos hskip] at hok ⊢
        exact Nat.lt_succ_of_lt (ih hok)
      rw [if_neg hskip] at hok ⊢
      by_cases hfull : (b.hold held).length = n
      · simp [hfull] at hok
      rw [if_neg hfull] at hok ⊢
      by_cases heof : (b.source held).eof = true
      · rw [if_pos heof]
        exact Nat.lt_succ_self _
      · rw [if_neg heof] at hok ⊢
        exact Nat.lt_succ_of_lt (ih hok)

theorem gather_length_le (b : Buf) {cap : Nat} (held : List Buf) {acc : List UInt8} (hacc : acc.length ≤ cap) :
    (b.gather cap held acc).length ≤ cap := by
  have hbefore : (if b.sof then [] else acc).length ≤ cap := by
    split
    · exact Nat.zero_le _
    · exact hacc
  rw [Buf.gather, List.length_append, List.length_take]
  omega

theorem readList_bytes_length_le {n cap : Nat} {bufs held : List Buf} {acc : List UInt8}
    (hacc : acc.length ≤ cap) : (readList n cap bufs held acc).bytes.length ≤ cap := by
  induction bufs generalizing held acc with
  | nil => exact Nat.zero_le _
  | cons b bufs ih =>
      rw [readList]
      have hgather := gather_length_le b held hacc
      split_ifs
      · exact ih (Nat.zero_le _)
      · exact Nat.zero_le _
      · rw [List.length_take]
        omega
      · rw [List.length_take]
        omega
      · exact ih hgather

/-- **The receive loop hands on what the list recursion says**, and leaves those buffers owned. -/
theorem rxBranch_eq (macInput : Packetbuf → Packetbuf) {fuel : Nat} {s : RxRun} {bufs : List Buf}
    (hshows : s.dev.Shows bufs) (hfuel : bufs.length < fuel) :
    ∃ r, rxBranch macInput fuel s = some r ∧ r.dev.usRxListSize = s.dev.usRxListSize ∧
      r.delivered = s.delivered ++ (receiveList s.dev.usRxListSize ethernetMaxFrameLen bufs [] []).1 ∧
      r.dev.Shows (receiveList s.dev.usRxListSize ethernetMaxFrameLen bufs [] []).2 := by
  induction fuel generalizing s bufs with
  | zero => omega
  | succ fuel ih =>
      obtain ⟨r, hread, hreads⟩ := gmacDevRead_spec hshows (packetbufClear s.pb).packetbuf
        (packetbufDataptr (packetbufClear s.pb)) ethernetMaxFrameLen
      rw [receiveList_eq_readList]
      set lr := readList s.dev.usRxListSize ethernetMaxFrameLen bufs [] [] with hlr
      by_cases hok : lr.status = .ok
      · set pb := packetbufSetDatalen { packetbufClear s.pb with packetbuf := r.frame } (UInt16.ofNat r.rcvSize)
          with hpb
        have hturn : rxTurn macInput s = .again ⟨r.dev, macInput pb, s.delivered ++ [pb.data]⟩ := by
          simp only [rxTurn, hread, hreads.status, hok, ne_eq, not_true_eq_false, if_false, hpb]
        have hload := hreads.bytes hok
        have hlen : r.rcvSize ≤ ethernetMaxFrameLen := by
          rw [← Memory.load_length r.frame (packetbufDataptr (packetbufClear s.pb)) r.rcvSize, hload]
          exact readList_bytes_length_le (Nat.zero_le _)
        have hdatalen : (packetbufDatalen pb).toNat = r.rcvSize := by
          change (UInt16.ofNat r.rcvSize).toNat = r.rcvSize
          rw [UInt16.toNat_ofNat']
          exact Nat.mod_eq_of_lt (Nat.lt_of_le_of_lt hlen (by decide))
        have hdata : pb.data = lr.bytes := by
          rw [Packetbuf.data, hdatalen]
          exact hload
        obtain ⟨r', hrun, hsize, hdelivered, hrest⟩ := ih
          (s := ⟨r.dev, macInput pb, s.delivered ++ [pb.data]⟩) hreads.shows_rest
          (Nat.lt_of_lt_of_le (readList_ok_length_lt hok) (by omega))
        rw [hreads.same.size] at hsize hdelivered hrest
        refine ⟨r', ?_, hsize, ?_, ?_⟩
        · rw [rxBranch, Loop.run_again hturn]
          exact hrun
        · rw [hdelivered, hdata]
          simp [hok]
        · simpa [hok] using hrest
      · have hturn : rxTurn macInput s =
            .leave (some ⟨r.dev, { packetbufClear s.pb with packetbuf := r.frame }, s.delivered⟩) := by
          simp only [rxTurn, hread, hreads.status, hok, ne_eq, not_false_eq_true, if_true]
        refine ⟨⟨r.dev, { packetbufClear s.pb with packetbuf := r.frame }, s.delivered⟩, ?_, hreads.same.size,
          ?_, ?_⟩
        · rw [rxBranch, Loop.run_leave hturn]
          rfl
        · simp [hok]
        · simpa [hok] using hreads.shows_rest

end ContikiAtsam
