import ContikiAtsam.Base.Run
import ContikiAtsam.Net.Filter
import ContikiAtsam.Net.Output
import Mathlib.Data.List.InsertIdx

/-!
# Stations on an Ethernet segment

Nodes with this stack, each with its own address, on one segment: what the IP layer of one of them sends passes through `output`, the framer, the wire, the receive ring of every other node, the framer and `input`. A frame may be lost anywhere on its way; nodes send and receive in any order, and the rest of a node uses the packet buffer and the IP buffer as it likes in between.

Seen from the IP layers all of this is a network of datagrams: what a node is handed is what others have sent it, in their order, each datagram at most once and with its addresses. A node drops a datagram that arrives while its IP buffer is in use, so that nothing is missing if that never happens and no frame is lost.
-/

namespace ContikiAtsam

/-- An IP packet with the link-layer addresses that go with it. -/
structure Datagram where
  sender : Linkaddr6
  receiver : Linkaddr6
  packet : List UInt8
  deriving DecidableEq

/-- The frame of a datagram. -/
def Datagram.frame (d : Datagram) : List UInt8 := Framer.ethernetFrame d.receiver d.sender (swap16 ethProtIpv6) d.packet

/-- A datagram that the IP layer of a node can send. -/
def Datagram.Short (d : Datagram) : Prop := d.packet.length ≤ uipBufsize

theorem Datagram.Short.frame_length {d : Datagram} (h : d.Short) : d.frame.length ≤ ethernetMaxFrameLen := by
  have hlen : d.packet.length ≤ 1280 := h
  rw [Datagram.frame, Framer.length_ethernetFrame]
  change 14 + d.packet.length ≤ 1536
  omega

/-- A node: the packet buffer, the IP buffer, the frames in the receive ring, and what `tcpip_input` has been called with. -/
structure Station where
  pb : Packetbuf
  uip : Uip
  rx : List (List UInt8)
  handed : List Datagram

/-- The nodes of a segment, and the datagrams that their IP layers have sent. -/
structure Lan (ι : Type) where
  stations : ι → Station
  sent : List (ι × Datagram)

namespace Stations

open Framer Input Output

/-- What `packet_input` calls `tcpip_input` with, if it does. -/
def tcpipInput (node : Linkaddr6) (pb : Packetbuf) (uip : Uip) : List Datagram :=
  let (result, pb) := parse node pb
  if result < 0 ∨ uip.len ≠ 0 then []
  else
    let uip := input pb uip
    [⟨packetbufAddr pb .sender, packetbufAddr pb .receiver, packet uip⟩]

/-- A turn of the receive loop. -/
def Station.receive (node : Linkaddr6) (s : Station) : Station :=
  match s.rx with
  | [] => s
  | frame :: rest =>
    let pb := received s.pb frame
    ⟨(packetInput node pb s.uip).1, (packetInput node pb s.uip).2, rest, s.handed ++ tcpipInput node pb s.uip⟩

/-- The packet buffer after `output` and the framer. -/
def framed (o : Output) : Packetbuf := o.sends.foldl (fun _ pb => (create pb).2) o.pb

/-- The datagram that `output` is to send. -/
def datagram (node : Linkaddr6) (uip : Uip) (localdest : Option Linkaddr6) : List Datagram :=
  if uip.len = 0 then [] else [⟨node, localdest.getD (ethMcastAddr uip), packet uip⟩]

inductive Event (ι : Type) where
  /-- The rest of a node does anything to its buffers; no packet of the IP layer is larger than `uip_buf`. -/
  | other (i : ι) (pb : Packetbuf) (uip : Uip) (hlen : uip.len.toNat ≤ uipBufsize)
  /-- The IP layer calls `output`, and the frame is on the wire. -/
  | output (i : ι) (localdest : Option Linkaddr6)
  | receive (i : ι)
  /-- A frame for a node is lost. -/
  | lose (i : ι) (k : Nat)

variable {ι : Type} [DecidableEq ι] (addr : ι → Linkaddr6)

def step (lan : Lan ι) : Event ι → Option (Lan ι)
  | .other i pb uip _ =>
      some { lan with stations := Function.update lan.stations i { lan.stations i with pb, uip } }
  | .output i localdest =>
      let s := lan.stations i
      let o := output (addr i) s.pb s.uip localdest
      some
        { stations := fun j =>
            if j = i then { s with pb := framed o }
            else { lan.stations j with rx := (lan.stations j).rx ++ o.sends.filterMap macSendPacket }
          sent := lan.sent ++ (datagram (addr i) s.uip localdest).map (i, ·) }
  | .receive i => some { lan with stations := Function.update lan.stations i (Station.receive (addr i) (lan.stations i)) }
  | .lose i k =>
      some { lan with
        stations := Function.update lan.stations i { lan.stations i with rx := (lan.stations i).rx.eraseIdx k } }

/-- Nothing has been sent, and the IP buffers are empty. -/
def start (pbs : ι → Packetbuf) (mems : ι → Memory) : Lan ι :=
  ⟨fun i => ⟨pbs i, ⟨mems i, 0⟩, [], []⟩, []⟩

/-- The framer of a node lets the receiver in. -/
def LetIn (node receiver : Linkaddr6) : Prop := parseMulticast receiver = true ∨ receiver = node

instance (node receiver : Linkaddr6) : Decidable (LetIn node receiver) := inferInstanceAs (Decidable (_ ∨ _))

/-- A datagram as its receiver sees it: with the null address for a group. -/
def seen (d : Datagram) : Datagram := { d with receiver := if parseMulticast d.receiver then linkaddr6Null else d.receiver }

/-- What the others have sent that is for a node. -/
def sentTo (lan : Lan ι) (i : ι) : List Datagram :=
  (lan.sent.filter fun p => p.1 ≠ i ∧ LetIn (addr i) p.2.receiver).map (seen ·.2)

/-- No frame is lost, and every frame finds the IP buffer of its receiver empty. -/
def Kept (lan : Lan ι) : Event ι → Prop
  | .receive i => (lan.stations i).uip.len = 0
  | .lose _ _ => False
  | _ => True

/-! ### One node -/

section Node

variable {node : Linkaddr6} {pb : Packetbuf} {uip : Uip} {d : Datagram}

theorem datagram_short (localdest : Option Linkaddr6) (hlen : uip.len.toNat ≤ uipBufsize) :
    ∀ d ∈ datagram node uip localdest, d.Short := by
  intro d hd
  rw [datagram] at hd
  split at hd
  · cases hd
  · obtain rfl := List.mem_singleton.mp hd
    rw [Datagram.Short, packet, Memory.load_length]
    exact hlen

/-- **What goes on the wire** is the frame of the datagram that was to be sent. -/
theorem frames_of_output (localdest : Option Linkaddr6) (hlen : uip.len.toNat ≤ uipBufsize) :
    (output node pb uip localdest).sends.filterMap macSendPacket = (datagram node uip localdest).map Datagram.frame := by
  have hlen' : uip.len.toNat ≤ 1280 := hlen
  by_cases hempty : uip.len = 0
  · rw [datagram, if_pos hempty, output, if_pos hempty]
    rfl
  · have hroom : (packet uip).length + hdrLength ≤ packetbufSize := by
      rw [packet, Memory.load_length]
      change uip.len.toNat + 14 ≤ 1536
      omega
    have hfits : uip.len.toNat ≤ packetbufSize := by
      change uip.len.toNat ≤ 1536
      omega
    have hsent := macSendPacket_outgoing (outgoing_sent node pb localdest hfits)
    rw [if_pos hroom] at hsent
    rw [output_of_ne node pb localdest hempty, datagram, if_neg hempty, List.filterMap_cons, hsent]
    rfl

/-- A frame for others changes nothing that the IP layer sees. -/
theorem receive_ignored (pb : Packetbuf) (uip : Uip) (hshort : d.Short) (hdest : ¬ LetIn node d.receiver) :
    tcpipInput node (received pb d.frame) uip = [] ∧ (packetInput node (received pb d.frame) uip).2 = uip := by
  have hincoming := incoming_received pb hshort.frame_length
  have hrejected : ¬ Accepted node (received pb d.frame) := by
    rintro ⟨-, haccepted, -⟩
    obtain ⟨-, hloadDest, -⟩ := hincoming.fields
    rw [hincoming.hdrptr_eq, show 48 + etDest = 48 from rfl, hloadDest] at haccepted
    exact hdest (haccepted.imp_left (parseMulticast_iff _).mpr)
  have hfailed : (parse node (received pb d.frame)).1 < 0 := by
    rw [(parse_of_not_accepted hrejected).1]
    decide
  constructor
  · rw [tcpipInput]
    exact if_pos (Or.inl hfailed)
  · rw [packetInput]
    simp only [if_pos hfailed]

theorem hdrLength_not_neg : ¬ (hdrLength : Int) < 0 := by decide

theorem receive_busy (pb : Packetbuf) (hshort : d.Short) (hdest : LetIn node d.receiver) (hbusy : uip.len ≠ 0) :
    tcpipInput node (received pb d.frame) uip = [] ∧ (packetInput node (received pb d.frame) uip).2 = uip := by
  have hincoming := incoming_received pb hshort.frame_length
  have hparsed := (parse_frame hincoming (hdest.imp_left (parseMulticast_iff _).mp)).1
  constructor
  · rw [tcpipInput]
    exact if_pos (Or.inr hbusy)
  · rw [packetInput]
    simp only [hparsed, if_neg hdrLength_not_neg]
    rw [input, if_pos hbusy]

/-- **A frame that is let in** is handed on as the datagram that it was made from. -/
theorem receive_handed (pb : Packetbuf) (hshort : d.Short) (hdest : LetIn node d.receiver) (hempty : uip.len = 0) :
    tcpipInput node (received pb d.frame) uip = [seen d] ∧
      (packetInput node (received pb d.frame) uip).2.len.toNat ≤ uipBufsize := by
  have hincoming := incoming_received pb hshort.frame_length
  obtain ⟨hparsed, hdata, hsender, hreceiver⟩ := parse_frame hincoming (hdest.imp_left (parseMulticast_iff _).mp)
  set pb' := (parse node (received pb d.frame)).2 with hpb'
  have hlen : (packetbufDatalen pb').toNat = d.packet.length := by
    rw [← hdata, Packetbuf.data, Memory.load_length]
  have hinput : input pb' uip = ⟨uip.mem.store uipLlhLen d.packet, packetbufDatalen pb'⟩ := by
    rw [input, if_neg (not_not.mpr hempty), ← hdata, Packetbuf.data]
  constructor
  · have hopen : ¬ ((parse node (received pb d.frame)).1 < 0 ∨ uip.len ≠ 0) := by
      rw [hparsed]
      exact not_or.mpr ⟨hdrLength_not_neg, not_not.mpr hempty⟩
    rw [tcpipInput]
    simp only [if_neg hopen, ← hpb', hinput]
    rw [packet, hlen, uipLlhLen, Memory.load_store_self, hsender, hreceiver, seen]
    by_cases hgroup : parseMulticast d.receiver = true
    · rw [if_pos ((parseMulticast_iff _).mp hgroup), if_pos hgroup]
    · rw [if_neg (mt (parseMulticast_iff _).mpr hgroup), if_neg hgroup, hdest.resolve_left hgroup]
  · rw [packetInput]
    simp only [hparsed, if_neg hdrLength_not_neg, ← hpb', hinput, hlen]
    exact hshort

end Node

/-! ### The segment -/

variable {addr}

/-- The frames that a node has yet to read are those of a list of datagrams, and its IP buffer is not overfull. -/
structure Carries (lan : Lan ι) (i : ι) (flight : List Datagram) : Prop where
  rx : (lan.stations i).rx = flight.map Datagram.frame
  short : ∀ d ∈ flight, d.Short
  len : (lan.stations i).uip.len.toNat ≤ uipBufsize

/-- What a node has been handed, and will be if nothing is lost or dropped. -/
def account (addr : ι → Linkaddr6) (lan : Lan ι) (i : ι) (flight : List Datagram) : List Datagram :=
  (lan.stations i).handed ++ (flight.filter fun d => LetIn (addr i) d.receiver).map seen

/-- What a step does for one node: the account grows by what is sent to the node, less what is lost. -/
def Moves (addr : ι → Linkaddr6) (lan lan' : Lan ι) (e : Event ι) (i : ι) (flight : List Datagram) : Prop :=
  ∃ flight' new, Carries lan' i flight' ∧ sentTo addr lan' i = sentTo addr lan i ++ new ∧
    (account addr lan' i flight').Sublist (account addr lan i flight ++ new) ∧
    (Kept lan e → account addr lan' i flight' = account addr lan i flight ++ new)

variable {lan lan' : Lan ι} {i : ι} {flight : List Datagram} {e : Event ι}

theorem Moves.of_eq (h : Carries lan i flight) (hstation : lan'.stations i = lan.stations i) (hsent : lan'.sent = lan.sent) :
    Moves addr lan lan' e i flight := by
  have haccount : account addr lan' i flight = account addr lan i flight ++ [] := by
    rw [account, account, hstation, List.append_nil]
  refine ⟨flight, [], ⟨?_, h.short, ?_⟩, ?_, haccount ▸ .refl _, fun _ => haccount⟩
  · rw [hstation, h.rx]
  · rw [hstation]
    exact h.len
  · rw [sentTo, sentTo, hsent, List.append_nil]

theorem Carries.changed (flight' : List Datagram) {s : Station} (hrx : s.rx = flight'.map Datagram.frame)
    (hshort : ∀ d ∈ flight', d.Short) (hlen : s.uip.len.toNat ≤ uipBufsize)
    (hle : (s.handed ++ (flight'.filter fun d => LetIn (addr i) d.receiver).map seen).Sublist (account addr lan i flight))
    (heq : Kept lan e →
      s.handed ++ (flight'.filter fun d => LetIn (addr i) d.receiver).map seen = account addr lan i flight) :
    Moves addr lan { lan with stations := Function.update lan.stations i s } e i flight := by
  have hstation : ({ lan with stations := Function.update lan.stations i s } : Lan ι).stations i = s :=
    Function.update_self ..
  refine ⟨flight', [], ⟨?_, hshort, ?_⟩, (List.append_nil _).symm, ?_, fun hkept => ?_⟩
  · rw [hstation, hrx]
  · rw [hstation]
    exact hlen
  · rw [account, hstation, List.append_nil]
    exact hle
  · rw [account, hstation, List.append_nil]
    exact heq hkept

theorem Carries.other (h : Carries lan i flight) {pb : Packetbuf} {uip : Uip} (hlen : uip.len.toNat ≤ uipBufsize)
    (hstep : step addr lan (.other i pb uip hlen) = some lan') : Moves addr lan lan' (.other i pb uip hlen) i flight := by
  obtain rfl := Option.some.inj hstep
  exact Carries.changed _ h.rx h.short hlen (.refl _) fun _ => rfl

theorem Carries.output (h : Carries lan i flight) {j : ι} (hother : i ≠ j) (localdest : Option Linkaddr6)
    (hlen : (lan.stations j).uip.len.toNat ≤ uipBufsize) (hstep : step addr lan (.output j localdest) = some lan') :
    Moves addr lan lan' (.output j localdest) i flight := by
  obtain rfl := Option.some.inj hstep
  set ds := datagram (addr j) (lan.stations j).uip localdest with hds
  have haccount : ∀ new, new = (ds.filter fun d => LetIn (addr i) d.receiver).map seen →
      (lan.stations i).handed ++ ((flight ++ ds).filter fun d => LetIn (addr i) d.receiver).map seen =
        account addr lan i flight ++ new := by
    rintro new rfl
    rw [account, List.filter_append, List.map_append, List.append_assoc]
  refine ⟨flight ++ ds, (ds.filter fun d => LetIn (addr i) d.receiver).map seen, ⟨?_, ?_, ?_⟩, ?_, ?_, ?_⟩
  · dsimp only
    rw [if_neg hother, frames_of_output localdest hlen, h.rx, List.map_append]
  · intro d hd
    rcases List.mem_append.mp hd with hflying | hnew
    · exact h.short d hflying
    · exact datagram_short localdest hlen d hnew
  · dsimp only
    rw [if_neg hother]
    exact h.len
  · dsimp only [sentTo]
    rw [List.filter_append, List.map_append]
    congr 1
    rw [List.filter_map, List.map_map]
    apply congrArg
    apply List.filter_congr
    intro d _
    simp [Ne.symm hother]
  · rw [account]
    dsimp only
    rw [if_neg hother]
    exact haccount _ rfl ▸ .refl _
  · intro _
    rw [account]
    dsimp only
    rw [if_neg hother]
    exact haccount _ rfl

theorem Carries.own_output (h : Carries lan i flight) (localdest : Option Linkaddr6)
    (hstep : step addr lan (.output i localdest) = some lan') : Moves addr lan lan' (.output i localdest) i flight := by
  obtain rfl := Option.some.inj hstep
  refine ⟨flight, [], ⟨?_, h.short, ?_⟩, ?_, ?_, ?_⟩
  · dsimp only
    rw [if_pos rfl, h.rx]
  · dsimp only
    rw [if_pos rfl]
    exact h.len
  · dsimp only [sentTo]
    rw [List.filter_append, List.filter_map]
    simp [Function.comp_def]
  · simp only [account, if_true, List.append_nil]
    exact List.Sublist.refl _
  · intro _
    simp only [account, if_true, List.append_nil]

/-- **A turn of the receive loop** hands on the next datagram if it is let in and the IP buffer is empty. -/
theorem Carries.receive (h : Carries lan i flight) (hstep : step addr lan (.receive i) = some lan') :
    Moves addr lan lan' (.receive i) i flight := by
  obtain rfl := Option.some.inj hstep
  cases flight with
  | nil =>
      rw [Station.receive, h.rx]
      exact Carries.changed _ h.rx h.short h.len (.refl _) fun _ => rfl
  | cons d flight =>
      have hshort : d.Short := h.short d (List.mem_cons_self ..)
      have hrest : ∀ d ∈ flight, d.Short := fun d' hd' => h.short d' (List.mem_cons_of_mem d hd')
      have hless : ((lan.stations i).handed ++ (flight.filter fun d => LetIn (addr i) d.receiver).map seen).Sublist
          (account addr lan i (d :: flight)) :=
        (((List.sublist_cons_self d flight).filter _).map seen).append_left _
      rw [Station.receive, h.rx]
      by_cases hdest : LetIn (addr i) d.receiver
      · by_cases hempty : (lan.stations i).uip.len = 0
        · obtain ⟨hhanded, hlen⟩ := receive_handed (lan.stations i).pb hshort hdest hempty
          have haccount : ((lan.stations i).handed ++ [seen d]) ++
              (flight.filter fun d => LetIn (addr i) d.receiver).map seen = account addr lan i (d :: flight) := by
            rw [account, List.filter_cons, if_pos (decide_eq_true hdest), List.map_cons, List.append_assoc]
            rfl
          rw [← hhanded] at haccount
          exact Carries.changed flight rfl hrest hlen (haccount ▸ .refl _) fun _ => haccount
        · obtain ⟨hhanded, huip⟩ := receive_busy (lan.stations i).pb hshort hdest hempty
          have hlen := h.len
          rw [← huip] at hlen
          rw [← List.append_nil (lan.stations i).handed, ← hhanded] at hless
          exact Carries.changed flight rfl hrest hlen hless fun hkept => absurd hkept hempty
      · obtain ⟨hhanded, huip⟩ := receive_ignored (lan.stations i).pb (lan.stations i).uip hshort hdest
        have haccount : (lan.stations i).handed ++ (flight.filter fun d => LetIn (addr i) d.receiver).map seen =
            account addr lan i (d :: flight) := by
          rw [account, List.filter_cons, if_neg (by simpa using hdest)]
        have hlen := h.len
        rw [← huip] at hlen
        rw [← List.append_nil (lan.stations i).handed, ← hhanded] at hless haccount
        exact Carries.changed flight rfl hrest hlen hless fun _ => haccount

theorem Carries.lose (h : Carries lan i flight) {k : Nat} (hstep : step addr lan (.lose i k) = some lan') :
    Moves addr lan lan' (.lose i k) i flight := by
  obtain rfl := Option.some.inj hstep
  apply Carries.changed (flight.eraseIdx k)
  · dsimp only
    rw [h.rx, List.eraseIdx_map]
  · exact fun d hd => h.short d (List.mem_of_mem_eraseIdx hd)
  · exact h.len
  · exact (((List.eraseIdx_sublist ..).filter _).map seen).append_left _
  · exact False.elim

/-- What a node keeps to is kept by every step of any node. -/
theorem Carries.moves (hall : ∀ j, ∃ flight, Carries lan j flight) (h : Carries lan i flight)
    (hstep : step addr lan e = some lan') : Moves addr lan lan' e i flight := by
  have hothers : ∀ j, ∀ s : Station, i ≠ j → lan' = { lan with stations := Function.update lan.stations j s } →
      Moves addr lan lan' e i flight := by
    rintro j s hne rfl
    exact Moves.of_eq h (Function.update_of_ne hne ..) rfl
  cases e with
  | other j pb uip hlen =>
      by_cases hne : i = j
      · subst hne
        exact h.other hlen hstep
      · exact hothers j _ hne (Option.some.inj hstep).symm
  | output j localdest =>
      by_cases hne : i = j
      · subst hne
        exact h.own_output localdest hstep
      · obtain ⟨flight', hsender⟩ := hall j
        exact h.output hne localdest hsender.len hstep
  | receive j =>
      by_cases hne : i = j
      · subst hne
        exact h.receive hstep
      · exact hothers j _ hne (Option.some.inj hstep).symm
  | lose j k =>
      by_cases hne : i = j
      · subst hne
        exact h.lose hstep
      · exact hothers j _ hne (Option.some.inj hstep).symm

/-- What a node has been handed and will be is among what was sent to it, and if everything was kept it is all of that. -/
def Accounts (addr : ι → Linkaddr6) (lan : Lan ι) (kept : Prop) (i : ι) : Prop :=
  ∃ flight, Carries lan i flight ∧ (account addr lan i flight).Sublist (sentTo addr lan i) ∧
    (kept → account addr lan i flight = sentTo addr lan i)

theorem accounts_step {kept : Prop} (hall : ∀ i, Accounts addr lan kept i) (hstep : step addr lan e = some lan') (i : ι) :
    Accounts addr lan' (kept ∧ Kept lan e) i := by
  obtain ⟨flight, h, hle, heq⟩ := hall i
  obtain ⟨flight', new, h', hsent, hle', heq'⟩ := h.moves (fun j => (hall j).imp fun _ hj => hj.1) hstep
  refine ⟨flight', h', ?_, fun ⟨hkept, hkeeps⟩ => ?_⟩
  · rw [hsent]
    exact hle'.trans (hle.append_right new)
  · rw [hsent, heq' hkeeps, heq hkept]

theorem accounts_run {kept : Prop} {es : List (Event ι)} (hall : ∀ i, Accounts addr lan kept i)
    (hrun : run (step addr) lan es = some lan') :
    ∀ i, Accounts addr lan' (kept ∧ Along (step addr) Kept lan es) i := by
  induction es generalizing lan kept with
  | nil =>
      obtain rfl := Option.some.inj hrun
      exact fun i => (hall i).imp fun _ h => ⟨h.1, h.2.1, fun hkept => h.2.2 hkept.1⟩
  | cons e es ih =>
      obtain ⟨lan₁, hstep, hrest⟩ := run_cons.mp hrun
      intro i
      obtain ⟨flight, h, hle, heq⟩ := ih (accounts_step hall hstep) hrest i
      exact ⟨flight, h, hle, fun ⟨hkept, halong⟩ => heq ⟨⟨hkept, halong.1⟩, halong.2 lan₁ hstep⟩⟩

theorem accounts_start (addr : ι → Linkaddr6) (pbs : ι → Packetbuf) (mems : ι → Memory) (i : ι) :
    Accounts addr (start pbs mems) True i :=
  ⟨[], ⟨rfl, fun _ hd => absurd hd List.not_mem_nil, Nat.zero_le _⟩, .refl _, fun _ => rfl⟩

/-- **The segment carries datagrams.** In every run, what the IP layer of a node has been handed is what others have sent it, in the order they were sent in, each datagram at most once, whole and with its addresses. If no frame was lost and each found the IP buffer empty, nothing is missing once the node has read all its frames. -/
theorem stations_deliver (pbs : ι → Packetbuf) (mems : ι → Memory) (es : List (Event ι))
    (hrun : run (step addr) (start pbs mems) es = some lan) (i : ι) :
    (lan.stations i).handed.Sublist (sentTo addr lan i) ∧
      (Along (step addr) Kept (start pbs mems) es → (lan.stations i).rx = [] → (lan.stations i).handed = sentTo addr lan i) := by
  obtain ⟨flight, h, hle, heq⟩ := accounts_run (accounts_start addr pbs mems) hrun i
  refine ⟨(List.sublist_append_left ..).trans hle, fun halong hread => ?_⟩
  have hnone : flight = [] := by
    rw [h.rx] at hread
    exact List.map_eq_nil_iff.mp hread
  have haccount := heq ⟨trivial, halong⟩
  rw [hnone, account, List.filter_nil, List.map_nil, List.append_nil] at haccount
  exact haccount

/-- Two nodes, `02:00:00:00:00:01` and `02:00:00:00:00:02`. -/
private def twoNodes (i : Fin 2) : Linkaddr6 := #v[2, 0, 0, 0, 0, UInt8.ofNat (i + 1)]

instance (lan : Lan ι) : (e : Event ι) → Decidable (Kept lan e)
  | .other _ _ _ _ => isTrue trivial
  | .output _ _ => isTrue trivial
  | .receive i => inferInstanceAs (Decidable ((lan.stations i).uip.len = 0))
  | .lose _ _ => isFalse id

/-- The first sends a packet of one byte to the second and one of two bytes to a group; the second reads them, its IP buffer emptied in between. -/
private def twoDatagrams : List (Event (Fin 2)) :=
  [.other 0 .zeroed ⟨fun _ => 0x60, 1⟩ (by decide), .output 0 (some (twoNodes 1)),
    .other 0 .zeroed ⟨fun _ => 0x61, 2⟩ (by decide), .output 0 none,
    .receive 1, .other 1 .zeroed ⟨fun _ => 0, 0⟩ (by decide), .receive 1]

theorem stations_deliver_twoDatagrams :
    ∃ lan, run (step twoNodes) (start (fun _ => .zeroed) fun _ _ => 0) twoDatagrams = some lan ∧
      (lan.stations 1).handed = [⟨twoNodes 0, twoNodes 1, [0x60]⟩, ⟨twoNodes 0, linkaddr6Null, [0x61, 0x61]⟩] := by
  refine ⟨_, rfl, ?_⟩
  rw [(stations_deliver (fun _ => .zeroed) (fun _ _ => 0) twoDatagrams rfl 1).2 (by decide +kernel) rfl]
  decide +kernel

/-- **No frame from a node of the segment overruns an IP buffer.** -/
theorem stations_stay_inside (pbs : ι → Packetbuf) (mems : ι → Memory) (es : List (Event ι))
    (hrun : run (step addr) (start pbs mems) es = some lan) (i : ι) {frame : List UInt8} {rest : List (List UInt8)}
    (hrx : (lan.stations i).rx = frame :: rest) :
    ∃ hlen : frame.length ≤ ethernetMaxFrameLen,
      Input.Safe (addr i) ⟨(lan.stations i).pb, (lan.stations i).uip⟩ (.receive frame hlen) := by
  obtain ⟨flight, h, -⟩ := accounts_run (accounts_start addr pbs mems) hrun i
  obtain ⟨d, flight', rfl⟩ : ∃ d flight', flight = d :: flight' := by
    apply List.exists_cons_of_ne_nil
    rintro rfl
    rw [h.rx] at hrx
    cases hrx
  obtain ⟨rfl, -⟩ := List.cons.inj (h.rx.symm.trans hrx)
  have hshort : d.Short := h.short d (List.mem_cons_self ..)
  refine ⟨hshort.frame_length, (safe_iff_fits _ _ _).mpr fun _ => Or.inr ?_⟩
  rw [Datagram.frame, length_ethernetFrame, Nat.add_sub_cancel_left, uipLlhLen, Nat.zero_add]
  exact hshort

theorem stations_stay_inside_twoDatagrams :
    ∃ lan, run (step twoNodes) (start (fun _ => .zeroed) fun _ _ => 0) (twoDatagrams.take 4) = some lan ∧
      ∃ frame rest, (lan.stations 1).rx = frame :: rest ∧ ∃ hlen : frame.length ≤ ethernetMaxFrameLen,
        Input.Safe (twoNodes 1) ⟨(lan.stations 1).pb, (lan.stations 1).uip⟩ (.receive frame hlen) := by
  refine ⟨_, rfl, _, _, rfl, ?_⟩
  exact stations_stay_inside (fun _ => .zeroed) (fun _ _ => 0) (twoDatagrams.take 4) rfl 1 rfl

end Stations

end ContikiAtsam
