import ContikiAtsam.NetMonitor.Resources

/-!
# The size of the responses

The response buffer has `REST_MAX_CHUNK_SIZE` bytes. A `len` variable is kept in range by every handler, and the handlers of the two route resources cap the length of the text themselves. The handler of the neighbors copies the whole text, so its response fits exactly if the text does; that of the prefixes prints into an array no larger than the response buffer, so what fits there fits. The size of a text is a sum over the entries of the table.
-/

namespace ContikiAtsam.NetMonitor

/-- The response stays within the buffer. -/
def Response.Bounded (r : Response) : Prop := r.copied.length ≤ restMaxChunkSize ∧ r.length ≤ restMaxChunkSize

/-- The size of the text about the neighbors, one line for each. -/
def neighborsSize (node : Node) : Nat :=
  timeSize node.uptimeMin + digits 10 node.neighbors.length + 2 +
    (node.neighbors.map fun nbr => addrSize nbr + 1).sum

/-- The size of the text about the prefixes, one line for each in use. -/
def prefixesSize (node : Node) : Nat :=
  timeSize node.uptimeMin + (node.uipDs6PrefixList.map fun entry => if entry.isused then addrSize entry.ipaddr + 7 else 0).sum

/-- The request and the tables let the handler stay within its arrays. The routes must fit into their table; for the neighbors a `len` is given, not an empty one, or the text fits into the response; the prefixes must fit, with the terminating NUL, into the handler's own array, whatever the request says. -/
def Fits (node : Node) (request : Request) : Resource → Prop
  | .routes => RoutesFit node
  | .neighbors => request.len.1 ≠ 0 ∨ neighborsSize node ≤ restMaxChunkSize
  | .prefixes => prefixesSize node < restMaxChunkSize
  | _ => True

instance (node : Node) (request : Request) : (resource : Resource) → Decidable (Fits node request resource)
  | .routes => inferInstanceAs (Decidable (RoutesFit node))
  | .periodic => isTrue trivial
  | .neighbors => inferInstanceAs (Decidable (_ ∨ _))
  | .prefixes => inferInstanceAs (Decidable (_ < _))
  | .ifaces => isTrue trivial

/-! ### The sizes of the texts -/

theorem length_prefixLines (msg : List Char) (prefixes : List Prefix) :
    (Text.prefixLines msg prefixes).length =
      msg.length + (prefixes.map fun entry => if entry.isused then addrSize entry.ipaddr + 7 else 0).sum := by
  induction prefixes generalizing msg with
  | nil => rfl
  | cons entry prefixes ih =>
      rw [Text.prefixLines, ih, List.map_cons, List.sum_cons]
      by_cases hused : entry.isused = true
      · have haddr : "Addr: ".toList.length = 6 := rfl
        rw [if_pos hused, if_pos hused, List.length_append, Text.length_addr6, List.length_append,
          List.length_singleton, haddr]
        omega
      · rw [if_neg hused, if_neg hused]
        omega

theorem length_prefixes (node : Node) : (Text.prefixes node).length = prefixesSize node := by
  rw [Text.prefixes, length_prefixLines, length_sprintTime, prefixesSize, List.length_nil, Nat.zero_add]

/-- The loop over the neighbors stops once the text is too long, and not before. -/
theorem length_neighborLines (msg : List Char) (neighbors : List Ipaddr) :
    let size := msg.length + (neighbors.map fun nbr => addrSize nbr + 1).sum
    ((Text.neighborLines msg neighbors).length ≤ restMaxChunkSize ↔ size ≤ restMaxChunkSize) ∧
      (msg.length ≤ restMaxChunkSize + 40 → (Text.neighborLines msg neighbors).length ≤ restMaxChunkSize + 40) := by
  induction neighbors generalizing msg with
  | nil => exact ⟨Iff.rfl, id⟩
  | cons nbr neighbors ih =>
      intro size
      have hsize : size = msg.length + (addrSize nbr + 1 + (neighbors.map fun nbr => addrSize nbr + 1).sum) := rfl
      have haddr := addrSize_le nbr
      rw [Text.neighborLines]
      by_cases hfull : msg.length > restMaxChunkSize
      · rw [if_pos hfull]
        exact ⟨by omega, id⟩
      · rw [if_neg hfull]
        obtain ⟨hfits, hbound⟩ := ih (Text.addr6 msg nbr ++ ['\n'])
        simp only [List.length_append, Text.length_addr6, List.length_singleton] at hfits hbound
        exact ⟨by omega, fun _ => hbound (by omega)⟩

/-- The text about the neighbors fits exactly if all its lines do, and never exceeds the response by more than a line. -/
theorem length_neighbors (node : Node) :
    ((Text.neighbors node).length ≤ restMaxChunkSize ↔ neighborsSize node ≤ restMaxChunkSize) ∧
      (Text.neighbors node).length ≤ restMaxChunkSize + 40 := by
  have htime := timeSize_le node.uptimeMin
  have hle := node.neighbors_le
  have hcount : digits 10 node.neighbors.length ≤ 2 := by
    apply digits_le (by decide)
    unfold nbrTableMaxNeighbors at hle
    omega
  rw [Text.neighbors]
  set msg := sprintTime [] node.uptimeMin ++ (['N'] ++ decimal node.neighbors.length ++ ['\n']) with hmsg
  have hlength : msg.length = timeSize node.uptimeMin + digits 10 node.neighbors.length + 2 := by
    rw [hmsg]
    simp only [List.length_append, length_sprintTime, length_decimal, List.length_singleton, List.length_nil]
    omega
  obtain ⟨hfits, hbound⟩ := length_neighborLines msg node.neighbors
  rw [hlength] at hfits hbound
  exact ⟨hfits, hbound (by unfold restMaxChunkSize; omega)⟩

theorem length_ifaces (node : Node) : (Text.ifaces node).length = timeSize node.uptimeMin + 20 := by
  have htotal : "Total Interfaces: ".toList.length = 18 := rfl
  have hone : (decimal 1).length = 1 := rfl
  simp only [Text.ifaces, List.length_append, length_sprintTime, List.length_nil, htotal, hone, List.length_singleton]
  omega

/-! ### The handlers -/

/-- With a `len` every response is bounded, without it the length is the one given. -/
theorem reply_bounded_iff (request : Request) (message : List Char) (length : Nat) :
    (reply request message length).Bounded ↔ request.len.1 ≠ 0 ∨ length ≤ restMaxChunkSize := by
  obtain ⟨⟨found, len⟩, ethStats⟩ := request
  unfold reply Response.Bounded
  dsimp only
  by_cases hfound : found ≠ 0
  · rw [if_pos hfound, iff_true_right (.inl hfound)]
    simp only [length_readBuffer]
    generalize atoi len = n
    unfold restMaxChunkSize
    split_ifs <;> omega
  · rw [if_neg hfound, or_iff_right hfound]
    simp only [length_readBuffer, Int.toNat_natCast]
    omega

theorem routes_bounded_iff (s : Server) (node : Node) (request : Request) :
    (∃ r, get s node request .routes = some r ∧ r.Bounded) ↔ RoutesFit node := by
  constructor
  · rintro ⟨r, hget, _⟩
    obtain ⟨⟨_, s'⟩, hhandler, _⟩ := Option.map_eq_some_iff.mp hget
    obtain ⟨out, hprint, _⟩ := Option.bind_eq_some_iff.mp hhandler
    exact (sprintRoutes_eq_some_iff.mp hprint).1
  · intro hfits
    rw [get, Routes.resGetHandler_eq (sprintRoutes_eq_some_iff.mpr ⟨hfits, rfl⟩)]
    refine ⟨_, rfl, ?_⟩
    dsimp only
    generalize (Text.routes node).2 = length
    by_cases hlong : request.len.1 = 0 ∧ (length.toNat : Int) > restMaxChunkSize
    · rw [if_pos hlong]
      exact (reply_bounded_iff _ _ _).mpr (.inr (Nat.le_refl _))
    · rw [if_neg hlong, reply_bounded_iff]
      by_cases hlen : request.len.1 = 0
      · have hshort : ¬ (length.toNat : Int) > restMaxChunkSize := fun h => hlong ⟨hlen, h⟩
        exact .inr (by omega)
      · exact .inl hlen

theorem neighbors_bounded_iff (node : Node) (request : Request) :
    (∃ r, Neighbors.resGetHandler node request = some r ∧ r.Bounded) ↔
      request.len.1 ≠ 0 ∨ neighborsSize node ≤ restMaxChunkSize := by
  obtain ⟨hfits, hbound⟩ := length_neighbors node
  have hlength : (UInt16.ofNat (Text.neighbors node).length).toNat = (Text.neighbors node).length :=
    UInt16.toNat_ofNat_of_lt' (Nat.lt_of_le_of_lt hbound (by decide))
  have hprint := (Checked.writes_printNeighbors (show 2 * restMaxChunkSize ≤ 65536 by decide) node).eq (by decide)
  rw [if_pos (Nat.lt_of_le_of_lt hbound (by decide))] at hprint
  rw [Neighbors.resGetHandler, hprint, Option.bind_eq_bind, Option.bind_some]
  dsimp only
  rw [hlength, ← hfits, ← reply_bounded_iff]
  constructor
  · rintro ⟨r, hr, hbounded⟩
    exact (Option.some.inj hr) ▸ hbounded
  · intro h
    exact ⟨_, rfl, h⟩

theorem prefixes_bounded_iff (node : Node) (request : Request) :
    (∃ r, Prefixes.resGetHandler node request = some r ∧ r.Bounded) ↔ prefixesSize node < restMaxChunkSize := by
  have hprint := (Checked.writes_printPrefixes (show restMaxChunkSize ≤ 65536 by decide) node).eq (by decide)
  rw [length_prefixes] at hprint
  rw [Prefixes.resGetHandler, hprint]
  by_cases hfits : prefixesSize node < restMaxChunkSize
  · have hlength : (UInt16.ofNat (prefixesSize node)).toNat = prefixesSize node :=
      UInt16.toNat_ofNat_of_lt' (Nat.lt_trans hfits (by decide))
    rw [if_pos hfits, iff_true_right hfits, Option.bind_eq_bind, Option.bind_some]
    dsimp only
    rw [hlength]
    exact ⟨_, rfl, (reply_bounded_iff _ _ _).mpr (.inr (Nat.le_of_lt hfits))⟩
  · rw [if_neg hfits]
    exact iff_of_false (fun ⟨_, h, _⟩ => nomatch h) hfits

theorem ifaces_bounded (node : Node) (request : Request) :
    ∃ r, Ifaces.resGetHandler node request = some r ∧ r.Bounded := by
  have htime := timeSize_le node.uptimeMin
  have hchunk : restMaxChunkSize = 256 := rfl
  have hstats : (" ETH-STATS:".toList ++ decimal 0).length = 12 := rfl
  have hlength := length_ifaces node
  have hreturned : (UInt8.ofNat (Text.ifaces node).length).toNat = (Text.ifaces node).length :=
    UInt8.toNat_ofNat_of_lt' (by
      change (Text.ifaces node).length < 256
      omega)
  have hprint := (@Checked.writes_printIfaces restMaxChunkSize node).eq (by decide)
  rw [if_pos (by omega)] at hprint
  rw [Ifaces.resGetHandler, hprint, Option.bind_eq_bind, Option.bind_some]
  obtain ⟨len, varLen, ethStats⟩ := request
  dsimp only
  rw [hreturned]
  split
  · rw [emitAt_length, emit, if_pos (by omega)]
    refine ⟨_, rfl, (reply_bounded_iff _ _ _).mpr (.inr ?_)⟩
    rw [List.length_append]
    omega
  · exact ⟨_, rfl, (reply_bounded_iff _ _ _).mpr (.inr (by omega))⟩

theorem rspLength_le {es : List Event} {s : Server} (hrun : run Server.step .init es = some s) :
    s.rspLength.toNat ≤ restMaxChunkSize := by
  refine invariant_run (fun s => s.rspLength.toNat ≤ restMaxChunkSize) ?_ es (by decide) hrun
  intro s e s' hs h
  obtain ⟨node, rfl, _, rfl⟩ | ⟨node, request, rfl, _, rfl⟩ | ⟨rfl, rfl⟩ := step_cases h
  · dsimp only
    unfold savedLength
    split
    · decide
    · omega
  · exact hs
  · exact hs

theorem run_isSome_iff (es : List Event) (s : Server) :
    (run Server.step s es).isSome = true ↔ ∀ e ∈ es, e.Inside := by
  induction es generalizing s with
  | nil => exact iff_of_true rfl nofun
  | cons e es ih =>
      rw [List.forall_mem_cons, ← step_isSome_iff s e, run]
      cases hstep : s.step e with
      | none => simp
      | some s' => simpa using ih s'

theorem get_bounded (s : Server) (hs : s.rspLength.toNat ≤ restMaxChunkSize) (node : Node) (request : Request)
    (resource : Resource) :
    (∃ r, get s node request resource = some r ∧ r.Bounded) ↔ Fits node request resource := by
  cases resource with
  | routes => exact routes_bounded_iff s node request
  | periodic =>
      refine iff_of_true ⟨_, rfl, ?_, Int.ofNat_le.mpr hs⟩ trivial
      exact Nat.le_trans (Nat.le_of_eq (length_readBuffer _ _)) hs
  | neighbors => exact neighbors_bounded_iff node request
  | prefixes => exact prefixes_bounded_iff node request
  | ifaces => exact iff_of_true (ifaces_bounded node request) trivial

/-- **The responses.** After any calls, a handler answers within the response buffer, and no printing has left its array, exactly if the tables printed so far fitted into `routing_table` and the request and the tables of now let the handler stay within. -/
theorem get_bounded_iff (es : List Event) (node : Node) (request : Request) (resource : Resource) :
    (∃ s r, run Server.step .init es = some s ∧ get s node request resource = some r ∧ r.Bounded) ↔
      (∀ e ∈ es, e.Inside) ∧ Fits node request resource := by
  rw [← run_isSome_iff es .init]
  cases hrun : run Server.step .init es with
  | none => simp
  | some s =>
      have hiff := get_bounded s (rspLength_le hrun) node request resource
      simp [← hiff]

/-- An address whose text has 39 characters. -/
private def longAddr (last : UInt8) : Ipaddr :=
  #v[0x20, 0x01, 0x1d, 0xb8, 0x12, 0x34, 0x56, 0x78, 0x9a, 0xbc, 0xde, 0xf1, 0x23, 0x45, 0x67, last]

/-- Six neighbors with such addresses. -/
private def sixNeighbors : Node where
  uptimeMin := 0
  routes := []
  defrt := none
  neighbors := [longAddr 1, longAddr 2, longAddr 3, longAddr 4, longAddr 5, longAddr 6]
  uipDs6PrefixList := []
  routes_lt := by decide
  neighbors_le := by decide

/-- Two routes, seven neighbors with short addresses, and prefixes of which one is not in use. -/
private def smallNode : Node where
  uptimeMin := 1500
  routes := [longAddr 1, longAddr 2]
  defrt := some (longAddr 3)
  neighbors := List.replicate 7 (Vector.replicate 16 0)
  uipDs6PrefixList := [⟨true, longAddr 0⟩, ⟨false, longAddr 1⟩, ⟨true, Vector.replicate 16 0⟩]
  routes_lt := by decide
  neighbors_le := by decide

/-- After the tables have been printed twice, a small node's neighbors, prefixes and routes are answered within the buffer, without a `len` and with an empty one. -/
theorem get_bounded_smallNode :
    let printed := [.periodic smallNode, .getRoutes smallNode ⟨(0, []), (0, [])⟩]
    let request : Request := ⟨(0, "&eth-stats=x".toList), (1, "x".toList)⟩
    (∃ s r, run Server.step .init printed = some s ∧ get s smallNode request .neighbors = some r ∧ r.Bounded) ∧
      (∃ s r, run Server.step .init printed = some s ∧ get s smallNode request .prefixes = some r ∧ r.Bounded) ∧
      ∃ s r, run Server.step .init printed = some s ∧ get s smallNode request .routes = some r ∧ r.Bounded :=
  ⟨(get_bounded_iff _ _ _ _).mpr (by decide +kernel), (get_bounded_iff _ _ _ _).mpr (by decide +kernel),
    (get_bounded_iff _ _ _ _).mpr (by decide +kernel)⟩

/-- Without a `len` the handler copies 276 bytes to the response buffer. -/
theorem neighbors_overflow :
    (Neighbors.resGetHandler sixNeighbors ⟨(0, []), (0, [])⟩).map Response.length = some 276 ∧
      ¬ ∃ s r, run Server.step .init [] = some s ∧ get s sixNeighbors ⟨(0, []), (0, [])⟩ .neighbors = some r ∧ r.Bounded := by
  have hlength : (Neighbors.resGetHandler sixNeighbors ⟨(0, []), (0, [])⟩).map Response.length = some 276 := by
    decide +kernel
  refine ⟨hlength, fun ⟨s, r, _, hget, hbounded⟩ => ?_⟩
  change Neighbors.resGetHandler sixNeighbors ⟨(0, []), (0, [])⟩ = some r at hget
  rw [hget] at hlength
  have hle := hbounded.2
  rw [Option.some.inj hlength] at hle
  exact absurd hle (by decide)

end ContikiAtsam.NetMonitor
