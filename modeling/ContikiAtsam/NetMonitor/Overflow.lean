import ContikiAtsam.NetMonitor.Tables

/-!
# The table of routes and its buffer

`routing_table` has room for a chunk and one entry more. `sprint_routes` tests the length of its text after every route, so the text grows by one entry beyond a chunk at most; but the room is for an entry of 32 characters with the terminating NUL, and the line of a route takes up to 43, that of the default route up to 42.
-/

namespace ContikiAtsam.NetMonitor

def resourceRouteMaxRouteEntryLen : Nat := 32

/-- The size of `routing_table`. -/
def routingTableSize : Nat := restMaxChunkSize + resourceRouteMaxRouteEntryLen

/-- The size of the text about the routes. -/
def routesSize (node : Node) : Nat :=
  timeSize node.uptimeMin +
    (if node.routes.length = 0 then 10
     else if node.routes.length > resourceRouteMaxRoutes then digits 10 node.routes.length + 14
     else (node.routes.map fun r => addrSize r + 4).sum) +
    3 + (node.defrt.map addrSize).getD 0

/-! ### The size of the text -/

theorem length_routeLine (msg : List Char) {index : Nat} (hindex : index < 9) (r : Ipaddr) :
    (Text.routeLine msg index r).length = msg.length + (addrSize r + 4) := by
  have hdigit : digits 10 (index + 1) = 1 := by
    have : digits 10 (index + 1) ≤ 1 := digits_le (by decide) (by omega)
    unfold digits at *
    omega
  simp only [Text.routeLine, List.length_append, Text.length_addr6, length_decimal, hdigit, List.length_singleton]
  omega

/-- The loop over at most nine routes: it is left early only when the text is too long. -/
theorem routeLines_spec (msg : List Char) (index : Nat) (routes : List Ipaddr) (hindex : index + routes.length < 10) :
    let size := msg.length + (routes.map fun r => addrSize r + 4).sum
    let r := Text.routeLines msg index routes
    (r.2 = false → r.1.length = size ∧ (msg.length ≤ restMaxChunkSize → size ≤ restMaxChunkSize)) ∧
      (r.2 = true → restMaxChunkSize < r.1.length ∧ r.1.length ≤ size) := by
  induction routes generalizing msg index with
  | nil => simp [Text.routeLines]
  | cons r routes ih =>
      rw [List.length_cons] at hindex
      have hlength := length_routeLine msg (show index < 9 by omega) r
      intro size
      have hsize : size = (Text.routeLine msg index r).length + (routes.map fun r => addrSize r + 4).sum := by
        simp only [size, hlength, List.map_cons, List.sum_cons]
        omega
      rw [Text.routeLines, hsize]
      split
      · rename_i hfull
        exact ⟨fun h => absurd h (by simp), fun _ => ⟨hfull, Nat.le_add_right _ _⟩⟩
      · rename_i hmore
        obtain ⟨hdone, hearly⟩ := ih (Text.routeLine msg index r) (index + 1) (by omega)
        refine ⟨fun h => ⟨(hdone h).1, fun _ => (hdone h).2 (by omega)⟩, hearly⟩

theorem length_dftLine (msg : List Char) (node : Node) :
    (Text.dftLine msg node).length = msg.length + 3 + (node.defrt.map addrSize).getD 0 := by
  unfold Text.dftLine
  cases node.defrt with
  | none => simp
  | some r => simp

theorem defrtSize_le (node : Node) : (node.defrt.map addrSize).getD 0 ≤ 39 := by
  cases node.defrt with
  | none => exact Nat.zero_le _
  | some r => exact addrSize_le r

theorem routes_unlisted (node : Node)
    (h : node.routes.length = 0 ∨ node.routes.length > resourceRouteMaxRoutes) :
    (Text.routes node).1.length = routesSize node ∧
      (Text.routes node).2 = UInt16.ofNat (routesSize node) ∧ routesSize node ≤ 107 := by
  have htime := timeSize_le node.uptimeMin
  have hdefrt := defrtSize_le node
  have hmsg : (sprintTime [] node.uptimeMin).length = timeSize node.uptimeMin := by simp
  unfold Text.routes routesSize
  by_cases hnone : node.routes.length = 0
  · have hno : "No-routes\n".toList.length = 10 := rfl
    simp only [if_pos hnone, length_dftLine, List.length_append, hmsg, hno]
    exact ⟨trivial, trivial, by omega⟩
  · have hmany := h.resolve_left hnone
    have htotal : "Total routes:".toList.length = 13 := rfl
    have hdigits : digits 10 node.routes.length ≤ 10 := digits_le (by decide) (by have := node.routes_lt; omega)
    have hlength : (sprintTime [] node.uptimeMin ++ ("Total routes:".toList ++ decimal node.routes.length ++
        ['\n'])).length = timeSize node.uptimeMin + (digits 10 node.routes.length + 14) := by
      simp only [List.length_append, hmsg, htotal, length_decimal, List.length_singleton]
      omega
    simp only [if_neg hnone, if_pos hmany, length_dftLine, hlength]
    exact ⟨trivial, trivial, by omega⟩

/-- Where they are listed, the loop is left as soon as the text is too long, or the line of the default route ends it. -/
theorem routes_listed (node : Node) (hsome : node.routes.length ≠ 0)
    (hfew : ¬ node.routes.length > resourceRouteMaxRoutes) :
    let lines := Text.routeLines (sprintTime [] node.uptimeMin) 0 node.routes
    let size := timeSize node.uptimeMin + (node.routes.map fun r => addrSize r + 4).sum
    (Text.routes node = (lines.1, UInt16.ofNat restMaxChunkSize) ∧
      restMaxChunkSize < lines.1.length ∧ lines.1.length ≤ size) ∨
    (Text.routes node = (Text.dftLine lines.1 node, UInt16.ofNat (Text.dftLine lines.1 node).length) ∧
      lines.1.length = size ∧ size ≤ restMaxChunkSize) := by
  have htime := timeSize_le node.uptimeMin
  have hchunk : restMaxChunkSize = 256 := rfl
  have hmsg : (sprintTime [] node.uptimeMin).length = timeSize node.uptimeMin := by simp
  obtain ⟨hdone, hearly⟩ := routeLines_spec (sprintTime [] node.uptimeMin) 0 node.routes (by
    unfold resourceRouteMaxRoutes at hfew
    omega)
  rw [hmsg] at hdone hearly
  intro lines size
  have hprint : Text.routes node =
      if lines.2 then (lines.1, UInt16.ofNat restMaxChunkSize)
      else (Text.dftLine lines.1 node, UInt16.ofNat (Text.dftLine lines.1 node).length) := by
    simp only [Text.routes, if_neg hsome, if_neg hfew, lines]
  rw [hprint]
  cases hfull : lines.2 with
  | true => exact .inl ⟨rfl, hearly hfull⟩
  | false => exact .inr ⟨rfl, (hdone hfull).1, (hdone hfull).2 (by omega)⟩

/-! ### Sizes of the lines -/

def defrtSize (node : Node) : Nat := (node.defrt.map addrSize).getD 0

/-- The size of the text after so many of the routes. -/
def linesSize (node : Node) (k : Nat) : Nat :=
  timeSize node.uptimeMin + ((node.routes.take k).map fun r => addrSize r + 4).sum

/-- Routes are not listed one by one, or no line that starts within a chunk ends beyond the buffer: neither the line of a route nor the one of the default route. -/
def RoutesFit (node : Node) : Prop :=
  node.routes.length = 0 ∨ resourceRouteMaxRoutes < node.routes.length ∨
    ((∀ k < node.routes.length, linesSize node k ≤ restMaxChunkSize → linesSize node (k + 1) < routingTableSize) ∧
      (linesSize node node.routes.length ≤ restMaxChunkSize →
        linesSize node node.routes.length + 3 + defrtSize node < routingTableSize))

instance (node : Node) : Decidable (RoutesFit node) := inferInstanceAs (Decidable (_ ∨ _ ∨ _))

theorem routeLines_lt_iff (msg : List Char) (index : Nat) (routes : List Ipaddr)
    (hindex : index + routes.length < 10) (hmsg : msg.length ≤ restMaxChunkSize) :
    (Text.routeLines msg index routes).1.length < routingTableSize ↔
      ∀ k < routes.length, msg.length + ((routes.take k).map fun r => addrSize r + 4).sum ≤ restMaxChunkSize →
        msg.length + ((routes.take (k + 1)).map fun r => addrSize r + 4).sum < routingTableSize := by
  induction routes generalizing msg index with
  | nil => exact iff_of_true (Nat.lt_of_le_of_lt hmsg (by decide)) nofun
  | cons r routes ih =>
      rw [List.length_cons] at hindex
      have hlength := length_routeLine msg (show index < 9 by omega) r
      have hsize : ∀ k, msg.length + (((r :: routes).take (k + 1)).map fun r => addrSize r + 4).sum =
          (Text.routeLine msg index r).length + ((routes.take k).map fun r => addrSize r + 4).sum := by
        intro k
        rw [List.take_succ_cons, List.map_cons, List.sum_cons, hlength]
        omega
      rw [Text.routeLines]
      split
      · -- The loop is left with this route: the lines of the others start beyond a chunk.
        rename_i hfull
        constructor
        · intro hlt k _ hstart
          cases k with
          | zero =>
              rw [hsize]
              simpa using hlt
          | succ k =>
              rw [hsize] at hstart
              omega
        · intro h
          have hfirst := h 0 (Nat.succ_pos _) (by simpa using hmsg)
          rw [hsize] at hfirst
          simpa using hfirst
      · rename_i hmore
        have hchunk : restMaxChunkSize < routingTableSize := by decide
        rw [ih (Text.routeLine msg index r) (index + 1) (by omega) (by omega)]
        constructor
        · intro h k hk hstart
          cases k with
          | zero =>
              rw [hsize]
              simp only [List.take_zero, List.map_nil, List.sum_nil]
              omega
          | succ k =>
              rw [hsize] at hstart ⊢
              rw [List.length_cons] at hk
              exact h k (by omega) hstart
        · intro h k hk hstart
          have hnext := h (k + 1) (by rw [List.length_cons]; omega) (by rwa [hsize])
          rwa [hsize] at hnext

theorem routes_lt_iff (node : Node) :
    (Text.routes node).1.length < routingTableSize ↔ RoutesFit node := by
  have htime := timeSize_le node.uptimeMin
  have htable : routingTableSize = 288 := rfl
  have hchunk : restMaxChunkSize = 256 := rfl
  have hmsg : (sprintTime [] node.uptimeMin).length = timeSize node.uptimeMin := by simp
  by_cases hunlisted : node.routes.length = 0 ∨ node.routes.length > resourceRouteMaxRoutes
  · obtain ⟨hlength, _, hle⟩ := routes_unlisted node hunlisted
    exact iff_of_true (by omega) (hunlisted.imp_right .inl)
  · obtain ⟨hsome, hfew⟩ := not_or.mp hunlisted
    have hlines := routeLines_lt_iff (sprintTime [] node.uptimeMin) 0 node.routes (by
      unfold resourceRouteMaxRoutes at hfew
      omega) (by omega)
    have hall : linesSize node node.routes.length =
        timeSize node.uptimeMin + (node.routes.map fun r => addrSize r + 4).sum := by
      rw [linesSize, List.take_length]
    have hlisted : RoutesFit node ↔
        (∀ k < node.routes.length, linesSize node k ≤ restMaxChunkSize → linesSize node (k + 1) < routingTableSize) ∧
          (linesSize node node.routes.length ≤ restMaxChunkSize →
            linesSize node node.routes.length + 3 + defrtSize node < routingTableSize) := by
      rw [RoutesFit, or_iff_right hsome, or_iff_right hfew]
    rw [hmsg] at hlines
    rw [hlisted]
    rcases routes_listed node hsome hfew with ⟨hprint, hlong, hle⟩ | ⟨hprint, hlength, hle⟩
    · rw [hprint]
      dsimp only
      rw [hlines]
      exact ⟨fun h => ⟨h, fun hshort => by omega⟩, fun h => h.1⟩
    · have hinside := hlines.mp (by omega)
      rw [hprint]
      dsimp only
      rw [length_dftLine, hlength, ← hall]
      exact ⟨fun h => ⟨hinside, fun _ => h⟩, fun h => h.2 (by omega)⟩

/-- **The buffer of the routes.** Every string that `sprint_routes` builds fits in `routing_table` with its terminating NUL exactly if no line starts within a chunk and ends beyond the buffer. -/
theorem routes_inside_iff (node : Node) :
    (Checked.sprintRoutes routingTableSize node).isSome = true ↔ RoutesFit node := by
  rw [(Checked.writes_sprintRoutes (by decide) node).isSome_iff (by decide)]
  exact routes_lt_iff node

theorem linesSize_succ {node : Node} {k : Nat} (hk : k < node.routes.length) :
    ∃ r ∈ node.routes, linesSize node (k + 1) = linesSize node k + (addrSize r + 4) := by
  refine ⟨node.routes.get ⟨k, hk⟩, List.get_mem _ _, ?_⟩
  rw [linesSize, List.take_succ_eq_append_getElem hk, List.map_append, List.sum_append, linesSize]
  simp only [List.map_cons, List.map_nil, List.sum_cons, List.sum_nil, List.get_eq_getElem]
  omega

/-- With addresses as short as the room for an entry supposes, the text of any number of routes fits. -/
theorem routesFit_of_short {node : Node} (hroutes : ∀ r ∈ node.routes, addrSize r ≤ 27)
    (hdefrt : defrtSize node ≤ 28) : RoutesFit node := by
  have htable : routingTableSize = 288 := rfl
  have hchunk : restMaxChunkSize = 256 := rfl
  refine .inr (.inr ⟨fun k hk hstart => ?_, fun hstart => by omega⟩)
  obtain ⟨r, hr, hnext⟩ := linesSize_succ hk
  have hshort := hroutes r hr
  omega

/-- Six routes whose addresses take 39 characters. -/
def longRoutes : Node where
  uptimeMin := 0
  routes := List.replicate 6 (Vector.replicate 16 255)
  defrt := none
  neighbors := []
  uipDs6PrefixList := []
  routes_lt := by decide
  neighbors_le := by decide

/-- With six routes of the longest addresses the last line ends beyond the buffer. -/
theorem routes_overflow : ¬ ∀ node : Node, (Checked.sprintRoutes routingTableSize node).isSome = true := by
  intro h
  exact absurd (h longRoutes) (by decide +kernel)

end ContikiAtsam.NetMonitor
