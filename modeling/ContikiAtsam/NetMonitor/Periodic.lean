import ContikiAtsam.NetMonitor.Resources

/-!
# The observable routes

The periodic resource answers with the first `rsp_length` bytes of `routing_table`. The periodic event sets both, but a GET of the other route resource prints into the same table and leaves `rsp_length` as it was. What the periodic resource then returns is the new text cut or padded to the old length, and so it is one text again only if both texts, as far as they fit, have one size. And a text that leaves the table writes over what lies behind it, which is the saved length.
-/

namespace ContikiAtsam.NetMonitor

/-- A text, as far as it fits into the response. -/
def textResponse (text : List Char) : Response :=
  ⟨text.take restMaxChunkSize, (text.take restMaxChunkSize).length⟩

/-- After the first periodic event: the table was printed by a run of `sprint_routes`, and the periodic resource returns the text of that run. -/
def Server.Consistent (s : Server) : Prop :=
  s.printed = true → ∃ node length, Checked.sprintRoutes routingTableSize node = some (s.routingTable, length) ∧
    Routes.resGetPeriodicHandler s = textResponse s.routingTable

/-- A GET of the route resource after the first periodic event prints a text of the size that was saved. -/
def SameSize (s : Server) : Event → Prop
  | .getRoutes node _ => s.printed = true → s.rspLength.toNat = min (routesSize node) restMaxChunkSize
  | _ => True

theorem routes_size (node : Node) :
    min (Text.routes node).1.length restMaxChunkSize = min (routesSize node) restMaxChunkSize ∧
      min (Text.routes node).2.toNat restMaxChunkSize = min (routesSize node) restMaxChunkSize := by
  have hdefrt := defrtSize_le node
  have hchunk : restMaxChunkSize = 256 := rfl
  have hreturned : ∀ n : Nat, n < 65536 → (UInt16.ofNat n).toNat = n := fun n h => UInt16.toNat_ofNat_of_lt' h
  by_cases hunlisted : node.routes.length = 0 ∨ node.routes.length > resourceRouteMaxRoutes
  · obtain ⟨hlength, hreturn, hle⟩ := routes_unlisted node hunlisted
    rw [hlength, hreturn, hreturned _ (by omega)]
    exact ⟨rfl, rfl⟩
  · obtain ⟨hsome, hfew⟩ := not_or.mp hunlisted
    have hsize : routesSize node = timeSize node.uptimeMin + (node.routes.map fun r => addrSize r + 4).sum + 3 +
        (node.defrt.map addrSize).getD 0 := by
      rw [routesSize, if_neg hsome, if_neg hfew]
    rw [hsize]
    rcases routes_listed node hsome hfew with ⟨hprint, hlong, hle⟩ | ⟨hprint, hlength, hle⟩
    · rw [hprint]
      dsimp only
      rw [hreturned _ (by decide)]
      omega
    · rw [hprint]
      dsimp only
      rw [length_dftLine, hlength, hreturned _ (by omega)]
      exact ⟨rfl, rfl⟩

/-! ### Runs -/

/-- The answer is a text exactly if the saved length is its size. -/
theorem resGetPeriodicHandler_eq_iff (s : Server) :
    Routes.resGetPeriodicHandler s = textResponse s.routingTable ↔
      s.rspLength.toNat = min s.routingTable.length restMaxChunkSize := by
  unfold Routes.resGetPeriodicHandler textResponse
  rw [Response.mk.injEq, List.length_take]
  constructor
  · rintro ⟨_, hlength⟩
    omega
  · intro hlength
    rw [hlength, readBuffer]
    refine ⟨?_, ?_⟩
    · rw [Nat.sub_eq_zero_of_le (Nat.min_le_left _ _), List.replicate_zero, List.append_nil, Nat.min_comm,
        List.take_eq_take_iff]
      omega
    · omega

theorem Server.consistent_iff {s : Server} (hprinted : s.printed = true) {node : Node} (hfits : RoutesFit node)
    (htable : s.routingTable = (Text.routes node).1) :
    s.Consistent ↔ s.rspLength.toNat = min (routesSize node) restMaxChunkSize := by
  rw [← (routes_size node).1, ← htable, ← resGetPeriodicHandler_eq_iff]
  constructor
  · intro h
    obtain ⟨_, _, _, hresponse⟩ := h hprinted
    exact hresponse
  · intro h _
    refine ⟨node, (Text.routes node).2, sprintRoutes_eq_some_iff.mpr ⟨hfits, ?_⟩, h⟩
    rw [htable]

theorem toNat_savedLength (rspLength : UInt16) : (savedLength rspLength).toNat = min rspLength.toNat restMaxChunkSize := by
  unfold savedLength
  split
  · rename_i hlong
    rw [Nat.min_eq_right (Nat.le_of_lt hlong)]
    rfl
  · rename_i hshort
    rw [Nat.min_eq_left (by omega)]

/-- An event goes through and leaves the table and the length of one run exactly if it prints inside the table, and a GET of the other resource the size that was saved. -/
theorem consistent_step_iff {s : Server} (hs : s.Consistent) (e : Event) :
    (∃ s', s.step e = some s' ∧ s'.Consistent) ↔ e.Inside ∧ SameSize s e := by
  have hkeeps : ∀ s', s.step e = some s' → (s'.Consistent ↔ SameSize s e) := by
    intro s' hs'
    obtain ⟨node, rfl, hfits, rfl⟩ | ⟨node, request, rfl, hfits, rfl⟩ | ⟨rfl, rfl⟩ := step_cases hs'
    · refine iff_of_true ((Server.consistent_iff rfl hfits rfl).mpr ?_) trivial
      rw [toNat_savedLength]
      exact (routes_size node).2
    · by_cases hprinted : s.printed = true
      · have hnext : ({ s with routingTable := (Text.routes node).1 } : Server).printed = true := hprinted
        rw [Server.consistent_iff hnext hfits rfl]
        exact ⟨fun h _ => h, fun h => h hprinted⟩
      · exact iff_of_true (fun h => absurd h hprinted) (fun h => absurd h hprinted)
    · exact iff_of_true hs trivial
  rw [← step_isSome_iff s e, Option.isSome_iff_exists]
  constructor
  · rintro ⟨s', hs', hconsistent⟩
    exact ⟨⟨s', hs'⟩, (hkeeps s' hs').mp hconsistent⟩
  · rintro ⟨⟨s', hs'⟩, hsize⟩
    exact ⟨s', hs', (hkeeps s' hs').mpr hsize⟩

/-- **The observable routes.** A run prints inside `routing_table` throughout, and in every state of it after the first periodic event the periodic resource returns the text of one run of `sprint_routes`, the one that printed the table, exactly if every text fits into the table and every GET of the other resource printed a text of the saved size. -/
theorem consistent_run_iff (es : List Event) :
    ((∃ s, run Server.step .init es = some s) ∧ Always Server.step Server.Consistent .init es) ↔
      Along Server.step (fun s e => e.Inside ∧ SameSize s e) .init es :=
  completes_iff_along (fun _ e hs => consistent_step_iff hs e) es fun h => absurd h (by decide)

instance (s : Server) : (e : Event) → Decidable (SameSize s e)
  | .periodic _ => isTrue trivial
  | .getRoutes node _ => inferInstanceAs (Decidable (s.printed = true → s.rspLength.toNat = min (routesSize node) _))
  | .getPeriodic => isTrue trivial

private def twoRoutes (uptimeMin : UInt32) (last : UInt8) : Node where
  uptimeMin := uptimeMin
  routes := [Vector.replicate 16 last, Vector.replicate 16 0]
  defrt := some (Vector.replicate 16 last)
  neighbors := []
  uipDs6PrefixList := []
  routes_lt := (by decide : 2 < 2147483648)
  neighbors_le := Nat.zero_le _

private def idle (uptimeMin : UInt32) : Node where
  uptimeMin := uptimeMin
  routes := []
  defrt := none
  neighbors := []
  uipDs6PrefixList := []
  routes_lt := Nat.succ_pos _
  neighbors_le := Nat.zero_le _

/-- Between two periodic events, with routes that have changed in between, the other resource is read, and its text has the saved size. -/
theorem consistent_run_twoRoutes :
    let es := [.periodic (twoRoutes 10 17), .getPeriodic, .getRoutes (twoRoutes 12 18) ⟨(0, []), (0, [])⟩, .getPeriodic,
      .periodic (idle 13), .getPeriodic]
    (∃ s, run Server.step .init es = some s) ∧ Always Server.step Server.Consistent .init es :=
  (consistent_run_iff _).mpr (by decide +kernel)

/-- Ten minutes later the other resource is read: the last character of the new text is missing from what the periodic one returns. -/
theorem periodic_cut : ∃ s, run Server.step .init [.periodic (idle 0), .getRoutes (idle 10) ⟨(0, []), (0, [])⟩] = some s ∧
    (Routes.resGetPeriodicHandler s).copied = "Uptime: 0 days 0 hours 10 minutes\nNo-routes\nDR".toList ∧ ¬ s.Consistent := by
  have hfits : ∀ uptimeMin, RoutesFit (idle uptimeMin) := fun _ => .inl rfl
  refine ⟨⟨(Text.routes (idle 10)).1, savedLength (Text.routes (idle 0)).2, true⟩, ?_, by decide +kernel, fun h => ?_⟩
  · rw [run, Server.step, Routes.resPeriodicHandler, sprintRoutes_eq_some_iff.mpr ⟨hfits 0, rfl⟩]
    rw [Option.bind_eq_bind, Option.bind_some, Option.bind_some, run, Server.step,
      Routes.resGetHandler_eq (sprintRoutes_eq_some_iff.mpr ⟨hfits 10, rfl⟩)]
    rfl
  · have hsize := (Server.consistent_iff rfl (hfits 10) rfl).mp h
    exact absurd hsize (by decide +kernel)

end ContikiAtsam.NetMonitor
