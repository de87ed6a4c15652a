import Mathlib.Data.List.Nodup
import Mathlib.Logic.Function.Basic

/-!
# Values kept at given places

Some of the places of a table are a record whose fields are in no order: the list of the places says where each field is. Writing a list of values to the places and reading them back is a round trip if no place occurs twice, and what is elsewhere stays.
-/

namespace ContikiAtsam

variable {α β : Type*}

def gather (f : α → β) (places : List α) : List β :=
  places.map f

@[simp] theorem length_gather (f : α → β) (places : List α) : (gather f places).length = places.length :=
  List.length_map _

variable [DecidableEq α]

/-- Each value is written to its place, one after the other. -/
def scatter (f : α → β) : List α → List β → α → β
  | place :: places, value :: values => scatter (Function.update f place value) places values
  | _, _ => f

theorem scatter_of_notMem {places : List α} {i : α} (hi : i ∉ places) (f : α → β) (values : List β) :
    scatter f places values i = f i := by
  induction places generalizing f values with
  | nil => rfl
  | cons place places ih =>
      cases values with
      | nil => rfl
      | cons value values =>
          rw [List.mem_cons, not_or] at hi
          rw [scatter, ih hi.2, Function.update_of_ne hi.1]

theorem gather_scatter_of_disjoint {places others : List α} (h : ∀ i ∈ others, i ∉ places) (f : α → β) (values : List β) :
    gather (scatter f places values) others = gather f others :=
  List.map_congr_left fun i hi => scatter_of_notMem (h i hi) f values

theorem gather_scatter {places : List α} (hnodup : places.Nodup) (f : α → β) {values : List β}
    (hlength : values.length = places.length) : gather (scatter f places values) places = values := by
  induction places generalizing f values with
  | nil => exact (List.length_eq_zero_iff.mp hlength).symm
  | cons place places ih =>
      cases values with
      | nil => cases hlength
      | cons value values =>
          obtain ⟨hnew, hrest⟩ := List.nodup_cons.mp hnodup
          have htail := ih hrest (Function.update f place value) (Nat.succ.inj hlength)
          rw [gather, List.map_cons, scatter, scatter_of_notMem hnew, Function.update_self]
          exact congrArg _ htail

theorem gather_scatter_slice {before among after : List α} (hnodup : (before ++ (among ++ after)).Nodup) (f : α → β)
    {values : List β} (hlength : values.length = among.length) :
    gather (scatter f among values) (before ++ (among ++ after)) = gather f before ++ (values ++ gather f after) := by
  obtain ⟨_, hrest, hapart⟩ := List.nodup_append.mp hnodup
  obtain ⟨hamong, _, hapart'⟩ := List.nodup_append.mp hrest
  have hbefore : ∀ i ∈ before, i ∉ among := fun i hi hmem => hapart i hi i (List.mem_append_left _ hmem) rfl
  have hafter : ∀ i ∈ after, i ∉ among := fun i hi hmem => hapart' i hmem i hi rfl
  calc gather (scatter f among values) (before ++ (among ++ after))
      = gather (scatter f among values) before ++
          (gather (scatter f among values) among ++ gather (scatter f among values) after) := by
        rw [gather, List.map_append, List.map_append]
        rfl
    _ = gather f before ++ (values ++ gather f after) := by
        rw [gather_scatter_of_disjoint hbefore, gather_scatter hamong f hlength, gather_scatter_of_disjoint hafter]

end ContikiAtsam
