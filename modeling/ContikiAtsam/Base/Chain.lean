import Mathlib.Data.List.Nodup
import Mathlib.Data.List.Perm.Subperm
import Mathlib.Logic.Function.Basic
import Mathlib.Tactic.Common

/-!
# Linked cells

Cells that each name the next one, as an intrusive list keeps them: `next` is the link inside a cell and `first` the cell that the list starts with. A loop over the cells follows the links, with a bound on its turns.
-/

namespace ContikiAtsam.Chain

variable {α : Type*} {next next' : α → Option α} {first : Option α} {cells : List α} {p : α}

/-- From `first` on the links go through these cells and end. -/
def Links (next : α → Option α) : Option α → List α → Prop
  | first, [] => first = none
  | first, p :: ps => first = some p ∧ Links next (next p) ps

/-- The cells that the links go through, at most `fuel` of them. -/
def walk (next : α → Option α) : Nat → Option α → List α
  | 0, _ => []
  | _ + 1, none => []
  | fuel + 1, some p => p :: walk next fuel (next p)

/-- The loop that stops at the first cell with the property. -/
def search (test : α → Bool) (next : α → Option α) : Nat → Option α → Option α
  | 0, _ => none
  | _ + 1, none => none
  | fuel + 1, some p => if test p then some p else search test next fuel (next p)

theorem Links.first_eq (h : Links next first cells) : first = cells.head? := by
  cases cells with
  | nil => exact h
  | cons p ps => exact h.1

theorem Links.tail {ps : List α} (h : Links next first (p :: ps)) : Links next (next p) ps := h.2

theorem Links.congr (h : Links next first cells) (hsame : ∀ q ∈ cells, next' q = next q) :
    Links next' first cells := by
  induction cells generalizing first with
  | nil => exact h
  | cons p ps ih =>
      refine ⟨h.1, ?_⟩
      rw [hsame p (List.mem_cons_self ..)]
      exact ih h.2 fun q hq => hsame q (List.mem_cons_of_mem p hq)

theorem Links.walk_eq (h : Links next first cells) {fuel : Nat} (hfuel : cells.length ≤ fuel) :
    walk next fuel first = cells := by
  induction cells generalizing first fuel with
  | nil =>
      obtain rfl : first = none := h
      cases fuel <;> rfl
  | cons p ps ih =>
      obtain ⟨rfl, hrest⟩ := h
      cases fuel with
      | zero => cases hfuel
      | succ fuel => rw [walk, ih hrest (by simpa using hfuel)]

theorem Links.search_eq (h : Links next first cells) {fuel : Nat} (hfuel : cells.length ≤ fuel) (test : α → Bool) :
    search test next fuel first = cells.find? test := by
  induction cells generalizing first fuel with
  | nil =>
      obtain rfl : first = none := h
      cases fuel <;> rfl
  | cons p ps ih =>
      obtain ⟨rfl, hrest⟩ := h
      cases fuel with
      | zero => cases hfuel
      | succ fuel =>
          rw [search, List.find?_cons, ih hrest (by simpa using hfuel)]
          cases test p <;> rfl

theorem Links.snoc [DecidableEq α] {ps : List α} (h : Links next first (ps ++ [p])) (hnodup : (ps ++ [p]).Nodup)
    {q : α} (hq : next q = none) (hfresh : q ∉ ps ++ [p]) :
    Links (Function.update next p (some q)) first (ps ++ [p] ++ [q]) := by
  induction ps generalizing first with
  | nil =>
      obtain ⟨hfirst, _⟩ := h
      have hne : q ≠ p := by simpa using hfresh
      exact ⟨hfirst, by simp, by simpa [Links, hne] using hq⟩
  | cons p' ps ih =>
      rw [List.cons_append, List.nodup_cons] at hnodup
      have hne : p' ≠ p := by
        rintro rfl
        exact hnodup.1 (by simp)
      refine ⟨h.1, ?_⟩
      rw [Function.update_of_ne hne]
      exact ih h.2 hnodup.2 fun hmem => hfresh (List.mem_cons_of_mem p' hmem)

theorem Links.bypass [DecidableEq α] {ps : List α} (h : Links next first ps) (hnodup : ps.Nodup) (hmem : p ∈ ps)
    (hfirst : first ≠ some p) :
    ∃ r, ps.find? (fun q => decide (next q = some p)) = some r ∧
      Links (Function.update (Function.update next r (next p)) p none) first (ps.erase p) := by
  induction ps generalizing first with
  | nil => cases hmem
  | cons a rest ih =>
      obtain ⟨rfl, hrest⟩ := h
      obtain ⟨hfresh, hnodup⟩ := List.nodup_cons.mp hnodup
      have hne : a ≠ p := fun heq => hfirst (congrArg some heq)
      have hmem := (List.mem_cons.mp hmem).resolve_left (Ne.symm hne)
      rw [List.erase_cons_tail (by simpa using hne)]
      by_cases hnext : next a = some p
      · refine ⟨a, List.find?_cons_of_pos (decide_eq_true hnext), rfl, ?_⟩
        rw [Function.update_of_ne hne, Function.update_self]
        cases rest with
        | nil => cases hmem
        | cons b rest =>
            obtain ⟨hb, htail⟩ := hrest
            obtain rfl : b = p := Option.some.inj (hb.symm.trans hnext)
            rw [List.erase_cons_head]
            apply htail.congr
            intro q hq
            have hqp : q ≠ b := by
              rintro rfl
              exact (List.nodup_cons.mp hnodup).1 hq
            have hqa : q ≠ a := by
              rintro rfl
              exact hfresh (List.mem_cons_of_mem b hq)
            rw [Function.update_of_ne hqp, Function.update_of_ne hqa]
      · obtain ⟨r, hfind, hlinks⟩ := ih hrest hnodup hmem hnext
        refine ⟨r, by rw [List.find?_cons_of_neg (by simpa using hnext), hfind], rfl, ?_⟩
        have har : a ≠ r := by
          rintro rfl
          exact hfresh (List.mem_of_find?_eq_some hfind)
        rw [Function.update_of_ne hne, Function.update_of_ne har]
        exact hlinks

theorem length_le_of_nodup {ps : List Nat} {n : Nat} (hnodup : ps.Nodup) (hbound : ∀ q ∈ ps, q < n) :
    ps.length ≤ n := by
  have hsub : ps.Subperm (List.range n) := by
    apply List.subperm_of_subset hnodup
    intro q hq
    exact List.mem_range.mpr (hbound q hq)
  simpa using hsub.length_le

end ContikiAtsam.Chain
