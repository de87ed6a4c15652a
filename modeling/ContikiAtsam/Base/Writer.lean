import Mathlib.Tactic.Common

/-!
# Writing strings into bounded buffers

A program that builds a string in a buffer piece by piece, each with a terminator behind it. Written with a check on every piece it faults at the first one that does not fit. Since a string only grows, all of its pieces fit exactly if the last string does: `Writes` says so of a piece, and goes through sequences.

A program that keeps the position to write at in a register of its own appends only as long as the register holds the position. `emitMod` writes to the position modulo the register's size, and a sequence of such pieces is appended exactly if every piece starts below that size.
-/

namespace ContikiAtsam

universe u v

variable {α : Type u} {β γ : Type v} {cap : Nat} {buf mid out text : List α} {a : β} {b : γ}

/-- Appends the text to the string in the buffer, if it fits with its terminator. -/
def emit (cap : Nat) (buf text : List α) : Option (List α) :=
  if buf.length + text.length < cap then some (buf ++ text) else none

/-- Writes the text to a position in the string, if it fits with its terminator; what the string has from there on is gone. -/
def emitAt (cap : Nat) (buf : List α) (offset : Nat) (text : List α) : Option (List α) :=
  if offset + text.length < cap then some (buf.take offset ++ text) else none

theorem emitAt_length (cap : Nat) (buf text : List α) : emitAt cap buf buf.length text = emit cap buf text := by
  rw [emitAt, emit, List.take_length]

/-- From a buffer that holds the first string the checked program gets to the second one and returns the value, if that string fits, and faults if it does not. -/
structure Writes (cap : Nat) (buf out : List α) (a : β) (program : Option β) : Prop where
  grows : buf.length ≤ out.length
  eq : buf.length < cap → program = if out.length < cap then some a else none

theorem writes_emit : Writes cap buf (buf ++ text) (buf ++ text) (emit cap buf text) where
  grows := by
    rw [List.length_append]
    exact Nat.le_add_right _ _
  eq _ := by rw [emit, List.length_append]

theorem writes_some : Writes cap buf buf a (some a) where
  grows := Nat.le_refl _
  eq h := (if_pos h).symm

theorem Writes.bind {program : Option β} {next : β → Option γ} (h : Writes cap buf mid a program)
    (hnext : Writes cap mid out b (next a)) : Writes cap buf out b (program >>= next) where
  grows := Nat.le_trans h.grows hnext.grows
  eq hbuf := by
    rw [h.eq hbuf]
    by_cases hmid : mid.length < cap
    · rw [if_pos hmid]
      exact hnext.eq hmid
    · have hout : ¬ out.length < cap := fun hlt => hmid (Nat.lt_of_le_of_lt hnext.grows hlt)
      rw [if_neg hmid, if_neg hout]
      rfl

/-- The program does not fault exactly if its last string fits. -/
theorem Writes.isSome_iff {program : Option β} (h : Writes cap buf out a program) (hbuf : buf.length < cap) :
    program.isSome = true ↔ out.length < cap := by
  rw [h.eq hbuf]
  split
  · rename_i hlt
    exact iff_of_true rfl hlt
  · rename_i hlt
    exact iff_of_false Bool.false_ne_true hlt

/-! ### A position in a register -/

section Register

variable {w : Nat} {pieces : List (List α)}

/-- Appends the text where the register says that the string ends, for a register that counts modulo `w`. -/
def emitMod (w : Nat) (buf text : List α) : List α := buf.take (buf.length % w) ++ text

theorem emitMod_of_lt (h : buf.length < w) : emitMod w buf text = buf ++ text := by
  rw [emitMod, Nat.mod_eq_of_lt h, List.take_length]

theorem length_emitMod_le (w : Nat) (buf text : List α) :
    (emitMod w buf text).length ≤ buf.length % w + text.length := by
  rw [emitMod, List.length_append, List.length_take]
  exact Nat.add_le_add_right (Nat.min_le_left _ _) _

theorem foldl_emitMod (h : buf.length + pieces.dropLast.flatten.length < w) :
    pieces.foldl (emitMod w) buf = buf ++ pieces.flatten := by
  induction pieces generalizing buf with
  | nil => exact (List.append_nil buf).symm
  | cons text pieces ih =>
      have hbuf : buf.length < w := Nat.lt_of_le_of_lt (Nat.le_add_right _ _) h
      rw [List.foldl_cons, emitMod_of_lt hbuf, List.flatten_cons]
      cases pieces with
      | nil => rw [List.foldl_nil, List.flatten_nil, List.append_nil]
      | cons next pieces =>
          rw [List.dropLast_cons_of_ne_nil (List.cons_ne_nil _ _), List.flatten_cons, List.length_append] at h
          rw [ih (by rw [List.length_append]; omega), List.append_assoc]

theorem length_foldl_emitMod_le (w : Nat) (buf : List α) (hpieces : pieces ≠ []) :
    (pieces.foldl (emitMod w) buf).length ≤ buf.length % w + pieces.flatten.length := by
  induction pieces generalizing buf with
  | nil => exact absurd rfl hpieces
  | cons text pieces ih =>
      have hfirst := length_emitMod_le w buf text
      rw [List.foldl_cons, List.flatten_cons, List.length_append]
      cases pieces with
      | nil => exact hfirst
      | cons next pieces =>
          have hrest := @ih (emitMod w buf text) (List.cons_ne_nil _ _)
          have hmod := Nat.mod_le (emitMod w buf text).length w
          omega

/-- A piece that starts beyond goes back by the register's size. -/
theorem length_foldl_emitMod_add_le (hpieces : pieces ≠ [])
    (h : w ≤ buf.length + pieces.dropLast.flatten.length) :
    (pieces.foldl (emitMod w) buf).length + w ≤ buf.length + pieces.flatten.length := by
  induction pieces generalizing buf with
  | nil => exact absurd rfl hpieces
  | cons text pieces ih =>
      by_cases hbuf : buf.length < w
      · rw [List.foldl_cons, emitMod_of_lt hbuf, List.flatten_cons, List.length_append]
        cases pieces with
        | nil =>
            rw [List.dropLast_singleton, List.flatten_nil, List.length_nil] at h
            omega
        | cons next pieces =>
            rw [List.dropLast_cons_of_ne_nil (List.cons_ne_nil _ _), List.flatten_cons, List.length_append] at h
            have hrest := @ih (buf ++ text) (List.cons_ne_nil _ _) (by rw [List.length_append]; omega)
            rw [List.length_append] at hrest
            omega
      · have hle := length_foldl_emitMod_le w buf hpieces
        have hmod : buf.length % w ≤ buf.length - w := by
          rw [Nat.mod_eq_sub_mod (Nat.le_of_not_lt hbuf)]
          exact Nat.mod_le _ _
        omega

/-- **The register rule.** A text of pieces shorter than the register's size extends the string exactly if its last piece starts below that size. -/
theorem foldl_emitMod_eq_append_iff (hpieces : pieces ≠ []) (hshort : pieces.flatten.length < w) :
    pieces.foldl (emitMod w) buf = buf ++ text ↔
      buf.length + pieces.dropLast.flatten.length < w ∧ text = pieces.flatten := by
  constructor
  · intro heq
    by_cases h : buf.length + pieces.dropLast.flatten.length < w
    · rw [foldl_emitMod h] at heq
      exact ⟨h, (List.append_cancel_left heq).symm⟩
    · have hlength := congrArg List.length heq
      have hle := length_foldl_emitMod_add_le hpieces (Nat.le_of_not_lt h)
      rw [List.length_append] at hlength
      omega
  · rintro ⟨h, rfl⟩
    exact foldl_emitMod h

end Register

end ContikiAtsam
