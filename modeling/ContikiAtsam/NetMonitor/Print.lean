import ContikiAtsam.Base.Writer
import Mathlib.Algebra.GroupWithZero.Nat
import Mathlib.Data.List.TakeWhile
import Mathlib.Data.Nat.Log
import Mathlib.Tactic.Common

/-!
# The print engine

The monitoring application prints into a character buffer that holds a string: what is printed is appended at the end of the string. A buffer is the list of its characters up to the terminating NUL, so its length is what `strlen` returns. `sprint_addr6` keeps that length in 16 bits, so its text goes to the end of the string only if every piece of it starts below 65536. The size of a text is a sum over what is printed.
-/

namespace ContikiAtsam.NetMonitor

/-- `uip_ipaddr_t`. -/
abbrev Ipaddr := Vector UInt8 16

/-- `sprintf` with `%u`. -/
def decimal (n : Nat) : List Char := Nat.toDigits 10 n

/-- `sprintf` with `%x`. -/
def hex (n : Nat) : List Char := Nat.toDigits 16 n

def sprintTime (buf : List Char) (minutes : UInt32) : List Char :=
  buf ++ "Uptime: ".toList ++ decimal (minutes.toNat / (24 * 60)) ++ " days ".toList ++
    decimal (minutes.toNat / 60 % 24) ++ " hours ".toList ++ decimal (minutes.toNat % 60) ++ " minutes\n".toList

/-- The 16-bit groups of an address. -/
def groupsOf : List UInt8 → List Nat
  | hi :: lo :: rest => (hi.toNat * 256 + lo.toNat) :: groupsOf rest
  | _ => []

def groups (addr : Ipaddr) : List Nat := groupsOf addr.toList

/-- `offset = strlen(buf)` and `sprintf(buf+offset, ..)`, where `offset` is a `uint16_t`. -/
def sprintfAtEnd (buf text : List Char) : List Char :=
  let offset := UInt16.ofNat buf.length
  buf.take offset.toNat ++ text

/-- The loop of `sprint_addr6` at byte `i`: `f` counts the zero groups that `::` stands for, and is negative once they are passed. -/
def sprintGroups : List Char → Int → Nat → List Nat → List Char
  | buf, _, _, [] => buf
  | buf, f, i, a :: rest =>
    if a = 0 ∧ f ≥ 0 then sprintGroups (if f = 0 then sprintfAtEnd buf [':', ':'] else buf) (f + 1) (i + 2) rest
    else
      let buf := if f > 0 then buf else if i > 0 then sprintfAtEnd buf [':'] else buf
      sprintGroups (sprintfAtEnd buf (hex a)) (if f > 0 then -1 else f) (i + 2) rest

def sprintAddr6 (buf : List Char) (addr : Ipaddr) : List Char := sprintGroups buf 0 0 (groups addr)

/-! ### The pieces -/

/-- What the loop prints, one text for each `sprintf`. -/
def piecesOf : Int → Nat → List Nat → List (List Char)
  | _, _, [] => []
  | f, i, a :: rest =>
    if a = 0 ∧ f ≥ 0 then (if f = 0 then [[':', ':']] else []) ++ piecesOf (f + 1) (i + 2) rest
    else (if f > 0 then [] else if i > 0 then [[':']] else []) ++ hex a :: piecesOf (if f > 0 then -1 else f) (i + 2) rest

def addrPieces (addr : Ipaddr) : List (List Char) := piecesOf 0 0 (groups addr)

/-- Every piece of the address's text starts below 65536. -/
def OffsetHolds (buf : List Char) (addr : Ipaddr) : Prop :=
  buf.length + (addrPieces addr).dropLast.flatten.length < 65536

instance (buf : List Char) (addr : Ipaddr) : Decidable (OffsetHolds buf addr) :=
  inferInstanceAs (Decidable (buf.length + _ < _))

theorem sprintGroups_eq_foldl (buf : List Char) (f : Int) (i : Nat) (gs : List Nat) :
    sprintGroups buf f i gs = (piecesOf f i gs).foldl (emitMod 65536) buf := by
  have hprint : ∀ buf text, sprintfAtEnd buf text = emitMod 65536 buf text := fun _ _ => rfl
  induction gs generalizing buf f i with
  | nil => rfl
  | cons a gs ih =>
      rw [sprintGroups, piecesOf]
      by_cases hzero : a = 0 ∧ f ≥ 0
      · rw [if_pos hzero, if_pos hzero, ih, List.foldl_append]
        split
        · rw [hprint, List.foldl_cons, List.foldl_nil]
        · rfl
      · rw [if_neg hzero, if_neg hzero, List.foldl_append, List.foldl_cons, ih, hprint]
        congr 2
        split
        · rfl
        · split
          · rw [hprint, List.foldl_cons, List.foldl_nil]
          · rfl

/-! ### The text of an address -/

/-- Groups each after a colon. -/
def colonHex (gs : List Nat) : List Char := gs.flatMap fun a => ':' :: hex a

/-- Groups with colons between. -/
def joinHex : List Nat → List Char
  | [] => []
  | a :: gs => hex a ++ colonHex gs

/-- The groups before the first zero group, and from the first one that is not zero after it. -/
def leading (gs : List Nat) : List Nat := gs.takeWhile (· ≠ 0)
def trailing (gs : List Nat) : List Nat := (gs.dropWhile (· ≠ 0)).dropWhile (· = 0)

/-- The rest of the text after the leading groups. -/
def compressed (gs : List Nat) : List Char :=
  if 0 ∈ gs then [':', ':'] ++ joinHex (trailing gs) else []

def addrText (gs : List Nat) : List Char := joinHex (leading gs) ++ compressed gs

theorem flatten_piecesOf_passed {i : Nat} (hi : 0 < i) (gs : List Nat) : (piecesOf (-1) i gs).flatten = colonHex gs := by
  induction gs generalizing i with
  | nil => rfl
  | cons a gs ih =>
      rw [piecesOf, if_neg (by omega)]
      simp only [show ¬ (-1 : Int) > 0 by decide, if_false, if_pos hi]
      rw [List.flatten_append, List.flatten_singleton, List.flatten_cons, ih (by omega)]
      rfl

theorem flatten_piecesOf_zeros {f : Int} (hf : 0 < f) (i : Nat) (gs : List Nat) :
    (piecesOf f i gs).flatten = joinHex (gs.dropWhile (· = 0)) := by
  induction gs generalizing f i with
  | nil => rfl
  | cons a gs ih =>
      rw [piecesOf]
      by_cases ha : a = 0
      · rw [if_pos ⟨ha, by omega⟩, if_neg (by omega), List.nil_append, ih (by omega)]
        simp [ha]
      · rw [if_neg (by simp [ha])]
        simp only [gt_iff_lt, hf, if_true]
        rw [List.nil_append, List.flatten_cons, flatten_piecesOf_passed (by omega)]
        simp [ha, joinHex]

theorem flatten_piecesOf_start (i : Nat) (gs : List Nat) :
    (piecesOf 0 i gs).flatten = (if 0 < i then colonHex (leading gs) else joinHex (leading gs)) ++ compressed gs := by
  induction gs generalizing i with
  | nil => simp [piecesOf, leading, compressed, colonHex, joinHex]
  | cons a gs ih =>
      rw [piecesOf]
      by_cases ha : a = 0
      · rw [if_pos ⟨ha, Int.le_refl 0⟩, if_pos rfl, List.flatten_append, flatten_piecesOf_zeros (by decide)]
        simp [ha, leading, compressed, trailing, colonHex, joinHex]
      · have hzero : (0 ∈ a :: gs) = (0 ∈ gs) := by simp [Ne.symm ha]
        have hlead : leading (a :: gs) = a :: leading gs := by simp [leading, ha]
        have hcomp : compressed (a :: gs) = compressed gs := by simp [compressed, trailing, ha, Ne.symm ha]
        rw [if_neg (by simp [ha]), hlead, hcomp, if_neg (Int.lt_irrefl 0), if_neg (Int.lt_irrefl 0),
          List.flatten_append, List.flatten_cons, ih, if_pos (Nat.succ_pos _)]
        by_cases hi : 0 < i
        · rw [if_pos hi, if_pos hi]
          simp [colonHex]
        · rw [if_neg hi, if_neg hi]
          simp [colonHex, joinHex]

theorem flatten_addrPieces (addr : Ipaddr) : (addrPieces addr).flatten = addrText (groups addr) := by
  rw [addrPieces, flatten_piecesOf_start, if_neg (Nat.lt_irrefl 0), addrText]

/-! ### Sizes -/

def digits (base n : Nat) : Nat := Nat.log base n + 1

theorem length_toDigits {base : Nat} (hbase : 1 < base) (n : Nat) :
    (Nat.toDigits base n).length = digits base n := by
  apply Nat.le_antisymm
  · rw [digits, Nat.length_toDigits_le_iff hbase (Nat.succ_pos _)]
    exact Nat.lt_pow_succ_log_self hbase n
  · by_contra hlt
    rcases Nat.eq_zero_or_pos (Nat.log base n) with hzero | hpos
    · have := Nat.length_toDigits_pos (b := base) (n := n)
      rw [digits, hzero] at hlt
      omega
    · have hle : (Nat.toDigits base n).length ≤ Nat.log base n := by
        rw [digits] at hlt
        omega
      rw [Nat.length_toDigits_le_iff hbase hpos] at hle
      have hn : n ≠ 0 := by
        rintro rfl
        simp at hpos
      exact absurd (Nat.pow_log_le_self base hn) (by omega)

@[simp] theorem length_decimal (n : Nat) : (decimal n).length = digits 10 n := length_toDigits (by decide) n

@[simp] theorem length_hex (n : Nat) : (hex n).length = digits 16 n := length_toDigits (by decide) n

/-- The digits of the groups, and the colons between them. -/
def joinSize (gs : List Nat) : Nat := (gs.map (digits 16)).sum + (gs.length - 1)

/-- The size of the text of an address with these groups. -/
def groupsSize (gs : List Nat) : Nat :=
  if 0 ∈ gs then joinSize (leading gs) + 2 + joinSize (trailing gs) else joinSize gs

def addrSize (addr : Ipaddr) : Nat := groupsSize (groups addr)

def timeSize (minutes : UInt32) : Nat :=
  digits 10 (minutes.toNat / (24 * 60)) + digits 10 (minutes.toNat / 60 % 24) + digits 10 (minutes.toNat % 60) + 30

theorem length_colonHex (gs : List Nat) : (colonHex gs).length = (gs.map (digits 16)).sum + gs.length := by
  induction gs with
  | nil => rfl
  | cons a gs ih =>
      have hcons : colonHex (a :: gs) = ':' :: hex a ++ colonHex gs := rfl
      rw [hcons, List.length_append, ih]
      simp only [List.length_cons, length_hex, List.map_cons, List.sum_cons]
      omega

theorem length_joinHex (gs : List Nat) : (joinHex gs).length = joinSize gs := by
  cases gs with
  | nil => rfl
  | cons a gs =>
      rw [joinHex, List.length_append, length_hex, length_colonHex, joinSize]
      simp only [List.map_cons, List.sum_cons, List.length_cons]
      omega

theorem leading_eq_self {gs : List Nat} (h : 0 ∉ gs) : leading gs = gs := by
  apply List.takeWhile_eq_self_iff.mpr
  intro a ha
  have hne : a ≠ 0 := fun hzero => h (hzero ▸ ha)
  simpa using hne

theorem length_addrText (gs : List Nat) : (addrText gs).length = groupsSize gs := by
  unfold addrText compressed groupsSize
  split
  · simp only [List.length_append, length_joinHex, List.length_cons, List.length_nil]
    omega
  · rename_i h
    rw [List.append_nil, length_joinHex, leading_eq_self h]

@[simp] theorem length_sprintTime (buf : List Char) (minutes : UInt32) :
    (sprintTime buf minutes).length = buf.length + timeSize minutes := by
  simp [sprintTime, timeSize]
  omega

/-! ### Bounds -/

theorem digits_le {base n k : Nat} (hk : 0 < k) (hn : n < base ^ k) : digits base n ≤ k := by
  have hlog : Nat.log base n < k := Nat.log_lt_of_lt_pow' (by omega) hn
  exact hlog

theorem timeSize_le (minutes : UInt32) : timeSize minutes ≤ 41 := by
  have hlt := minutes.toNat_lt
  have hdays : digits 10 (minutes.toNat / (24 * 60)) ≤ 7 := digits_le (by decide) (by omega)
  have hhours : digits 10 (minutes.toNat / 60 % 24) ≤ 2 := digits_le (by decide) (by omega)
  have hminutes : digits 10 (minutes.toNat % 60) ≤ 2 := digits_le (by decide) (by omega)
  unfold timeSize
  omega

theorem length_groupsOf (bytes : List UInt8) : (groupsOf bytes).length = bytes.length / 2 := by
  induction bytes using groupsOf.induct with
  | case1 hi lo rest ih =>
      rw [groupsOf, List.length_cons, ih, List.length_cons, List.length_cons]
      omega
  | case2 bytes h =>
      rw [groupsOf.eq_2 bytes h]
      match bytes, h with
      | [], _ => rfl
      | [_], _ => simp
      | hi :: lo :: rest, h => exact absurd rfl (h hi lo rest)

theorem length_groups (addr : Ipaddr) : (groups addr).length = 8 := by
  rw [groups, length_groupsOf, Vector.length_toList]

theorem lt_of_mem_groupsOf (bytes : List UInt8) : ∀ a ∈ groupsOf bytes, a < 65536 := by
  induction bytes using groupsOf.induct with
  | case1 hi lo rest ih =>
      intro a ha
      rw [groupsOf, List.mem_cons] at ha
      rcases ha with rfl | ha
      · have hhi := hi.toNat_lt
        have hlo := lo.toNat_lt
        omega
      · exact ih a ha
  | case2 bytes h =>
      rw [groupsOf.eq_2 bytes h]
      intro a ha
      cases ha

theorem joinSize_le {gs : List Nat} (h : ∀ a ∈ gs, a < 65536) : joinSize gs ≤ 5 * gs.length - 1 := by
  have hsum : (gs.map (digits 16)).sum ≤ 4 * gs.length := by
    induction gs with
    | nil => exact Nat.le_refl 0
    | cons a gs ih =>
        have ha : digits 16 a ≤ 4 := digits_le (by decide) (h a List.mem_cons_self)
        have := ih fun b hb => h b (List.mem_cons_of_mem a hb)
        rw [List.map_cons, List.sum_cons, List.length_cons]
        omega
  unfold joinSize
  omega

theorem length_leading_add_trailing {gs : List Nat} (h : 0 ∈ gs) :
    (leading gs).length + (trailing gs).length < gs.length := by
  have hsplit : leading gs ++ gs.dropWhile (· ≠ 0) = gs := List.takeWhile_append_dropWhile
  have hlength := congrArg List.length hsplit
  rw [List.length_append] at hlength
  obtain ⟨gs', hrest⟩ : ∃ gs', gs.dropWhile (· ≠ 0) = 0 :: gs' := by
    cases hdrop : gs.dropWhile (· ≠ 0) with
    | nil =>
        rw [hdrop, List.append_nil] at hsplit
        have := List.takeWhile_eq_self_iff.mp hsplit 0 h
        simp at this
    | cons b gs' =>
        have hb := List.head_dropWhile_not (· ≠ 0) (l := gs) (by rw [hdrop]; exact List.cons_ne_nil _ _)
        simp only [hdrop, List.head_cons] at hb
        exact ⟨gs', by simpa using hb⟩
  have htrail : (trailing gs).length ≤ gs'.length := by
    rw [trailing, hrest, List.dropWhile_cons_of_pos (by simp)]
    exact (List.dropWhile_suffix _).length_le
  rw [hrest, List.length_cons] at hlength
  omega

/-- An address takes at most 39 characters. -/
theorem addrSize_le (addr : Ipaddr) : addrSize addr ≤ 39 := by
  have hlt := lt_of_mem_groupsOf addr.toList
  have hlength := length_groups addr
  have hlead : ∀ a ∈ leading (groups addr), a < 65536 := fun a ha => hlt a (List.takeWhile_subset _ ha)
  have htrail : ∀ a ∈ trailing (groups addr), a < 65536 := fun a ha =>
    hlt a ((List.dropWhile_suffix _).subset ((List.dropWhile_suffix _).subset ha))
  unfold addrSize groupsSize
  split
  · rename_i h
    have hfew := length_leading_add_trailing h
    have := joinSize_le hlead
    have := joinSize_le htrail
    omega
  · have := joinSize_le hlt
    change joinSize (groups addr) ≤ 5 * (groups addr).length - 1 at this
    omega

/-! ### What is appended -/

theorem addrPieces_ne_nil (addr : Ipaddr) : addrPieces addr ≠ [] := by
  have hlength := length_groups addr
  unfold addrPieces
  cases hgroups : groups addr with
  | nil =>
      rw [hgroups] at hlength
      cases hlength
  | cons a gs =>
      rw [piecesOf]
      split <;> simp

/-- **`sprint_addr6` extends the string exactly if every piece of the text starts below 65536**, and then by the text of the address. -/
theorem sprintAddr6_eq_append_iff {buf text : List Char} {addr : Ipaddr} :
    sprintAddr6 buf addr = buf ++ text ↔ OffsetHolds buf addr ∧ text = addrText (groups addr) := by
  have hsize := addrSize_le addr
  rw [sprintAddr6, sprintGroups_eq_foldl, ← flatten_addrPieces]
  apply foldl_emitMod_eq_append_iff (addrPieces_ne_nil addr)
  rw [flatten_addrPieces, length_addrText]
  exact Nat.lt_of_le_of_lt hsize (by decide)

end ContikiAtsam.NetMonitor
