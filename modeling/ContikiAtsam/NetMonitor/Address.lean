import ContikiAtsam.Base.Ipv6Text
import ContikiAtsam.NetMonitor.Print

/-!
# The text of an address

What `sprint_addr6` appends is a text form of the address: the groups in hexadecimal with colons between, and `::` for the first run of zero groups. It is read back to the groups, and the groups to the bytes, so the text tells the address. The printer keeps the end of the string in 16 bits, and on a string too long for that it overwrites.

`resource-route-event.c` keeps a copy of the printer that writes every piece of the text to the start of the buffer. Each piece replaces the one before, so only the last is left.
-/

namespace ContikiAtsam.NetMonitor

open Ipv6

/-- The bytes of 16-bit groups. -/
def bytesOf (gs : List Nat) : List UInt8 := gs.flatMap fun a => [UInt8.ofNat (a / 256), UInt8.ofNat a]

def addrOf (gs : List Nat) : Ipaddr := Vector.ofFn fun i => (bytesOf gs).getD i.val 0

/-- Reads the text of an address. -/
def parseAddr (text : List Char) : Option Ipaddr := (parseText text).map addrOf

/-- The unspecified address. -/
def unspecified : Ipaddr := Vector.replicate 16 0

/-! ### Groups and bytes -/

theorem bytesOf_groupsOf : ∀ {bytes : List UInt8}, bytes.length % 2 = 0 → bytesOf (groupsOf bytes) = bytes
  | [], _ => rfl
  | [_], h => by
      rw [List.length_singleton] at h
      cases h
  | hi :: lo :: rest, h => by
      have hlo := lo.toNat_lt
      have hhead : UInt8.ofNat ((hi.toNat * 256 + lo.toNat) / 256) = hi := by
        rw [show (hi.toNat * 256 + lo.toNat) / 256 = hi.toNat by omega, UInt8.ofNat_toNat]
      have hnext : UInt8.ofNat (hi.toNat * 256 + lo.toNat) = lo := by
        apply UInt8.toNat_inj.mp
        rw [UInt8.toNat_ofNat']
        omega
      have hrest : bytesOf (groupsOf rest) = rest := bytesOf_groupsOf (by
        rw [List.length_cons, List.length_cons] at h
        omega)
      rw [groupsOf, bytesOf, List.flatMap_cons, hhead, hnext]
      exact congrArg (hi :: lo :: ·) hrest

theorem addrOf_groups (addr : Ipaddr) : addrOf (groups addr) = addr := by
  apply Vector.ext
  intro i hi
  rw [addrOf, Vector.getElem_ofFn, groups, bytesOf_groupsOf (by rw [Vector.length_toList])]
  rw [List.getD_eq_getElem?_getD, List.getElem?_eq_getElem (by rwa [Vector.length_toList]), Option.getD_some,
    Vector.getElem_toList]

theorem groupsOf_bytesOf {gs : List Nat} (h : ∀ a ∈ gs, a < 65536) : groupsOf (bytesOf gs) = gs := by
  induction gs with
  | nil => rfl
  | cons a gs ih =>
      have ha := h a List.mem_cons_self
      have hsplit : (UInt8.ofNat (a / 256)).toNat * 256 + (UInt8.ofNat a).toNat = a := by
        rw [UInt8.toNat_ofNat', UInt8.toNat_ofNat']
        omega
      have hcons : groupsOf (bytesOf (a :: gs)) =
          ((UInt8.ofNat (a / 256)).toNat * 256 + (UInt8.ofNat a).toNat) :: groupsOf (bytesOf gs) := rfl
      rw [hcons, hsplit, ih fun b hb => h b (List.mem_cons_of_mem a hb)]

theorem length_bytesOf (gs : List Nat) : (bytesOf gs).length = 2 * gs.length := by
  induction gs with
  | nil => rfl
  | cons a gs ih =>
      have hcons : (bytesOf (a :: gs)).length = (bytesOf gs).length + 2 := rfl
      rw [hcons, ih, List.length_cons]
      omega

theorem groups_addrOf {gs : List Nat} (hlength : gs.length = 8) (hlt : ∀ a ∈ gs, a < 65536) :
    groups (addrOf gs) = gs := by
  have hbytes : (addrOf gs).toList = bytesOf gs := by
    apply List.ext_getElem
    · rw [Vector.length_toList, length_bytesOf, hlength]
    · intro i hi hi'
      simp only [Vector.getElem_toList, addrOf, Vector.getElem_ofFn]
      rw [List.getD_eq_getElem?_getD, List.getElem?_eq_getElem hi', Option.getD_some]
  rw [groups, hbytes, groupsOf_bytesOf hlt]

theorem groups_inj {addr addr' : Ipaddr} (h : groups addr = groups addr') : addr = addr' := by
  rw [← addrOf_groups addr, h, addrOf_groups]

theorem lt_of_mem_groups {addr : Ipaddr} {a : Nat} (ha : a ∈ groups addr) : a < 65536 :=
  lt_of_mem_groupsOf addr.toList a ha

/-! ### The form of the text -/

theorem joinFields_map_hex (a : Nat) (gs : List Nat) : joinFields (hex a :: gs.map hex) = hex a ++ colonHex gs := by
  induction gs generalizing a with
  | nil => simp [joinFields, colonHex]
  | cons b gs ih =>
      rw [List.map_cons, joinFields, ih]
      rfl

theorem joinHex_eq (gs : List Nat) : joinHex gs = joinFields (gs.map hex) := by
  cases gs with
  | nil => rfl
  | cons a gs => exact (joinFields_map_hex a gs).symm

theorem field_of_mem_map_hex {gs : List Nat} (h : ∀ a ∈ gs, a < 65536) : ∀ f ∈ gs.map hex, Field f := by
  intro f hf
  obtain ⟨a, ha, rfl⟩ := List.mem_map.mp hf
  exact field_toDigits (h a ha)

theorem map_fieldVal_hex (gs : List Nat) : (gs.map hex).map fieldVal = gs := by
  rw [List.map_map]
  exact List.map_id'' fieldVal_toDigits gs

theorem leading_zeros_trailing (gs : List Nat) :
    leading gs ++ List.replicate (gs.length - ((leading gs).length + (trailing gs).length)) 0 ++ trailing gs = gs := by
  have hsplit : leading gs ++ gs.dropWhile (· ≠ 0) = gs := List.takeWhile_append_dropWhile
  have hrun : (gs.dropWhile (· ≠ 0)).takeWhile (· = 0) ++ trailing gs = gs.dropWhile (· ≠ 0) :=
    List.takeWhile_append_dropWhile
  have hlength := congrArg List.length hsplit
  rw [← hrun, List.length_append, List.length_append] at hlength
  have hzeros : (gs.dropWhile (· ≠ 0)).takeWhile (· = 0) =
      List.replicate (gs.length - ((leading gs).length + (trailing gs).length)) 0 := by
    rw [List.eq_replicate_iff]
    refine ⟨by omega, fun a ha => ?_⟩
    simpa using List.mem_takeWhile_imp ha
  rw [← hzeros, List.append_assoc, hrun, hsplit]

theorem form_addrText {gs : List Nat} (hlength : gs.length = 8) (hlt : ∀ a ∈ gs, a < 65536) :
    Form (addrText gs) gs := by
  unfold addrText compressed
  split
  · rename_i hzero
    have hfew := length_leading_add_trailing hzero
    have hlead : ∀ f ∈ (leading gs).map hex, Field f :=
      field_of_mem_map_hex fun a ha => hlt a (List.takeWhile_subset _ ha)
    have htrail : ∀ f ∈ (trailing gs).map hex, Field f :=
      field_of_mem_map_hex fun a ha => hlt a ((List.dropWhile_suffix _).subset ((List.dropWhile_suffix _).subset ha))
    have hform := Form.short ((leading gs).map hex) ((trailing gs).map hex)
      (by rw [List.length_map, List.length_map]; omega) hlead htrail
    have hgroups := leading_zeros_trailing gs
    rw [hlength] at hgroups
    rw [map_fieldVal_hex, map_fieldVal_hex, zeros, List.length_map, List.length_map, hgroups, ← joinHex_eq,
      ← joinHex_eq] at hform
    exact hform
  · rename_i hzero
    have hform := Form.full (gs.map hex) (by rw [List.length_map, hlength]) (field_of_mem_map_hex hlt)
    rw [map_fieldVal_hex, ← joinHex_eq] at hform
    rwa [List.append_nil, leading_eq_self hzero]

theorem form_groups (addr : Ipaddr) : Form (addrText (groups addr)) (groups addr) :=
  form_addrText (length_groups addr) fun _ => lt_of_mem_groups

/-- A text is read as an address exactly if it is a form of the address's groups. -/
theorem parseAddr_eq_some_iff {text : List Char} {addr : Ipaddr} :
    parseAddr text = some addr ↔ Form text (groups addr) := by
  constructor
  · intro h
    obtain ⟨gs, hparse, rfl⟩ := Option.map_eq_some_iff.mp h
    have hform := parseText_eq_some_iff.mp hparse
    rwa [groups_addrOf hform.length_eq hform.lt]
  · intro h
    rw [parseAddr, parseText_eq_some_iff.mpr h, Option.map_some, addrOf_groups]

theorem parseAddr_addrText (addr : Ipaddr) : parseAddr (addrText (groups addr)) = some addr :=
  parseAddr_eq_some_iff.mpr (form_groups addr)

/-- The printer keeps the string and appends a text form of the address, of at most 39 characters and with `::` at most once, that is read back to the address. -/
def Appends (buf : List Char) (addr : Ipaddr) : Prop :=
  ∃ text, sprintAddr6 buf addr = buf ++ text ∧ Form text (groups addr) ∧ text.length ≤ 39 ∧ doubleColons text ≤ 1 ∧
    parseAddr text = some addr

theorem appends_iff (buf : List Char) (addr : Ipaddr) : Appends buf addr ↔ OffsetHolds buf addr := by
  constructor
  · rintro ⟨text, htext, _⟩
    exact (sprintAddr6_eq_append_iff.mp htext).1
  · intro h
    refine ⟨addrText (groups addr), sprintAddr6_eq_append_iff.mpr ⟨h, rfl⟩, form_groups addr, ?_,
      (form_groups addr).doubleColons_le, parseAddr_addrText addr⟩
    rw [length_addrText]
    exact addrSize_le addr

/-- **The text of an address.** `sprint_addr6` keeps the string in the buffer and appends a text of the address that is read back to it exactly if every piece of the text starts below 65536; and whatever it appends, two addresses do not have one text. -/
theorem sprintAddr6_text :
    (∀ (buf : List Char) (addr : Ipaddr), Appends buf addr ↔ OffsetHolds buf addr) ∧
    ∀ (buf buf' : List Char) (addr addr' : Ipaddr) (text text' : List Char), addr ≠ addr' →
      sprintAddr6 buf addr = buf ++ text → sprintAddr6 buf' addr' = buf' ++ text' → text ≠ text' := by
  refine ⟨appends_iff, ?_⟩
  intro buf buf' addr addr' text text' hne htext htext' heq
  obtain ⟨_, rfl⟩ := sprintAddr6_eq_append_iff.mp htext
  obtain ⟨_, rfl⟩ := sprintAddr6_eq_append_iff.mp htext'
  have hsame := parseAddr_addrText addr
  rw [heq, parseAddr_addrText] at hsame
  exact hne (Option.some.inj hsame).symm

/-- The loopback address after a string, the unspecified address after the longest one, and the two beside each other. -/
theorem sprintAddr6_text_loopback :
    Appends "R1:".toList (addrOf [0, 0, 0, 0, 0, 0, 0, 1]) ∧ Appends (List.replicate 65535 'x') unspecified ∧
      "::1".toList ≠ "::".toList := by
  refine ⟨(sprintAddr6_text.1 _ _).mpr (by decide), (sprintAddr6_text.1 _ _).mpr ?_,
    sprintAddr6_text.2 [] [] (addrOf [0, 0, 0, 0, 0, 0, 0, 1]) unspecified _ _ (by decide) (by decide) (by decide)⟩
  rw [OffsetHolds, List.length_replicate]
  decide

/-- Behind a string of 65536 characters the text of an address goes to the start of the buffer. -/
theorem sprintAddr6_wraps : ¬ ∀ (buf : List Char) (addr : Ipaddr), Appends buf addr := by
  intro h
  have hoffset := (appends_iff _ _).mp (h (List.replicate 65536 'x') unspecified)
  rw [OffsetHolds, List.length_replicate] at hoffset
  omega

/-! ### The printer of the event resource -/

namespace RouteEvent

/-- `sprintf` to the start of the buffer. -/
def sprintf (_buf text : List Char) : List Char := text

/-- The loop of the static `sprint_addr6`. -/
def sprintGroups : List Char → Int → Nat → List Nat → List Char
  | buf, _, _, [] => buf
  | buf, f, i, a :: rest =>
    if a = 0 ∧ f ≥ 0 then sprintGroups (if f = 0 then sprintf buf [':', ':'] else buf) (f + 1) (i + 2) rest
    else
      let buf := if f > 0 then buf else if i > 0 then sprintf buf [':'] else buf
      sprintGroups (sprintf buf (hex a)) (if f > 0 then -1 else f) (i + 2) rest

def sprintAddr6 (buf : List Char) (addr : Ipaddr) : List Char := sprintGroups buf 0 0 (groups addr)

/-- A piece of the text other than a single colon. -/
def Piece (text : List Char) : Prop := text = [':', ':'] ∨ ∃ a < 65536, text = hex a

/-- What is left of the text is one piece. -/
theorem piece_sprintGroups (buf : List Char) (f : Int) (i : Nat) (gs : List Nat) (hlt : ∀ a ∈ gs, a < 65536)
    (hbuf : 0 < f ∨ gs = [] → Piece buf) : Piece (sprintGroups buf f i gs) := by
  induction gs generalizing buf f i with
  | nil => exact hbuf (.inr rfl)
  | cons a gs ih =>
      have hrest : ∀ b ∈ gs, b < 65536 := fun b hb => hlt b (List.mem_cons_of_mem a hb)
      rw [sprintGroups]
      split
      · rename_i hzero
        refine ih _ _ _ hrest fun _ => ?_
        split
        · exact .inl rfl
        · exact hbuf (.inl (by omega))
      · exact ih _ _ _ hrest fun _ => .inr ⟨a, hlt a List.mem_cons_self, rfl⟩

theorem piece_sprintAddr6 (addr : Ipaddr) : Piece (sprintAddr6 [] addr) := by
  refine piece_sprintGroups _ _ _ _ (fun _ => lt_of_mem_groups) fun h => ?_
  rcases h with h | h
  · exact absurd h (by decide)
  · have hlength := length_groups addr
    rw [h] at hlength
    cases hlength

theorem parseText_hex {a : Nat} (ha : a < 65536) : parseText (hex a) = none := by
  have hfield : ∀ f ∈ [hex a], Field f := fun f hf => by
    rw [List.mem_singleton.mp hf]
    exact field_toDigits ha
  have hfields : fieldsOf (hex a) = [hex a] := fieldsOf_joinFields hfield
  have hsplit : splitDouble (hex a) = none := splitDouble_full hfield
  rw [parseText, hsplit]
  dsimp only
  rw [hfields, if_neg (by simp)]

theorem sprintAddr6_eq_addrText_iff (addr : Ipaddr) : sprintAddr6 [] addr = addrText (groups addr) ↔ addr = unspecified := by
  constructor
  · intro h
    have hread := (form_groups addr).parseText_eq
    rcases piece_sprintAddr6 addr with hpiece | ⟨a, ha, hpiece⟩
    · rw [← h, hpiece] at hread
      apply groups_inj
      exact (Option.some.inj hread).symm
    · rw [← h, hpiece, parseText_hex ha] at hread
      cases hread
  · rintro rfl
    decide

/-- **The two printers.** What the shared printer appends to a string is what the event resource's printer leaves of an empty one exactly if the address is the unspecified one, whose text is a single piece, and the string ends below 65536. -/
theorem sprintAddr6_eq_iff (buf : List Char) (addr : Ipaddr) :
    NetMonitor.sprintAddr6 buf addr = buf ++ sprintAddr6 [] addr ↔ addr = unspecified ∧ buf.length < 65536 := by
  rw [NetMonitor.sprintAddr6_eq_append_iff, sprintAddr6_eq_addrText_iff, and_comm]
  constructor
  · rintro ⟨rfl, hoffset⟩
    exact ⟨rfl, hoffset⟩
  · rintro ⟨rfl, hbuf⟩
    exact ⟨rfl, hbuf⟩

/-- The loopback address: the printer leaves `1` where the text is `::1`. -/
theorem sprintAddr6_loopback :
    ¬ ∀ (buf : List Char) (addr : Ipaddr), NetMonitor.sprintAddr6 buf addr = buf ++ sprintAddr6 [] addr := by
  intro h
  exact absurd (h [] (addrOf [0, 0, 0, 0, 0, 0, 0, 1])) (by decide)

end RouteEvent

end ContikiAtsam.NetMonitor
