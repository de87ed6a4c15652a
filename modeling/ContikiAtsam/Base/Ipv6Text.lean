import Mathlib.Tactic.Common

/-!
# IPv6 addresses as text

The text forms of RFC 4291, section 2.2, that write every group in hexadecimal: eight groups with colons between them, or fewer, with `::` once for the zero groups left out. The forms are described as a relation between texts and groups; a parser finds the groups of every text that has them, and nothing else, so a text stands for one address.
-/

namespace ContikiAtsam.Ipv6

def isHexDigit (c : Char) : Bool := c.isDigit || ('a' ≤ c && c ≤ 'f') || ('A' ≤ c && c ≤ 'F')

def hexDigitVal (c : Char) : Nat :=
  if c.isDigit then c.toNat - '0'.toNat
  else if 'a' ≤ c then c.toNat - 'a'.toNat + 10
  else c.toNat - 'A'.toNat + 10

/-- One group: one to four hexadecimal digits. -/
def Field (f : List Char) : Prop := 0 < f.length ∧ f.length ≤ 4 ∧ ∀ c ∈ f, isHexDigit c = true

instance (f : List Char) : Decidable (Field f) := inferInstanceAs (Decidable (_ ∧ _ ∧ _))

def fieldVal (f : List Char) : Nat := f.foldl (fun n c => 16 * n + hexDigitVal c) 0

/-- Fields with colons between them. -/
def joinFields : List (List Char) → List Char
  | [] => []
  | [f] => f
  | f :: f' :: fs => f ++ ':' :: joinFields (f' :: fs)

/-- The groups that `::` stands for. -/
def zeros (ls rs : List (List Char)) : List Nat := List.replicate (8 - (ls.length + rs.length)) 0

/-- The text is a form of the eight groups. -/
inductive Form : List Char → List Nat → Prop where
  | full (fs : List (List Char)) (hlength : fs.length = 8) (hfs : ∀ f ∈ fs, Field f) :
      Form (joinFields fs) (fs.map fieldVal)
  | short (ls rs : List (List Char)) (hlength : ls.length + rs.length < 8) (hls : ∀ f ∈ ls, Field f)
      (hrs : ∀ f ∈ rs, Field f) :
      Form (joinFields ls ++ ':' :: ':' :: joinFields rs) (ls.map fieldVal ++ zeros ls rs ++ rs.map fieldVal)

/-- How many times two colons stand side by side. -/
def doubleColons : List Char → Nat
  | [] => 0
  | [_] => 0
  | a :: b :: s => (if a = ':' ∧ b = ':' then 1 else 0) + doubleColons (b :: s)

/-! ### The parser -/

/-- What stands before and after the first `::`. -/
def splitDouble : List Char → Option (List Char × List Char)
  | [] => none
  | [_] => none
  | a :: b :: s =>
    if a = ':' ∧ b = ':' then some ([], s) else (splitDouble (b :: s)).map fun p => (a :: p.1, p.2)

def fieldsOf (s : List Char) : List (List Char) := if s = [] then [] else s.splitOn ':'

def parseText (s : List Char) : Option (List Nat) :=
  match splitDouble s with
  | none =>
    let fs := fieldsOf s
    if fs.length = 8 ∧ ∀ f ∈ fs, Field f then some (fs.map fieldVal) else none
  | some (l, r) =>
    let ls := fieldsOf l
    let rs := fieldsOf r
    if ls.length + rs.length < 8 ∧ (∀ f ∈ ls, Field f) ∧ ∀ f ∈ rs, Field f then
      some (ls.map fieldVal ++ zeros ls rs ++ rs.map fieldVal)
    else none

/-! ### Fields -/

theorem Field.colon_notMem {f : List Char} (h : Field f) : ':' ∉ f := fun hmem =>
  absurd (h.2.2 ':' hmem) (by decide)

theorem Field.ne_nil {f : List Char} (h : Field f) : f ≠ [] := List.ne_nil_of_length_pos h.1

theorem joinFields_cons {f : List Char} {fs : List (List Char)} (h : ∀ g ∈ f :: fs, Field g) :
    ∃ c s, c ≠ ':' ∧ joinFields (f :: fs) = c :: s := by
  have hf := h f List.mem_cons_self
  cases f with
  | nil => exact absurd rfl hf.ne_nil
  | cons c f =>
      have hc : c ≠ ':' := fun heq => hf.colon_notMem (heq ▸ List.mem_cons_self)
      cases fs with
      | nil => exact ⟨c, f, hc, rfl⟩
      | cons f' fs => exact ⟨c, f ++ ':' :: joinFields (f' :: fs), hc, rfl⟩

theorem joinFields_eq_intercalate (fs : List (List Char)) : joinFields fs = [':'].intercalate fs := by
  induction fs using joinFields.induct with
  | case1 => rfl
  | case2 f => exact (List.intercalate_singleton).symm
  | case3 f f' fs ih =>
      rw [joinFields, ih, List.intercalate_cons_cons, List.append_assoc]
      rfl

theorem fieldsOf_joinFields {fs : List (List Char)} (h : ∀ f ∈ fs, Field f) : fieldsOf (joinFields fs) = fs := by
  cases fs with
  | nil => rfl
  | cons f fs =>
      obtain ⟨c, s, _, hcons⟩ := joinFields_cons h
      have hne : joinFields (f :: fs) ≠ [] := by
        rw [hcons]
        exact List.cons_ne_nil _ _
      rw [fieldsOf, if_neg hne, joinFields_eq_intercalate]
      exact List.splitOn_intercalate ':' (fun g hg => (h g hg).colon_notMem) (List.cons_ne_nil _ _)

theorem joinFields_fieldsOf (s : List Char) : joinFields (fieldsOf s) = s := by
  unfold fieldsOf
  split
  · rename_i hnil
    rw [hnil, joinFields]
  · rw [joinFields_eq_intercalate, List.intercalate_splitOn]

/-! ### Double colons -/

theorem splitDouble_cons {a : Char} (ha : a ≠ ':') (s : List Char) :
    splitDouble (a :: s) = (splitDouble s).map fun p => (a :: p.1, p.2) := by
  cases s with
  | nil => rfl
  | cons b s => rw [splitDouble, if_neg fun h => ha h.1]

theorem splitDouble_colon {b : Char} (hb : b ≠ ':') (s : List Char) :
    splitDouble (':' :: b :: s) = (splitDouble (b :: s)).map fun p => (':' :: p.1, p.2) := by
  rw [splitDouble, if_neg fun h => hb h.2]

theorem splitDouble_append {f : List Char} (hf : ':' ∉ f) (s : List Char) :
    splitDouble (f ++ s) = (splitDouble s).map fun p => (f ++ p.1, p.2) := by
  induction f with
  | nil => simp
  | cons a f ih =>
      have ha : a ≠ ':' := fun heq => hf (heq ▸ List.mem_cons_self)
      rw [List.cons_append, splitDouble_cons ha, ih fun h => hf (List.mem_cons_of_mem a h), Option.map_map]
      rfl

/-- The first `::` of a text is not among its fields. -/
theorem splitDouble_joinFields {fs : List (List Char)} (h : ∀ f ∈ fs, Field f) (s : List Char) :
    splitDouble (joinFields fs ++ s) = (splitDouble s).map fun p => (joinFields fs ++ p.1, p.2) := by
  induction fs using joinFields.induct with
  | case1 => simp [joinFields]
  | case2 f => exact splitDouble_append (h f List.mem_cons_self).colon_notMem s
  | case3 f f' fs ih =>
      have hfs : ∀ g ∈ f' :: fs, Field g := fun g hg => h g (List.mem_cons_of_mem f hg)
      obtain ⟨c, t, hc, hcons⟩ := joinFields_cons hfs
      have ih := ih hfs
      rw [hcons, List.cons_append] at ih
      rw [joinFields, List.append_assoc, splitDouble_append (h f List.mem_cons_self).colon_notMem, hcons,
        List.cons_append, List.cons_append, splitDouble_colon hc, ih, Option.map_map, Option.map_map]
      congr 1
      funext p
      simp

theorem eq_of_splitDouble : ∀ {s l r : List Char}, splitDouble s = some (l, r) → s = l ++ ':' :: ':' :: r
  | [], _, _, h => by cases h
  | [_], _, _, h => by cases h
  | a :: b :: s, l, r, h => by
      rw [splitDouble] at h
      split at h
      · rename_i hcolons
        obtain ⟨rfl, rfl⟩ := Prod.mk.inj (Option.some.inj h)
        rw [hcolons.1, hcolons.2, List.nil_append]
      · obtain ⟨⟨l', r'⟩, hrest, heq⟩ := Option.map_eq_some_iff.mp h
        obtain ⟨rfl, rfl⟩ := Prod.mk.inj heq
        rw [eq_of_splitDouble hrest, List.cons_append]

theorem doubleColons_of_none : ∀ {s : List Char}, splitDouble s = none → doubleColons s = 0
  | [], _ => rfl
  | [_], _ => rfl
  | a :: b :: s, h => by
      rw [splitDouble] at h
      split at h
      · cases h
      · rename_i hcolons
        rw [doubleColons, if_neg hcolons, doubleColons_of_none (Option.map_eq_none_iff.mp h)]

/-- The second colon of the first `::` may be the first one of another. -/
theorem doubleColons_of_some : ∀ {s l r : List Char}, splitDouble s = some (l, r) →
    doubleColons s = 1 + doubleColons (':' :: r)
  | [], _, _, h => by cases h
  | [_], _, _, h => by cases h
  | a :: b :: s, l, r, h => by
      rw [splitDouble] at h
      split at h
      · rename_i hcolons
        obtain ⟨rfl, rfl⟩ := Prod.mk.inj (Option.some.inj h)
        rw [doubleColons, if_pos hcolons, hcolons.2]
      · rename_i hcolons
        obtain ⟨⟨l', r'⟩, hrest, heq⟩ := Option.map_eq_some_iff.mp h
        obtain ⟨rfl, rfl⟩ := Prod.mk.inj heq
        rw [doubleColons, if_neg hcolons, Nat.zero_add, doubleColons_of_some hrest]

/-! ### Forms -/

theorem splitDouble_full {fs : List (List Char)} (h : ∀ f ∈ fs, Field f) : splitDouble (joinFields fs) = none := by
  have hsplit := splitDouble_joinFields h []
  rwa [List.append_nil] at hsplit

theorem splitDouble_short {ls : List (List Char)} (h : ∀ f ∈ ls, Field f) (rs : List (List Char)) :
    splitDouble (joinFields ls ++ ':' :: ':' :: joinFields rs) = some (joinFields ls, joinFields rs) := by
  rw [splitDouble_joinFields h]
  simp [splitDouble]

theorem splitDouble_colon_joinFields {fs : List (List Char)} (h : ∀ f ∈ fs, Field f) :
    splitDouble (':' :: joinFields fs) = none := by
  cases fs with
  | nil => rfl
  | cons f fs =>
      obtain ⟨c, t, hc, hcons⟩ := joinFields_cons h
      have hnone := splitDouble_full h
      rw [hcons] at hnone
      rw [hcons, splitDouble_colon hc, hnone]
      rfl

theorem Form.doubleColons_le {s : List Char} {gs : List Nat} (h : Form s gs) : doubleColons s ≤ 1 := by
  cases h with
  | full fs _ hfs =>
      have hnone := doubleColons_of_none (splitDouble_full hfs)
      omega
  | short ls rs _ hls hrs =>
      have hfirst := doubleColons_of_some (splitDouble_short hls rs)
      have hrest := doubleColons_of_none (splitDouble_colon_joinFields hrs)
      omega

theorem Form.length_eq {s : List Char} {gs : List Nat} (h : Form s gs) : gs.length = 8 := by
  cases h with
  | full fs hlength _ => rw [List.length_map, hlength]
  | short ls rs hlength _ _ =>
      simp only [List.length_append, List.length_map, zeros, List.length_replicate]
      omega

theorem Form.parseText_eq {s : List Char} {gs : List Nat} (h : Form s gs) : parseText s = some gs := by
  cases h with
  | full fs hlength hfs =>
      rw [parseText, splitDouble_full hfs]
      simp only [fieldsOf_joinFields hfs]
      rw [if_pos ⟨hlength, hfs⟩]
  | short ls rs hlength hls hrs =>
      rw [parseText, splitDouble_short hls]
      simp only [fieldsOf_joinFields hls, fieldsOf_joinFields hrs]
      rw [if_pos ⟨hlength, hls, hrs⟩]

theorem form_of_parseText {s : List Char} {gs : List Nat} (h : parseText s = some gs) : Form s gs := by
  unfold parseText at h
  split at h
  · dsimp only at h
    split at h
    · rename_i hfs
      cases h
      have hform := Form.full (fieldsOf s) hfs.1 hfs.2
      rwa [joinFields_fieldsOf] at hform
    · cases h
  · rename_i l r hsplit
    dsimp only at h
    split at h
    · rename_i hfs
      cases h
      have hform := Form.short (fieldsOf l) (fieldsOf r) hfs.1 hfs.2.1 hfs.2.2
      rwa [joinFields_fieldsOf, joinFields_fieldsOf, ← eq_of_splitDouble hsplit] at hform
    · cases h

/-- **The parser reads the forms.** -/
theorem parseText_eq_some_iff {s : List Char} {gs : List Nat} : parseText s = some gs ↔ Form s gs :=
  ⟨form_of_parseText, Form.parseText_eq⟩

/-! ### Digits -/

theorem isHexDigit_digitChar : ∀ {d : Nat}, d < 16 → isHexDigit d.digitChar = true := by decide

theorem hexDigitVal_digitChar : ∀ {d : Nat}, d < 16 → hexDigitVal d.digitChar = d := by decide

theorem hexDigitVal_lt {c : Char} (h : isHexDigit c = true) : hexDigitVal c < 16 := by
  have hcodes : '0'.val.toNat = 48 ∧ '9'.val.toNat = 57 ∧ 'a'.val.toNat = 97 ∧ 'f'.val.toNat = 102 ∧
      'A'.val.toNat = 65 ∧ 'F'.val.toNat = 70 := by decide
  simp only [isHexDigit, Char.isDigit, Bool.or_eq_true, Bool.and_eq_true, decide_eq_true_eq, Char.le_def,
    UInt32.le_iff_toNat_le] at h
  simp only [hexDigitVal, Char.isDigit, Bool.and_eq_true, decide_eq_true_eq, Char.le_def, UInt32.le_iff_toNat_le,
    Char.toNat]
  split
  · omega
  · split <;> omega

theorem foldl_hexDigitVal_lt {f : List Char} (h : ∀ c ∈ f, isHexDigit c = true) {n bound : Nat} (hn : n < bound) :
    f.foldl (fun n c => 16 * n + hexDigitVal c) n < f.foldl (fun bound _ => 16 * bound) bound := by
  induction f generalizing n bound with
  | nil => exact hn
  | cons c f ih =>
      have hdigit := hexDigitVal_lt (h c List.mem_cons_self)
      exact ih (fun d hd => h d (List.mem_cons_of_mem c hd)) (show 16 * n + hexDigitVal c < 16 * bound by omega)

theorem fieldVal_lt {f : List Char} (h : Field f) : fieldVal f < 65536 := by
  obtain ⟨_, hlength, hdigits⟩ := h
  have hlt : fieldVal f < f.foldl (fun bound _ => 16 * bound) 1 := foldl_hexDigitVal_lt hdigits Nat.one_pos
  refine Nat.lt_of_lt_of_le hlt ?_
  match f, hlength with
  | [], _ | [_], _ | [_, _], _ | [_, _, _], _ | [_, _, _, _], _ => simp

theorem Form.lt {s : List Char} {gs : List Nat} (h : Form s gs) : ∀ a ∈ gs, a < 65536 := by
  have hfields : ∀ fs : List (List Char), (∀ f ∈ fs, Field f) → ∀ a ∈ fs.map fieldVal, a < 65536 := by
    intro fs hfs a ha
    obtain ⟨f, hf, rfl⟩ := List.mem_map.mp ha
    exact fieldVal_lt (hfs f hf)
  cases h with
  | full fs _ hfs => exact hfields fs hfs
  | short ls rs _ hls hrs =>
      intro a ha
      rcases List.mem_append.mp ha with ha | ha
      · rcases List.mem_append.mp ha with ha | ha
        · exact hfields ls hls a ha
        · rw [List.eq_of_mem_replicate ha]
          decide
      · exact hfields rs hrs a ha

theorem isHexDigit_of_mem_toDigits (n : Nat) : ∀ c ∈ Nat.toDigits 16 n, isHexDigit c = true := by
  induction n using Nat.strongRecOn with
  | ind n ih =>
      rw [Nat.toDigits_eq_if (by decide)]
      intro c hc
      split at hc
      · rename_i hlt
        rw [List.mem_singleton.mp hc]
        exact isHexDigit_digitChar hlt
      · rcases List.mem_append.mp hc with hc | hc
        · exact ih (n / 16) (by omega) c hc
        · rw [List.mem_singleton.mp hc]
          exact isHexDigit_digitChar (Nat.mod_lt n (by decide))

theorem fieldVal_append (f : List Char) (c : Char) : fieldVal (f ++ [c]) = 16 * fieldVal f + hexDigitVal c := by
  simp [fieldVal]

theorem fieldVal_toDigits (n : Nat) : fieldVal (Nat.toDigits 16 n) = n := by
  induction n using Nat.strongRecOn with
  | ind n ih =>
      rw [Nat.toDigits_eq_if (by decide)]
      split
      · rename_i hlt
        simpa [fieldVal] using hexDigitVal_digitChar hlt
      · rw [fieldVal_append, ih (n / 16) (by omega), hexDigitVal_digitChar (Nat.mod_lt n (by decide))]
        exact Nat.div_add_mod n 16

theorem field_toDigits {n : Nat} (h : n < 65536) : Field (Nat.toDigits 16 n) :=
  ⟨Nat.length_toDigits_pos, (Nat.length_toDigits_le_iff (by decide) (by decide)).mpr h, isHexDigit_of_mem_toDigits n⟩

end ContikiAtsam.Ipv6
