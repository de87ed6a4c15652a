import Mathlib.Data.List.MinMax
import Mathlib.Logic.Function.Basic
import Mathlib.Tactic.Common

/-!
# Route information

A router advertisement may carry options that name a prefix and how long the advertising router serves it. The callback for such an option looks for a route to the prefix's address, and takes the route it finds for the route of the prefix. The lookup returns the longest match: a route of a shorter prefix if there is none of the option's own, or of a longer one if that covers the same address. Its lifetime is then changed, or it is removed, in place of the option's.

The table belongs to the library. It is the routes in use, each at its place; looking up, adding and removing are the library's, of which only what is documented is assumed.
-/

namespace ContikiAtsam.RouteInfo

/-- `uip_ip6addr_t`. -/
abbrev Ip6addr := Vector UInt8 16

def bit (a : Ip6addr) (i : Nat) : Bool := (a.toList.getD (i / 8) 0).toBitVec.getMsbD (i % 8)

/-- The addresses have their first bits in common. -/
def PrefixEq (a b : Ip6addr) (length : Nat) : Prop := ∀ i < length, bit a i = bit b i

instance (a b : Ip6addr) (length : Nat) : Decidable (PrefixEq a b length) := Nat.decidableBallLT length _

/-- `uip_ds6_route_t`. -/
structure Route where
  ipaddr : Ip6addr
  length : UInt8
  nexthop : Ip6addr
  lifetime : UInt32
  deriving DecidableEq

/-- The route leads to the address. -/
def Route.Matches (r : Route) (a : Ip6addr) : Prop := PrefixEq r.ipaddr a r.length.toNat

/-- The route is for exactly this prefix. -/
def Route.For (r : Route) (a : Ip6addr) (length : UInt8) : Prop := r.length = length ∧ PrefixEq r.ipaddr a length.toNat

instance (r : Route) (a : Ip6addr) : Decidable (r.Matches a) := inferInstanceAs (Decidable (PrefixEq _ _ _))

instance (r : Route) (a : Ip6addr) (length : UInt8) : Decidable (r.For a length) := inferInstanceAs (Decidable (_ ∧ _))

/-- `uip_nd6_opt_route_info`, with the lifetime in network byte order. -/
structure Rio where
  preflen : UInt8
  rlifetime : UInt32
  pref : Ip6addr

/-- `uip_ntohl` on a little-endian machine. -/
def uipNtohl (x : UInt32) : UInt32 :=
  UInt32.ofNat (x.toNat % 256 * 16777216 + x.toNat / 256 % 256 * 65536 + x.toNat / 65536 % 256 * 256 +
    x.toNat / 16777216)

variable {Handle : Type} [DecidableEq Handle]

abbrev Table (Handle : Type) := Handle → Option Route

/-- The routing functions of the library. -/
structure RouteLib (Handle : Type) where
  lookup : Table Handle → Ip6addr → Option Handle
  hasSpace : Table Handle → Bool
  add : Table Handle → Ip6addr → UInt8 → Ip6addr → Option (Handle × Table Handle)
  rm : Table Handle → Option Handle → Table Handle

/-- What is documented of them: the lookup returns a longest match, if there is a match; as long as there is space, a route is added at a free place; the route that is given is removed, and nothing if none is given. -/
structure RouteLib.Lawful (lib : RouteLib Handle) : Prop where
  lookup_some {t a h} : lib.lookup t a = some h → ∃ r, t h = some r ∧ r.Matches a ∧
    ∀ h' r', t h' = some r' → r'.Matches a → r'.length ≤ r.length
  lookup_none {t a} : lib.lookup t a = none → ∀ h r, t h = some r → ¬ r.Matches a
  add_none {t a length nexthop} : lib.add t a length nexthop = none ↔ lib.hasSpace t = false
  add_some {t a length nexthop h t'} : lib.add t a length nexthop = some (h, t') → t h = none ∧
    ∃ lifetime, t' = Function.update t h (some ⟨a, length, nexthop, lifetime⟩)
  rm_none {t} : lib.rm t none = t
  rm_some {t h} : lib.rm t (some h) = Function.update t h none

/-- Writes the lifetime of a route. -/
def setLifetime (t : Table Handle) (h : Handle) (lifetime : UInt32) : Table Handle :=
  Function.update t h ((t h).map fun r => { r with lifetime := lifetime })

def uipDs6RouteInfoCallback (lib : RouteLib Handle) (t : Table Handle) (rio : Rio) (nextHop : Ip6addr) : Table Handle :=
  match lib.lookup t rio.pref with
  | none =>
    if rio.rlifetime ≠ 0 then
      match lib.add t rio.pref rio.preflen nextHop with
      | none => t
      | some (newRoute, t) => setLifetime t newRoute (uipNtohl rio.rlifetime)
    else lib.rm t none
  | some found =>
    if rio.rlifetime = 0 then lib.rm t (some found) else setLifetime t found (uipNtohl rio.rlifetime)

/-! ### What the option asks for -/

/-- For the option's prefix, its length and its lifetime in host byte order: the table holds a route of the prefix with the lifetime, if that is not zero and there is space, and holds none if it is zero; the routes of all other prefixes are as they were. -/
structure Processed (lib : RouteLib Handle) (t : Table Handle) (pref : Ip6addr) (preflen : UInt8) (lifetime : UInt32)
    (t' : Table Handle) : Prop where
  added : lifetime ≠ 0 → lib.hasSpace t = true → ∃ h r, t' h = some r ∧ r.For pref preflen ∧ r.lifetime = lifetime
  removed : lifetime = 0 → ∀ h r, t' h = some r → ¬ r.For pref preflen
  kept : ∀ h r, t h = some r → ¬ r.For pref preflen → t' h = some r

/-- No route leads to the prefix's address; or the longest match is a route of the prefix, and the only one if it is to go; or it is another that has the lifetime already, and so has a route of the prefix if there is space. -/
def Unmistaken (lib : RouteLib Handle) (t : Table Handle) (pref : Ip6addr) (preflen : UInt8) (lifetime : UInt32) : Prop :=
  ∀ found r, lib.lookup t pref = some found → t found = some r →
    (r.For pref preflen ∧ (lifetime = 0 → ∀ h r', t h = some r' → r'.For pref preflen → h = found)) ∨
    (¬ r.For pref preflen ∧ lifetime ≠ 0 ∧ r.lifetime = lifetime ∧
      (lib.hasSpace t = true → ∃ h r', t h = some r' ∧ r'.For pref preflen ∧ r'.lifetime = lifetime))

theorem uipNtohl_eq_zero_iff (x : UInt32) : uipNtohl x = 0 ↔ x = 0 := by
  have hlt := x.toNat_lt
  have hbytes : x.toNat = x.toNat % 256 + x.toNat / 256 % 256 * 256 + x.toNat / 65536 % 256 * 65536 +
      x.toNat / 16777216 * 16777216 := by
    have hsecond := Nat.div_div_eq_div_mul x.toNat 256 256
    have hthird := Nat.div_div_eq_div_mul x.toNat 65536 256
    omega
  have h0 : x.toNat % 256 < 256 := Nat.mod_lt _ (by decide)
  have h1 : x.toNat / 256 % 256 < 256 := Nat.mod_lt _ (by decide)
  have h2 : x.toNat / 65536 % 256 < 256 := Nat.mod_lt _ (by decide)
  have h3 : x.toNat / 16777216 < 256 := by omega
  rw [← UInt32.toNat_inj, ← UInt32.toNat_inj, uipNtohl, UInt32.toNat_ofNat']
  simp only [UInt32.toNat_zero]
  generalize x.toNat % 256 = b0 at *
  generalize x.toNat / 256 % 256 = b1 at *
  generalize x.toNat / 65536 % 256 = b2 at *
  generalize x.toNat / 16777216 = b3 at *
  omega

theorem Route.For.matches {r : Route} {a : Ip6addr} {length : UInt8} (h : r.For a length) : r.Matches a := by
  obtain ⟨hlength, hprefix⟩ := h
  unfold Matches
  rwa [hlength]

variable {lib : RouteLib Handle} {t : Table Handle} {pref : Ip6addr} {preflen : UInt8} {lifetime : UInt32}

/-! ### The branches of the callback -/

omit [DecidableEq Handle] in
theorem ne_of_other {h h' : Handle} {r r' : Route} (hr : t h = some r) (hfor : r.For pref preflen)
    (hr' : t h' = some r') (hother : ¬ r'.For pref preflen) : h' ≠ h := by
  rintro rfl
  rw [hr] at hr'
  exact hother (Option.some.inj hr' ▸ hfor)

theorem setLifetime_some {h : Handle} {r : Route} (hr : t h = some r) :
    setLifetime t h lifetime = Function.update t h (some { r with lifetime := lifetime }) := by
  rw [setLifetime, hr, Option.map_some]

theorem processed_of_added (hlib : lib.Lawful) {h : Handle} {t' : Table Handle} {nextHop : Ip6addr}
    (hlives : lifetime ≠ 0) (hadd : lib.add t pref preflen nextHop = some (h, t')) :
    Processed lib t pref preflen lifetime (setLifetime t' h lifetime) := by
  obtain ⟨hfree, old, rfl⟩ := hlib.add_some hadd
  rw [setLifetime_some (Function.update_self _ _ _), Function.update_idem]
  refine ⟨fun _ _ => ?_, fun hzero => absurd hzero hlives, fun h' r hr _ => ?_⟩
  · exact ⟨h, _, Function.update_self _ _ _, ⟨rfl, fun _ _ => rfl⟩, rfl⟩
  · have hne : h' ≠ h := by
      intro heq
      rw [heq, hfree] at hr
      cases hr
    rwa [Function.update_of_ne hne]

omit [DecidableEq Handle] in
/-- A table left as it was is right if the prefix has its route, or none if it is to have none. -/
theorem processed_self_iff : Processed lib t pref preflen lifetime t ↔
    (lifetime ≠ 0 → lib.hasSpace t = true → ∃ h r, t h = some r ∧ r.For pref preflen ∧ r.lifetime = lifetime) ∧
      (lifetime = 0 → ∀ h r, t h = some r → ¬ r.For pref preflen) :=
  ⟨fun h => ⟨h.added, h.removed⟩, fun ⟨hadded, hremoved⟩ => ⟨hadded, hremoved, fun _ _ hr _ => hr⟩⟩

theorem processed_removed_iff {found : Handle} {r : Route} (hr : t found = some r) :
    Processed lib t pref preflen 0 (Function.update t found none) ↔
      r.For pref preflen ∧ ∀ h r', t h = some r' → r'.For pref preflen → h = found := by
  constructor
  · intro h
    constructor
    · by_contra hother
      have hkept := h.kept found r hr hother
      rw [Function.update_self] at hkept
      cases hkept
    · intro h' r' hr' hfor
      by_contra hne
      exact h.removed rfl h' r' (by rwa [Function.update_of_ne hne]) hfor
  · intro ⟨hfor, honly⟩
    refine ⟨fun hlives => absurd rfl hlives, fun _ h' r' hr' hfor' => ?_, fun h' r' hr' hother => ?_⟩
    · by_cases heq : h' = found
      · rw [heq, Function.update_self] at hr'
        cases hr'
      · rw [Function.update_of_ne heq] at hr'
        exact heq (honly h' r' hr' hfor')
    · rwa [Function.update_of_ne (ne_of_other hr hfor hr' hother)]

/-- Changing a lifetime is right if the route is one of the prefix, or if nothing changes and nothing has to. -/
theorem processed_refreshed_iff {found : Handle} {r : Route} (hr : t found = some r) (hlives : lifetime ≠ 0) :
    Processed lib t pref preflen lifetime (setLifetime t found lifetime) ↔
      r.For pref preflen ∨ (r.lifetime = lifetime ∧
        (lib.hasSpace t = true → ∃ h r', t h = some r' ∧ r'.For pref preflen ∧ r'.lifetime = lifetime)) := by
  have hunchanged : r.lifetime = lifetime → setLifetime t found lifetime = t := by
    rintro rfl
    rw [setLifetime_some hr, ← hr, Function.update_eq_self]
  by_cases hfor : r.For pref preflen
  · refine iff_of_true ?_ (.inl hfor)
    rw [setLifetime_some hr]
    refine ⟨fun _ _ => ⟨found, _, Function.update_self _ _ _, hfor, rfl⟩, fun hzero => absurd hzero hlives,
      fun h' r' hr' hother => ?_⟩
    rwa [Function.update_of_ne (ne_of_other hr hfor hr' hother)]
  · constructor
    · intro h
      have hkept := h.kept found r hr hfor
      rw [setLifetime_some hr, Function.update_self] at hkept
      have hsame : r.lifetime = lifetime := (congrArg Route.lifetime (Option.some.inj hkept)).symm
      rw [hunchanged hsame] at h
      exact .inr ⟨hsame, h.added hlives⟩
    · rintro (h | ⟨hsame, hadded⟩)
      · exact absurd h hfor
      · rw [hunchanged hsame]
        exact processed_self_iff.mpr ⟨fun _ => hadded, fun hzero => absurd hzero hlives⟩

/-- **Route information.** The callback leaves the table the option asks for exactly if it does not mistake another route for the option's own. -/
theorem routeInfo_processed_iff (hlib : lib.Lawful) (t : Table Handle) (rio : Rio) (nextHop : Ip6addr) :
    Processed lib t rio.pref rio.preflen (uipNtohl rio.rlifetime) (uipDs6RouteInfoCallback lib t rio nextHop) ↔
      Unmistaken lib t rio.pref rio.preflen (uipNtohl rio.rlifetime) := by
  have hzero_iff := uipNtohl_eq_zero_iff rio.rlifetime
  rw [uipDs6RouteInfoCallback]
  cases hlookup : lib.lookup t rio.pref with
  | none =>
      have habsent : ∀ h r, t h = some r → ¬ r.For rio.pref rio.preflen :=
        fun h r hr hfor => hlib.lookup_none hlookup h r hr hfor.matches
      refine iff_of_true ?_ fun found r hfound _ => ?_
      · dsimp only
        split
        · rename_i hlives
          cases hadd : lib.add t rio.pref rio.preflen nextHop with
          | none =>
              have hfull := hlib.add_none.mp hadd
              refine processed_self_iff.mpr ⟨fun _ hspace => ?_, fun _ => habsent⟩
              rw [hfull] at hspace
              cases hspace
          | some added => exact processed_of_added hlib (mt hzero_iff.mp hlives) hadd
        · rename_i hgoes
          rw [hlib.rm_none]
          exact processed_self_iff.mpr ⟨fun hlives => absurd (not_not.mp hgoes) (mt hzero_iff.mpr hlives), fun _ => habsent⟩
      · rw [hlookup] at hfound
        cases hfound
  | some found =>
      obtain ⟨r, hr, _, _⟩ := hlib.lookup_some hlookup
      have hunmistaken : Unmistaken lib t rio.pref rio.preflen (uipNtohl rio.rlifetime) ↔ _ :=
        ⟨fun h => h found r hlookup hr, fun h found' r' hfound' hr' => by
          obtain rfl := Option.some.inj (hlookup.symm.trans hfound')
          obtain rfl := Option.some.inj (hr.symm.trans hr')
          exact h⟩
      rw [hunmistaken]
      dsimp only
      split
      · rename_i hgoes
        have hzero := hzero_iff.mpr hgoes
        rw [hlib.rm_some, hzero, processed_removed_iff hr]
        simp
      · rename_i hlives
        have hne := mt hzero_iff.mp hlives
        rw [processed_refreshed_iff hr hne]
        by_cases hfor : r.For rio.pref rio.preflen
        · simp only [hfor, true_or, not_true, false_and, or_false, true_and, hne, false_imp_iff]
        · simp only [hfor, false_or, not_false_iff, true_and, false_and, ne_eq, hne]

/-! ### One route for a prefix -/

/-- No two routes are for one prefix. -/
def Unique (t : Table Handle) : Prop :=
  ∀ h h' r r', t h = some r → t h' = some r' → r'.For r.ipaddr r.length → h = h'

omit [DecidableEq Handle] in
theorem Unique.of_routes {t' : Table Handle} (ht : Unique t)
    (h : ∀ h r', t' h = some r' → ∃ r, t h = some r ∧ r.ipaddr = r'.ipaddr ∧ r.length = r'.length) : Unique t' := by
  intro h₁ h₂ r₁' r₂' hr₁' hr₂' hfor
  obtain ⟨r₁, hr₁, haddr₁, hlength₁⟩ := h h₁ r₁' hr₁'
  obtain ⟨r₂, hr₂, haddr₂, hlength₂⟩ := h h₂ r₂' hr₂'
  refine ht h₁ h₂ r₁ r₂ hr₁ hr₂ ?_
  unfold Route.For at hfor ⊢
  rwa [haddr₁, hlength₁, haddr₂, hlength₂]

theorem Unique.removed (ht : Unique t) (h : Handle) : Unique (Function.update t h none) := by
  refine ht.of_routes fun h' r hr => ?_
  by_cases heq : h' = h
  · rw [heq, Function.update_self] at hr
    cases hr
  · rw [Function.update_of_ne heq] at hr
    exact ⟨r, hr, rfl, rfl⟩

theorem Unique.refreshed (ht : Unique t) (h : Handle) (lifetime : UInt32) : Unique (setLifetime t h lifetime) := by
  refine ht.of_routes fun h' r hr => ?_
  unfold setLifetime at hr
  by_cases heq : h' = h
  · rw [heq, Function.update_self] at hr
    obtain ⟨old, hold, rfl⟩ := Option.map_eq_some_iff.mp hr
    exact ⟨old, heq ▸ hold, rfl, rfl⟩
  · rw [Function.update_of_ne heq] at hr
    exact ⟨r, hr, rfl, rfl⟩

theorem Unique.added (ht : Unique t) {h : Handle} {r : Route}
    (habsent : ∀ h r', t h = some r' → ¬ r'.Matches r.ipaddr) : Unique (Function.update t h (some r)) := by
  intro h₁ h₂ r₁ r₂ hr₁ hr₂ hfor
  by_cases heq₁ : h₁ = h
  · by_cases heq₂ : h₂ = h
    · rw [heq₁, heq₂]
    · rw [heq₁, Function.update_self] at hr₁
      rw [Function.update_of_ne heq₂] at hr₂
      obtain rfl := Option.some.inj hr₁
      exact absurd hfor.matches (habsent h₂ r₂ hr₂)
  · by_cases heq₂ : h₂ = h
    · rw [Function.update_of_ne heq₁] at hr₁
      rw [heq₂, Function.update_self] at hr₂
      obtain rfl := Option.some.inj hr₂
      refine absurd ?_ (habsent h₁ r₁ hr₁)
      intro i hi
      exact (hfor.2 i hi).symm
    · rw [Function.update_of_ne heq₁] at hr₁
      rw [Function.update_of_ne heq₂] at hr₂
      exact ht h₁ h₂ r₁ r₂ hr₁ hr₂ hfor

/-- Whatever the callback mistakes, it never makes a second route for a prefix. -/
theorem unique_callback (hlib : lib.Lawful) (ht : Unique t) (rio : Rio) (nextHop : Ip6addr) :
    Unique (uipDs6RouteInfoCallback lib t rio nextHop) := by
  rw [uipDs6RouteInfoCallback]
  cases hlookup : lib.lookup t rio.pref with
  | none =>
      dsimp only
      split
      · cases hadd : lib.add t rio.pref rio.preflen nextHop with
        | none => exact ht
        | some added =>
            obtain ⟨newRoute, t'⟩ := added
            obtain ⟨_, lifetime, rfl⟩ := hlib.add_some hadd
            have hnew : Unique (Function.update t newRoute (some ⟨rio.pref, rio.preflen, nextHop, lifetime⟩)) :=
              ht.added fun h r hr => hlib.lookup_none hlookup h r hr
            exact hnew.refreshed newRoute (uipNtohl rio.rlifetime)
      · rwa [hlib.rm_none]
  | some found =>
      dsimp only
      split
      · rw [hlib.rm_some]
        exact ht.removed found
      · exact ht.refreshed found _

theorem unique_callbacks (hlib : lib.Lawful) (options : List (Rio × Ip6addr)) (ht : Unique t) :
    Unique (options.foldl (fun t option => uipDs6RouteInfoCallback lib t option.1 option.2) t) := by
  induction options generalizing t with
  | nil => exact ht
  | cons option options ih => exact ih (unique_callback hlib ht option.1 option.2)

/-! ### A table of places -/

def lengthAt {n : Nat} (t : Table (Fin n)) (h : Fin n) : Nat := ((t h).map fun r => r.length.toNat).getD 0

/-- The library on an array of places. -/
def places (n : Nat) : RouteLib (Fin n) where
  lookup t a := ((List.finRange n).filter fun h => (t h).any fun r => decide (r.Matches a)).argmax (lengthAt t)
  hasSpace t := (List.finRange n).any fun h => (t h).isNone
  add t a length nexthop :=
    ((List.finRange n).find? fun h => (t h).isNone).map fun h => (h, Function.update t h (some ⟨a, length, nexthop, 0⟩))
  rm t h :=
    match h with
    | none => t
    | some h => Function.update t h none

theorem places_lawful (n : Nat) : (places n).Lawful where
  lookup_some {t a h} hlookup := by
    have hmem := List.argmax_mem (Option.mem_def.mpr hlookup)
    rw [List.mem_filter, Option.any_eq_true] at hmem
    obtain ⟨_, r, hr, hmatches⟩ := hmem
    refine ⟨r, hr, of_decide_eq_true hmatches, fun h' r' hr' hmatches' => ?_⟩
    have hmem' : h' ∈ (List.finRange n).filter fun h => (t h).any fun r => decide (r.Matches a) := by
      rw [List.mem_filter, Option.any_eq_true]
      exact ⟨List.mem_finRange h', r', hr', decide_eq_true hmatches'⟩
    have hle := List.le_of_mem_argmax hmem' (Option.mem_def.mpr hlookup)
    rw [lengthAt, lengthAt, hr, hr'] at hle
    exact UInt8.le_iff_toNat_le.mpr hle
  lookup_none {t a} hlookup h r hr hmatches := by
    have hnil := List.argmax_eq_none.mp hlookup
    have hmem : h ∈ (List.finRange n).filter fun h => (t h).any fun r => decide (r.Matches a) := by
      rw [List.mem_filter, Option.any_eq_true]
      exact ⟨List.mem_finRange h, r, hr, decide_eq_true hmatches⟩
    rw [hnil] at hmem
    cases hmem
  add_none {t a length nexthop} := by
    simp [places]
  add_some {t a length nexthop h t'} hadd := by
    obtain ⟨h', hfind, heq⟩ := Option.map_eq_some_iff.mp hadd
    obtain ⟨rfl, rfl⟩ := Prod.mk.inj heq
    have hfree := List.find?_some hfind
    exact ⟨Option.isNone_iff_eq_none.mp hfree, 0, rfl⟩
  rm_none := rfl
  rm_some := rfl

/-- The prefix 2001:db8::, and a router. -/
def documentation : Ip6addr := #v[0x20, 0x01, 0x0d, 0xb8, 0, 0, 0, 0, 0, 0, 0, 0, 0, 0, 0, 0]
def router : Ip6addr := #v[0xfe, 0x80, 0, 0, 0, 0, 0, 0, 0, 0, 0, 0, 0, 0, 0, 1]

/-- A table of two places that holds the default route. -/
def defaultOnly : Table (Fin 2)
  | 0 => some ⟨Vector.replicate 16 0, 0, router, 1800⟩
  | _ => none

/-- The option for the prefix 2001:db8::/32 with a lifetime of 600 seconds, in network byte order. -/
def documentationRio : Rio := ⟨32, 0x58020000, documentation⟩

theorem routeInfo_processed_places :
    Processed (places 2) defaultOnly documentation 32 600
        (uipDs6RouteInfoCallback (places 2) defaultOnly documentationRio router) ↔
      Unmistaken (places 2) defaultOnly documentation 32 600 :=
  routeInfo_processed_iff (places_lawful 2) defaultOnly documentationRio router

/-- The lookup finds the default route, and it is the default route whose lifetime is changed. -/
theorem routeInfo_mistaken :
    ¬ ∀ (lib : RouteLib (Fin 2)), lib.Lawful → ∀ (t : Table (Fin 2)) (rio : Rio) (nextHop : Ip6addr),
      Processed lib t rio.pref rio.preflen (uipNtohl rio.rlifetime) (uipDs6RouteInfoCallback lib t rio nextHop) := by
  intro h
  have hkept := (h (places 2) (places_lawful 2) defaultOnly documentationRio router).kept 0
    ⟨Vector.replicate 16 0, 0, router, 1800⟩ rfl (by decide)
  exact absurd hkept (by decide)

end ContikiAtsam.RouteInfo
