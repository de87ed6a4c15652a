import ContikiAtsam.NetMonitor.Resources

/-!
# The command directive

The handler of POST and PUT compares the value of `mode` with its three words only up to the length of the value, so it takes every beginning of a word for the word, and it does not tell an empty value from an absent one. It writes its message, and the length of the message, only if the Ethernet statistics are asked for, and answers with both in any case.
-/

namespace ContikiAtsam.NetMonitor.Command

/-- `net_monitor_action_t`. -/
inductive Action where
  | nop
  | reboot
  | resetEth
  | resetWireless
  deriving DecidableEq

/-- What the REST engine documents of `REST.get_post_variable`: for a variable that is present it returns the length of its value and a pointer to it, behind which the request goes on; for one that is absent it returns zero. -/
structure Lawful {Request : Type} (value : Request → List Char → Option (List Char))
    (getPostVariable : Request → List Char → Nat × List Char) : Prop where
  present {request name v} : value request name = some v →
    ∃ rest, getPostVariable request name = (v.length, v ++ rest)
  absent {request name} : value request name = none → (getPostVariable request name).1 = 0

/-- The local variables `msg` and `length`; what has not been written is `none`. -/
structure Message where
  msg : List (Option Char)
  length : Option UInt8

inductive ContentType where
  | textPlain

/-- The response: no payload is known if its length is not. -/
structure Response where
  badRequest : Bool
  contentType : ContentType
  etag : Option UInt8
  payload : Option (List (Option Char))

/-- `sprintf` to `msg`. -/
def Message.sprintf (m : Message) (text : List Char) : Message :=
  { m with msg := (text ++ [nul]).map some ++ m.msg.drop (text.length + 1) }

/-- The first half of the handler, with what it got for `stats`: the message. -/
def printStats (var : Nat × List Char) : Message :=
  let m : Message := ⟨List.replicate 12 none, none⟩
  let (len, stats) := var
  if len ≠ 0 then
    if strncmpEq stats "eth".toList len then
      let ethStats := 0
      let text := "ETH-OVF:".toList ++ decimal ethStats
      { m.sprintf text with length := some (UInt8.ofNat text.length) }
    else m
  else m

/-- The second half, with what it got for `mode`: the action that is pending afterwards, and `success`. -/
def setAction (pendingAction : Action) (var : Nat × List Char) : Action × Bool :=
  let (len, mode) := var
  if len ≠ 0 then
    if strncmpEq mode "reboot".toList len then (.reboot, true)
    else if strncmpEq mode "nop".toList len then (.nop, true)
    else if strncmpEq mode "reset".toList len then (.resetWireless, true)
    else (pendingAction, false)
  else (pendingAction, true)

def resPostPutHandler {Request : Type} (getPostVariable : Request → List Char → Nat × List Char)
    (pendingAction : Action) (request : Request) : Response × Action :=
  let m := printStats (getPostVariable request "stats".toList)
  let (pendingAction, success) := setAction pendingAction (getPostVariable request "mode".toList)
  (⟨!success, .textPlain, m.length, m.length.map fun length => m.msg.take length.toNat⟩, pendingAction)

/-! ### What the directive is for -/

def words : List (List Char) := ["reboot".toList, "nop".toList, "reset".toList]

/-- The action a word names. -/
def named (word : List Char) : Option Action :=
  if word = "reboot".toList then some .reboot
  else if word = "nop".toList then some .nop
  else if word = "reset".toList then some .resetWireless
  else none

/-- The length and every byte of the payload have been written. -/
def Response.Initialised (r : Response) : Prop :=
  ∃ length bytes, r.etag = some length ∧ r.payload = some bytes ∧ ∀ b ∈ bytes, b ≠ none

/-- With this mode the handler sets the action that is named, and no other; it refuses what names none; and it answers with what it has written. -/
structure Obeys (pendingAction : Action) (mode : Option (List Char)) (out : Response × Action) : Prop where
  action : out.2 = (mode.bind named).getD pendingAction
  refuses : ∀ v, mode = some v → named v = none → out.1.badRequest = true
  initialised : out.1.Initialised

/-- The value is the beginning of the word, or goes on after the word's terminating NUL. -/
def Abbreviates (value word : List Char) : Prop := value <+: word ∨ word ++ [nul] <+: value

/-- The mode is absent, or one of the words, or neither empty nor to be taken for one of them. -/
def Clear : Option (List Char) → Prop
  | none => True
  | some value => value ∈ words ∨ (value ≠ [] ∧ ∀ word ∈ words, ¬ Abbreviates value word)

/-- The statistics are asked for. -/
def StatsAsked : Option (List Char) → Prop
  | none => False
  | some value => value ≠ [] ∧ Abbreviates value "eth".toList

/-! ### Comparing up to a length -/

theorem strncmpEq_cons (c b : Char) (s t : List Char) (n : Nat) :
    strncmpEq (c :: s) (b :: t) (n + 1) = if c ≠ b then false else if c = nul then true else strncmpEq s t n := rfl

/-- Compared up to its length, a value is equal to all it abbreviates, whatever stands behind it. -/
theorem strncmpEq_iff {word : List Char} (hword : nul ∉ word) (v rest : List Char) :
    strncmpEq (v ++ rest) word v.length = true ↔ Abbreviates v word := by
  unfold Abbreviates
  induction v generalizing word with
  | nil => simp [strncmpEq]
  | cons c v ih =>
      cases word with
      | nil =>
          have hstep : strncmpEq (c :: v ++ rest) [] (v.length + 1) =
              if c ≠ nul then false else if c = nul then true else strncmpEq (v ++ rest) [] v.length := rfl
          rw [List.length_cons, hstep]
          by_cases hc : c = nul
          · rw [if_neg (not_not.mpr hc), if_pos hc, hc]
            simp
          · rw [if_pos hc]
            simp [Ne.symm hc]
      | cons b word =>
          have hb : b ≠ nul := fun heq => hword (heq ▸ List.mem_cons_self)
          have ih := ih fun h => hword (List.mem_cons_of_mem b h)
          rw [List.length_cons, List.cons_append, strncmpEq_cons, List.cons_append, List.cons_prefix_cons,
            List.cons_prefix_cons]
          by_cases hc : c = b
          · rw [if_neg (not_not.mpr hc), if_neg (by rwa [hc]), ih]
            simp [hc]
          · rw [if_pos hc]
            simp [hc, Ne.symm hc]

/-! ### The action -/

theorem named_eq_none_iff (v : List Char) : named v = none ↔ v ∉ words := by
  unfold named words
  simp only [List.mem_cons, List.not_mem_nil, or_false, not_or]
  split
  · simp_all
  · split
    · simp_all
    · split <;> simp_all

theorem setAction_eq (pendingAction : Action) (v rest : List Char) :
    setAction pendingAction (v.length, v ++ rest) =
      if v.length ≠ 0 then
        if strncmpEq (v ++ rest) "reboot".toList v.length then (.reboot, true)
        else if strncmpEq (v ++ rest) "nop".toList v.length then (.nop, true)
        else if strncmpEq (v ++ rest) "reset".toList v.length then (.resetWireless, true)
        else (pendingAction, false)
      else (pendingAction, true) := rfl

theorem setAction_zero (pendingAction : Action) {var : Nat × List Char} (h : var.1 = 0) :
    setAction pendingAction var = (pendingAction, true) := by
  obtain ⟨len, mode⟩ := var
  obtain rfl : len = 0 := h
  rfl

theorem setAction_word (pendingAction : Action) {v : List Char} (h : v ∈ words) (rest : List Char) :
    setAction pendingAction (v.length, v ++ rest) = ((named v).getD pendingAction, true) := by
  simp only [words, List.mem_cons, List.not_mem_nil, or_false] at h
  rcases h with rfl | rfl | rfl
  · rfl
  · rfl
  · rfl

theorem setAction_refused (pendingAction : Action) {v : List Char} (hne : v ≠ [])
    (h : ∀ word ∈ words, ¬ Abbreviates v word) (rest : List Char) :
    setAction pendingAction (v.length, v ++ rest) = (pendingAction, false) := by
  have hreboot := mt (strncmpEq_iff (by decide) v rest).mp (h "reboot".toList (by decide))
  have hnop := mt (strncmpEq_iff (by decide) v rest).mp (h "nop".toList (by decide))
  have hreset := mt (strncmpEq_iff (by decide) v rest).mp (h "reset".toList (by decide))
  have hlen : v.length ≠ 0 := fun hzero => hne (List.length_eq_zero_iff.mp hzero)
  rw [setAction_eq, if_pos hlen, if_neg hreboot, if_neg hnop, if_neg hreset]

theorem of_setAction_refused {pendingAction : Action} {v rest : List Char}
    (h : (setAction pendingAction (v.length, v ++ rest)).2 = false) :
    v ≠ [] ∧ ∀ word ∈ words, ¬ Abbreviates v word := by
  rw [setAction_eq] at h
  split at h
  · rename_i hlen
    refine ⟨fun hnil => hlen (by rw [hnil, List.length_nil]), fun word hword habbrev => ?_⟩
    simp only [words, List.mem_cons, List.not_mem_nil, or_false] at hword
    have heq := (strncmpEq_iff (by rcases hword with rfl | rfl | rfl <;> decide) v rest).mpr habbrev
    rcases hword with rfl | rfl | rfl
    · rw [if_pos heq] at h
      cases h
    · rw [if_pos heq] at h
      split at h <;> cases h
    · rw [if_pos heq] at h
      split at h
      · cases h
      · split at h <;> cases h
  · cases h

/-! ### The message -/

theorem printStats_eq (v rest : List Char) :
    printStats (v.length, v ++ rest) =
      if v.length ≠ 0 then
        if strncmpEq (v ++ rest) "eth".toList v.length then
          { Message.sprintf ⟨List.replicate 12 none, none⟩ ("ETH-OVF:".toList ++ decimal 0) with length := some 9 }
        else ⟨List.replicate 12 none, none⟩
      else ⟨List.replicate 12 none, none⟩ := rfl

theorem printStats_length_iff (v rest : List Char) :
    (printStats (v.length, v ++ rest)).length ≠ none ↔ StatsAsked (some v) := by
  have heq : strncmpEq (v ++ rest) "eth".toList v.length = true ↔ Abbreviates v "eth".toList :=
    strncmpEq_iff (by decide) v rest
  rw [StatsAsked, printStats_eq, ← heq]
  split
  · rename_i hlen
    have hne : v ≠ [] := fun hnil => hlen (by rw [hnil, List.length_nil])
    split
    · rename_i heth
      exact iff_of_true (Option.some_ne_none 9) ⟨hne, heth⟩
    · rename_i heth
      exact iff_of_false (fun h => h rfl) fun h => heth h.2
  · rename_i hlen
    have hnil : v = [] := by simpa using hlen
    exact iff_of_false (fun h => h rfl) fun h => h.1 hnil

theorem printStats_zero {var : Nat × List Char} (h : var.1 = 0) : (printStats var).length = none := by
  obtain ⟨len, stats⟩ := var
  obtain rfl : len = 0 := h
  rfl

theorem printStats_bytes {var : Nat × List Char} {length : UInt8} (h : (printStats var).length = some length) :
    ∀ b ∈ (printStats var).msg.take length.toNat, b ≠ none := by
  obtain ⟨len, stats⟩ := var
  have hprint : printStats (len, stats) =
      if len ≠ 0 then
        if strncmpEq stats "eth".toList len then
          { Message.sprintf ⟨List.replicate 12 none, none⟩ ("ETH-OVF:".toList ++ decimal 0) with length := some 9 }
        else ⟨List.replicate 12 none, none⟩
      else ⟨List.replicate 12 none, none⟩ := rfl
  rw [hprint] at h ⊢
  split at h
  · rename_i hlen
    split at h
    · rename_i heth
      cases h
      rw [if_pos hlen, if_pos heth]
      decide
    · cases h
  · cases h

/-! ### The handler -/

variable {Request : Type} {value : Request → List Char → Option (List Char)}
  {getPostVariable : Request → List Char → Nat × List Char}

theorem initialised_iff (hrest : Lawful value getPostVariable) (pendingAction : Action) (request : Request) :
    (resPostPutHandler getPostVariable pendingAction request).1.Initialised ↔
      StatsAsked (value request "stats".toList) := by
  have hlength : (printStats (getPostVariable request "stats".toList)).length ≠ none ↔
      StatsAsked (value request "stats".toList) := by
    cases hstats : value request "stats".toList with
    | none => exact iff_of_false (fun h => h (printStats_zero (hrest.absent hstats))) id
    | some v =>
        obtain ⟨rest, hvar⟩ := hrest.present hstats
        rw [hvar]
        exact printStats_length_iff v rest
  rw [← hlength]
  constructor
  · intro ⟨length, _, hetag, _⟩ hnone
    simp only [resPostPutHandler, hnone] at hetag
    cases hetag
  · intro h
    obtain ⟨length, hlength⟩ := Option.ne_none_iff_exists'.mp h
    refine ⟨length, _, hlength, ?_, printStats_bytes hlength⟩
    simp only [resPostPutHandler, hlength, Option.map_some]

/-- **The command directive.** The handler does what the directive is for exactly if the mode is absent, or one of its words, or not to be taken for one, and the Ethernet statistics are asked for. -/
theorem directive_obeyed_iff (hrest : Lawful value getPostVariable) (pendingAction : Action) (request : Request) :
    Obeys pendingAction (value request "mode".toList) (resPostPutHandler getPostVariable pendingAction request) ↔
      Clear (value request "mode".toList) ∧ StatsAsked (value request "stats".toList) := by
  have hinit := initialised_iff hrest pendingAction request
  constructor
  · intro h
    refine ⟨?_, hinit.mp h.initialised⟩
    cases hmode : value request "mode".toList with
    | none => trivial
    | some v =>
        obtain ⟨rest, hvar⟩ := hrest.present hmode
        by_cases hword : v ∈ words
        · exact .inl hword
        · have hbad := h.refuses v hmode ((named_eq_none_iff v).mpr hword)
          simp only [resPostPutHandler, hvar, Bool.not_eq_true'] at hbad
          exact .inr (of_setAction_refused hbad)
  · intro ⟨hclear, hstats⟩
    cases hmode : value request "mode".toList with
    | none =>
        have hnop := setAction_zero pendingAction (hrest.absent hmode)
        refine ⟨?_, fun v hv => (nomatch hv), hinit.mpr hstats⟩
        simp only [resPostPutHandler, hnop, Option.bind_none, Option.getD_none]
    | some v =>
        obtain ⟨rest, hvar⟩ := hrest.present hmode
        rw [hmode] at hclear
        rcases hclear with hword | ⟨hne, hother⟩
        · refine ⟨?_, fun v' hv' hnone => ?_, hinit.mpr hstats⟩
          · simp only [resPostPutHandler, hvar, setAction_word pendingAction hword rest, Option.bind_some]
          · obtain rfl := Option.some.inj hv'
            exact absurd hword ((named_eq_none_iff v).mp hnone)
        · have hnone : named v = none :=
            (named_eq_none_iff v).mpr fun hword => hother v hword (.inl (List.prefix_refl v))
          have hrefused := setAction_refused pendingAction hne hother rest
          refine ⟨?_, fun _ _ _ => ?_, hinit.mpr hstats⟩
          · simp only [resPostPutHandler, hvar, hrefused, Option.bind_some, hnone, Option.getD_none]
          · simp only [resPostPutHandler, hvar, hrefused, Bool.not_false]

/-! ### A request as a list of variables -/

def valueIn (request : List (List Char × List Char)) (name : List Char) : Option (List Char) := request.lookup name

def getPostVariableIn (request : List (List Char × List Char)) (name : List Char) : Nat × List Char :=
  match valueIn request name with
  | some v => (v.length, v ++ "&".toList)
  | none => (0, [])

theorem lawful_getPostVariableIn : Lawful valueIn getPostVariableIn where
  present {request name v} h := by
    refine ⟨"&".toList, ?_⟩
    rw [getPostVariableIn, h]
  absent {request name} h := by
    rw [getPostVariableIn, h]

/-- The request `stats=eth&mode=re`. -/
def abbreviated : List (List Char × List Char) := [("stats".toList, "eth".toList), ("mode".toList, "re".toList)]

theorem directive_obeyed_abbreviated :
    Obeys .nop (valueIn abbreviated "mode".toList) (resPostPutHandler getPostVariableIn .nop abbreviated) ↔
      Clear (valueIn abbreviated "mode".toList) ∧ StatsAsked (valueIn abbreviated "stats".toList) :=
  directive_obeyed_iff lawful_getPostVariableIn .nop abbreviated

/-- The handler takes `re` for `reboot`. -/
theorem directive_disobeyed :
    ¬ ∀ (value : List (List Char × List Char) → List Char → Option (List Char))
      (getPostVariable : List (List Char × List Char) → List Char → Nat × List Char), Lawful value getPostVariable →
      ∀ (pendingAction : Action) (request : List (List Char × List Char)),
        Obeys pendingAction (value request "mode".toList) (resPostPutHandler getPostVariable pendingAction request) := by
  intro h
  have haction := (h valueIn getPostVariableIn lawful_getPostVariableIn .nop abbreviated).action
  exact absurd haction (by decide)

end ContikiAtsam.NetMonitor.Command
