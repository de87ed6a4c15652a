import Mathlib.Tactic.Common

/-!
# Runs

Two ways a component is driven. A component with an interface is a machine of calls: every call may fault, or it returns a result and the next state, and the component conforms to a specification when each call of every list does what the specification says of it. A component with concurrent parts is a transition system: an event either is not possible in a state or leads to the next one, and what holds along every run is proved from one step.
-/

namespace ContikiAtsam

section Calls

variable {σ α ι ω ε : Type*}

/-- Every call of the list that the abstract state allows returns, and does what `meets` says of the states before and after it, of its argument and of its result. The abstract state is the specification's own; it moves along with the calls. -/
def Conforms (call : σ → ι → Except ε (ω × σ)) (allowed : α → ι → Prop)
    (meets : σ → α → ι → ω → σ → α → Prop) : σ → α → List ι → Prop
  | _, _, [] => True
  | s, a, i :: is => allowed a i → ∃ o s' a', call s i = .ok (o, s') ∧ meets s a i o s' a' ∧
      Conforms call allowed meets s' a' is

/-- What the calls of a list answer if none faults, and the state they lead to. -/
def answers (call : σ → ι → Except ε (ω × σ)) : σ → List ι → Except ε (List ω × σ)
  | s, [] => .ok ([], s)
  | s, i :: is => do
    let (o, s') ← call s i
    let (os, s'') ← answers call s' is
    .ok (o :: os, s'')

/-- **The simulation rule.** A relation between concrete and abstract states that every allowed call keeps makes every list of calls conform. -/
theorem Conforms.of_simulation {call : σ → ι → Except ε (ω × σ)} {allowed : α → ι → Prop}
    {meets : σ → α → ι → ω → σ → α → Prop} (R : σ → α → Prop)
    (hcall : ∀ s a i, R s a → allowed a i →
      ∃ o s' a', call s i = .ok (o, s') ∧ meets s a i o s' a' ∧ R s' a') :
    ∀ (is : List ι) {s : σ} {a : α}, R s a → Conforms call allowed meets s a is
  | [], _, _, _ => trivial
  | i :: is, s, a, hR => fun hallowed => by
      obtain ⟨o, s', a', hret, hmeets, hR'⟩ := hcall s a i hR hallowed
      exact ⟨o, s', a', hret, hmeets, of_simulation R hcall is hR'⟩

/-- A specification that fixes the abstract state after the call is met call by call. -/
theorem Conforms.cons_iff {call : σ → ι → Except ε (ω × σ)} {allowed : α → ι → Prop}
    {meets : σ → α → ι → ω → σ → α → Prop} {s s' : σ} {a a' : α} {i : ι} {o : ω} {is : List ι}
    (hallowed : allowed a i) (hcall : call s i = .ok (o, s')) (hmeets : meets s a i o s' a')
    (hunique : ∀ a'', meets s a i o s' a'' → a'' = a') :
    Conforms call allowed meets s a (i :: is) ↔ Conforms call allowed meets s' a' is := by
  constructor
  · intro h
    obtain ⟨o', s'', a'', hret, hm, hrest⟩ := h hallowed
    obtain ⟨rfl, rfl⟩ := Prod.mk.inj (Except.ok.inj (hcall.symm.trans hret))
    obtain rfl := hunique a'' hm
    exact hrest
  · intro h _
    exact ⟨o, s', a', hcall, hmeets, h⟩

end Calls

section Runs

variable {σ ε : Type*} (step : σ → ε → Option σ)

/-- The state after the events, if each is possible when its turn comes. -/
def run : σ → List ε → Option σ
  | s, [] => some s
  | s, e :: es => (step s e).bind fun s' => run s' es

/-- Every event of the run meets the condition in the state it happens in. -/
def Along (cond : σ → ε → Prop) : σ → List ε → Prop
  | _, [] => True
  | s, e :: es => cond s e ∧ ∀ s', step s e = some s' → Along cond s' es

/-- The property holds in every state of the run. -/
def Always (P : σ → Prop) : σ → List ε → Prop
  | s, [] => P s
  | s, e :: es => P s ∧ ∀ s', step s e = some s' → Always P s' es

variable {step}

instance decidableAlong {cond : σ → ε → Prop} [∀ s e, Decidable (cond s e)] :
    ∀ (s : σ) (es : List ε), Decidable (Along step cond s es)
  | _, [] => isTrue trivial
  | s, e :: es =>
    match h : step s e with
    | none => decidable_of_iff (cond s e) (by simp [Along, h])
    | some s' =>
      have : Decidable (Along step cond s' es) := decidableAlong s' es
      decidable_of_iff (cond s e ∧ Along step cond s' es) (by simp [Along, h])

theorem run_cons {s s'' : σ} {e : ε} {es : List ε} :
    run step s (e :: es) = some s'' ↔ ∃ s', step s e = some s' ∧ run step s' es = some s'' := by
  simp [run, Option.bind_eq_some_iff]

theorem run_append {s : σ} {es es' : List ε} :
    run step s (es ++ es') = (run step s es).bind fun s' => run step s' es' := by
  induction es generalizing s with
  | nil => rfl
  | cons e es ih =>
      rw [List.cons_append, run, run, Option.bind_assoc]
      simp only [ih]

/-- A run found by evaluation. -/
theorem exists_run {p : σ → Bool} {s : σ} {es : List ε} (h : (run step s es).any p = true) :
    ∃ s', run step s es = some s' ∧ p s' = true := by
  cases hrun : run step s es with
  | none => simp [hrun] at h
  | some s' => exact ⟨s', rfl, by simpa [hrun] using h⟩

theorem along_of_forall {cond : σ → ε → Prop} (h : ∀ s e, cond s e) :
    ∀ (es : List ε) (s : σ), Along step cond s es
  | [], _ => trivial
  | e :: es, s => ⟨h s e, fun s' _ => along_of_forall h es s'⟩

theorem Along.and_forall {cond : σ → ε → Prop} {Q : ε → Prop} {es : List ε} {s : σ} (h : Along step cond s es)
    (hQ : ∀ e ∈ es, Q e) : Along step (fun s e => cond s e ∧ Q e) s es := by
  induction es generalizing s with
  | nil => trivial
  | cons e es ih =>
      refine ⟨⟨h.1, hQ e (List.mem_cons_self ..)⟩, fun s' hs' => ?_⟩
      exact ih (h.2 s' hs') fun e' he' => hQ e' (List.mem_cons_of_mem e he')

theorem along_singleton {cond : σ → ε → Prop} {s : σ} {e : ε} : Along step cond s [e] ↔ cond s e := by
  simp [Along]

theorem along_congr {cond cond' : σ → ε → Prop} (h : ∀ s e, cond s e ↔ cond' s e) :
    ∀ (es : List ε) (s : σ), Along step cond s es ↔ Along step cond' s es
  | [], _ => Iff.rfl
  | e :: es, s => and_congr (h s e) (forall_congr' fun s' => imp_congr_right fun _ => along_congr h es s')

/-- **The invariant rule.** What every step that meets the condition keeps, holds at the end of every run whose steps all meet it. -/
theorem invariant_along (cond : σ → ε → Prop) (I : σ → Prop)
    (hstep : ∀ s e s', I s → cond s e → step s e = some s' → I s') :
    ∀ (es : List ε) {s s' : σ}, I s → Along step cond s es → run step s es = some s' → I s'
  | [], s, s', hI, _, hrun => by
      obtain rfl := Option.some.inj hrun
      exact hI
  | e :: es, s, s'', hI, halong, hrun => by
      obtain ⟨s', hs', hrest⟩ := run_cons.mp hrun
      exact invariant_along cond I hstep es (hstep s e s' hI halong.1 hs') (halong.2 s' hs') hrest

/-- The invariant rule for what is said of a state and the events that have led to it. -/
theorem history_along (cond : σ → ε → Prop) (I : List ε → σ → Prop)
    (hstep : ∀ es s e s', I es s → cond s e → step s e = some s' → I (es ++ [e]) s') :
    ∀ (es' : List ε) {es : List ε} {s s' : σ}, I es s → Along step cond s es' → run step s es' = some s' → I (es ++ es') s'
  | [], es, s, s', hI, _, hrun => by
      obtain rfl := Option.some.inj hrun
      rwa [List.append_nil]
  | e :: es', es, s, s'', hI, halong, hrun => by
      obtain ⟨s', hs', hrest⟩ := run_cons.mp hrun
      have hnext := history_along cond I hstep es' (hstep es s e s' hI halong.1 hs') (halong.2 s' hs') hrest
      rwa [List.append_assoc] at hnext

theorem invariant_run (I : σ → Prop) (hstep : ∀ s e s', I s → step s e = some s' → I s')
    (es : List ε) {s s' : σ} (hI : I s) (hrun : run step s es = some s') : I s' :=
  invariant_along (fun _ _ => True) I (fun s e s' hI _ => hstep s e s' hI) es hI
    (along_of_forall (fun _ _ => trivial) es s) hrun

theorem along_iff_along {cond cond' keeps : σ → ε → Prop} (I : σ → Prop)
    (hiff : ∀ s e, I s → (cond s e ↔ cond' s e))
    (hstep : ∀ s e s', I s → keeps s e → cond s e → step s e = some s' → I s') :
    ∀ (es : List ε) {s : σ}, I s → Along step keeps s es → (Along step cond s es ↔ Along step cond' s es)
  | [], _, _, _ => Iff.rfl
  | e :: es, s, hI, hkeeps => by
      rw [Along, Along, ← hiff s e hI]
      refine and_congr_right fun hcond => forall_congr' fun s' => imp_congr_right fun hs' => ?_
      exact along_iff_along I hiff hstep es (hstep s e s' hI hkeeps.1 hcond hs') (hkeeps.2 s' hs')

theorem always_of_along {cond keeps : σ → ε → Prop} {P : σ → Prop} (I : σ → Prop) (hP : ∀ s, I s → P s)
    (hstep : ∀ s e s', I s → keeps s e → cond s e → step s e = some s' → I s') :
    ∀ (es : List ε) {s : σ}, I s → Along step keeps s es → Along step cond s es → Always step P s es
  | [], s, hI, _, _ => hP s hI
  | e :: es, s, hI, hkeeps, hcond => by
      refine ⟨hP s hI, fun s' hs' => ?_⟩
      exact always_of_along I hP hstep es (hstep s e s' hI hkeeps.1 hcond.1 hs') (hkeeps.2 s' hs') (hcond.2 s' hs')

theorem Always.first {P : σ → Prop} : ∀ {es : List ε} {s : σ}, Always step P s es → P s
  | [], _, h => h
  | _ :: _, _, h => h.1

theorem Always.last {P : σ → Prop} : ∀ {es : List ε} {s s' : σ}, Always step P s es → run step s es = some s' → P s'
  | [], _, _, h, hrun => by
      obtain rfl := Option.some.inj hrun
      exact h
  | _ :: _, _, _, h, hrun => by
      obtain ⟨s', hs', hrest⟩ := run_cons.mp hrun
      exact (h.2 s' hs').last hrest

theorem Always.snoc {P : σ → Prop} {e : ε} {s₂ : σ} : ∀ {es : List ε} {s s₁ : σ}, Always step P s es →
    run step s es = some s₁ → step s₁ e = some s₂ → P s₂ → Always step P s (es ++ [e])
  | [], _, _, h, hrun, hstep, hP => by
      obtain rfl := Option.some.inj hrun
      refine ⟨h, fun s' hs' => ?_⟩
      rwa [← Option.some.inj (hstep.symm.trans hs')]
  | _ :: _, _, _, h, hrun, hstep, hP => by
      obtain ⟨s', hs', hrest⟩ := run_cons.mp hrun
      refine ⟨h.1, fun t ht => ?_⟩
      obtain rfl := Option.some.inj (hs'.symm.trans ht)
      exact (h.2 s' hs').snoc hrest hstep hP

/-- **The rule of exact conditions.** If a step makes a property fail exactly when it breaks the condition, and nothing makes it hold again, then the property holds at the end of a run exactly if every step met the condition. `B` bounds the run: what it says of the end it says of every state before. -/
theorem iff_along {cond : σ → ε → Prop} {I B P : σ → Prop}
    (hstep : ∀ s e s', I s → step s e = some s' → I s')
    (hback : ∀ s e s', step s e = some s' → B s' → B s)
    (hiff : ∀ s e s', I s → B s' → step s e = some s' → (P s' ↔ P s ∧ cond s e)) :
    ∀ (es : List ε) {s s' : σ}, I s → run step s es = some s' → B s' →
      (P s' ↔ P s ∧ Along step cond s es) := by
  have hstart : ∀ (es : List ε) {s s' : σ}, run step s es = some s' → B s' → B s := by
    intro es
    induction es with
    | nil =>
        intro s s' hrun hB
        obtain rfl := Option.some.inj hrun
        exact hB
    | cons e es ih =>
        intro s s'' hrun hB
        obtain ⟨s', hs', hrest⟩ := run_cons.mp hrun
        exact hback s e s' hs' (ih hrest hB)
  intro es
  induction es with
  | nil =>
      intro s s' _ hrun _
      obtain rfl := Option.some.inj hrun
      simp [Along]
  | cons e es ih =>
      intro s s'' hI hrun hB
      obtain ⟨s', hs', hrest⟩ := run_cons.mp hrun
      rw [ih (hstep s e s' hI hs') hrest hB, hiff s e s' hI (hstart es hrest hB) hs', and_assoc]
      refine and_congr_right fun _ => and_congr_right fun _ => ⟨?_, fun h => h s' hs'⟩
      intro h s₁ hs₁
      obtain rfl := Option.some.inj (hs'.symm.trans hs₁)
      exact h

/-- If the condition on an event says whether it goes through and the property holds after it, then a run goes through with the property in every state exactly if every step meets the condition. -/
theorem completes_iff_along {cond : σ → ε → Prop} {P : σ → Prop}
    (hiff : ∀ s e, P s → ((∃ s', step s e = some s' ∧ P s') ↔ cond s e)) (es : List ε) {s : σ} (hs : P s) :
    ((∃ s', run step s es = some s') ∧ Always step P s es) ↔ Along step cond s es := by
  induction es generalizing s with
  | nil => exact iff_of_true ⟨⟨s, rfl⟩, hs⟩ trivial
  | cons e es ih =>
      constructor
      · rintro ⟨⟨s'', hrun⟩, _, hnext⟩
        obtain ⟨s', hs', hrest⟩ := run_cons.mp hrun
        have halways := hnext s' hs'
        have hP : P s' := halways.first
        refine ⟨(hiff s e hs).mp ⟨s', hs', hP⟩, fun s₂ hs₂ => ?_⟩
        obtain rfl := Option.some.inj (hs'.symm.trans hs₂)
        exact (ih hP).mp ⟨⟨s'', hrest⟩, halways⟩
      · rintro ⟨hcond, hnext⟩
        obtain ⟨s', hs', hP⟩ := (hiff s e hs).mpr hcond
        obtain ⟨⟨s'', hrest⟩, halways⟩ := (ih hP).mpr (hnext s' hs')
        refine ⟨⟨s'', run_cons.mpr ⟨s', hs', hrest⟩⟩, hs, fun s₂ hs₂ => ?_⟩
        obtain rfl := Option.some.inj (hs'.symm.trans hs₂)
        exact halways

/-! ### One event again and again -/

/-- The same event over and over, and nothing else. -/
def Repeats (step : σ → ε → Option σ) (e : ε) (s s' : σ) : Prop := ∃ k, run step s (List.replicate k e) = some s'

theorem Repeats.refl (e : ε) (s : σ) : Repeats step e s s := ⟨0, rfl⟩

theorem Repeats.head {e : ε} {s s' s'' : σ} (h : step s e = some s') (hrest : Repeats step e s' s'') :
    Repeats step e s s'' := by
  obtain ⟨k, hk⟩ := hrest
  exact ⟨k + 1, run_cons.mpr ⟨s', h, hk⟩⟩

theorem Repeats.unique {e : ε} {s a b : σ} (ha : Repeats step e s a) (hstop : step a e = none)
    (hb : Repeats step e s b) (hstop' : step b e = none) : a = b := by
  obtain ⟨k, hk⟩ := ha
  obtain ⟨m, hm⟩ := hb
  induction k generalizing s m with
  | zero =>
      obtain rfl := Option.some.inj hk
      cases m with
      | zero => exact Option.some.inj hm
      | succ m =>
          obtain ⟨s', hs', _⟩ := run_cons.mp hm
          rw [hstop] at hs'
          cases hs'
  | succ k ih =>
      obtain ⟨s', hs', hk⟩ := run_cons.mp hk
      cases m with
      | zero =>
          obtain rfl := Option.some.inj hm
          rw [hstop'] at hs'
          cases hs'
      | succ m =>
          obtain ⟨s'', hs'', hm⟩ := run_cons.mp hm
          obtain rfl := Option.some.inj (hs'.symm.trans hs'')
          exact ih hk m hm

end Runs

end ContikiAtsam
