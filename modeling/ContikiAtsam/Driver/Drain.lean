import ContikiAtsam.Driver.Elements

/-!
# Every pending element is accounted for

In every state the allocated blocks are the linked ones, but for one that the TX branch has freed and not popped yet. A call that fails gives back what it has taken, and the branch removes the acknowledged elements from the front of the list, whatever the callbacks append behind.
-/

namespace ContikiAtsam

/-- The callback of the first element is called and the element not popped yet. -/
def DrainPc.headCalled : DrainPc → Bool
  | .called _ | .freed _ => true
  | _ => false

namespace TxQueue

open Chain

variable {lib : ContikiLib} {s s' : TxQueue lib} {e : TxQueueEvent} {ptrs : List Nat}

/-- The elements whose callback the poll handler has not called yet. -/
def awaiting (s : TxQueue lib) (ptrs : List Nat) : List PendingElement :=
  if s.pc.headCalled then (ptrs.map s.elem).tail else ptrs.map s.elem

/-- The local pointer of the branch is at the start of the list. -/
def Cursor (s : TxQueue lib) (ptrs : List Nat) : Prop :=
  match s.pc with
  | .idle => True
  | .test p _ => p = ptrs.head?
  | .called p | .freed p => ptrs.head? = some p ∧ (s.elem p).isAcked = true
  | .popped p => s.next p = ptrs.head?

theorem Cursor.congr (h : s.Cursor ptrs) (hpc : s'.pc = s.pc)
    (helem : ∀ p ∈ ptrs, (s.elem p).isAcked = true → (s'.elem p).isAcked = true)
    (hnext : ∀ p, s.pc = .popped p → s'.next p = s.next p) : s'.Cursor ptrs := by
  unfold Cursor at h ⊢
  rw [hpc]
  split at h
  · trivial
  · exact h
  · exact ⟨h.1, helem _ (List.mem_of_head? h.1) h.2⟩
  · exact ⟨h.1, helem _ (List.mem_of_head? h.1) h.2⟩
  · next p hpopped =>
    rw [hnext p hpopped]
    exact h

/-- The list goes through the blocks `ptrs`, which are the allocated ones. -/
structure Keeps (s : TxQueue lib) (ptrs : List Nat) : Prop where
  chain : Links s.next (lib.listHead s.list) ptrs
  nodup : ptrs.Nodup
  bound : ∀ p ∈ ptrs, p < lib.blocks
  allocated : ∀ p, lib.allocated s.mem p ↔ p ∈ ptrs ∧ s.pc ≠ .freed p
  cursor : s.Cursor ptrs
  ackedFirst : AckedFirst (ptrs.map s.elem)
  order : s.accepted = s.polled.map Prod.fst ++ (s.awaiting ptrs).map PendingElement.call
  acks : s.acks = s.polled.length + (s.awaiting ptrs).countP PendingElement.isAcked

theorem Keeps.length_le (hs : Keeps s ptrs) : ptrs.length ≤ lib.blocks := length_le_of_nodup hs.nodup hs.bound

theorem Keeps.linked_eq (hs : Keeps s ptrs) : s.linked = ptrs := hs.chain.walk_eq hs.length_le

theorem Keeps.pending_eq (hs : Keeps s ptrs) : s.pending = ptrs.map s.elem := by rw [pending, hs.linked_eq]

theorem Keeps.head_acked (hs : Keeps s ptrs) (hcalled : s.pc.headCalled = true) :
    ∃ p ps, ptrs = p :: ps ∧ (s.elem p).isAcked = true := by
  have hcursor := hs.cursor
  unfold Cursor at hcursor
  cases hpc : s.pc with
  | called p | freed p =>
      rw [hpc] at hcursor
      obtain ⟨ps, rfl⟩ := List.head?_eq_some_iff.mp hcursor.1
      exact ⟨p, ps, rfl, hcursor.2⟩
  | idle | test | popped =>
      rw [hpc] at hcalled
      cases hcalled

theorem keeps_init (hlib : lib.Lawful) (elem : Nat → PendingElement) (tx : TxRing) : Keeps (init lib elem tx) [] where
  chain := hlib.head_init
  nodup := List.nodup_nil
  bound := by simp
  allocated := fun p => iff_of_false (hlib.init_free p) (by simp)
  cursor := trivial
  ackedFirst := List.Pairwise.nil
  order := rfl
  acks := rfl

/-! ### The acknowledgement -/

/-- The search through the links is the search through the list of elements. -/
theorem acknowledge_of_find (elem : Nat → PendingElement) (status : UInt32) {p : Nat} (hnodup : ptrs.Nodup)
    (hfind : ptrs.find? (fun q => !(elem q).isAcked) = some p) :
    acknowledge status (ptrs.map elem) =
      some (ptrs.map (Function.update elem p { elem p with isAcked := true, status })) := by
  induction ptrs with
  | nil => cases hfind
  | cons q qs ih =>
      obtain ⟨hfresh, hrest⟩ := List.nodup_cons.mp hnodup
      rw [List.map_cons, acknowledge]
      cases hq : (elem q).isAcked with
      | true =>
          rw [List.find?_cons_of_neg (by simp [hq])] at hfind
          have hmem := List.mem_of_find?_eq_some hfind
          have hne : q ≠ p := by
            rintro rfl
            exact hfresh hmem
          simp [ih hrest hfind, hne]
      | false =>
          rw [List.find?_cons_of_pos (by simp [hq])] at hfind
          obtain rfl := Option.some.inj hfind
          have hsame : qs.map (Function.update elem q { elem q with isAcked := true, status }) = qs.map elem := by
            apply List.map_congr_left
            intro r hr
            rw [Function.update_of_ne]
            rintro rfl
            exact hfresh hr
          simp [hsame]

theorem Keeps.map_acked (hs : Keeps s ptrs) {status : UInt32} (h : s.gmacDevTxCallback status = some s') :
    acknowledge status (ptrs.map s.elem) = some (ptrs.map s'.elem) := by
  obtain ⟨p, hsearch, rfl⟩ := Option.map_eq_some_iff.mp h
  rw [hs.chain.search_eq hs.length_le] at hsearch
  exact acknowledge_of_find s.elem status hs.nodup hsearch

theorem Keeps.ack (hs : Keeps s ptrs) {status : UInt32} (h : s.gmacDevTxCallback status = some s') :
    Keeps s' ptrs ∧ s'.pc = s.pc := by
  have hack := hs.map_acked h
  obtain ⟨p, _, rfl⟩ := Option.map_eq_some_iff.mp h
  set elem' := Function.update s.elem p { s.elem p with isAcked := true, status } with helem
  have hawaiting : acknowledge status (s.awaiting ptrs) = some (awaiting { s with elem := elem' } ptrs) := by
    unfold awaiting
    dsimp only
    split
    · next hcalled =>
      obtain ⟨p, ps, rfl, hp⟩ := hs.head_acked hcalled
      exact acknowledge_tail hack (by simpa using hp) (List.cons_ne_nil _ _)
    · exact hack
  refine ⟨⟨hs.chain, hs.nodup, hs.bound, hs.allocated, ?_, acknowledge_ackedFirst hack hs.ackedFirst, ?_, ?_⟩, rfl⟩
  · refine hs.cursor.congr rfl ?_ fun _ _ => rfl
    intro q _ hacked
    change (elem' q).isAcked = true
    rw [helem, Function.update_apply]
    split
    · rfl
    · exact hacked
  · change s.accepted = _ ++ (awaiting { s with elem := elem' } ptrs).map _
    rw [acknowledge_calls hawaiting]
    exact hs.order
  · change s.acks + 1 = s.polled.length + (awaiting { s with elem := elem' } ptrs).countP _
    rw [acknowledge_countP hawaiting, ← Nat.add_assoc, ← hs.acks]

/-! ### A call of `gmac_driver_tx` -/

theorem Keeps.congr (hs : Keeps s ptrs) (hchain : Links s'.next (lib.listHead s'.list) ptrs)
    (helem : ∀ p ∈ ptrs, s'.elem p = s.elem p) (hallocated : ∀ p, lib.allocated s'.mem p ↔ lib.allocated s.mem p)
    (hpc : s'.pc = s.pc) (hidle : ∀ p, s.pc ≠ .popped p) (haccepted : s'.accepted = s.accepted)
    (hpolled : s'.polled = s.polled) (hacks : s'.acks = s.acks) : Keeps s' ptrs := by
  have hmap : ptrs.map s'.elem = ptrs.map s.elem := List.map_congr_left helem
  have hawaiting : s'.awaiting ptrs = s.awaiting ptrs := by rw [awaiting, awaiting, hpc, hmap]
  refine ⟨hchain, hs.nodup, hs.bound, ?_, ?_, ?_, ?_, ?_⟩
  · intro p
    rw [hallocated, hpc]
    exact hs.allocated p
  · refine hs.cursor.congr hpc ?_ fun p hpopped => absurd hpopped (hidle p)
    intro p hp hacked
    rwa [helem p hp]
  · rw [hmap]
    exact hs.ackedFirst
  · rw [haccepted, hpolled, hawaiting]
    exact hs.order
  · rw [hacks, hpolled, hawaiting]
    exact hs.acks

/-- The call fails: no block is left or the device does not take the frame. -/
def Fails (s : TxQueue lib) (size : Nat) : Prop := lib.membAlloc s.mem = none ∨ (s.tx.gmacDevWrite size).1 ≠ .ok

/-- What a call that fails leaves behind: one callback with an error, and all else as before. -/
structure Refused (s s' : TxQueue lib) : Prop where
  allocated : ∀ p, lib.allocated s'.mem p ↔ lib.allocated s.mem p
  list : s'.list = s.list
  links : ∀ p ∈ s.linked, s'.next p = s.next p
  elem : ∀ p ∈ s.linked, s'.elem p = s.elem p
  tx : s'.tx = s.tx
  pc : s'.pc = s.pc
  acks : s'.acks = s.acks
  accepted : s'.accepted = s.accepted
  polled : s'.polled = s.polled
  callback : ∃ macStatus, macStatus ≠ .ok ∧ s'.refused = s.refused ++ [(s.submitted, macStatus)]

/-- What a call that succeeds does: it links a block that was free. -/
structure Taken (s : TxQueue lib) (addr : Linkaddr6) (p : Nat) (s' : TxQueue lib) : Prop where
  fresh : ¬ lib.allocated s.mem p
  bound : p < lib.blocks
  allocated : ∀ q, lib.allocated s'.mem q ↔ q = p ∨ lib.allocated s.mem q
  list : ∃ next, next p = none ∧ (∀ q, q ≠ p → next q = s.next q) ∧
    s'.list = (lib.listAdd s.list next p).1 ∧ s'.next = (lib.listAdd s.list next p).2
  elem : ∀ q, q ≠ p → s'.elem q = s.elem q
  isAcked : (s'.elem p).isAcked = false
  call : (s'.elem p).call = s.submitted
  addr : (s'.elem p).addr = addr
  pc : s'.pc = s.pc
  acks : s'.acks = s.acks
  accepted : s'.accepted = s.accepted ++ [s.submitted]
  refused : s'.refused = s.refused
  polled : s'.polled = s.polled

theorem macWriteStatus_of_failed {status : GmacStatus} (h : status ∈ [.txBusy, .param]) :
    ∃ macStatus, macWriteStatus status = some macStatus ∧ macStatus ≠ .ok := by
  simp only [List.mem_cons, List.not_mem_nil, or_false] at h
  rcases h with rfl | rfl <;> exact ⟨_, rfl, by decide⟩

/-- **What `gmac_driver_tx` does** where no block is freed behind the back of the list. -/
theorem gmacDriverTx_spec (hlib : lib.Lawful) (s : TxQueue lib) (size : Nat) (addr : Linkaddr6)
    (hlinked : ∀ p ∈ s.linked, lib.allocated s.mem p) :
    ∃ s', s.gmacDriverTx size addr = some s' ∧
      (s.Fails size ∧ Refused s s' ∨ ¬ s.Fails size ∧ ∃ p, Taken s addr p s') := by
  unfold gmacDriverTx Fails
  dsimp only
  cases halloc : lib.membAlloc s.mem with
  | none =>
      refine ⟨_, rfl, Or.inl ⟨Or.inl rfl, ?_⟩⟩
      exact ⟨fun _ => Iff.rfl, rfl, fun _ _ => rfl, fun _ _ => rfl, rfl, rfl, rfl, rfl, rfl, .errFatal, by decide, rfl⟩
  | some alloc =>
      obtain ⟨p, mem⟩ := alloc
      dsimp only
      obtain ⟨hbound, hfresh⟩ := hlib.alloc_fresh halloc
      have hallocated := hlib.alloc_allocated halloc
      have hne : ∀ q ∈ s.linked, q ≠ p := by
        rintro q hq rfl
        exact hfresh (hlinked q hq)
      rcases s.tx.gmacDevWrite_eq size with hok | ⟨hfail, htx⟩
      · refine ⟨_, by rw [hok]; rfl, Or.inr ⟨by simp [hok], p, ?_⟩⟩
        exact
          { fresh := hfresh
            bound := hbound
            allocated := hallocated
            list := ⟨Function.update s.next p none, by simp, fun q hq => by simp [hq], rfl, rfl⟩
            elem := fun q hq => Function.update_of_ne hq _ _
            isAcked := by simp
            call := by simp
            addr := by simp
            pc := rfl
            acks := rfl
            accepted := rfl
            refused := rfl
            polled := rfl }
      · obtain ⟨macStatus, hmac, herr⟩ := macWriteStatus_of_failed hfail
        have hnotOk : (s.tx.gmacDevWrite size).1 ≠ .ok := by
          intro hok
          rw [hok] at hmac
          exact herr (Option.some.inj hmac).symm
        refine ⟨_, by rw [hmac, Option.map_some, if_neg herr], Or.inl ⟨Or.inr hnotOk, ?_⟩⟩
        exact
          { allocated := hlib.free_alloc halloc
            list := rfl
            links := fun q hq => Function.update_of_ne (hne q hq) _ _
            elem := fun q hq => Function.update_of_ne (hne q hq) _ _
            tx := htx
            pc := rfl
            acks := rfl
            accepted := rfl
            polled := rfl
            callback := ⟨macStatus, herr, rfl⟩ }

theorem runsUpper_not_freed (hupper : s.runsUpper = true) (p : Nat) : s.pc ≠ .freed p := by
  intro hpc
  rw [runsUpper, hpc] at hupper
  cases hupper

theorem Keeps.refused (hs : Keeps s ptrs) (h : Refused s s') (hupper : s.runsUpper = true) : Keeps s' ptrs := by
  have hlinks := h.links
  have helem := h.elem
  rw [hs.linked_eq] at hlinks helem
  refine hs.congr ?_ helem h.allocated h.pc ?_ h.accepted h.polled h.acks
  · rw [h.list]
    exact hs.chain.congr hlinks
  · intro p hpc
    rw [runsUpper, hpc] at hupper
    cases hupper

theorem Keeps.not_mem_taken (hs : Keeps s ptrs) {addr : Linkaddr6} {p : Nat} (h : Taken s addr p s')
    (hupper : s.runsUpper = true) : p ∉ ptrs := by
  intro hmem
  exact h.fresh ((hs.allocated p).mpr ⟨hmem, runsUpper_not_freed hupper p⟩)

theorem Keeps.map_taken (hs : Keeps s ptrs) {addr : Linkaddr6} {p : Nat} (h : Taken s addr p s')
    (hupper : s.runsUpper = true) : (ptrs ++ [p]).map s'.elem = ptrs.map s.elem ++ [s'.elem p] := by
  have hsame : ptrs.map s'.elem = ptrs.map s.elem := by
    apply List.map_congr_left
    intro q hq
    apply h.elem
    rintro rfl
    exact hs.not_mem_taken h hupper hq
  rw [List.map_append, hsame]
  rfl

theorem Keeps.taken (hlib : lib.Lawful) (hs : Keeps s ptrs) {addr : Linkaddr6} {p : Nat} (h : Taken s addr p s')
    (hupper : s.runsUpper = true) : Keeps s' (ptrs ++ [p]) := by
  have hnotFreed := runsUpper_not_freed hupper
  have hfresh := hs.not_mem_taken h hupper
  have hne : ∀ q ∈ ptrs, q ≠ p := by
    rintro q hq rfl
    exact hfresh hq
  have hnodup : (ptrs ++ [p]).Nodup := by
    rw [List.nodup_append]
    refine ⟨hs.nodup, List.nodup_singleton p, ?_⟩
    intro q hq r hr
    rw [List.mem_singleton.mp hr]
    exact hne q hq
  have hbound : ∀ q ∈ ptrs ++ [p], q < lib.blocks := by
    intro q hq
    rcases List.mem_append.mp hq with hq | hq
    · exact hs.bound q hq
    · rw [List.mem_singleton.mp hq]
      exact h.bound
  have hmap := hs.map_taken h hupper
  have hawaiting : s'.awaiting (ptrs ++ [p]) = s.awaiting ptrs ++ [s'.elem p] := by
    unfold awaiting
    rw [h.pc, hmap]
    split
    · next hcalled =>
      obtain ⟨q, qs, rfl, _⟩ := hs.head_acked hcalled
      rfl
    · rfl
  refine ⟨?_, hnodup, hbound, ?_, ?_, ?_, ?_, ?_⟩
  · obtain ⟨next, _, hsame, hlist, hnext⟩ := h.list
    rw [hlist, hnext]
    exact hlib.add (hs.chain.congr fun q hq => hsame q (hne q hq)) hnodup hbound
  · intro q
    rw [h.allocated, hs.allocated, h.pc, List.mem_append, List.mem_singleton]
    have := hnotFreed q
    tauto
  · have hcursor := hs.cursor
    unfold Cursor at hcursor ⊢
    rw [h.pc]
    unfold runsUpper at hupper
    split at hupper
    · next hpc => rw [hpc]; trivial
    · next q hpc =>
      rw [hpc] at hcursor ⊢
      obtain ⟨qs, rfl⟩ := List.head?_eq_some_iff.mp hcursor.1
      exact ⟨rfl, by rw [h.elem q (hne q (List.mem_cons_self ..))]; exact hcursor.2⟩
    · cases hupper
  · rw [hmap]
    exact hs.ackedFirst.append h.isAcked
  · rw [h.accepted, h.polled, hawaiting, hs.order, List.map_append, List.append_assoc]
    simp [h.call]
  · rw [h.acks, h.polled, hawaiting, hs.acks, List.countP_append]
    simp [h.isAcked]

/-! ### A step of the branch -/

/-- What a step of the branch leads to. -/
inductive Thread (s : TxQueue lib) : TxQueue lib → Prop where
  | leave (p : Option Nat) (hpc : s.pc = .test p false) (hstop : ∀ q ∈ p, (s.elem q).isAcked = false) :
      Thread s { s with pc := .idle }
  | call (p : Nat) (notFound : Bool) (txStatus : MacTx) (hpc : s.pc = .test (some p) notFound)
      (hacked : (s.elem p).isAcked = true) :
      Thread s { s with polled := s.polled ++ [((s.elem p).call, txStatus)], pc := .called p }
  | free (p : Nat) (hpc : s.pc = .called p) : Thread s { s with mem := lib.membFree s.mem p, pc := .freed p }
  | pop (p : Nat) (hpc : s.pc = .freed p) :
      Thread s
        { s with list := (lib.listPop s.list s.next).1, next := (lib.listPop s.list s.next).2, pc := .popped p }
  | advance (p : Nat) (hpc : s.pc = .popped p) : Thread s { s with pc := .test (s.next p) false }

theorem leave_cases {p : Option Nat} {notFound : Bool} (hpc : s.pc = .test p notFound)
    (hstop : ∀ q ∈ p, (s.elem q).isAcked = false) (h : s.leave notFound = some s') : Thread s s' := by
  unfold leave at h
  cases notFound with
  | true => cases h
  | false =>
      obtain rfl := Option.some.inj h
      exact .leave p hpc hstop

theorem threadStep_cases (h : s.threadStep = some s') : Thread s s' := by
  unfold threadStep at h
  split at h
  · cases h
  · next notFound hpc => exact leave_cases hpc (by simp) h
  · next p notFound hpc =>
    split at h
    · next hacked =>
      obtain ⟨txStatus, _, rfl⟩ := Option.map_eq_some_iff.mp h
      exact .call p notFound txStatus hpc hacked
    · next hacked => exact leave_cases hpc (by simpa using hacked) h
  · next p hpc =>
    obtain rfl := Option.some.inj h
    exact .free p hpc
  · next p hpc =>
    obtain rfl := Option.some.inj h
    exact .pop p hpc
  · next p hpc =>
    obtain rfl := Option.some.inj h
    exact .advance p hpc

theorem Keeps.thread (hlib : lib.Lawful) (hs : Keeps s ptrs) (h : Thread s s') : ∃ ptrs', Keeps s' ptrs' := by
  have hcursor := hs.cursor
  have hallocated := hs.allocated
  have horder := hs.order
  have hacks := hs.acks
  unfold Cursor at hcursor
  unfold awaiting at horder hacks
  cases h with
  | leave p hpc hstop =>
      simp only [hpc, DrainPc.headCalled] at horder hacks
      exact ⟨ptrs, hs.chain, hs.nodup, hs.bound, fun q => by simpa [hpc] using hallocated q, trivial, hs.ackedFirst,
        horder, hacks⟩
  | call p notFound txStatus hpc hacked =>
      rw [hpc] at hcursor
      obtain ⟨ps, rfl⟩ := List.head?_eq_some_iff.mp hcursor.symm
      have hcount : ((p :: ps).map s.elem).countP PendingElement.isAcked =
          (ps.map s.elem).countP PendingElement.isAcked + 1 := by
        simp [hacked]
      simp only [hpc, DrainPc.headCalled, Bool.false_eq_true, if_false, hcount] at horder hacks
      refine ⟨p :: ps, hs.chain, hs.nodup, hs.bound, fun q => by simpa [hpc] using hallocated q, ⟨rfl, hacked⟩,
        hs.ackedFirst, ?_, ?_⟩
      · simpa [awaiting, DrainPc.headCalled] using horder
      · simp only [awaiting, DrainPc.headCalled, if_true, List.map_cons, List.tail_cons, List.length_append,
          List.length_singleton]
        omega
  | free p hpc =>
      rw [hpc] at hcursor
      obtain ⟨ps, rfl⟩ := List.head?_eq_some_iff.mp hcursor.1
      have hused : lib.allocated s.mem p := (hallocated p).mpr ⟨List.mem_cons_self .., by simp [hpc]⟩
      simp only [hpc, DrainPc.headCalled] at horder hacks
      refine ⟨p :: ps, hs.chain, hs.nodup, hs.bound, ?_, hcursor, hs.ackedFirst, horder, hacks⟩
      intro q
      rw [hlib.free_allocated hused, hallocated q, hpc]
      simp only [ne_eq, DrainPc.freed.injEq, reduceCtorEq, not_false_eq_true, and_true]
      tauto
  | pop p hpc =>
      rw [hpc] at hcursor
      obtain ⟨ps, rfl⟩ := List.head?_eq_some_iff.mp hcursor.1
      obtain ⟨hchain, hkept⟩ := hlib.pop hs.chain
      obtain ⟨hfresh, hnodup⟩ := List.nodup_cons.mp hs.nodup
      simp only [hpc, DrainPc.headCalled] at horder hacks
      have hbound : ∀ q ∈ ps, q < lib.blocks := fun q hq => hs.bound q (List.mem_cons_of_mem p hq)
      refine ⟨ps, hchain, hnodup, hbound, ?_, ?_, hs.ackedFirst.tail, horder, hacks⟩
      · intro q
        rw [hallocated q, hpc, List.mem_cons]
        simp only [ne_eq, DrainPc.freed.injEq, reduceCtorEq, not_false_eq_true, and_true]
        constructor
        · rintro ⟨rfl | hq, hne⟩
          · exact absurd rfl hne
          · exact hq
        · intro hq
          refine ⟨Or.inr hq, ?_⟩
          rintro rfl
          exact hfresh hq
      · change (lib.listPop s.list s.next).2 p = ps.head?
        rw [hkept]
        exact hs.chain.tail.first_eq
  | advance p hpc =>
      rw [hpc] at hcursor
      simp only [hpc, DrainPc.headCalled] at horder hacks
      exact ⟨ptrs, hs.chain, hs.nodup, hs.bound, fun q => by simpa [hpc] using hallocated q, hcursor, hs.ackedFirst,
        horder, hacks⟩

/-! ### Every step -/

theorem Keeps.linked_allocated (hs : Keeps s ptrs) (hupper : s.runsUpper = true) :
    ∀ p ∈ s.linked, lib.allocated s.mem p := by
  intro p hp
  rw [hs.linked_eq] at hp
  exact (hs.allocated p).mpr ⟨hp, runsUpper_not_freed hupper p⟩

/-- A step of the layers above: a call of `gmac_driver_tx`, which fails or takes a block. -/
theorem send_cases (hlib : lib.Lawful) (hs : Keeps s ptrs) {size : Nat} {addr : Linkaddr6}
    (h : step s (.send size addr) = some s') :
    s.runsUpper = true ∧ (Refused s s' ∨ ∃ p, Taken s addr p s') := by
  rw [step] at h
  split at h
  · next hupper =>
    obtain ⟨s'', hret, hspec⟩ := gmacDriverTx_spec hlib s size addr (hs.linked_allocated hupper)
    obtain rfl := Option.some.inj (hret.symm.trans h)
    exact ⟨hupper, hspec.imp And.right And.right⟩
  · cases h

theorem poll_cases (h : step s .poll = some s') :
    s.pc = .idle ∧ ∃ p, lib.listHead s.list = some p ∧ s' = { s with pc := .test (some p) true } := by
  rw [step] at h
  split at h
  · next hpc =>
    obtain ⟨p, hp, rfl⟩ := Option.map_eq_some_iff.mp h
    exact ⟨hpc, p, hp, rfl⟩
  · cases h

theorem keeps_step (hlib : lib.Lawful) (hs : Keeps s ptrs) (h : step s e = some s') : ∃ ptrs', Keeps s' ptrs' := by
  cases e with
  | send size addr =>
      obtain ⟨hupper, hrefused | ⟨p, htaken⟩⟩ := send_cases hlib hs h
      · exact ⟨ptrs, hs.refused hrefused hupper⟩
      · exact ⟨ptrs ++ [p], hs.taken hlib htaken hupper⟩
  | ack status => exact ⟨ptrs, (hs.ack h).1⟩
  | device tx =>
      obtain rfl := Option.some.inj h
      exact ⟨ptrs, hs.chain, hs.nodup, hs.bound, hs.allocated, hs.cursor, hs.ackedFirst, hs.order, hs.acks⟩
  | poll =>
      obtain ⟨hpc, p, hp, rfl⟩ := poll_cases h
      have hallocated := hs.allocated
      have horder := hs.order
      have hacks := hs.acks
      unfold awaiting at horder hacks
      rw [hpc] at hallocated horder hacks
      refine ⟨ptrs, hs.chain, hs.nodup, hs.bound, fun q => by simpa using hallocated q, ?_, hs.ackedFirst, horder,
        hacks⟩
      change some p = ptrs.head?
      rw [← hp]
      exact hs.chain.first_eq
  | thread => exact hs.thread hlib (threadStep_cases h)

/-! ### A run of the branch -/

/-- The acknowledged elements that no callback has been made for, and those acknowledged while the branch runs. -/
def acknowledged (s : TxQueue lib) (es : List TxQueueEvent) : Nat :=
  (s.pending.takeWhile PendingElement.isAcked).length + es.countP TxQueueEvent.isAck

/-- **What a run of the branch does**: with `added` the calls accepted from its callbacks, it makes the callbacks of the acknowledged elements, in order and once each, and takes those elements off the list. -/
structure Drained (s : TxQueue lib) (es : List TxQueueEvent) (s' : TxQueue lib) (added : List Nat)
    (removed : List (Nat × MacTx)) : Prop where
  accepted : s'.accepted = s.accepted ++ added
  polled : s'.polled = s.polled ++ removed
  removed : removed.map Prod.fst = (s.pending.map PendingElement.call ++ added).take (s.acknowledged es)
  kept : s'.pending.map PendingElement.call = (s.pending.map PendingElement.call ++ added).drop (s.acknowledged es)
  none_acked : ∀ x ∈ s'.pending, x.isAcked = false

/-- The events make one run of the branch, from the poll handler's entry to its end. -/
def Polls (s : TxQueue lib) (es : List TxQueueEvent) (s' : TxQueue lib) : Prop :=
  ∃ s₁, step s .poll = some s₁ ∧ Along step (fun s _ => s.pc ≠ .idle) s₁ es ∧ run step s₁ es = some s' ∧ s'.pc = .idle

/-- The histories grow, and `acks` counts the acknowledgements. -/
structure Extends (s : TxQueue lib) (es : List TxQueueEvent) (s' : TxQueue lib) : Prop where
  accepted : s.accepted <+: s'.accepted
  polled : s.polled <+: s'.polled
  acks : s'.acks = s.acks + es.countP TxQueueEvent.isAck

theorem extends_step (hlib : lib.Lawful) (hs : Keeps s ptrs) (h : step s e = some s') : Extends s [e] s' := by
  cases e with
  | send size addr =>
      obtain ⟨_, hrefused | ⟨p, htaken⟩⟩ := send_cases hlib hs h
      · exact ⟨hrefused.accepted ▸ List.prefix_rfl, hrefused.polled ▸ List.prefix_rfl, hrefused.acks⟩
      · refine ⟨?_, htaken.polled ▸ List.prefix_rfl, htaken.acks⟩
        rw [htaken.accepted]
        exact List.prefix_append _ _
  | ack status =>
      obtain ⟨p, _, rfl⟩ := Option.map_eq_some_iff.mp h
      exact ⟨List.prefix_rfl, List.prefix_rfl, rfl⟩
  | device tx =>
      obtain rfl := Option.some.inj h
      exact ⟨List.prefix_rfl, List.prefix_rfl, rfl⟩
  | poll =>
      obtain ⟨_, p, _, rfl⟩ := poll_cases h
      exact ⟨List.prefix_rfl, List.prefix_rfl, rfl⟩
  | thread =>
      cases threadStep_cases h with
      | call => exact ⟨List.prefix_rfl, List.prefix_append _ _, rfl⟩
      | _ => exact ⟨List.prefix_rfl, List.prefix_rfl, rfl⟩

theorem none_acked_of_leave (hlib : lib.Lawful) (hs : Keeps s ptrs) (hbusy : s.pc ≠ .idle) (h : step s e = some s')
    (hidle : s'.pc = .idle) : ∀ x ∈ s'.pending, x.isAcked = false := by
  cases e with
  | send size addr =>
      obtain ⟨_, hrefused | ⟨p, htaken⟩⟩ := send_cases hlib hs h
      · exact absurd (hrefused.pc.symm.trans hidle) hbusy
      · exact absurd (htaken.pc.symm.trans hidle) hbusy
  | ack status => exact absurd ((hs.ack h).2.symm.trans hidle) hbusy
  | device tx =>
      obtain rfl := Option.some.inj h
      exact absurd hidle hbusy
  | poll => exact absurd (poll_cases h).1 hbusy
  | thread =>
      cases threadStep_cases h with
      | leave p hpc hstop =>
          have hcursor := hs.cursor
          have hfirst := hs.ackedFirst
          rw [Cursor, hpc] at hcursor
          change ∀ x ∈ s.pending, x.isAcked = false
          rw [hs.pending_eq]
          intro x hx
          cases ptrs with
          | nil => cases hx
          | cons q qs =>
              have hq := hstop q (by rw [hcursor]; rfl)
              by_contra hacked
              rw [Bool.not_eq_false] at hacked
              have := hfirst.head hx hacked
              rw [hq] at this
              cases this
      | call | free | pop | advance => cases hidle

theorem keeps_run (hlib : lib.Lawful) (es : List TxQueueEvent) (hs : Keeps s ptrs) (hrun : run step s es = some s') :
    (∃ ptrs', Keeps s' ptrs') ∧ Extends s es s' := by
  induction es generalizing s ptrs with
  | nil =>
      obtain rfl := Option.some.inj hrun
      exact ⟨⟨ptrs, hs⟩, List.prefix_rfl, List.prefix_rfl, rfl⟩
  | cons e es ih =>
      obtain ⟨s₁, h, hrest⟩ := run_cons.mp hrun
      obtain ⟨ptrs₁, hs₁⟩ := keeps_step hlib hs h
      obtain ⟨hkeeps, haccepted, hpolled, hacks⟩ := ih hs₁ hrest
      have hfirst := extends_step hlib hs h
      refine ⟨hkeeps, hfirst.accepted.trans haccepted, hfirst.polled.trans hpolled, ?_⟩
      rw [hacks, hfirst.acks, Nat.add_assoc, ← List.countP_append]
      rfl

theorem none_acked_of_run (hlib : lib.Lawful) (es : List TxQueueEvent) (hs : Keeps s ptrs) (hbusy : s.pc ≠ .idle)
    (halong : Along step (fun s _ => s.pc ≠ .idle) s es) (hrun : run step s es = some s') (hidle : s'.pc = .idle) :
    ∀ x ∈ s'.pending, x.isAcked = false := by
  induction es generalizing s ptrs with
  | nil =>
      obtain rfl := Option.some.inj hrun
      exact absurd hidle hbusy
  | cons e es ih =>
      obtain ⟨s₁, h, hrest⟩ := run_cons.mp hrun
      obtain ⟨ptrs₁, hs₁⟩ := keeps_step hlib hs h
      have halong₁ := halong.2 s₁ h
      cases es with
      | nil =>
          obtain rfl := Option.some.inj hrest
          exact none_acked_of_leave hlib hs hbusy h hidle
      | cons e' es => exact ih hs₁ halong₁.1 halong₁ hrest

/-- A run of the branch makes the callbacks of the acknowledged elements and removes them. -/
theorem Keeps.drained (hlib : lib.Lawful) {es : List TxQueueEvent} (hs : Keeps s ptrs) (h : Polls s es s') :
    ∃ added removed, Drained s es s' added removed := by
  obtain ⟨s₁, hpoll, halong, hrun, hidle'⟩ := h
  obtain ⟨hidle, hbusy⟩ : s.pc = .idle ∧ s₁.pc ≠ .idle := by
    obtain ⟨hidle, p, _, rfl⟩ := poll_cases hpoll
    exact ⟨hidle, by simp⟩
  obtain ⟨ptrs₁, hs₁⟩ := keeps_step hlib hs hpoll
  obtain ⟨⟨ptrs', hs'⟩, _⟩ := keeps_run hlib es hs₁ hrun
  have hnone := none_acked_of_run hlib es hs₁ hbusy halong hrun hidle'
  obtain ⟨_, haccepted, hpolled, hacks⟩ := keeps_run hlib (.poll :: es) hs (run_cons.mpr ⟨s₁, hpoll, hrun⟩)
  obtain ⟨added, hadded⟩ := haccepted
  obtain ⟨removed, hremoved⟩ := hpolled
  -- both ends account for the calls accepted and for the acknowledgements
  have horder := hs.order
  have horder' := hs'.order
  have hcount := hs.acks
  have hcount' := hs'.acks
  simp only [awaiting, hidle, hidle', DrainPc.headCalled, Bool.false_eq_true, if_false, ← hs.pending_eq,
    ← hs'.pending_eq] at horder horder' hcount hcount'
  have hzero : s'.pending.countP PendingElement.isAcked = 0 := by
    rw [List.countP_eq_zero]
    intro x hx
    simp [hnone x hx]
  have hfirst := hs.ackedFirst
  rw [← hs.pending_eq] at hfirst
  have hlength : removed.length = s.acknowledged es := by
    rw [acknowledged, hfirst.length_takeWhile]
    rw [← hremoved, hzero, List.length_append] at hcount'
    rw [List.countP_cons_of_neg (by decide)] at hacks
    omega
  have hsplit : s.pending.map PendingElement.call ++ added =
      removed.map Prod.fst ++ s'.pending.map PendingElement.call := by
    rw [← hadded, ← hremoved, horder, List.map_append, List.append_assoc, List.append_assoc] at horder'
    exact List.append_cancel_left horder'
  refine ⟨added, removed, hadded.symm, hremoved.symm, ?_, ?_, hnone⟩
  · rw [hsplit, List.take_left' (by simpa using hlength)]
  · rw [hsplit, List.drop_left' (by simpa using hlength)]

/-! ### Runs -/

/-- The allocated blocks are the linked ones, each linked once, but for one that the branch has freed and not popped yet. -/
structure Linked (s : TxQueue lib) : Prop where
  chain : Links s.next (lib.listHead s.list) s.linked
  once : s.linked.Nodup
  allocated : ∀ p, lib.allocated s.mem p ↔ p ∈ s.linked ∧ s.pc ≠ .freed p
  ackedFirst : AckedFirst s.pending

/-- What holds of the pending elements in a state, of the next call of `gmac_driver_tx` and of the next run of the branch. -/
structure Accounted (s : TxQueue lib) : Prop where
  linked : Linked s
  fails : s.runsUpper = true → ∀ size addr, s.Fails size → ∃ s', s.gmacDriverTx size addr = some s' ∧ Refused s s'
  drains : ∀ es s', Polls s es s' → ∃ added removed, Drained s es s' added removed

theorem Accounted.of_keeps (hlib : lib.Lawful) (hs : Keeps s ptrs) : Accounted s where
  linked := by
    refine ⟨?_, ?_, ?_, ?_⟩
    · rw [hs.linked_eq]
      exact hs.chain
    · rw [hs.linked_eq]
      exact hs.nodup
    · rw [hs.linked_eq]
      exact hs.allocated
    · rw [hs.pending_eq]
      exact hs.ackedFirst
  fails := by
    intro hupper size addr hfails
    obtain ⟨s', hret, ⟨_, hrefused⟩ | ⟨htaken, _⟩⟩ := gmacDriverTx_spec hlib s size addr (hs.linked_allocated hupper)
    · exact ⟨s', hret, hrefused⟩
    · exact absurd hfails htaken
  drains := fun _ _ => hs.drained hlib

/-- **Every pending element is accounted for**, in every state that calls, acknowledgements and the TX branch lead to. -/
theorem accounted (hlib : lib.Lawful) (elem : Nat → PendingElement) (tx : TxRing) (es : List TxQueueEvent)
    (s : TxQueue lib) (hrun : run step (init lib elem tx) es = some s) : Accounted s := by
  obtain ⟨⟨ptrs, hs⟩, _⟩ := keeps_run hlib es (keeps_init hlib elem tx) hrun
  exact .of_keeps hlib hs

/-! ### A library -/

/-- A pool that hands out its first free block and a list that is followed to its end to append. -/
def firstFit (blocks : Nat) : ContikiLib where
  Memb := Nat → Bool
  ListT := Option Nat
  blocks
  membInit := fun _ => false
  membAlloc := fun m => ((List.range blocks).find? fun p => !m p).map fun p => (p, Function.update m p true)
  membFree := fun m p => Function.update m p false
  allocated := fun m p => m p = true
  listInit := none
  listHead := id
  listAdd := fun l next p =>
    match (walk next blocks l).getLast? with
    | none => (some p, Function.update next p none)
    | some last => (l, Function.update (Function.update next p none) last (some p))
  listPop := fun l next => (l.bind next, next)

private theorem update_true_iff (m : Nat → Bool) (p q : Nat) :
    Function.update m p true q = true ↔ q = p ∨ m q = true := by
  by_cases h : q = p <;> simp [h]

private theorem update_false_iff (m : Nat → Bool) (p q : Nat) :
    Function.update m p false q = true ↔ q ≠ p ∧ m q = true := by
  by_cases h : q = p <;> simp [h]

theorem firstFit_lawful (blocks : Nat) : (firstFit blocks).Lawful where
  init_free := by
    intro p h
    cases h
  alloc_fresh := by
    intro m m' p h
    obtain ⟨q, hfind, hq⟩ := Option.map_eq_some_iff.mp h
    obtain ⟨rfl, rfl⟩ := Prod.mk.inj hq
    refine ⟨List.mem_range.mp (List.mem_of_find?_eq_some hfind), ?_⟩
    have hfree := List.find?_some hfind
    change ¬ m q = true
    simpa using hfree
  alloc_allocated := by
    intro m m' p h q
    obtain ⟨r, _, hr⟩ := Option.map_eq_some_iff.mp h
    obtain ⟨rfl, rfl⟩ := Prod.mk.inj hr
    exact update_true_iff m r q
  free_allocated := by
    intro m p _ q
    exact update_false_iff m p q
  head_init := rfl
  add := by
    intro l next ps p hchain hnodup hbound
    have hsub : ps.Nodup ∧ p ∉ ps := by
      rw [List.nodup_append] at hnodup
      exact ⟨hnodup.1, fun hmem => hnodup.2.2 p hmem p (List.mem_singleton_self p) rfl⟩
    have hfresh : Links (Function.update next p none) l ps := by
      apply hchain.congr
      intro q hq
      rw [Function.update_of_ne]
      rintro rfl
      exact hsub.2 hq
    have hlength := length_le_of_nodup hsub.1 fun q hq => hbound q (List.mem_append_left _ hq)
    have hwalk : walk next blocks l = ps := hchain.walk_eq hlength
    simp only [firstFit, hwalk, id]
    rcases List.eq_nil_or_concat ps with rfl | ⟨qs, q, rfl⟩
    · exact ⟨rfl, by simp [Links]⟩
    · simp only [List.concat_eq_append, List.getLast?_append, List.getLast?_singleton, Option.some_or]
      rw [List.concat_eq_append] at hfresh hsub
      exact hfresh.snoc hsub.1 (by simp) hsub.2
  pop := by
    intro l next p ps hchain
    obtain ⟨hfirst, hrest⟩ := hchain
    change l = some p at hfirst
    subst hfirst
    exact ⟨hrest, rfl⟩

/-- A frame is accepted, acknowledged and polled; its callback sends a second one, and a third one follows. -/
private def sentFromCallback : List TxQueueEvent :=
  [.send 64 linkaddr6Null, .ack gmacTsrTxcomp, .poll, .thread, .send 64 linkaddr6Null, .thread, .thread, .thread,
    .thread, .send 64 linkaddr6Null]

private def started : TxQueue (firstFit 16) :=
  init (firstFit 16) (fun _ => ⟨0, linkaddr6Null, false, 0⟩) (TxRing.resetMem ⟨fun _ => 0, fun _ => false, 3, 0, 0⟩)

theorem accounted_sentFromCallback : ∃ s, run step started sentFromCallback = some s ∧ s.linked = [1, 0] ∧
    s.polled = [(0, .ok)] ∧ Accounted s := by
  have hrun : (run step started sentFromCallback).any
      (fun s => decide (s.linked = [1, 0] ∧ s.polled = [(0, .ok)])) = true := by
    decide +kernel
  obtain ⟨s, hs, hstate⟩ := exists_run hrun
  obtain ⟨hlinked, hpolled⟩ := of_decide_eq_true hstate
  exact ⟨s, hs, hlinked, hpolled, accounted (firstFit_lawful 16) _ _ sentFromCallback s hs⟩

end TxQueue

end ContikiAtsam
