import ContikiAtsam.Gmac.Tx
import ContikiAtsam.Net.Packetbuf

/-!
# The list of pending frames

`gmac_drv_tx_pending_list`: one element for each frame that the device has accepted, in that order. The interrupt acknowledges the first element that is not acknowledged yet and the poll handler removes acknowledged elements from the front, so the acknowledged ones are always a prefix.
-/

namespace ContikiAtsam

/-- The transmission results of the MAC layer, `MAC_TX_OK` and so on. -/
inductive MacTx where
  | ok
  | err
  | errFatal
  deriving DecidableEq, Repr

/-- `gmac_drv_tx_pending_element`; `call` stands for the callback `cb` of the call that sent the frame. -/
structure PendingElement where
  call : Nat
  addr : Linkaddr6
  isAcked : Bool
  status : UInt32

/-- The `switch` of the poll handler over the recorded status; `none` is its `assert(0)`. -/
def macTxStatus (status : UInt32) : Option MacTx :=
  if status = gmacTsrTxcomp then some .ok
  else if status = gmacTsrRle then some .errFatal
  else if status = gmacTsrCol ∨ status = gmacTsrUnd then some .err
  else none

/-- The search of `gmac_dev_tx_callback`: the first element not acknowledged gets the status; `none` if there is no such element. -/
def acknowledge (status : UInt32) : List PendingElement → Option (List PendingElement)
  | [] => none
  | e :: es =>
    if e.isAcked then (acknowledge status es).map (e :: ·)
    else some ({ e with isAcked := true, status } :: es)

/-- The acknowledged elements are a prefix. -/
def AckedFirst (es : List PendingElement) : Prop :=
  es.Pairwise fun e e' => e'.isAcked → e.isAcked

def unacked (es : List PendingElement) : Nat := es.countP fun e => !e.isAcked

/-- What an acknowledgement does not change. -/
def PendingElement.key (e : PendingElement) : Nat × Linkaddr6 := (e.call, e.addr)

theorem acknowledge_eq_none {status : UInt32} {es : List PendingElement} :
    acknowledge status es = none ↔ unacked es = 0 := by
  induction es with
  | nil => simp [acknowledge, unacked]
  | cons e es ih =>
      cases he : e.isAcked <;> simp [acknowledge, unacked, he] at ih ⊢
      exact ih

theorem acknowledge_cases {status : UInt32} {es es' : List PendingElement} (h : acknowledge status es = some es') :
    ∃ earlier e later, es = earlier ++ e :: later ∧ (∀ x ∈ earlier, x.isAcked = true) ∧ e.isAcked = false ∧
      es' = earlier ++ { e with isAcked := true, status } :: later := by
  induction es generalizing es' with
  | nil => cases h
  | cons e es ih =>
      cases he : e.isAcked with
      | true =>
          rw [acknowledge, if_pos he] at h
          obtain ⟨es'', hes, rfl⟩ := Option.map_eq_some_iff.mp h
          obtain ⟨earlier, x, later, rfl, hearlier, hx, rfl⟩ := ih hes
          refine ⟨e :: earlier, x, later, rfl, ?_, hx, rfl⟩
          intro y hy
          rcases List.mem_cons.mp hy with rfl | hy
          · exact he
          · exact hearlier y hy
      | false =>
          rw [acknowledge, if_neg (by simp [he])] at h
          obtain rfl := Option.some.inj h
          exact ⟨[], e, es, rfl, by simp, he, rfl⟩

theorem acknowledge_unacked {status : UInt32} {es es' : List PendingElement}
    (h : acknowledge status es = some es') : unacked es = unacked es' + 1 := by
  obtain ⟨earlier, e, later, rfl, _, he, rfl⟩ := acknowledge_cases h
  simp only [unacked, List.countP_append, List.countP_cons, he]
  simp
  omega

theorem acknowledge_countP {status : UInt32} {es es' : List PendingElement} (h : acknowledge status es = some es') :
    es'.countP PendingElement.isAcked = es.countP PendingElement.isAcked + 1 := by
  obtain ⟨earlier, e, later, rfl, _, he, rfl⟩ := acknowledge_cases h
  simp only [List.countP_append, List.countP_cons, he]
  simp
  omega

theorem acknowledge_keys {status : UInt32} {es es' : List PendingElement}
    (h : acknowledge status es = some es') : es'.map PendingElement.key = es.map PendingElement.key := by
  obtain ⟨earlier, e, later, rfl, _, _, rfl⟩ := acknowledge_cases h
  simp only [List.map_append, List.map_cons]
  rfl

theorem acknowledge_calls {status : UInt32} {es es' : List PendingElement} (h : acknowledge status es = some es') :
    es'.map PendingElement.call = es.map PendingElement.call := by
  have hcall : PendingElement.call = Prod.fst ∘ PendingElement.key := rfl
  rw [hcall, ← List.map_map, ← List.map_map, acknowledge_keys h]

theorem acknowledge_ackedFirst {status : UInt32} {es es' : List PendingElement}
    (h : acknowledge status es = some es') (hes : AckedFirst es) : AckedFirst es' := by
  obtain ⟨earlier, e, later, rfl, hearlier, _, rfl⟩ := acknowledge_cases h
  obtain ⟨hfront, hback, _⟩ := List.pairwise_append.mp hes
  rw [AckedFirst, List.pairwise_append]
  refine ⟨hfront, ?_, fun x hx _ _ _ => hearlier x hx⟩
  exact List.pairwise_cons.mpr ⟨fun _ _ _ => rfl, (List.pairwise_cons.mp hback).2⟩

theorem acknowledge_head {status : UInt32} {es es' : List PendingElement} (h : acknowledge status es = some es') :
    ∃ e ∈ es'.head?, e.isAcked = true := by
  obtain ⟨earlier, e, later, rfl, hearlier, _, rfl⟩ := acknowledge_cases h
  cases earlier with
  | nil => exact ⟨_, rfl, rfl⟩
  | cons x xs => exact ⟨x, rfl, hearlier x (List.mem_cons_self ..)⟩

theorem acknowledge_tail {status : UInt32} {es es' : List PendingElement} (h : acknowledge status es = some es')
    (hhead : ∀ x ∈ es.head?, x.isAcked = true) (hne : es ≠ []) : acknowledge status es.tail = some es'.tail := by
  cases es with
  | nil => exact absurd rfl hne
  | cons x es =>
      rw [acknowledge, if_pos (hhead x rfl)] at h
      obtain ⟨es'', hes, rfl⟩ := Option.map_eq_some_iff.mp h
      exact hes

theorem AckedFirst.head {e e' : PendingElement} {es : List PendingElement} (h : AckedFirst (e :: es))
    (hmem : e' ∈ e :: es) (hacked : e'.isAcked) : e.isAcked := by
  rcases List.mem_cons.mp hmem with rfl | hmem
  · exact hacked
  · exact (List.pairwise_cons.mp h).1 e' hmem hacked

theorem AckedFirst.tail {es : List PendingElement} (h : AckedFirst es) : AckedFirst es.tail := by
  cases es with
  | nil => exact h
  | cons e es => exact (List.pairwise_cons.mp h).2

theorem AckedFirst.length_takeWhile {es : List PendingElement} (h : AckedFirst es) :
    (es.takeWhile PendingElement.isAcked).length = es.countP PendingElement.isAcked := by
  induction es with
  | nil => rfl
  | cons x es ih =>
      cases hx : x.isAcked with
      | true => simp [hx, ih h.tail]
      | false =>
          have hnone : es.countP PendingElement.isAcked = 0 := by
            rw [List.countP_eq_zero]
            intro y hy hacked
            have := (List.pairwise_cons.mp h).1 y hy hacked
            rw [hx] at this
            cases this
          simp [hx, hnone]

theorem AckedFirst.append {es : List PendingElement} (h : AckedFirst es) {e : PendingElement} (he : e.isAcked = false) :
    AckedFirst (es ++ [e]) := by
  rw [AckedFirst, List.pairwise_append]
  refine ⟨h, List.pairwise_singleton _ _, ?_⟩
  intro _ _ e' hmem hacked
  rw [List.mem_singleton.mp hmem, he] at hacked
  cases hacked

theorem unacked_append {es : List PendingElement} {e : PendingElement} (he : e.isAcked = false) :
    unacked (es ++ [e]) = unacked es + 1 := by
  simp [unacked, he]

theorem unacked_tail {e : PendingElement} {es : List PendingElement} (he : e.isAcked) :
    unacked (e :: es) = unacked es := by
  simp [unacked, he]

end ContikiAtsam
