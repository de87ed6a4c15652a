import ContikiAtsam.Base.Run
import ContikiAtsam.Ringmem.Admission

/-!
# The ring memory is a queue of byte strings

The calls put together by the simulation rule, for every list of them. An allocation is refused only where `Admission.lean` finds no gap.
-/

namespace ContikiAtsam.Ringmem

inductive Call where
  | alloc (data : Memory) (len : UInt16)
  | getNextBlockPtr
  | freeBlock

inductive Answer where
  | status (n : Nat)
  | pointer (ptr : Option UInt16)
  | done

def call (r : Ringmem) : Call → Except Fault (Answer × Ringmem)
  | .alloc data len => (ringmemAlloc r data len).map fun (n, r') => (.status n, r')
  | .getNextBlockPtr => .ok (.pointer (ringmemGetNextBlockPtr r).1, (ringmemGetNextBlockPtr r).2)
  | .freeBlock => (ringmemFreeBlock r).map fun r' => (.done, r')

/-- A block is freed only while one is stored. -/
def Allowed (queue : List Block) : Call → Prop
  | .freeBlock => queue ≠ []
  | _ => True

/-- What a call does to the queue and what it answers. A block is taken exactly if there is a gap for it. -/
def QueueStep (r : Ringmem) (queue : List Block) : Call → Answer → List Block → Prop
  | .alloc data len, .status n, queue' =>
      (n = 0 ∧ ¬ Gap r queue (len.toNat + 2) ∧ queue' = queue) ∨
      (n = 1 ∧ Gap r queue (len.toNat + 2) ∧ ∃ b : Block, b.bytes = data.load 0 len.toNat ∧ queue' = queue ++ [b])
  | .getNextBlockPtr, .pointer ptr, queue' =>
      queue' = queue ∧ ptr.map UInt16.toNat = queue.head?.map Block.offset
  | .freeBlock, .done, queue' => ∃ b, queue = b :: queue'
  | _, _, _ => False

/-- The specification of one call: it is the queue's step, no block that stays stored changes, and every stored block is in the buffer at its place. -/
structure Meets (r : Ringmem) (queue : List Block) (c : Call) (o : Answer) (r' : Ringmem)
    (queue' : List Block) : Prop where
  step : QueueStep r queue c o queue'
  untouched : ∀ b ∈ queue, b ∈ queue' → r'.data.load b.offset b.extent = r.data.load b.offset b.extent
  held : ∀ b ∈ queue', b.HeldIn r'.data
  within : ∀ b ∈ queue', b.offset + b.extent ≤ r'.size.toNat
  size : r'.size = r.size

private theorem meets_of_stores {r r' : Ringmem} {queue queue' : List Block} {c : Call} {o : Answer}
    (hstep : QueueStep r queue c o queue') (huntouched : Untouched queue r.data r'.data)
    (hsize : r'.size = r.size) (h : Stores r' queue') : Meets r queue c o r' queue' where
  step := hstep
  untouched := fun b hb _ => huntouched b hb
  held := h.held
  within := h.within
  size := hsize

theorem call_spec {r : Ringmem} {queue : List Block} {c : Call} (h : Stores r queue)
    (hallowed : Allowed queue c) :
    ∃ o r' queue', call r c = .ok (o, r') ∧ Meets r queue c o r' queue' ∧ Stores r' queue' := by
  cases c with
  | alloc data len =>
      have hgap := ringmemAlloc_iff_gap data len h
      rcases ringmemAlloc_spec data len h with hret | ⟨r', ptr, hret, hstores, huntouched, hsize⟩
      · have hnone : ¬ Gap r queue (len.toNat + 2) := fun hsome => by
          obtain ⟨r', htaken⟩ := hgap.mpr hsome
          cases hret.symm.trans htaken
        refine ⟨.status 0, r, queue, by simp [call, hret, Except.map], ?_, h⟩
        exact meets_of_stores (Or.inl ⟨rfl, hnone, rfl⟩) (fun _ _ => rfl) rfl h
      · refine ⟨.status 1, r', _, by simp [call, hret, Except.map], ?_, hstores⟩
        exact meets_of_stores (Or.inr ⟨rfl, hgap.mp ⟨r', hret⟩, _, rfl, rfl⟩) huntouched hsize hstores
  | getNextBlockPtr =>
      have hret := ringmemGetNextBlockPtr_spec h
      have hptr : (if queue = [] then none else some r.getPtr).map UInt16.toNat =
          queue.head?.map Block.offset := by
        cases queue with
        | nil => rfl
        | cons b queue => simp [h.offset_eq]
      exact ⟨.pointer (if queue = [] then none else some r.getPtr), r, queue, by rw [call, hret],
        meets_of_stores ⟨rfl, hptr⟩ (fun _ _ => rfl) rfl h, h⟩
  | freeBlock =>
      obtain ⟨b, queue, rfl⟩ := List.exists_cons_of_ne_nil hallowed
      obtain ⟨r', hret, hstores, hdata, hsize⟩ := ringmemFreeBlock_spec h
      refine ⟨.done, r', queue, by simp [call, hret, Except.map], ?_, hstores⟩
      exact meets_of_stores ⟨b, rfl⟩ (fun b _ => by rw [hdata]) hsize hstores

/-- **The ring memory is a FIFO queue of byte strings**, for every buffer, every size and every list of calls: no call faults, and each does what the queue does. -/
theorem ringmem_fifo (a : Memory) (len : UInt16) (calls : List Call) :
    Conforms call Allowed Meets (ringmemInit a len) [] calls := by
  refine Conforms.of_simulation Stores ?_ calls (stores_init a len)
  intro r queue c h hallowed
  exact call_spec h hallowed

/-- In a buffer of 14 bytes two blocks of four, of which the older one is freed, a third that wraps, and a fourth that finds no gap. -/
theorem ringmem_fifo_wrapping :
    let calls : List Call := [.alloc (fun _ => 7) 4, .alloc (fun _ => 8) 4, .freeBlock, .alloc (fun _ => 9) 2,
      .alloc (fun _ => 0) 1, .getNextBlockPtr]
    (∃ r, answers call (ringmemInit (fun _ => 0) 14) calls =
        .ok ([.status 1, .status 1, .done, .status 1, .status 0, .pointer (some 6)], r) ∧
      r.putPtr = 4 ∧ r.wrapPtr = 12 ∧ r.data.load 0 4 = [2, 0, 9, 9]) ∧
    Conforms call Allowed Meets (ringmemInit (fun _ => 0) 14) [] calls :=
  ⟨⟨_, rfl, rfl, rfl, rfl⟩, ringmem_fifo _ _ _⟩

end ContikiAtsam.Ringmem
