import ContikiAtsam.Base.Chain
import ContikiAtsam.Base.Run
import ContikiAtsam.Driver.Pending

/-!
# The pending elements in memory

The list of pending frames as the driver keeps it: blocks of `gmac_drv_tx_pending_mem`, linked by their `next` fields into `gmac_drv_tx_pending_list`. `gmac_driver_tx` allocates a block, submits the frame and links the block, or gives the block back; the TX branch of the poll handler goes along the links, frees each acknowledged block, pops it and then reads its link.

`memb` and `list` are Contiki's own libraries. Their functions are parameters of the model, with what the driver relies on in `Lawful`. The interrupt handler may acknowledge a frame between any two steps of the branch. A sent callback may submit frames; where it runs from a call that has failed, what it does comes after the call, which returns behind it without doing anything else.
-/

namespace ContikiAtsam

/-- `lib/memb.c` and `lib/list.c`. A block is its index in the pool and `none` is `NULL`; the list functions see the `next` fields. -/
structure ContikiLib where
  Memb : Type
  ListT : Type
  blocks : Nat
  membInit : Memb
  membAlloc : Memb → Option (Nat × Memb)
  membFree : Memb → Nat → Memb
  /-- The block is in use. -/
  allocated : Memb → Nat → Prop
  listInit : ListT
  listHead : ListT → Option Nat
  listAdd : ListT → (Nat → Option Nat) → Nat → ListT × (Nat → Option Nat)
  listPop : ListT → (Nat → Option Nat) → ListT × (Nat → Option Nat)

open Chain in
/-- What the driver relies on. `list_pop` leaves the link of the element it removes. -/
structure ContikiLib.Lawful (lib : ContikiLib) : Prop where
  init_free : ∀ p, ¬ lib.allocated lib.membInit p
  alloc_fresh : ∀ {m m' p}, lib.membAlloc m = some (p, m') → p < lib.blocks ∧ ¬ lib.allocated m p
  alloc_allocated : ∀ {m m' p}, lib.membAlloc m = some (p, m') → ∀ q, lib.allocated m' q ↔ q = p ∨ lib.allocated m q
  free_allocated : ∀ {m p}, lib.allocated m p → ∀ q, lib.allocated (lib.membFree m p) q ↔ q ≠ p ∧ lib.allocated m q
  head_init : lib.listHead lib.listInit = none
  add : ∀ {l next ps p}, Links next (lib.listHead l) ps → (ps ++ [p]).Nodup → (∀ q ∈ ps ++ [p], q < lib.blocks) →
    Links (lib.listAdd l next p).2 (lib.listHead (lib.listAdd l next p).1) (ps ++ [p])
  pop : ∀ {l next p ps}, Links next (lib.listHead l) (p :: ps) →
    Links (lib.listPop l next).2 (lib.listHead (lib.listPop l next).1) ps ∧ (lib.listPop l next).2 p = next p

theorem ContikiLib.Lawful.free_alloc {lib : ContikiLib} (hlib : lib.Lawful) {m m' : lib.Memb} {p : Nat}
    (h : lib.membAlloc m = some (p, m')) (q : Nat) :
    lib.allocated (lib.membFree m' p) q ↔ lib.allocated m q := by
  have hallocated := hlib.alloc_allocated h
  rw [hlib.free_allocated ((hallocated p).mpr (Or.inl rfl)), hallocated]
  constructor
  · rintro ⟨hq, hused⟩
    exact hused.resolve_left hq
  · intro hused
    refine ⟨?_, Or.inr hused⟩
    rintro rfl
    exact (hlib.alloc_fresh h).2 hused

/-- Where the TX branch is, with `p_pending_pkt` and `not_found`. -/
inductive DrainPc where
  | idle
  | test (p : Option Nat) (notFound : Bool)
  | called (p : Nat)
  | freed (p : Nat)
  | popped (p : Nat)
  deriving DecidableEq, Repr

/-- The pending frames in memory, with the ring they are submitted to. The last five fields are history: how many frames were submitted and acknowledged, the calls that the device accepted, and the callbacks made, by `gmac_driver_tx` itself and by the poll handler. -/
structure TxQueue (lib : ContikiLib) where
  mem : lib.Memb
  list : lib.ListT
  next : Nat → Option Nat
  elem : Nat → PendingElement
  tx : TxRing
  pc : DrainPc
  submitted : Nat
  acks : Nat
  accepted : List Nat
  refused : List (Nat × MacTx)
  polled : List (Nat × MacTx)

inductive TxQueueEvent where
  /-- The layers above submit a frame, in a process of their own or in a sent callback. -/
  | send (size : Nat) (addr : Linkaddr6)
  /-- The interrupt handler acknowledges a frame. -/
  | ack (status : UInt32)
  /-- The interrupt handler and the hardware work on the ring. -/
  | device (tx : TxRing)
  /-- The poll handler enters its TX branch. -/
  | poll
  /-- The next step of the branch. -/
  | thread

def TxQueueEvent.isAck : TxQueueEvent → Bool
  | .ack _ => true
  | _ => false

/-- The `switch` of `gmac_driver_tx` over what `gmac_dev_write` returns; `none` is its `assert(0)`. -/
def macWriteStatus : GmacStatus → Option MacTx
  | .ok => some .ok
  | .txBusy => some .err
  | .timeout | .param => some .errFatal
  | .rxError | .rxNoData | .sizeTooSmall => none

namespace TxQueue

variable {lib : ContikiLib}

def init (lib : ContikiLib) (elem : Nat → PendingElement) (tx : TxRing) : TxQueue lib where
  mem := lib.membInit
  list := lib.listInit
  next := fun _ => none
  elem
  tx
  pc := .idle
  submitted := 0
  acks := 0
  accepted := []
  refused := []
  polled := []

/-- The blocks linked in the list. -/
def linked (s : TxQueue lib) : List Nat := Chain.walk s.next lib.blocks (lib.listHead s.list)

def pending (s : TxQueue lib) : List PendingElement := s.linked.map s.elem

/-- `err_exit`: the callback is called at once, with one transmission. -/
def errExit (s : TxQueue lib) (call : Nat) (macStatus : MacTx) : TxQueue lib :=
  { s with refused := s.refused ++ [(call, macStatus)] }

def gmacDriverTx (s : TxQueue lib) (size : Nat) (addr : Linkaddr6) : Option (TxQueue lib) :=
  let call := s.submitted
  let s := { s with submitted := s.submitted + 1 }
  match lib.membAlloc s.mem with
  | none => some (s.errExit call .errFatal)
  | some (p, mem) =>
    let written := s.tx.gmacDevWrite size
    let s :=
      { s with
        mem
        next := Function.update s.next p none
        elem := Function.update s.elem p ⟨call, addr, false, (s.elem p).status⟩
        tx := written.2 }
    (macWriteStatus written.1).map fun macStatus =>
      if macStatus = .ok then
        let added := lib.listAdd s.list s.next p
        { s with list := added.1, next := added.2, accepted := s.accepted ++ [call] }
      else { s with mem := lib.membFree s.mem p }.errExit call macStatus

/-- The search of `gmac_dev_tx_callback`, which asserts that it finds an element. -/
def gmacDevTxCallback (s : TxQueue lib) (status : UInt32) : Option (TxQueue lib) :=
  (Chain.search (fun p => !(s.elem p).isAcked) s.next lib.blocks (lib.listHead s.list)).map fun p =>
    { s with
      elem := Function.update s.elem p { s.elem p with isAcked := true, status }
      acks := s.acks + 1 }

/-- The end of the branch, which asserts that it has found an acknowledged element. -/
def leave (s : TxQueue lib) (notFound : Bool) : Option (TxQueue lib) :=
  if notFound then none else some { s with pc := .idle }

/-- A step of the TX branch of `gmac_driver_pollhandler`. -/
def threadStep (s : TxQueue lib) : Option (TxQueue lib) :=
  match s.pc with
  | .idle => none
  | .test none notFound => s.leave notFound
  | .test (some p) notFound =>
    if (s.elem p).isAcked then
      (macTxStatus (s.elem p).status).map fun txStatus =>
        { s with polled := s.polled ++ [((s.elem p).call, txStatus)], pc := .called p }
    else s.leave notFound
  | .called p => some { s with mem := lib.membFree s.mem p, pc := .freed p }
  | .freed p =>
    let popped := lib.listPop s.list s.next
    some { s with list := popped.1, next := popped.2, pc := .popped p }
  | .popped p => some { s with pc := .test (s.next p) false }

/-- The layers above run: outside the branch, or in a sent callback that it makes. -/
def runsUpper (s : TxQueue lib) : Bool :=
  match s.pc with
  | .idle | .called _ => true
  | _ => false

def step (s : TxQueue lib) : TxQueueEvent → Option (TxQueue lib)
  | .send size addr => if s.runsUpper then s.gmacDriverTx size addr else none
  | .ack status => s.gmacDevTxCallback status
  | .device tx => some { s with tx }
  | .poll =>
    -- the branch asserts that the list is not empty
    if s.pc = .idle then (lib.listHead s.list).map fun p => { s with pc := .test (some p) true } else none
  | .thread => s.threadStep

end TxQueue

end ContikiAtsam
