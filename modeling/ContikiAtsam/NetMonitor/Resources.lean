import ContikiAtsam.Base.Run
import ContikiAtsam.NetMonitor.Overflow

/-!
# The monitoring resources

The REST resources of `apps/net-monitor`: routes, periodic routes, neighbors, prefixes and interfaces. A GET handler prints into a message array, copies part of it to the response buffer and announces the payload's length. The two route resources share the static array `routing_table`; the periodic one answers from what the last periodic event printed, up to the length saved then. A handler whose printing leaves its array faults: the arrays are on the stack, and behind `routing_table` lies the saved length.
-/

namespace ContikiAtsam.NetMonitor

/-- What `REST.get_query_variable` gives for the two variables: the length of the value, zero for a variable that is absent or empty, and the characters of the request from the value's first on. -/
structure Request where
  len : Nat × List Char
  ethStats : Nat × List Char

/-- What is copied to the response buffer, and the length announced. -/
structure Response where
  copied : List Char
  length : Int

def nul : Char := Char.ofNat 0

/-- The first `n` bytes of a buffer that holds a string and zeros after it. -/
def readBuffer (message : List Char) (n : Nat) : List Char :=
  message.take n ++ List.replicate (n - message.length) nul

@[simp] theorem length_readBuffer (message : List Char) (n : Nat) : (readBuffer message n).length = n := by
  simp [readBuffer]
  omega

/-! ### The C library -/

def isspace (c : Char) : Bool := c = ' ' || ('\t' ≤ c && c ≤ '\r')

/-- The digits at the start of the string, read as a number. -/
def atoiDigits (acc : Nat) : List Char → Nat
  | [] => acc
  | c :: s => if c.isDigit then atoiDigits (acc * 10 + (c.toNat - '0'.toNat)) s else acc

def atoi (s : List Char) : Int :=
  match s.dropWhile isspace with
  | '-' :: s => - (atoiDigits 0 s : Int)
  | '+' :: s => atoiDigits 0 s
  | s => atoiDigits 0 s

/-- `strncmp` of two strings returns zero. -/
def strncmpEq : List Char → List Char → Nat → Bool
  | _, _, 0 => true
  | s, t, n + 1 =>
    let a := s.headD nul
    let b := t.headD nul
    if a ≠ b then false else if a = nul then true else strncmpEq s.tail t.tail n

/-! ### The handlers -/

/-- The end of every handler but the periodic one: `len`, kept in range, stands for the length if it is given. -/
def reply (request : Request) (message : List Char) (length : Int) : Response :=
  let (found, len) := request.len
  if found ≠ 0 then
    let length := atoi len
    let length := if length < 0 then 0 else length
    let length := if length > restMaxChunkSize then (restMaxChunkSize : Int) else length
    ⟨readBuffer message length.toNat, length⟩
  else ⟨readBuffer message length.toNat, length⟩

/-- The static variables of `resource-route.c`, and whether the periodic event has happened. -/
structure Server where
  routingTable : List Char
  rspLength : UInt16
  printed : Bool

def Server.init : Server := ⟨[], 0, false⟩

namespace Routes

def resGetHandler (s : Server) (node : Node) (request : Request) : Option (Response × Server) := do
  let (routingTable, length) ← Checked.sprintRoutes routingTableSize node
  let length : Int := length.toNat
  let length := if request.len.1 = 0 ∧ length > restMaxChunkSize then (restMaxChunkSize : Int) else length
  some (reply request routingTable length, { s with routingTable })

def resGetPeriodicHandler (s : Server) : Response :=
  ⟨readBuffer s.routingTable s.rspLength.toNat, s.rspLength.toNat⟩

def resPeriodicHandler (_ : Server) (node : Node) : Option Server := do
  let (routingTable, rspLength) ← Checked.sprintRoutes routingTableSize node
  let rspLength := if rspLength.toNat > restMaxChunkSize then UInt16.ofNat restMaxChunkSize else rspLength
  some { routingTable, rspLength, printed := true }

end Routes

def Neighbors.resGetHandler (node : Node) (request : Request) : Option Response := do
  let (message, length) ← Checked.printNeighbors (2 * restMaxChunkSize) node
  some (reply request message length.toNat)

def Prefixes.resGetHandler (node : Node) (request : Request) : Option Response := do
  let (message, length) ← Checked.printPrefixes restMaxChunkSize node
  some (reply request message length.toNat)

def Ifaces.resGetHandler (node : Node) (request : Request) : Option Response := do
  let (message, length) ← Checked.printIfaces restMaxChunkSize node
  let length := length.toNat
  let (varLen, ethStats) := request.ethStats
  if varLen ≠ 0 ∧ !strncmpEq ethStats "eth-stats".toList varLen then
    let message ← emitAt restMaxChunkSize message length (" ETH-STATS:".toList ++ decimal 0)
    some (reply request message message.length)
  else some (reply request message length)

/-! ### Runs -/

/-- The calls that touch the static variables: the periodic event and the GETs of the two route resources. -/
inductive Event where
  | periodic (node : Node)
  | getRoutes (node : Node) (request : Request)
  | getPeriodic

def Server.step (s : Server) : Event → Option Server
  | .periodic node => Routes.resPeriodicHandler s node
  | .getRoutes node request => (Routes.resGetHandler s node request).map Prod.snd
  | .getPeriodic => some s

inductive Resource where
  | routes
  | periodic
  | neighbors
  | prefixes
  | ifaces
  deriving DecidableEq

/-- The GET handler of a resource. -/
def get (s : Server) (node : Node) (request : Request) : Resource → Option Response
  | .routes => (Routes.resGetHandler s node request).map Prod.fst
  | .periodic => some (Routes.resGetPeriodicHandler s)
  | .neighbors => Neighbors.resGetHandler node request
  | .prefixes => Prefixes.resGetHandler node request
  | .ifaces => Ifaces.resGetHandler node request

/-- The event prints inside `routing_table`. -/
def Event.Inside : Event → Prop
  | .periodic node => RoutesFit node
  | .getRoutes node _ => RoutesFit node
  | .getPeriodic => True

instance : (e : Event) → Decidable e.Inside
  | .periodic node => inferInstanceAs (Decidable (RoutesFit node))
  | .getRoutes node _ => inferInstanceAs (Decidable (RoutesFit node))
  | .getPeriodic => isTrue trivial

theorem sprintRoutes_eq_some_iff {node : Node} {out : List Char × UInt16} :
    Checked.sprintRoutes routingTableSize node = some out ↔ RoutesFit node ∧ out = Text.routes node := by
  rw [(Checked.writes_sprintRoutes (by decide) node).eq (by decide), ← routes_lt_iff]
  split
  · rename_i hfits
    rw [Option.some.injEq, and_iff_right hfits, eq_comm]
  · rename_i hlong
    exact iff_of_false nofun fun h => hlong h.1

theorem Routes.resGetHandler_eq {node : Node} {out : List Char × UInt16}
    (h : Checked.sprintRoutes routingTableSize node = some out) (s : Server) (request : Request) :
    Routes.resGetHandler s node request =
      some (reply request out.1 (if request.len.1 = 0 ∧ (out.2.toNat : Int) > restMaxChunkSize then (restMaxChunkSize : Int)
        else out.2.toNat), { s with routingTable := out.1 }) := by
  rw [Routes.resGetHandler, h]
  rfl

/-- The length that the periodic event saves. -/
def savedLength (rspLength : UInt16) : UInt16 :=
  if rspLength.toNat > restMaxChunkSize then UInt16.ofNat restMaxChunkSize else rspLength

theorem step_cases {s s' : Server} {e : Event} (h : s.step e = some s') :
    (∃ node, e = .periodic node ∧ RoutesFit node ∧
      s' = ⟨(Text.routes node).1, savedLength (Text.routes node).2, true⟩) ∨
    (∃ node request, e = .getRoutes node request ∧ RoutesFit node ∧ s' = { s with routingTable := (Text.routes node).1 }) ∨
    (e = .getPeriodic ∧ s' = s) := by
  cases e with
  | periodic node =>
      obtain ⟨out, hprint, hs'⟩ := Option.bind_eq_some_iff.mp h
      obtain ⟨hfits, rfl⟩ := sprintRoutes_eq_some_iff.mp hprint
      exact .inl ⟨node, rfl, hfits, (Option.some.inj hs').symm⟩
  | getRoutes node request =>
      obtain ⟨out, hhandler, rfl⟩ := Option.map_eq_some_iff.mp h
      obtain ⟨printed, hprint, hout⟩ := Option.bind_eq_some_iff.mp hhandler
      obtain ⟨hfits, rfl⟩ := sprintRoutes_eq_some_iff.mp hprint
      exact .inr (.inl ⟨node, request, rfl, hfits, (congrArg Prod.snd (Option.some.inj hout)).symm⟩)
  | getPeriodic => exact .inr (.inr ⟨rfl, (Option.some.inj h).symm⟩)

theorem step_isSome_iff (s : Server) (e : Event) : (s.step e).isSome = true ↔ e.Inside := by
  constructor
  · intro h
    obtain ⟨s', hs'⟩ := Option.isSome_iff_exists.mp h
    obtain ⟨node, rfl, hfits, _⟩ | ⟨node, request, rfl, hfits, _⟩ | ⟨rfl, _⟩ := step_cases hs'
    · exact hfits
    · exact hfits
    · trivial
  · intro h
    cases e with
    | periodic node =>
        rw [Server.step, Routes.resPeriodicHandler, sprintRoutes_eq_some_iff.mpr ⟨h, rfl⟩]
        rfl
    | getRoutes node request =>
        rw [Server.step, Routes.resGetHandler_eq (sprintRoutes_eq_some_iff.mpr ⟨h, rfl⟩)]
        rfl
    | getPeriodic => rfl

end ContikiAtsam.NetMonitor
