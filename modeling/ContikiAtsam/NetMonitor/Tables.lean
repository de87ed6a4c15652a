import ContikiAtsam.NetMonitor.Print

/-!
# The printers of the tables

The resources print the tables of the IPv6 stack into character arrays of fixed size, and none of the printers looks at the size. Here every `sprintf` is checked: a printer faults with the first string that does not fit into the array with its terminating NUL. What it prints where there is room is a text, built by appending alone.
-/

namespace ContikiAtsam.NetMonitor

def restMaxChunkSize : Nat := 256
def resourceRouteMaxRoutes : Nat := 8
def nbrTableMaxNeighbors : Nat := 16

structure Prefix where
  isused : Bool
  ipaddr : Ipaddr

/-- What the handlers read of the node: the uptime and the tables of the IPv6 stack. The number of routes is an `int`. -/
structure Node where
  uptimeMin : UInt32
  routes : List Ipaddr
  defrt : Option Ipaddr
  neighbors : List Ipaddr
  uipDs6PrefixList : List Prefix
  routes_lt : routes.length < 2147483648
  neighbors_le : neighbors.length ≤ nbrTableMaxNeighbors

/-! ### The printers

An array has `cap` characters. -/

namespace Checked

variable (cap : Nat)

def sprintTime (buf : List Char) (minutes : UInt32) : Option (List Char) :=
  emit cap buf ("Uptime: ".toList ++ decimal (minutes.toNat / (24 * 60)) ++ " days ".toList ++
    decimal (minutes.toNat / 60 % 24) ++ " hours ".toList ++ decimal (minutes.toNat % 60) ++ " minutes\n".toList)

def sprintfAtEnd (buf text : List Char) : Option (List Char) :=
  let offset := UInt16.ofNat buf.length
  emitAt cap buf offset.toNat text

def sprintGroups : List Char → Int → Nat → List Nat → Option (List Char)
  | buf, _, _, [] => some buf
  | buf, f, i, a :: rest =>
    if a = 0 ∧ f ≥ 0 then do
      let buf ← (if f = 0 then sprintfAtEnd cap buf [':', ':'] else some buf)
      sprintGroups buf (f + 1) (i + 2) rest
    else do
      let buf ← (if f > 0 then some buf else if i > 0 then sprintfAtEnd cap buf [':'] else some buf)
      let buf ← sprintfAtEnd cap buf (hex a)
      sprintGroups buf (if f > 0 then -1 else f) (i + 2) rest

def sprintAddr6 (buf : List Char) (addr : Ipaddr) : Option (List Char) := sprintGroups cap buf 0 0 (groups addr)

/-- The loop over the routes; the second component tells whether it was left early. -/
def printRouteLines : List Char → Nat → List Ipaddr → Option (List Char × Bool)
  | msg, _, [] => some (msg, false)
  | msg, index, r :: routes => do
    let index := index + 1
    let msg ← emit cap msg (['R'] ++ decimal index ++ [':'])
    let msg ← sprintAddr6 cap msg r
    let msg ← emit cap msg ['\n']
    if msg.length > restMaxChunkSize then some (msg, true) else printRouteLines msg index routes

/-- The line of the default route. -/
def checkDft (msg : List Char) (node : Node) : Option (List Char) := do
  let msg ← emit cap msg "DR:".toList
  match node.defrt with
  | some routeIpaddr => sprintAddr6 cap msg routeIpaddr
  | none => some msg

/-- `sprint_routes` on an empty buffer: what is printed, and what is returned. -/
def sprintRoutes (node : Node) : Option (List Char × UInt16) := do
  let msg ← sprintTime cap [] node.uptimeMin
  if node.routes.length = 0 then
    let msg ← emit cap msg "No-routes\n".toList
    let msg ← checkDft cap msg node
    some (msg, UInt16.ofNat msg.length)
  else if node.routes.length > resourceRouteMaxRoutes then
    let msg ← emit cap msg ("Total routes:".toList ++ decimal node.routes.length ++ ['\n'])
    let msg ← checkDft cap msg node
    some (msg, UInt16.ofNat msg.length)
  else
    let (msg, full) ← printRouteLines cap msg 0 node.routes
    if full then some (msg, UInt16.ofNat restMaxChunkSize)
    else
      let msg ← checkDft cap msg node
      some (msg, UInt16.ofNat msg.length)

/-- The loop over the neighbors. -/
def printNeighborLines : List Char → List Ipaddr → Option (List Char)
  | msg, [] => some msg
  | msg, nbr :: neighbors =>
    if msg.length > restMaxChunkSize then some msg
    else do
      let msg ← sprintAddr6 cap msg nbr
      let msg ← emit cap msg ['\n']
      printNeighborLines msg neighbors

def printNeighbors (node : Node) : Option (List Char × UInt16) := do
  let msg ← sprintTime cap [] node.uptimeMin
  let msg ← emit cap msg (['N'] ++ decimal node.neighbors.length ++ ['\n'])
  let msg ← printNeighborLines cap msg node.neighbors
  some (msg, UInt16.ofNat msg.length)

/-- The loop over the prefixes. -/
def printPrefixLines : List Char → List Prefix → Option (List Char)
  | msg, [] => some msg
  | msg, entry :: prefixes =>
    if entry.isused then do
      let msg ← emit cap msg "Addr: ".toList
      let msg ← sprintAddr6 cap msg entry.ipaddr
      let msg ← emit cap msg ['\n']
      printPrefixLines msg prefixes
    else printPrefixLines msg prefixes

def printPrefixes (node : Node) : Option (List Char × UInt16) := do
  let msg ← sprintTime cap [] node.uptimeMin
  let msg ← printPrefixLines cap msg node.uipDs6PrefixList
  some (msg, UInt16.ofNat msg.length)

/-- `print_ifaces`; it returns eight bits. -/
def printIfaces (node : Node) : Option (List Char × UInt8) := do
  let ifaces := 1
  let msg ← sprintTime cap [] node.uptimeMin
  let msg ← emit cap msg ("Total Interfaces: ".toList ++ decimal ifaces ++ ['.'])
  some (msg, UInt8.ofNat msg.length)

end Checked

/-! ### The texts -/

namespace Text

/-- The text of an address behind the string. -/
def addr6 (buf : List Char) (addr : Ipaddr) : List Char := buf ++ addrText (groups addr)

@[simp] theorem length_addr6 (buf : List Char) (addr : Ipaddr) :
    (addr6 buf addr).length = buf.length + addrSize addr := by
  rw [addr6, List.length_append, length_addrText, addrSize]

/-- The text after one more route. -/
def routeLine (msg : List Char) (index : Nat) (r : Ipaddr) : List Char :=
  addr6 (msg ++ (['R'] ++ decimal (index + 1) ++ [':'])) r ++ ['\n']

/-- The lines of the routes; the second component tells whether one has passed the size of a chunk and ends them. -/
def routeLines : List Char → Nat → List Ipaddr → List Char × Bool
  | msg, _, [] => (msg, false)
  | msg, index, r :: routes =>
    if (routeLine msg index r).length > restMaxChunkSize then (routeLine msg index r, true)
    else routeLines (routeLine msg index r) (index + 1) routes

def dftLine (msg : List Char) (node : Node) : List Char :=
  match node.defrt with
  | some routeIpaddr => addr6 (msg ++ "DR:".toList) routeIpaddr
  | none => msg ++ "DR:".toList

/-- The text about the routes, and the length that is announced. -/
def routes (node : Node) : List Char × UInt16 :=
  let msg := sprintTime [] node.uptimeMin
  if node.routes.length = 0 then
    let msg := dftLine (msg ++ "No-routes\n".toList) node
    (msg, UInt16.ofNat msg.length)
  else if node.routes.length > resourceRouteMaxRoutes then
    let msg := dftLine (msg ++ ("Total routes:".toList ++ decimal node.routes.length ++ ['\n'])) node
    (msg, UInt16.ofNat msg.length)
  else
    let (msg, full) := routeLines msg 0 node.routes
    if full then (msg, UInt16.ofNat restMaxChunkSize)
    else
      let msg := dftLine msg node
      (msg, UInt16.ofNat msg.length)

def neighborLines : List Char → List Ipaddr → List Char
  | msg, [] => msg
  | msg, nbr :: neighbors =>
    if msg.length > restMaxChunkSize then msg else neighborLines (addr6 msg nbr ++ ['\n']) neighbors

def neighbors (node : Node) : List Char :=
  neighborLines (sprintTime [] node.uptimeMin ++ (['N'] ++ decimal node.neighbors.length ++ ['\n'])) node.neighbors

def prefixLines : List Char → List Prefix → List Char
  | msg, [] => msg
  | msg, entry :: prefixes =>
    prefixLines (if entry.isused then addr6 (msg ++ "Addr: ".toList) entry.ipaddr ++ ['\n'] else msg) prefixes

def prefixes (node : Node) : List Char := prefixLines (sprintTime [] node.uptimeMin) node.uipDs6PrefixList

def ifaces (node : Node) : List Char :=
  sprintTime [] node.uptimeMin ++ ("Total Interfaces: ".toList ++ decimal 1 ++ ['.'])

end Text

/-! ### The printers print the texts -/

namespace Checked

variable {cap : Nat}

theorem writes_sprintTime (buf : List Char) (minutes : UInt32) :
    Writes cap buf (NetMonitor.sprintTime buf minutes) (NetMonitor.sprintTime buf minutes) (sprintTime cap buf minutes) := by
  have htext : NetMonitor.sprintTime buf minutes = buf ++ ("Uptime: ".toList ++ decimal (minutes.toNat / (24 * 60)) ++
      " days ".toList ++ decimal (minutes.toNat / 60 % 24) ++ " hours ".toList ++ decimal (minutes.toNat % 60) ++
      " minutes\n".toList) := by
    simp [NetMonitor.sprintTime]
  rw [htext]
  exact writes_emit

section Narrow

-- In an array of at most 65536 characters the 16 bits hold every position.
variable (hcap : cap ≤ 65536)

include hcap

theorem writes_sprintfAtEnd (buf text : List Char) :
    Writes cap buf (buf ++ text) (buf ++ text) (sprintfAtEnd cap buf text) where
  grows := by
    rw [List.length_append]
    exact Nat.le_add_right _ _
  eq hbuf := by
    have hoffset : (UInt16.ofNat buf.length).toNat = buf.length :=
      UInt16.toNat_ofNat_of_lt' (Nat.lt_of_lt_of_le hbuf hcap)
    rw [sprintfAtEnd, hoffset, emitAt_length]
    exact writes_emit.eq hbuf

theorem writes_sprintGroups (buf : List Char) (f : Int) (i : Nat) (gs : List Nat) :
    Writes cap buf (buf ++ (piecesOf f i gs).flatten) (buf ++ (piecesOf f i gs).flatten) (sprintGroups cap buf f i gs) := by
  induction gs generalizing buf f i with
  | nil =>
      rw [piecesOf, List.flatten_nil, List.append_nil]
      exact writes_some
  | cons a gs ih =>
      rw [piecesOf, sprintGroups]
      by_cases hzero : a = 0 ∧ f ≥ 0
      · rw [if_pos hzero, if_pos hzero, List.flatten_append, ← List.append_assoc]
        refine Writes.bind ?_ (ih _ _ _)
        split
        · rw [List.flatten_singleton]
          exact writes_sprintfAtEnd hcap _ _
        · rw [List.flatten_nil, List.append_nil]
          exact writes_some
      · rw [if_neg hzero, if_neg hzero, List.flatten_append, List.flatten_cons, ← List.append_assoc, ← List.append_assoc]
        refine Writes.bind ?_ (Writes.bind (writes_sprintfAtEnd hcap _ _) (ih _ _ _))
        split
        · rw [List.flatten_nil, List.append_nil]
          exact writes_some
        · split
          · rw [List.flatten_singleton]
            exact writes_sprintfAtEnd hcap _ _
          · rw [List.flatten_nil, List.append_nil]
            exact writes_some

theorem writes_sprintAddr6 (buf : List Char) (addr : Ipaddr) :
    Writes cap buf (Text.addr6 buf addr) (Text.addr6 buf addr) (sprintAddr6 cap buf addr) := by
  rw [Text.addr6, ← flatten_addrPieces]
  exact writes_sprintGroups hcap buf 0 0 (groups addr)

theorem writes_printRouteLines (msg : List Char) (index : Nat) (routes : List Ipaddr) :
    Writes cap msg (Text.routeLines msg index routes).1 (Text.routeLines msg index routes)
      (printRouteLines cap msg index routes) := by
  induction routes generalizing msg index with
  | nil => exact writes_some
  | cons r routes ih =>
      refine Writes.bind writes_emit (Writes.bind (writes_sprintAddr6 hcap _ _) (Writes.bind writes_emit ?_))
      rw [Text.routeLines, Text.routeLine]
      split
      · exact writes_some
      · exact ih _ _

theorem writes_checkDft (msg : List Char) (node : Node) :
    Writes cap msg (Text.dftLine msg node) (Text.dftLine msg node) (checkDft cap msg node) := by
  refine Writes.bind writes_emit ?_
  unfold Text.dftLine
  cases node.defrt with
  | none => exact writes_some
  | some r => exact writes_sprintAddr6 hcap _ _

theorem writes_sprintRoutes (node : Node) :
    Writes cap [] (Text.routes node).1 (Text.routes node) (sprintRoutes cap node) := by
  refine Writes.bind (writes_sprintTime [] node.uptimeMin) ?_
  unfold Text.routes
  dsimp only
  by_cases hnone : node.routes.length = 0
  · rw [if_pos hnone, if_pos hnone]
    exact Writes.bind writes_emit (Writes.bind (writes_checkDft hcap _ node) writes_some)
  · rw [if_neg hnone, if_neg hnone]
    by_cases hmany : node.routes.length > resourceRouteMaxRoutes
    · rw [if_pos hmany, if_pos hmany]
      exact Writes.bind writes_emit (Writes.bind (writes_checkDft hcap _ node) writes_some)
    · rw [if_neg hmany, if_neg hmany]
      have hlines : Writes cap _ _ _ _ :=
        writes_printRouteLines hcap (NetMonitor.sprintTime [] node.uptimeMin) 0 node.routes
      generalize Text.routeLines (NetMonitor.sprintTime [] node.uptimeMin) 0 node.routes = lines at *
      obtain ⟨msg, full⟩ := lines
      refine Writes.bind hlines ?_
      cases full with
      | true => exact writes_some
      | false => exact Writes.bind (writes_checkDft hcap msg node) writes_some

theorem writes_printNeighborLines (msg : List Char) (neighbors : List Ipaddr) :
    Writes cap msg (Text.neighborLines msg neighbors) (Text.neighborLines msg neighbors)
      (printNeighborLines cap msg neighbors) := by
  induction neighbors generalizing msg with
  | nil => exact writes_some
  | cons nbr neighbors ih =>
      rw [Text.neighborLines, printNeighborLines]
      split
      · exact writes_some
      · exact Writes.bind (writes_sprintAddr6 hcap _ _) (Writes.bind writes_emit (ih _))

theorem writes_printNeighbors (node : Node) :
    Writes cap [] (Text.neighbors node) (Text.neighbors node, UInt16.ofNat (Text.neighbors node).length)
      (printNeighbors cap node) :=
  Writes.bind (writes_sprintTime [] node.uptimeMin)
    (Writes.bind writes_emit (Writes.bind (writes_printNeighborLines hcap _ _) writes_some))

theorem writes_printPrefixLines (msg : List Char) (prefixes : List Prefix) :
    Writes cap msg (Text.prefixLines msg prefixes) (Text.prefixLines msg prefixes) (printPrefixLines cap msg prefixes) := by
  induction prefixes generalizing msg with
  | nil => exact writes_some
  | cons entry prefixes ih =>
      rw [Text.prefixLines, printPrefixLines]
      split
      · exact Writes.bind writes_emit (Writes.bind (writes_sprintAddr6 hcap _ _) (Writes.bind writes_emit (ih _)))
      · exact ih _

theorem writes_printPrefixes (node : Node) :
    Writes cap [] (Text.prefixes node) (Text.prefixes node, UInt16.ofNat (Text.prefixes node).length)
      (printPrefixes cap node) :=
  Writes.bind (writes_sprintTime [] node.uptimeMin) (Writes.bind (writes_printPrefixLines hcap _ _) writes_some)

end Narrow

theorem writes_printIfaces (node : Node) :
    Writes cap [] (Text.ifaces node) (Text.ifaces node, UInt8.ofNat (Text.ifaces node).length) (printIfaces cap node) :=
  Writes.bind (writes_sprintTime [] node.uptimeMin) (Writes.bind writes_emit writes_some)

end Checked

end ContikiAtsam.NetMonitor
