import AstDump.DumpId
import AstDump.IdScheme
import AstDump.NodeId

/-!
# The registry

Which node of an arena has which dump id, and which nodes have been entered for dumping. A node gets
its id at the first question for it and keeps it; it is entered once. Both tables have one slot for
each node of the arena, and a slot without an id holds the one that no node can have.
-/

namespace AstDump

/-- The dump ids of one run and the nodes entered. Numbered in sequence, `next` is the next id.
    `assigned` nodes have an id, and `dumped` nodes were entered. -/
structure Registry where
  ids : Array DumpId
  entered : Array Bool
  size_entered : entered.size = ids.size
  scheme : IdScheme
  next : UInt32
  assigned : Nat
  dumped : Nat
  deriving DecidableEq, Repr

namespace Registry

/-- The registry for an arena of `size` nodes, before any question. -/
def new (size : Nat) (scheme : IdScheme) : Registry where
  ids := Array.replicate size .invalid
  entered := Array.replicate size false
  size_entered := by simp
  scheme := scheme
  next := 0
  assigned := 0
  dumped := 0

/-- Whether a node belongs to the arena that the registry was made for. -/
def Covers (r : Registry) (n : NodeId) : Prop := n.index < r.ids.size

instance (r : Registry) (n : NodeId) : Decidable (r.Covers n) :=
  inferInstanceAs (Decidable (n.index < r.ids.size))

/-- The id that a node gets if it has none: the next one, or its position. -/
def freshId (r : Registry) (n : NodeId) : DumpId :=
  match r.scheme with
  | .sequential => ⟨r.next⟩
  | .nodeIndex => ⟨n.raw⟩

/-- The next id after one more node got its id. -/
def advance (r : Registry) : UInt32 :=
  match r.scheme with
  | .sequential => r.next + 1
  | .nodeIndex => r.next

/-- Puts a new id in the slot of a node. -/
def give (r : Registry) (n : NodeId) : Registry :=
  let id := r.freshId n
  let next := r.advance
  { r with
    ids := r.ids.setIfInBounds n.index id
    size_entered := by simp [r.size_entered]
    next
    assigned := r.assigned + 1 }

/-- Marks a node as entered. -/
def mark (r : Registry) (n : NodeId) : Registry :=
  { r with
    entered := r.entered.setIfInBounds n.index true
    size_entered := by simp [r.size_entered]
    dumped := r.dumped + 1 }

/-- The id of a node, given to it now if it has none. -/
def assign (r : Registry) (n : NodeId) (h : r.Covers n) : DumpId × Registry :=
  have : n.index < r.ids.size := h
  let d := r.ids[n.index]
  if d.isValid then (d, r) else (r.freshId n, r.give n)

/-- Enters a node and makes sure that it has an id. Tells whether it was not entered before. -/
def enter (r : Registry) (n : NodeId) (h : r.Covers n) : Bool × Registry :=
  have : n.index < r.entered.size := Nat.lt_of_lt_of_eq h r.size_entered.symm
  if r.entered[n.index] then (false, r) else (true, ((r.mark n).assign n h).2)

/-- The id of a node, given to it now if it has none; nothing for a node outside the arena. -/
def idOf? (r : Registry) (n : NodeId) : Option (DumpId × Registry) :=
  if h : r.Covers n then some (r.assign n h) else none

/-- Enters a node; nothing for a node outside the arena. -/
def enter? (r : Registry) (n : NodeId) : Option (Bool × Registry) :=
  if h : r.Covers n then some (r.enter n h) else none

/-- The id of a node, if it has one. -/
def get? (r : Registry) (n : NodeId) : Option DumpId := r.ids[n.index]?.filter DumpId.isValid

/-- Whether a node was entered for dumping. -/
def isDumped (r : Registry) (n : NodeId) : Bool := r.entered[n.index]?.getD false

/-- Whether no node has an id. -/
def isEmpty (r : Registry) : Bool := r.assigned == 0

end Registry

end AstDump
