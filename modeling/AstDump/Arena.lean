import AstDump.ClassName
import AstDump.Node

/-!
# Arenas

A finished arena: its nodes by position, and the table that their class names point into.
-/

namespace AstDump

/-- A finished collection of nodes, in which a `NodeId` is a position, with the names of their
    classes. -/
structure Arena where
  nodes : Array Node
  classes : ClassNames
  deriving DecidableEq, Repr

namespace Arena

/-- The number of nodes. -/
def size (a : Arena) : Nat := a.nodes.size

/-- Whether the arena has no nodes. -/
def isEmpty (a : Arena) : Bool := a.nodes.isEmpty

/-- Whether an id names a node of the arena. -/
def contains (a : Arena) (n : NodeId) : Bool := decide (n.index < a.size)

/-- The node that an id names. -/
def node? (a : Arena) (n : NodeId) : Option Node := a.nodes[n.index]?

/-- The category of the node that an id names. -/
def category? (a : Arena) (n : NodeId) : Option Category := (a.node? n).map Node.category

/-- The text of a class name. -/
def className? (a : Arena) (c : ClassName) : Option String := a.classes.lookup? c

/-- Every id of the arena in ascending order. -/
def ids (a : Arena) : List NodeId := (List.range a.size).map NodeId.ofIndex

end Arena

end AstDump
