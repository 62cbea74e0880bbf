import AstDump.Sink

/-!
# Errors of a traversal

What ends a traversal before its end.
-/

namespace AstDump

/-- Why a traversal stops: the sink refused a record, the node to visit is outside the arena, there is
    no rule for a kind of record, or the visitor, given by what it asks for, does not serve the category
    of the node. Over an arena that was checked no position lies outside its table (`unresolved`) and
    visits are not nested deeper than there are nodes (`tooDeep`). -/
inductive DumpError where
  | sink (e : SinkError)
  | rootOutOfRange (root : NodeId) (size : Nat)
  | kindNotImplemented (kind : RecordKind)
  | categoryMismatch (id : NodeId) (expected : String) (found : Category)
  | unresolved
  | tooDeep
  deriving DecidableEq, Repr

/-- The text of an error. -/
def DumpError.message : DumpError → String
  | .sink e => s!"output sink failed: {e.message}"
  | .rootOutOfRange root size => s!"root {root.label} is outside an arena of {size} nodes"
  | .kindNotImplemented kind => s!"visit dispatcher: case not implemented, '{kind.name}'"
  | .categoryMismatch id expected found =>
    s!"node {id.label} is a {found.name} node, not a {expected} node"
  | .unresolved => "a position lies outside its table"
  | .tooDeep => "visits are nested deeper than there are nodes"

end AstDump
