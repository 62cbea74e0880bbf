import AstDump.DumpId
import AstDump.Node

/-!
# Records

A record describes one dumped node: its id, what it is, and the ids of its children in order.
-/

namespace AstDump

/-- What a record describes. -/
inductive RecordKind where
  | type (kind : TypeKind)
  | qualType
  | stmt
  | decl
  deriving DecidableEq, Repr

namespace RecordKind

/-- All kinds of records, those of types first. -/
def all : List RecordKind := TypeKind.all.map .type ++ [.qualType, .stmt, .decl]

/-- The kind as records show it. -/
def name : RecordKind → String
  | .type k => k.name
  | .qualType => "QUAL_TYPE"
  | .stmt => "STMT"
  | .decl => "DECL"

/-- The kind that is shown as `text`. -/
def ofName? (text : String) : Option RecordKind := all.find? (·.name == text)

theorem mem_all (k : RecordKind) : k ∈ all := by
  cases k with
  | type k => cases k <;> decide
  | _ => decide

theorem ofName?_name (k : RecordKind) : ofName? k.name = some k := by
  cases k with
  | type k => cases k <;> decide
  | _ => decide

end RecordKind

/-- The kind of record that a node gets. -/
def Node.recordKind : Node → RecordKind
  | .type t => .type t.shape.kind
  | .qualType _ _ => .qualType
  | .stmt _ _ => .stmt
  | .decl _ _ => .decl

/-- The description of one dumped node: its id, what it is, and the ids of its children in declared
    order. -/
structure Record where
  id : DumpId
  kind : RecordKind
  children : List DumpId
  deriving DecidableEq, Repr

end AstDump
