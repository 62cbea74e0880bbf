/-!
# Categories of nodes

Every node belongs to one of four categories. Three visitors serve them: a qualified-type wrapper
is visited as a type.
-/

namespace AstDump

/-- The family that a node belongs to: unqualified types, wrappers that put qualifiers on one,
    statements and expressions, declarations. -/
inductive Category where
  | type
  | qualType
  | stmt
  | decl
  deriving DecidableEq, Repr

/-- The way by which a node is visited. The one for types serves unqualified types and wrappers. -/
inductive Visitor where
  | type
  | stmt
  | decl
  deriving DecidableEq, Repr

namespace Category

/-- All categories, in the order of their codes. -/
def all : List Category := [.type, .qualType, .stmt, .decl]

/-- The category as messages show it. -/
def name : Category → String
  | .type => "type"
  | .qualType => "qualified type"
  | .stmt => "statement"
  | .decl => "declaration"

/-- The category that is shown as `text`. -/
def ofName? (text : String) : Option Category := all.find? (·.name == text)

/-- The visitor in charge of a category. -/
def visitor : Category → Visitor
  | .type => .type
  | .qualType => .type
  | .stmt => .stmt
  | .decl => .decl

theorem mem_all (c : Category) : c ∈ all := by cases c <;> decide

theorem ofName?_name (c : Category) : ofName? c.name = some c := by cases c <;> decide

end Category

/-- What a visitor asks for, as messages show it: the name of the category that it serves, where a
    wrapper counts as a type. -/
def Visitor.name : Visitor → String
  | .type => Category.type.name
  | .stmt => Category.stmt.name
  | .decl => Category.decl.name

end AstDump
