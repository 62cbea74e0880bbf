/-!
# Kinds of types

The front end has many concrete classes of types; a dump tells seven kinds apart. `TypeKind.ofClass`
classifies a class name by a table, and a name that the table does not list is of the generic kind.
Kinds form a tree through `TypeKind.parent`: the child list of a kind starts with its parent's.
-/

namespace AstDump

/-- The kinds of types that have a rule of their own for listing children. A generic type lists its
    desugared form only, a function its return type, a prototype the parameter types after that. An
    array lists its element type, one of computed extent the size expression after that. A pointer lists
    its pointee type. A tag type lists nothing: its declaration is dumped beside it. -/
inductive TypeKind where
  | generic
  | function
  | functionProto
  | array
  | variableArray
  | pointer
  | tag
  deriving DecidableEq, Repr

namespace TypeKind

/-- All kinds, in the order of their codes. -/
def all : List TypeKind :=
  [.generic, .function, .functionProto, .array, .variableArray, .pointer, .tag]

/-- The class names that have a kind of their own, with that kind. -/
def classTable : List (String × TypeKind) :=
  [("FunctionProtoType", .functionProto),
   ("FunctionNoProtoType", .function),
   ("ConstantArrayType", .array),
   ("DependentSizedArrayType", .array),
   ("IncompleteArrayType", .array),
   ("VariableArrayType", .variableArray),
   ("PointerType", .pointer),
   ("RecordType", .tag),
   ("EnumType", .tag)]

/-- The kind of a class name; a name outside the table is of the generic kind. -/
def ofClass (className : String) : TypeKind :=
  (classTable.lookup className).getD .generic

/-- The kind whose child list a kind's own starts with. -/
def parent : TypeKind → Option TypeKind
  | .generic => none
  | .function | .array | .pointer | .tag => some .generic
  | .functionProto => some .function
  | .variableArray => some .array

/-- The number of steps from a kind to the generic kind. -/
def rank : TypeKind → Nat
  | .generic => 0
  | .function | .array | .pointer | .tag => 1
  | .functionProto | .variableArray => 2

theorem rank_of_parent_eq_some {k p : TypeKind} (h : k.parent = some p) :
    p.rank + 1 = k.rank := by
  cases k <;> simp [parent] at h <;> subst h <;> rfl

/-- The kind itself, its parent, the parent of that, up to the generic kind. -/
def lineage (k : TypeKind) : List TypeKind :=
  match _ : k.parent with
  | none => [k]
  | some p => k :: p.lineage
termination_by k.rank
decreasing_by
  rename_i h
  have := rank_of_parent_eq_some h
  omega

/-- The kind as records show it. -/
def name : TypeKind → String
  | .generic => "TYPE"
  | .function => "FUNCTION_TYPE"
  | .functionProto => "FUNCTION_PROTO_TYPE"
  | .array => "ARRAY_TYPE"
  | .variableArray => "VARIABLE_ARRAY_TYPE"
  | .pointer => "POINTER_TYPE"
  | .tag => "TAG_TYPE"

/-- The kind that is shown as `text`. -/
def ofName? (text : String) : Option TypeKind := all.find? (·.name == text)

theorem mem_all (k : TypeKind) : k ∈ all := by cases k <;> decide

theorem ofName?_name (k : TypeKind) : ofName? k.name = some k := by cases k <;> decide

end TypeKind

end AstDump
