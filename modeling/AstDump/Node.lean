import AstDump.Category
import AstDump.ClassName
import AstDump.NodeId
import AstDump.Qualifiers
import AstDump.TypeKind

/-!
# Nodes

A node is an unqualified type, a wrapper that qualifies one, a statement or a declaration. What a
type holds besides its class and its desugared form depends on its kind and is its `TypeShape`.
-/

namespace AstDump

/-- What a prototype says about the exceptions that its function may throw: the qualified types of a
    dynamic specification, the expression of a `noexcept` guard, the declaration that the specification
    belongs to and the template that it was made from. These nodes are dumped on their own and are no
    children of the function type. -/
structure ExceptionSpec where
  exceptions : List NodeId := []
  noexceptExpr : Option NodeId := none
  sourceDecl : Option NodeId := none
  sourceTemplate : Option NodeId := none
  deriving DecidableEq, Repr

/-- The fields of a type, by its kind. Parameter types stand in declared order. -/
inductive TypeShape where
  | generic
  | function (returnType : NodeId)
  | functionProto (returnType : NodeId) (params : List NodeId) (spec : ExceptionSpec)
  | array (element : NodeId)
  | variableArray (element sizeExpr : NodeId)
  | pointer (pointee : NodeId)
  | tag (decl : NodeId)
  deriving DecidableEq, Repr

/-- The kind that a shape belongs to. -/
def TypeShape.kind : TypeShape → TypeKind
  | .generic => .generic
  | .function _ => .function
  | .functionProto _ _ _ => .functionProto
  | .array _ => .array
  | .variableArray _ _ => .variableArray
  | .pointer _ => .pointer
  | .tag _ => .tag

/-- An unqualified type: its concrete class, the type with every layer of sugar taken off, and the
    fields that the kind of the class declares. No desugared type, or a link to the node itself, means
    that there is no sugar. -/
structure TypeNode where
  className : ClassName
  desugared : Option NodeId
  shape : TypeShape
  deriving DecidableEq, Repr

/-- The desugared form of the type with id `self`, if it is another node. -/
def TypeNode.sugarTarget (t : TypeNode) (self : NodeId) : Option NodeId :=
  t.desugared.filter (· != self)

/-- One node of an arena. The children of a statement or a declaration stand in declared order. -/
inductive Node where
  | type (t : TypeNode)
  | qualType (underlying : NodeId) (qualifiers : Qualifiers)
  | stmt (className : ClassName) (children : List NodeId)
  | decl (className : ClassName) (children : List NodeId)
  deriving DecidableEq, Repr

/-- The category of a node. -/
def Node.category : Node → Category
  | .type _ => .type
  | .qualType _ _ => .qualType
  | .stmt _ _ => .stmt
  | .decl _ _ => .decl

end AstDump
