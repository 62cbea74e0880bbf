import AstDump.Node

/-!
# References

The ids that a node holds, each with the field that holds it and the category that the field asks
for. `Node.references` lists them in the order in which an arena is checked.
-/

namespace AstDump

/-- The field of a node through which it refers to another. `child` is any child of a statement or a
    declaration. -/
inductive Field where
  | desugared
  | returnType
  | parameter
  | exception
  | noexceptExpr
  | sourceDecl
  | sourceTemplate
  | element
  | sizeExpr
  | pointee
  | tagDecl
  | underlying
  | child
  deriving DecidableEq, Repr

namespace Field

/-- All fields. -/
def all : List Field :=
  [.desugared, .returnType, .parameter, .exception, .noexceptExpr, .sourceDecl, .sourceTemplate,
   .element, .sizeExpr, .pointee, .tagDecl, .underlying, .child]

/-- The field as messages show it. -/
def name : Field → String
  | .desugared => "desugared type"
  | .returnType => "return type"
  | .parameter => "parameter type"
  | .exception => "exception type"
  | .noexceptExpr => "noexcept expression"
  | .sourceDecl => "source declaration"
  | .sourceTemplate => "source template"
  | .element => "element type"
  | .sizeExpr => "size expression"
  | .pointee => "pointee type"
  | .tagDecl => "tag declaration"
  | .underlying => "underlying type"
  | .child => "child"

/-- The category that a field asks for; a child may be of any. -/
def expected? : Field → Option Category
  | .desugared => some .type
  | .returnType | .parameter | .exception | .element | .pointee => some .qualType
  | .noexceptExpr | .sizeExpr => some .stmt
  | .sourceDecl | .sourceTemplate | .tagDecl => some .decl
  | .underlying => some .type
  | .child => none

theorem mem_all (f : Field) : f ∈ all := by cases f <;> decide

end Field

/-- One id held by a node, with the field that holds it. -/
structure Reference where
  field : Field
  target : NodeId
  deriving DecidableEq, Repr

/-- The ids of an exception specification. -/
def ExceptionSpec.references (s : ExceptionSpec) : List Reference :=
  s.exceptions.map (⟨.exception, ·⟩) ++
    s.noexceptExpr.toList.map (⟨.noexceptExpr, ·⟩) ++
    s.sourceDecl.toList.map (⟨.sourceDecl, ·⟩) ++
    s.sourceTemplate.toList.map (⟨.sourceTemplate, ·⟩)

/-- The ids of a shape. -/
def TypeShape.references : TypeShape → List Reference
  | .generic => []
  | .function r => [⟨.returnType, r⟩]
  | .functionProto r ps s => ⟨.returnType, r⟩ :: ps.map (⟨.parameter, ·⟩) ++ s.references
  | .array e => [⟨.element, e⟩]
  | .variableArray e n => [⟨.element, e⟩, ⟨.sizeExpr, n⟩]
  | .pointer p => [⟨.pointee, p⟩]
  | .tag d => [⟨.tagDecl, d⟩]

/-- Every id that a node holds, field by field. -/
def Node.references : Node → List Reference
  | .type t => t.desugared.toList.map (⟨.desugared, ·⟩) ++ t.shape.references
  | .qualType u _ => [⟨.underlying, u⟩]
  | .stmt _ cs => cs.map (⟨.child, ·⟩)
  | .decl _ cs => cs.map (⟨.child, ·⟩)

end AstDump
