import AstDump.Node

/-!
# Edges

The nodes that a visit of a node goes on to, in order. A structural edge leads to a child and its
id enters the node's record; an auxiliary edge leads to a node that is dumped beside it. All
structural edges of a node come before its auxiliary ones.
-/

namespace AstDump

/-- One step from a node to another. Without `via` the visitor is that of the target's own category. A
    structural edge leads to a child of the node. -/
structure Edge where
  target : NodeId
  via : Option Visitor
  structural : Bool
  deriving DecidableEq, Repr

namespace Edge

/-- A step to a child of any category. -/
def child (n : NodeId) : Edge := ⟨n, none, true⟩

/-- A step to a child through a visitor. -/
def childVia (v : Visitor) (n : NodeId) : Edge := ⟨n, some v, true⟩

/-- A step beside the children, through a visitor. -/
def beside (v : Visitor) (n : NodeId) : Edge := ⟨n, some v, false⟩

end Edge

/-- The steps along an exception specification. -/
def ExceptionSpec.edges (s : ExceptionSpec) : List Edge :=
  s.exceptions.map (.beside .type) ++
    s.noexceptExpr.toList.map (.beside .stmt) ++
    s.sourceDecl.toList.map (.beside .decl) ++
    s.sourceTemplate.toList.map (.beside .decl)

/-- The steps from the type with id `self`: its desugared form, then the fields of its shape. A
    record or enumeration steps to its declaration only. -/
def TypeNode.edges (t : TypeNode) (self : NodeId) : List Edge :=
  let sugar := (t.sugarTarget self).toList.map (Edge.childVia .type)
  match t.shape with
  | .generic => sugar
  | .function r => sugar ++ [.childVia .type r]
  | .functionProto r ps s => sugar ++ .childVia .type r :: ps.map (.childVia .type) ++ s.edges
  | .array e => sugar ++ [.childVia .type e]
  | .variableArray e n => sugar ++ [.childVia .type e, .childVia .stmt n]
  | .pointer p => sugar ++ [.childVia .type p]
  | .tag d => [.beside .decl d]

/-- The steps from the node with id `self`. -/
def Node.edges (n : Node) (self : NodeId) : List Edge :=
  match n with
  | .type t => t.edges self
  | .qualType u _ => [.childVia .type u]
  | .stmt _ cs => cs.map .child
  | .decl _ cs => cs.map .child

end AstDump
