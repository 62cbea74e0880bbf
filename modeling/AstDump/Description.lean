import AstDump.Reference

/-!
# Descriptions

What the front end says about a node before it stands in an arena: a type with whatever fields the
front end could read off it, a wrapper, a statement or a declaration. `TypeFields.shape` keeps the
fields that the kind declares and names the first mandatory one that is missing.
-/

namespace AstDump

/-- The fields read off a type, whether its kind declares them or not. -/
structure TypeFields where
  returnType : Option NodeId := none
  params : List NodeId := []
  spec : ExceptionSpec := {}
  element : Option NodeId := none
  sizeExpr : Option NodeId := none
  pointee : Option NodeId := none
  decl : Option NodeId := none
  deriving DecidableEq, Repr

namespace TypeFields

/-- Appends parameter types. -/
def addParams (f : TypeFields) (ids : List NodeId) : TypeFields :=
  { f with params := f.params ++ ids }

/-- Appends exception types. -/
def addExceptions (f : TypeFields) (ids : List NodeId) : TypeFields :=
  { f with spec := { f.spec with exceptions := f.spec.exceptions ++ ids } }

/-- The shape that a type of kind `k` takes from its fields, or the first mandatory field that is
    missing. Fields that the kind does not declare are dropped. -/
def shape (f : TypeFields) (k : TypeKind) : Except Field TypeShape :=
  match k with
  | .generic => .ok .generic
  | .function =>
    match f.returnType with
    | none => .error .returnType
    | some r => .ok (.function r)
  | .functionProto =>
    match f.returnType with
    | none => .error .returnType
    | some r => .ok (.functionProto r f.params f.spec)
  | .array =>
    match f.element with
    | none => .error .element
    | some e => .ok (.array e)
  | .variableArray =>
    match f.element, f.sizeExpr with
    | none, _ => .error .element
    | some _, none => .error .sizeExpr
    | some e, some n => .ok (.variableArray e n)
  | .pointer =>
    match f.pointee with
    | none => .error .pointee
    | some p => .ok (.pointer p)
  | .tag =>
    match f.decl with
    | none => .error .tagDecl
    | some d => .ok (.tag d)

/-- A shape is of the kind that it was made for. -/
theorem kind_eq_of_shape_eq_ok {f : TypeFields} {k : TypeKind} {s : TypeShape}
    (h : f.shape k = .ok s) : s.kind = k := by
  cases k <;> simp only [shape] at h <;> (try split at h) <;> cases h <;> rfl

end TypeFields

/-- What the front end says about one node. A type comes with its desugared form and the fields read off
    it. -/
inductive Description where
  | type (className : String) (desugared : Option NodeId) (fields : TypeFields)
  | qualType (underlying : NodeId) (qualifiers : Qualifiers)
  | stmt (className : String) (children : List NodeId)
  | decl (className : String) (children : List NodeId)
  deriving DecidableEq, Repr

end AstDump
