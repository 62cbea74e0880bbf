import AstDump.Arena
import AstDump.Edge
import Mathlib.Logic.Relation

/-!
# Children and reachable nodes

What the records of a dump list, said by kinds instead of by steps: the child list of a type is that
of its kind's parent followed by the fields that the kind adds, and beside the children stand the
nodes that are dumped without being listed.

Results:
* `TypeNode.toList_sugarTarget`: the desugared form is followed unless it is the type itself.
* `Node.childTargets_edges`: the structural edges of a node lead to its children, in order.
* `Node.targets_edges`: all edges lead to the children and then to the nodes beside them.
* `Arena.Reaches.mem_of_closed`: nodes that lead only to each other hold all that they reach.
-/

namespace AstDump

/-! ## Child lists by kind -/

namespace TypeKind

theorem lineage_of_parent_eq_none {k : TypeKind} (h : k.parent = none) : k.lineage = [k] := by
  rw [lineage]
  split
  · rfl
  · simp_all

theorem lineage_of_parent_eq_some {k p : TypeKind} (h : k.parent = some p) :
    k.lineage = k :: p.lineage := by
  rw [lineage]
  split
  · simp_all
  · simp_all

end TypeKind

namespace TypeNode

/-- What kind `k` adds to the child list of the type with id `self`: the generic kind the desugared
    form unless it is the type itself, every other kind the fields that its parent does not have. -/
def added (t : TypeNode) (self : NodeId) (k : TypeKind) : List NodeId :=
  match k, t.shape with
  | .generic, _ => t.desugared.toList.filter (· ≠ self)
  | .function, .function r => [r]
  | .function, .functionProto r _ _ => [r]
  | .functionProto, .functionProto _ ps _ => ps
  | .array, .array e => [e]
  | .array, .variableArray e _ => [e]
  | .variableArray, .variableArray _ n => [n]
  | .pointer, .pointer p => [p]
  | _, _ => []

/-- The child list of the type by the rule of kind `k`: what the kinds from the generic one down to
    `k` add, in that order. -/
def childrenAs (t : TypeNode) (self : NodeId) (k : TypeKind) : List NodeId :=
  k.lineage.reverse.flatMap (t.added self)

theorem childrenAs_of_parent_eq_none (t : TypeNode) (self : NodeId) {k : TypeKind}
    (h : k.parent = none) : t.childrenAs self k = t.added self k := by
  simp [childrenAs, TypeKind.lineage_of_parent_eq_none h]

/-- The child list of a kind is its parent's, followed by its own fields. -/
theorem childrenAs_of_parent_eq_some (t : TypeNode) (self : NodeId) {k p : TypeKind}
    (h : k.parent = some p) : t.childrenAs self k = t.childrenAs self p ++ t.added self k := by
  simp [childrenAs, TypeKind.lineage_of_parent_eq_some h]

/-- The child list of a type: by the rule of its kind, or empty for a record or enumeration. -/
def children (t : TypeNode) (self : NodeId) : List NodeId :=
  if t.shape.kind = .tag then [] else t.childrenAs self t.shape.kind

end TypeNode

/-! ## Nodes beside the children -/

/-- The nodes of an exception specification. -/
def ExceptionSpec.nodes (s : ExceptionSpec) : List NodeId :=
  s.exceptions ++ s.noexceptExpr.toList ++ s.sourceDecl.toList ++ s.sourceTemplate.toList

/-- The nodes that are dumped beside the children of a type. -/
def TypeShape.beside : TypeShape → List NodeId
  | .functionProto _ _ s => s.nodes
  | .tag d => [d]
  | _ => []

namespace Node

/-- The child list of the node with id `self`. -/
def children (node : Node) (self : NodeId) : List NodeId :=
  match node with
  | .type t => t.children self
  | .qualType u _ => [u]
  | .stmt _ cs => cs
  | .decl _ cs => cs

/-- The nodes that are dumped beside the children of a node. -/
def beside : Node → List NodeId
  | .type t => t.shape.beside
  | _ => []

/-- All nodes that a visit of the node with id `self` goes on to, in order. -/
def followed (node : Node) (self : NodeId) : List NodeId := node.children self ++ node.beside

end Node

/-! ## Edges lead there -/

namespace Edge

/-- The ends of edges, in order. -/
def targets (es : List Edge) : List NodeId := es.map (·.target)

/-- The ends of the structural edges, in order. -/
def childTargets (es : List Edge) : List NodeId := targets (es.filter (·.structural))

variable (v : Visitor) (x : NodeId) (xs : List NodeId) (es es' : List Edge)

@[simp] theorem target_childVia : (childVia v x).target = x := rfl

@[simp] theorem target_beside : (Edge.beside v x).target = x := rfl

@[simp] theorem targets_nil : targets [] = [] := rfl

@[simp] theorem targets_cons (e : Edge) : targets (e :: es) = e.target :: targets es := rfl

@[simp] theorem targets_append : targets (es ++ es') = targets es ++ targets es' :=
  List.map_append

@[simp] theorem targets_child : targets (xs.map child) = xs := by
  simp [targets, child, Function.comp_def]

@[simp] theorem targets_childVia : targets (xs.map (childVia v)) = xs := by
  simp [targets, childVia, Function.comp_def]

@[simp] theorem targets_beside : targets (xs.map (Edge.beside v)) = xs := by
  simp [targets, Edge.beside, Function.comp_def]

@[simp] theorem childTargets_nil : childTargets [] = [] := rfl

@[simp] theorem childTargets_cons_childVia :
    childTargets (childVia v x :: es) = x :: childTargets es := rfl

@[simp] theorem childTargets_cons_beside :
    childTargets (Edge.beside v x :: es) = childTargets es := rfl

@[simp] theorem childTargets_append :
    childTargets (es ++ es') = childTargets es ++ childTargets es' := by simp [childTargets]

@[simp] theorem childTargets_child : childTargets (xs.map child) = xs := by
  simp [childTargets, targets, child, List.filter_map, Function.comp_def]

@[simp] theorem childTargets_childVia : childTargets (xs.map (childVia v)) = xs := by
  simp [childTargets, targets, childVia, List.filter_map, Function.comp_def]

@[simp] theorem childTargets_beside : childTargets (xs.map (Edge.beside v)) = [] := by
  simp [childTargets, targets, Edge.beside, List.filter_map, Function.comp_def]

end Edge

open Edge

theorem ExceptionSpec.targets_edges (s : ExceptionSpec) : targets s.edges = s.nodes := by
  simp only [ExceptionSpec.edges, targets_append, targets_beside, ExceptionSpec.nodes]

theorem ExceptionSpec.childTargets_edges (s : ExceptionSpec) : childTargets s.edges = [] := by
  simp only [ExceptionSpec.edges, childTargets_append, childTargets_beside, List.append_nil]

namespace TypeNode

variable (t : TypeNode) (self : NodeId)

theorem sugarTarget_eq_some_iff {d : NodeId} :
    t.sugarTarget self = some d ↔ t.desugared = some d ∧ d ≠ self := by
  simp [sugarTarget, Option.filter_eq_some_iff]

theorem toList_sugarTarget : (t.sugarTarget self).toList = t.desugared.toList.filter (· ≠ self) := by
  unfold sugarTarget
  cases t.desugared with
  | none => rfl
  | some d => by_cases h : d = self <;> simp [h]

theorem childTargets_edges : childTargets (t.edges self) = t.children self := by
  have generic := childrenAs_of_parent_eq_none t self (k := .generic) rfl
  have function := childrenAs_of_parent_eq_some t self (k := .function) rfl
  have array := childrenAs_of_parent_eq_some t self (k := .array) rfl
  unfold edges children
  rw [toList_sugarTarget]
  cases h : t.shape with
  | generic => simp [TypeShape.kind, generic, added]
  | function r => simp [TypeShape.kind, function, generic, added, h]
  | functionProto r ps s =>
    have proto := childrenAs_of_parent_eq_some t self (k := .functionProto) rfl
    simp [TypeShape.kind, proto, function, generic, added, h, ExceptionSpec.childTargets_edges]
  | array e => simp [TypeShape.kind, array, generic, added, h]
  | variableArray e n =>
    have computed := childrenAs_of_parent_eq_some t self (k := .variableArray) rfl
    simp [TypeShape.kind, computed, array, generic, added, h]
  | pointer p =>
    have pointer := childrenAs_of_parent_eq_some t self (k := .pointer) rfl
    simp [TypeShape.kind, pointer, generic, added, h]
  | tag d => simp [TypeShape.kind]

theorem targets_edges : targets (t.edges self) = t.children self ++ t.shape.beside := by
  rw [← childTargets_edges]
  unfold edges
  cases t.shape <;>
    simp [TypeShape.beside, ExceptionSpec.targets_edges, ExceptionSpec.childTargets_edges]

end TypeNode

namespace Node

variable (node : Node) (self : NodeId)

/-- The structural edges of a node lead to its children. -/
theorem childTargets_edges : childTargets (node.edges self) = node.children self := by
  cases node with
  | type t => exact t.childTargets_edges self
  | qualType u q => rfl
  | stmt c cs => exact childTargets_child cs
  | decl c cs => exact childTargets_child cs

/-- All edges of a node lead to its children and then to the nodes beside them. -/
theorem targets_edges : targets (node.edges self) = node.followed self := by
  cases node with
  | type t => exact t.targets_edges self
  | qualType u q => rfl
  | stmt c cs => simp [Node.edges, followed, children, beside]
  | decl c cs => simp [Node.edges, followed, children, beside]

end Node

/-! ## Reachable nodes -/

namespace Arena

variable {a : Arena}

/-- The nodes that a visit of node `n` goes on to, in order. -/
def followed (a : Arena) (n : NodeId) : List NodeId :=
  match a.node? n with
  | none => []
  | some node => node.followed n

theorem followed_eq {n : NodeId} {node : Node} (h : a.node? n = some node) :
    a.followed n = node.followed n := by
  simp only [followed, h]

theorem children_subset {n : NodeId} {node : Node} (h : a.node? n = some node) {ns : List NodeId}
    (hns : a.followed n ⊆ ns) : node.children n ⊆ ns := by
  rw [followed_eq h] at hns
  exact List.Subset.trans (List.subset_append_left _ _) hns

/-- Node `n` can be reached from node `m`. -/
def Reaches (a : Arena) : NodeId → NodeId → Prop :=
  Relation.ReflTransGen fun m n => n ∈ a.followed m

/-- Node `n` can be reached from one of `roots`. -/
def ReachedFrom (a : Arena) (roots : List NodeId) (n : NodeId) : Prop :=
  ∃ r ∈ roots, a.Reaches r n

theorem reachedFrom_append {ns ns' : List NodeId} {n : NodeId} :
    a.ReachedFrom (ns ++ ns') n ↔ a.ReachedFrom ns n ∨ a.ReachedFrom ns' n := by
  simp only [ReachedFrom, List.mem_append, or_and_right, exists_or]

/-- Nodes that lead only to each other hold whatever can be reached from them. -/
theorem Reaches.mem_of_closed {m n : NodeId} (h : a.Reaches m n) {ns : List NodeId}
    (hclosed : ∀ m ∈ ns, a.followed m ⊆ ns) (hm : m ∈ ns) : n ∈ ns := by
  induction h with
  | refl => exact hm
  | tail _ hstep ih => exact hclosed _ ih hstep

end Arena

end AstDump
