import AstDump.Arena
import AstDump.Description

/-!
# Building arenas

A builder hands out ids and takes one description for each. A node may refer to nodes that are not
described yet, so ids can be reserved ahead of their descriptions and cycles can be told.
`Builder.finish` checks that every slot is described and that every reference leads to a node of
the category that its field asks for, and reports the first fault.
-/

namespace AstDump

/-- What can be wrong with a description: its id was never handed out or has a description already, or a
    field is missing that the kind of the type asks for. With a finished set of them: an id was handed
    out and never described, or a field refers outside the arena or to a node of another category than
    it asks for. A field is given by the name that the message shows. -/
inductive IngestError where
  | notReserved (id : NodeId)
  | redefined (id : NodeId)
  | undefined (id : NodeId)
  | outOfRange (source : NodeId) (field : String) (target : NodeId) (size : Nat)
  | wrongCategory (source : NodeId) (field : String) (expected found : Category)
  | missingField (id : NodeId) (className field : String)
  deriving DecidableEq, Repr

/-- The text of an error. -/
def IngestError.message : IngestError → String
  | .notReserved id => s!"node {id.label} was never reserved"
  | .redefined id => s!"node {id.label} is already defined"
  | .undefined id => s!"node {id.label} was reserved but never defined"
  | .outOfRange source field target size =>
    s!"{field} of node {source.label} references {target.label}, " ++
      s!"outside an arena of {size} nodes"
  | .wrongCategory source field expected found =>
    s!"{field} of node {source.label} must reference a {expected.name} node, " ++
      s!"found a {found.name} node"
  | .missingField id className field =>
    s!"`{className}` node {id.label} is missing its {field}"

/-- An arena in the making: one slot for each id handed out, empty until the id is described, and the
    class names used by the descriptions so far. -/
structure Builder where
  slots : Array (Option Node) := #[]
  classes : ClassNames := .empty
  deriving DecidableEq, Repr

namespace Builder

/-- What a call to a builder gives: an answer or an error, and in either case the builder to go on
    with. -/
abbrev Outcome (α : Type) := EStateM.Result IngestError Builder α

/-- The builder without slots. -/
def empty : Builder := {}

/-- The number of slots. -/
def size (b : Builder) : Nat := b.slots.size

/-- Whether there are no slots. -/
def isEmpty (b : Builder) : Bool := b.slots.isEmpty

/-- Hands out the next id. A builder holds fewer slots than there are words, so that the position
    fits in an id. -/
def reserve (b : Builder) : NodeId × Builder :=
  (.ofIndex b.slots.size, { b with slots := b.slots.push none })

/-- The node that a description of `id` stands for, and the class names with its own among them. -/
def ingest (id : NodeId) (classes : ClassNames) :
    Description → Except IngestError (Node × ClassNames)
  | .type className desugared fields =>
    match fields.shape (TypeKind.ofClass className) with
    | .error field => .error (.missingField id className field.name)
    | .ok shape =>
      let (name, classes) := classes.intern className
      .ok (.type ⟨name, desugared, shape⟩, classes)
  | .qualType underlying qualifiers => .ok (.qualType underlying qualifiers, classes)
  | .stmt className children =>
    let (name, classes) := classes.intern className
    .ok (.stmt name children, classes)
  | .decl className children =>
    let (name, classes) := classes.intern className
    .ok (.decl name children, classes)

/-- Describes an id that was handed out and has no description yet. -/
def define (b : Builder) (id : NodeId) (d : Description) : Outcome Unit :=
  match b.slots[id.index]? with
  | none => .error (.notReserved id) b
  | some (some _) => .error (.redefined id) b
  | some none =>
    match ingest id b.classes d with
    | .error e => .error e b
    | .ok (node, classes) =>
      .ok () { slots := b.slots.setIfInBounds id.index (some node), classes }

/-- Hands out the next id and describes it. If the description is refused, the id stays handed
    out. -/
def add (b : Builder) (d : Description) : Outcome NodeId :=
  let (id, b) := b.reserve
  match b.define id d with
  | .ok () b => .ok id b
  | .error e b => .error e b

/-- What is wrong with a reference held by the node `source`. -/
def faultOf? (nodes : Array Node) (source : NodeId) (r : Reference) : Option IngestError :=
  match nodes[r.target.index]? with
  | none => some (.outOfRange source r.field.name r.target nodes.size)
  | some found =>
    match r.field.expected? with
    | none => none
    | some expected =>
      if expected = found.category then none
      else some (.wrongCategory source r.field.name expected found.category)

/-- The first faulty reference, by the order of the nodes and then of their fields. -/
def firstFault? (nodes : Array Node) : Option IngestError :=
  nodes.toList.zipIdx.findSome? fun (node, i) =>
    node.references.findSome? (faultOf? nodes (.ofIndex i))

/-- The arena of all descriptions, if every slot is described and every reference is good. -/
def finish (b : Builder) : Except IngestError Arena :=
  match b.slots.toList.findIdx? Option.isNone with
  | some i => .error (.undefined (.ofIndex i))
  | none =>
    let nodes := (b.slots.toList.filterMap id).toArray
    match firstFault? nodes with
    | some e => .error e
    | none => .ok { nodes, classes := b.classes }

end Builder

end AstDump
