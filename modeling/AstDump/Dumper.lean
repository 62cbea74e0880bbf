import AstDump.Arena
import AstDump.Config
import AstDump.DumpError
import AstDump.Edge
import AstDump.Nesting
import AstDump.Registry
import AstDump.Trace

/-!
# The traversal

A dumper walks an arena depth first. A visit enters its node; the first time it visits the node's
edges in order and then hands the node's record to the sink, and any later visit only answers the
node's id. A node is entered before its edges are followed, so a cycle ends where it meets itself.

`Dumper.visitAt` takes a bound on how deep visits may nest. Every node that is entered is used up,
so one more than the number of nodes is always enough, and the public visits supply just that.
-/

namespace AstDump

/-- A traversal in progress: the arena that is walked, the ids so far, the sink, the settings, the number
    of records that the sink took, and what was reported. -/
structure Dumper (σ : Type) where
  arena : Arena
  registry : Registry
  sink : σ
  config : Config
  records : Nat
  log : Array TraceEntry

namespace Dumper

variable {σ : Type}

/-- What a visit gives: an answer or an error, and in either case the dumper to go on with. -/
abbrev Outcome (σ α : Type) := EStateM.Result DumpError (Dumper σ) α

/-- A dumper that has visited nothing; the sink is told of the new run. -/
def new [Sink σ] (arena : Arena) (sink : σ) (config : Config) : Dumper σ where
  arena := arena
  registry := .new arena.size config.idScheme
  sink := Sink.beginRun config.runId sink
  config := config
  records := 0
  log := #[]

/-- The node that an edge leads to, if it is there and the edge's visitor serves its category. -/
def locate (arena : Arena) (e : Edge) : Except DumpError Node :=
  match arena.node? e.target with
  | none => .error (.rootOutOfRange e.target arena.size)
  | some node =>
    match e.via with
    | none => .ok node
    | some v =>
      if node.category.visitor = v then .ok node
      else .error (.categoryMismatch e.target v.name node.category)

/-- What opens around the children of the node `n`: a span for a type, nothing for any other. -/
def spanOf (arena : Arena) (n : NodeId) : Node → Except DumpError (Option TraceEvent)
  | .type t =>
    match arena.className? t.className with
    | none => .error .unresolved
    | some name => .ok (some (.typeSpan n t.shape.kind name))
  | _ => .ok none

/-- The id of a node, given to it now if it has none. -/
def idOf (n : NodeId) (d : Dumper σ) : Outcome σ DumpId :=
  let ⟨arena, registry, sink, config, records, log⟩ := d
  if h : registry.Covers n then
    let (id, registry) := registry.assign n h
    .ok id ⟨arena, registry, sink, config, records, log⟩
  else .error .unresolved ⟨arena, registry, sink, config, records, log⟩

/-- Reports a record of a node and hands it to the sink. -/
def offer [Sink σ] (depth : Nat) (n : NodeId) (r : Record) (d : Dumper σ) : Outcome σ Unit :=
  let ⟨arena, registry, sink, config, records, log⟩ := d
  let log := log.push ⟨depth, .dump n r⟩
  match Sink.record r sink with
  | .ok () sink => .ok () ⟨arena, registry, sink, config, records + 1, log⟩
  | .error e sink => .error (.sink e) ⟨arena, registry, sink, config, records, log⟩

/-- Offers the record of a node whose children are done. -/
def emit [Sink σ] (depth : Nat) (n : NodeId) (kind : RecordKind) (children : List DumpId)
    (d : Dumper σ) : Outcome σ Unit :=
  match idOf n d with
  | .error err d => .error err d
  | .ok id d => offer depth n ⟨id, kind, children⟩ d

/-- Visits edges in order and collects the ids of the structural ones. -/
def follow (visit : Edge → Dumper σ → Outcome σ DumpId) :
    List Edge → Dumper σ → Outcome σ (List DumpId)
  | [], d => .ok [] d
  | e :: es, d =>
    match visit e d with
    | .error err d => .error err d
    | .ok id d =>
      match follow visit es d with
      | .error err d => .error err d
      | .ok ids d => .ok (if e.structural then id :: ids else ids) d

/-- Visits the children of a node entered for the first time through `visit`, which takes the number of
    open spans, and then emits its record. -/
def expand [Sink σ] (visit : Nat → Edge → Dumper σ → Outcome σ DumpId) (depth : Nat)
    (n : NodeId) (node : Node) (d : Dumper σ) : Outcome σ Unit :=
  match spanOf d.arena n node with
  | .error err => .error err d
  | .ok span? =>
    let (inner, d) := match span? with
      | none => (depth, d)
      | some span => (depth + 1, { d with log := d.log.push ⟨depth, span⟩ })
    match follow (visit inner) (node.edges n) d with
    | .error err d => .error err d
    | .ok children d => emit depth n node.recordKind children d

/-- Expands a node entered for the first time by the rule for its category. Wrappers have a rule of their
    own and none here. -/
def dispatch [Sink σ] (visit : Nat → Edge → Dumper σ → Outcome σ DumpId) (depth : Nat)
    (n : NodeId) (d : Dumper σ) : Outcome σ Unit :=
  match d.arena.node? n with
  | none => .error .unresolved d
  | some (.qualType _ _) => .error (.kindNotImplemented .qualType) d
  | some node => expand visit depth n node d

/-- Dumps the node `node` with id `n`, which was entered for the first time. -/
def dump [Sink σ] (visit : Nat → Edge → Dumper σ → Outcome σ DumpId) (depth : Nat)
    (n : NodeId) (node : Node) (d : Dumper σ) : Outcome σ Unit :=
  match node with
  | .qualType _ _ => expand visit depth n node d
  | _ => dispatch visit depth n d

/-- Visits the node that an edge leads to, with `depth` spans open and visits nested at most `bound`
    deep, and answers its id. -/
def visitAt [Sink σ] : (bound depth : Nat) → Edge → Dumper σ → Outcome σ DumpId
  | 0, _, _, d => .error .tooDeep d
  | bound + 1, depth, e, d =>
    match locate d.arena e with
    | .error err => .error err d
    | .ok node =>
      let ⟨arena, registry, sink, config, records, log⟩ := d
      if h : registry.Covers e.target then
        match registry.enter e.target h with
        | (false, registry) => idOf e.target ⟨arena, registry, sink, config, records, log⟩
        | (true, registry) =>
          let d := ⟨arena, registry, sink, config, records, log⟩
          match guarded config.growStack fun _ => dump (visitAt bound) depth e.target node d with
          | .error err d => .error err d
          | .ok () d => idOf e.target d
      else .error .unresolved ⟨arena, registry, sink, config, records, log⟩

/-- The bound on nesting that is always enough. -/
def bound (d : Dumper σ) : Nat := d.arena.size + 1

/-- Visits a node of any category. -/
def visit [Sink σ] (d : Dumper σ) (n : NodeId) : Outcome σ DumpId :=
  visitAt d.bound 0 (.child n) d

/-- Visits a node through the visitor of one category. -/
def visitVia [Sink σ] (d : Dumper σ) (v : Visitor) (n : NodeId) : Outcome σ DumpId :=
  visitAt d.bound 0 (.childVia v n) d

end Dumper

end AstDump
