import AstDump.Record

/-!
# The trace of a traversal

What a traversal reports while it runs, in order. A span is reported when it opens, and every entry
carries the number of spans that are open around it.
-/

namespace AstDump

/-- One thing that a traversal reports: the span around the dump of some roots opens, the span around
    the children of a type opens, a record is about to go to the sink, or the dump of some roots is
    done. -/
inductive TraceEvent where
  | rootsSpan (nodes roots : Nat)
  | typeSpan (node : NodeId) (kind : TypeKind) (className : String)
  | dump (node : NodeId) (record : Record)
  | complete (records ids : Nat)
  deriving DecidableEq, Repr

/-- How much detail a reader must ask for to see an event. -/
inductive TraceLevel where
  | trace
  | debug
  | warn
  deriving DecidableEq, Repr

/-- The level as listings show it. -/
def TraceLevel.name : TraceLevel → String
  | .trace => "TRACE"
  | .debug => "DEBUG"
  | .warn => "WARN"

/-- The level of an event. -/
def TraceEvent.level : TraceEvent → TraceLevel
  | .rootsSpan _ _ => .debug
  | .typeSpan _ _ _ => .trace
  | .dump _ _ => .trace
  | .complete _ _ => .debug

/-- The name of a span, or the message of an event that is none. -/
def TraceEvent.title : TraceEvent → String
  | .rootsSpan _ _ => "dump_roots"
  | .typeSpan _ _ _ => "type"
  | .dump _ _ => "dump"
  | .complete _ _ => "traversal complete"

/-- The value of a field of an event. -/
inductive TraceValue where
  | text (value : String)
  | count (value : Nat)
  deriving DecidableEq, Repr

/-- The fields that an event carries, by name. A type without a parent leaves that field out. -/
def TraceEvent.fields : TraceEvent → List (String × TraceValue)
  | .rootsSpan nodes roots => [("nodes", .count nodes), ("roots", .count roots)]
  | .typeSpan _ kind className =>
    ("kind", .text kind.name) :: (kind.parent.toList.map fun p => ("parent", .text p.name)) ++
      [("class", .text className)]
  | .dump node r =>
    [("node", .text node.label), ("id", .text r.id.label), ("kind", .text r.kind.name),
     ("children", .count r.children.length)]
  | .complete records ids => [("records", .count records), ("ids", .count ids)]

/-- An event with the number of spans open around it. -/
structure TraceEntry where
  depth : Nat
  event : TraceEvent
  deriving DecidableEq, Repr

end AstDump
