import AstDump.Dumper

/-!
# Dumping roots

Dumps every node that can be reached from some roots, in one traversal that stops at the first
error. What the sink took by then stays with it.
-/

namespace AstDump

/-- What a successful dump gives: the dump id of each root, in the given order, and the number of
    records that the sink took. -/
structure Summary where
  roots : List DumpId
  records : Nat
  deriving DecidableEq, Repr

/-- A finished dump: the summary or what stopped it, and the dumper at the end, with the sink and the
    log. -/
structure Run (σ : Type) where
  result : Except DumpError Summary
  dumper : Dumper σ

namespace Run

variable {σ : Type}

/-- The sink at the end. -/
def sink (r : Run σ) : σ := r.dumper.sink

/-- What was reported, from the opening of the span around the whole dump on. -/
def log (r : Run σ) : Array TraceEntry := r.dumper.log

end Run

/-- Dumps every node that can be reached from `roots`. -/
def dumpRoots {σ : Type} [Sink σ] (arena : Arena) (roots : List NodeId) (sink : σ)
    (config : Config) : Run σ :=
  let d := Dumper.new arena sink config
  let d := { d with log := #[⟨0, .rootsSpan arena.size roots.length⟩] }
  match Dumper.follow (Dumper.visitAt d.bound 1) (roots.map Edge.child) d with
  | .error e d => ⟨.error e, d⟩
  | .ok ids d =>
    ⟨.ok ⟨ids, d.records⟩,
      { d with log := d.log.push ⟨1, .complete d.records d.registry.assigned⟩ }⟩

end AstDump
