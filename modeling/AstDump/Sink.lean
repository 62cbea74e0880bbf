import AstDump.Record

/-!
# Sinks

A sink takes the records of a run one by one, each when its child list is final. It may refuse one,
which ends the traversal.
-/

namespace AstDump

/-- Why a sink refuses a record: the medium behind it failed, with the given text, or a record with the
    same id was taken before. -/
inductive SinkError where
  | io (text : String)
  | duplicate (id : DumpId)
  deriving DecidableEq, Repr

/-- The text of an error. -/
def SinkError.message : SinkError → String
  | .io text => s!"failed to write dump record: {text}"
  | .duplicate id => s!"record {id.label} was already written"

/-- A taker of records. `beginRun` is called once before the records of a run, with the number of the
    run. The sink after a refusal may differ from the one before. -/
class Sink (σ : Type) where
  beginRun : UInt32 → σ → σ
  record : Record → σ → EStateM.Result SinkError σ Unit

end AstDump
