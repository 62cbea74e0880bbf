import AstDump.Sink

/-!
# A sink with a quota

Takes a fixed number of records and refuses every one after that. It remembers which it took and
which runs were begun.
-/

namespace AstDump

/-- A sink that takes `left` more records and no more. It keeps the ids of the records it took and the
    runs that were begun, in order. -/
structure QuotaSink where
  left : Nat
  accepted : Array DumpId := #[]
  runs : Array UInt32 := #[]
  deriving DecidableEq, Repr

namespace QuotaSink

/-- The failure of a sink whose quota is used up. -/
def closed : String := "sink closed"

/-- Takes a record if the quota allows it. -/
def record (s : QuotaSink) (r : Record) : EStateM.Result SinkError QuotaSink Unit :=
  match s with
  | ⟨0, accepted, runs⟩ => .error (.io closed) ⟨0, accepted, runs⟩
  | ⟨left + 1, accepted, runs⟩ => .ok () ⟨left, accepted.push r.id, runs⟩

instance : Sink QuotaSink where
  beginRun run s := { s with runs := s.runs.push run }
  record r s := s.record r

end QuotaSink

end AstDump
