import AstDump.Sink.Memory
import AstDump.Sink.Quota
import AstDump.Sink.Text

/-!
# Destinations

A sink that is chosen while the program runs.
-/

namespace AstDump

/-- One of the sinks. -/
inductive Destination where
  | memory (s : MemorySink)
  | text (s : TextSink ByteBuffer)
  | quota (s : QuotaSink)

namespace Destination

/-- Applies a function to the sink that a call gives back. -/
def mapSink {σ : Type} (f : σ → Destination) :
    EStateM.Result SinkError σ Unit → EStateM.Result SinkError Destination Unit
  | .ok () s => .ok () (f s)
  | .error e s => .error e (f s)

instance : Sink Destination where
  beginRun run
    | .memory s => .memory (Sink.beginRun run s)
    | .text s => .text (Sink.beginRun run s)
    | .quota s => .quota (Sink.beginRun run s)
  record r
    | .memory s => mapSink .memory (Sink.record r s)
    | .text s => mapSink .text (Sink.record r s)
    | .quota s => mapSink .quota (Sink.record r s)

end Destination

end AstDump
