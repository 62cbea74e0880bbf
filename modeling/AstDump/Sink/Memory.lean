import Std.Data.TreeMap
import AstDump.Sink

/-!
# Records in memory

Keeps the records in the order in which they come, and refuses a second one with the same id.
-/

namespace AstDump

/-- The records taken so far, in the order in which they came, and where among them an id stands. -/
structure MemorySink where
  records : Array Record := #[]
  position : Std.TreeMap UInt32 Nat := {}

namespace MemorySink

/-- The sink without records. -/
def empty : MemorySink := {}

/-- The number of records. -/
def size (s : MemorySink) : Nat := s.records.size

/-- Whether there are no records. -/
def isEmpty (s : MemorySink) : Bool := s.records.isEmpty

/-- The record with an id, if one was taken. -/
def get? (s : MemorySink) (id : DumpId) : Option Record :=
  s.position[id.raw]?.bind (s.records[·]?)

/-- Takes a record unless one with its id is there. -/
def record (s : MemorySink) (r : Record) : EStateM.Result SinkError MemorySink Unit :=
  if s.position.contains r.id.raw then .error (.duplicate r.id) s
  else
    let ⟨records, position⟩ := s
    let position := position.insert r.id.raw records.size
    .ok () ⟨records.push r, position⟩

instance : Sink MemorySink where
  beginRun _ s := s
  record r s := s.record r

end MemorySink

end AstDump
