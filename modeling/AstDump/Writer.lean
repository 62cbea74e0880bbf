/-!
# Writers

A writer takes bytes. It may take fewer than it is offered, and then the rest is offered again; it
may fail. `writeAll` goes on until all bytes are taken or the writer fails.
-/

namespace AstDump

/-- A taker of bytes. It answers how many of the first bytes offered it took, or fails with a text. -/
class Writer (ω : Type) where
  write : List UInt8 → ω → EStateM.Result String ω Nat

namespace Writer

/-- The failure of a writer that takes no byte and reports none. -/
def stalled : String := "failed to write whole buffer"

/-- Offers the bytes after the first `taken` until all are taken. -/
def writeFrom {ω : Type} [Writer ω] : Nat → List UInt8 → ω → EStateM.Result String ω Unit
  | _, [], w => .ok () w
  | taken + 1, _ :: bytes, w => writeFrom taken bytes w
  | 0, byte :: bytes, w =>
    match write (byte :: bytes) w with
    | .error e w => .error e w
    | .ok 0 w => .error stalled w
    | .ok (n + 1) w => writeFrom n bytes w

/-- Offers bytes until all are taken. -/
def writeAll {ω : Type} [Writer ω] (bytes : List UInt8) (w : ω) : EStateM.Result String ω Unit :=
  writeFrom 0 bytes w

end Writer

/-- A buffer with the bytes taken so far, and a limit on how many more it takes or none. -/
structure ByteBuffer where
  bytes : Array UInt8 := #[]
  room? : Option Nat := none
  deriving DecidableEq, Repr

namespace ByteBuffer

/-- The failure of a buffer that has reached its limit. -/
def full : String := "disk full"

/-- Takes what fits of the offered bytes, and fails once nothing fits. -/
def write (b : ByteBuffer) (offered : List UInt8) : EStateM.Result String ByteBuffer Nat :=
  match b with
  | ⟨bytes, none⟩ => .ok offered.length ⟨offered.foldl Array.push bytes, none⟩
  | ⟨bytes, some 0⟩ => .error full ⟨bytes, some 0⟩
  | ⟨bytes, some (room + 1)⟩ =>
    let fitting := offered.take (room + 1)
    .ok fitting.length ⟨fitting.foldl Array.push bytes, some (room + 1 - fitting.length)⟩

instance : Writer ByteBuffer where
  write offered b := b.write offered

/-- The text that the bytes encode in UTF-8; empty if they encode none. -/
def text (b : ByteBuffer) : String := (String.fromUTF8? ⟨b.bytes⟩).getD ""

end ByteBuffer

end AstDump
