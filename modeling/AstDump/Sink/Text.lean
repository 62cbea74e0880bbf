import AstDump.Sink
import AstDump.Writer

/-!
# Records as text

Writes each record as a block of lines: a header, the token of its id, its kind, the number of its
children, and the token of each child. Tokens name the run that is being written. A line goes to the
writer in several pieces, the line end in one of its own.
-/

namespace AstDump

/-- The header line of every block. -/
def blockHeader : String := "<Visited Children>"

/-- The lines of a record's block in run `run`, without their line ends. -/
def Record.lines (r : Record) (run : UInt32) : List (List Char) :=
  blockHeader.toList :: r.id.token run :: r.kind.name.toList ::
    Nat.toDigits 10 r.children.length :: r.children.map (·.token run)

/-- The text of a record's block in run `run`: its lines, each with its line end. -/
def Record.block (r : Record) (run : UInt32) : List Char :=
  (r.lines run).flatMap (· ++ ['\n'])

/-- The pieces in which the lines of a record's block are written in run `run`. -/
def Record.linePieces (r : Record) (run : UInt32) : List (List (List Char)) :=
  [blockHeader.toList] :: r.id.pieces run :: [r.kind.name.toList] ::
    [Nat.toDigits 10 r.children.length] :: r.children.map (·.pieces run)

/-- The pieces of a record's block, line ends among them. -/
def Record.pieces (r : Record) (run : UInt32) : List (List Char) :=
  (r.linePieces run).flatMap (· ++ [['\n']])

theorem Record.map_flatten_linePieces (r : Record) (run : UInt32) :
    (r.linePieces run).map List.flatten = r.lines run := by
  simp [linePieces, lines, DumpId.flatten_pieces]

theorem Record.flatten_pieces (r : Record) (run : UInt32) :
    (r.pieces run).flatten = r.block run := by
  rw [pieces, block, ← map_flatten_linePieces]
  induction r.linePieces run with
  | nil => rfl
  | cons ps pss ih => simp [ih]

/-- Writes records as text to the writer `out`, as part of the run `run`. -/
structure TextSink (ω : Type) where
  out : ω
  run : UInt32 := 0

namespace TextSink

variable {ω : Type} [Writer ω]

/-- Writes pieces of a text one after the other, each as its UTF-8 bytes. -/
def writePieces : List (List Char) → ω → EStateM.Result String ω Unit
  | [], w => .ok () w
  | piece :: pieces, w =>
    match Writer.writeAll (piece.flatMap String.utf8EncodeChar) w with
    | .error e w => .error e w
    | .ok () w => writePieces pieces w

/-- Writes the block of one record. -/
def record (s : TextSink ω) (r : Record) : EStateM.Result SinkError (TextSink ω) Unit :=
  let ⟨out, run⟩ := s
  match writePieces (r.pieces run) out with
  | .ok () out => .ok () ⟨out, run⟩
  | .error e out => .error (.io e) ⟨out, run⟩

instance : Sink (TextSink ω) where
  beginRun run s := { s with run }
  record r s := s.record r

end TextSink

end AstDump
