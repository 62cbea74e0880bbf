/-!
# Dump ids

The id that a dumped node carries in the records of a run, and the token by which a text stream
shows it. The token names the run too, so that several runs can share a stream.
-/

namespace AstDump

/-- The id of a dumped node within its run. -/
structure DumpId where
  raw : UInt32
  deriving DecidableEq, Repr

namespace DumpId

/-- The id that no dumped node has: the greatest word. -/
def invalid : DumpId := ⟨0xFFFFFFFF⟩

instance : Inhabited DumpId := ⟨invalid⟩

/-- Whether a dumped node can have the id. -/
def isValid (d : DumpId) : Bool := d.raw != invalid.raw

/-- The id as messages show it. -/
def label (d : DumpId) : String :=
  if d = invalid then "DumpId::INVALID" else s!"DumpId({d.raw.toNat})"

/-- The id in run `run` as a text stream shows it: `0x`, the id in lower-case hexadecimal, an
    underscore, and the run in decimal. -/
def token (d : DumpId) (run : UInt32) : List Char :=
  '0' :: 'x' :: Nat.toDigits 16 d.raw.toNat ++ '_' :: Nat.toDigits 10 run.toNat

/-- The pieces in which a token is written. -/
def pieces (d : DumpId) (run : UInt32) : List (List Char) :=
  [['0', 'x'], Nat.toDigits 16 d.raw.toNat, ['_'], Nat.toDigits 10 run.toNat]

theorem flatten_pieces (d : DumpId) (run : UInt32) : (d.pieces run).flatten = d.token run := by
  simp [pieces, token]

/-- The greatest of some ids. -/
def greatest? : List DumpId → Option DumpId
  | [] => none
  | d :: ds => some (ds.foldl (fun m e => if m.raw ≤ e.raw then e else m) d)

end DumpId

end AstDump
