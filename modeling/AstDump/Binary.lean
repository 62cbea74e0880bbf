import AstDump.Record

/-!
# The binary form of records

Words are four bytes, lowest first. A choice among alternatives is the word of its position,
followed by what the alternative carries. A list is its length in eight bytes, lowest first, and
then its elements. A record is its fields in order. Reading takes what it needs from the front of
some bytes and leaves the rest.
-/

namespace AstDump.Binary

/-- Why bytes cannot be read: they end too early, or a word stands for no alternative. -/
inductive DecodeError where
  | outOfBytes
  | badVariant
  deriving DecidableEq, Repr

/-- Reads a value off the front of some bytes and leaves the rest. -/
abbrev Decoder (α : Type) := List UInt8 → Except DecodeError (α × List UInt8)

/-- A type whose values have a binary form. -/
class Form (α : Type) where
  encode : α → List UInt8
  decode : Decoder α

export Form (encode decode)

/-- The lowest `count` bytes of a number, lowest first. -/
def littleEndian : (count value : Nat) → List UInt8
  | 0, _ => []
  | count + 1, value => UInt8.ofNat value :: littleEndian count (value / 256)

/-- Reads a number of `count` bytes, lowest first. -/
def readLittleEndian : (count : Nat) → Decoder Nat
  | 0, bytes => .ok (0, bytes)
  | _ + 1, [] => .error .outOfBytes
  | count + 1, byte :: bytes =>
    match readLittleEndian count bytes with
    | .error e => .error e
    | .ok (value, rest) => .ok (byte.toNat + 256 * value, rest)

/-- Applies a function to the value that was read. -/
def Decoder.map {α β : Type} (f : α → β) (d : Decoder α) : Decoder β := fun bytes =>
  match d bytes with
  | .error e => .error e
  | .ok (a, rest) => .ok (f a, rest)

instance : Form UInt32 where
  encode w := littleEndian 4 w.toNat
  decode := Decoder.map UInt32.ofNat (readLittleEndian 4)

/-- The word of an alternative's position among all. -/
def encodeVariant {α : Type} [BEq α] (all : List α) (a : α) : List UInt8 :=
  littleEndian 4 (all.idxOf a)

/-- Reads the word of an alternative's position among all. -/
def decodeVariant {α : Type} (all : List α) : Decoder α := fun bytes =>
  match readLittleEndian 4 bytes with
  | .error e => .error e
  | .ok (i, rest) =>
    match all[i]? with
    | none => .error .badVariant
    | some a => .ok (a, rest)

/-- Reads so many values one after the other. -/
def decodeMany {α : Type} (d : Decoder α) : (count : Nat) → Decoder (List α)
  | 0, bytes => .ok ([], bytes)
  | count + 1, bytes =>
    match d bytes with
    | .error e => .error e
    | .ok (a, rest) =>
      match decodeMany d count rest with
      | .error e => .error e
      | .ok (as, rest) => .ok (a :: as, rest)

instance {α : Type} [Form α] : Form (List α) where
  encode as := littleEndian 8 as.length ++ as.flatMap encode
  decode bytes :=
    match readLittleEndian 8 bytes with
    | .error e => .error e
    | .ok (count, rest) => decodeMany decode count rest

instance : Form NodeId where
  encode n := encode n.raw
  decode := Decoder.map NodeId.mk decode

instance : Form DumpId where
  encode d := encode d.raw
  decode := Decoder.map DumpId.mk decode

instance : Form Category where
  encode := encodeVariant Category.all
  decode := decodeVariant Category.all

instance : Form TypeKind where
  encode := encodeVariant TypeKind.all
  decode := decodeVariant TypeKind.all

/-- The bytes of a record's kind; that of a type carries the kind of the type. -/
def encodeRecordKind : RecordKind → List UInt8
  | .type k => littleEndian 4 0 ++ encode k
  | .qualType => littleEndian 4 1
  | .stmt => littleEndian 4 2
  | .decl => littleEndian 4 3

/-- Reads a record's kind. -/
def decodeRecordKind : Decoder RecordKind := fun bytes =>
  match readLittleEndian 4 bytes with
  | .error e => .error e
  | .ok (0, rest) => Decoder.map RecordKind.type decode rest
  | .ok (1, rest) => .ok (.qualType, rest)
  | .ok (2, rest) => .ok (.stmt, rest)
  | .ok (3, rest) => .ok (.decl, rest)
  | .ok _ => .error .badVariant

instance : Form RecordKind where
  encode := encodeRecordKind
  decode := decodeRecordKind

/-- Reads a record. -/
def decodeRecord : Decoder Record := fun bytes =>
  match decode bytes with
  | .error e => .error e
  | .ok (id, rest) =>
    match decode rest with
    | .error e => .error e
    | .ok (kind, rest) => Decoder.map (Record.mk id kind) decode rest

instance : Form Record where
  encode r := encode r.id ++ encode r.kind ++ encode r.children
  decode := decodeRecord

/-- Reads a value off the front of some bytes, whatever follows it. -/
def read {α : Type} [Form α] (bytes : List UInt8) : Except DecodeError α :=
  match decode bytes with
  | .error e => .error e
  | .ok (a, _) => .ok a

end AstDump.Binary
