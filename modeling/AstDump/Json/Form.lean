import AstDump.Json.Value
import AstDump.Record

/-!
# The JSON form of records

Ids are numbers. An alternative is a string with its name, or an object whose one key is that name:
with `null` for an alternative that carries nothing, and with the kind of the type for the record of
a type, which has no other form. A record is written as an object with the keys `id`, `kind` and
`children`; it is read from an object in any order of keys, others among them, or from an array of
the three.
-/

namespace AstDump.Json

/-- A type whose values have a JSON form. -/
class Form (α : Type) where
  tokens : α → List Token
  ofValue? : Value → Option α

export Form (tokens ofValue?)

/-- The JSON text of a value, without blanks. -/
def encode {α : Type} [Form α] (a : α) : String :=
  String.ofList ((tokens a).flatMap Token.spell)

/-- Reads a value from JSON text. -/
def decode? {α : Type} [Form α] (text : String) : Option α :=
  (Value.parse? text.toList).bind ofValue?

/-! ## Ids -/

instance : Form UInt32 where
  tokens w := [.number (Nat.toDigits 10 w.toNat)]
  ofValue?
    | .number s =>
      match natural? s with
      | none => none
      | some n => if n < UInt32.size then some (UInt32.ofNat n) else none
    | _ => none

instance : Form NodeId where
  tokens n := tokens n.raw
  ofValue? v := (ofValue? v).map NodeId.mk

instance : Form DumpId where
  tokens d := tokens d.raw
  ofValue? v := (ofValue? v).map DumpId.mk

/-! ## Alternatives -/

/-- The token of a name that needs no escapes. -/
def nameToken (name : String) : Token := .string name.toList

/-- The text of a string or key. -/
def nameOf? (spelling : List Char) : Option String := (unescape? spelling).map String.ofList

/-- The name of an alternative that carries nothing. -/
def unitName? : Value → Option String
  | .string s => nameOf? s
  | .object [(k, .null)] => nameOf? k
  | _ => none

/-- The name of a category in JSON text. -/
def categoryName : Category → String
  | .type => "Type"
  | .qualType => "QualType"
  | .stmt => "Stmt"
  | .decl => "Decl"

/-- The name of a kind of types in JSON text. -/
def typeKindName : TypeKind → String
  | .generic => "Type"
  | .function => "Function"
  | .functionProto => "FunctionProto"
  | .array => "Array"
  | .variableArray => "VariableArray"
  | .pointer => "Pointer"
  | .tag => "Tag"

instance : Form Category where
  tokens c := [nameToken (categoryName c)]
  ofValue? v := (unitName? v).bind fun s => Category.all.find? (categoryName · == s)

instance : Form TypeKind where
  tokens k := [nameToken (typeKindName k)]
  ofValue? v := (unitName? v).bind fun s => TypeKind.all.find? (typeKindName · == s)

/-- The tokens of a record's kind. -/
def recordKindTokens : RecordKind → List Token
  | .type k => .braceOpen :: nameToken "Type" :: .colon :: tokens k ++ [.braceClose]
  | .qualType => [nameToken "QualType"]
  | .stmt => [nameToken "Stmt"]
  | .decl => [nameToken "Decl"]

/-- The kind of a record that is not a type's, by its name. -/
def plainRecordKind? (name : String) : Option RecordKind :=
  if name = "QualType" then some .qualType
  else if name = "Stmt" then some .stmt
  else if name = "Decl" then some .decl
  else none

/-- Reads a record's kind. -/
def recordKindOf? (v : Value) : Option RecordKind :=
  match v with
  | .object [(k, payload)] =>
    if nameOf? k = some "Type" then (ofValue? payload).map RecordKind.type
    else (unitName? v).bind plainRecordKind?
  | _ => (unitName? v).bind plainRecordKind?

instance : Form RecordKind where
  tokens := recordKindTokens
  ofValue? := recordKindOf?

/-! ## Lists and records -/

/-- Some groups of tokens with a comma between each two. -/
def commaSeparated : List (List Token) → List Token
  | [] => []
  | [ts] => ts
  | ts :: rest => ts ++ .comma :: commaSeparated rest

instance {α : Type} [Form α] : Form (List α) where
  tokens as := .bracketOpen :: commaSeparated (as.map tokens) ++ [.bracketClose]
  ofValue?
    | .array items => items.mapM ofValue?
    | _ => none

/-- The tokens of a key with its value. -/
def fieldTokens (key : String) (value : List Token) : List Token :=
  nameToken key :: .colon :: value

/-- The value of the one field with a name; nothing if it is missing or repeated. -/
def uniqueField? (name : String) (fields : List (String × Value)) : Option Value :=
  match fields.filter (·.1 == name) with
  | [(_, v)] => some v
  | _ => none

/-- The fields of an object by the text of their keys; nothing if a key has no text. -/
def namedFields? (fields : List (List Char × Value)) : Option (List (String × Value)) :=
  fields.mapM fun (k, v) => (nameOf? k).map (·, v)

/-- A record from the values of its three parts. -/
def recordOfParts? (id kind children : Value) : Option Record :=
  match ofValue? id, ofValue? kind, ofValue? children with
  | some id, some kind, some children => some ⟨id, kind, children⟩
  | _, _, _ => none

/-- Reads a record. -/
def recordOf? : Value → Option Record
  | .object fields =>
    match namedFields? fields with
    | none => none
    | some fields =>
      match uniqueField? "id" fields, uniqueField? "kind" fields,
        uniqueField? "children" fields with
      | some id, some kind, some children => recordOfParts? id kind children
      | _, _, _ => none
  | .array [id, kind, children] => recordOfParts? id kind children
  | _ => none

instance : Form Record where
  tokens r :=
    .braceOpen :: commaSeparated [fieldTokens "id" (tokens r.id),
      fieldTokens "kind" (tokens r.kind), fieldTokens "children" (tokens r.children)] ++
      [.braceClose]
  ofValue? := recordOf?

end AstDump.Json
