import AstDump.Json.Token

/-!
# JSON values

The value that a sequence of tokens spells. A machine reads the tokens one by one and keeps the
arrays and objects that are not closed yet on a stack; an object keeps its fields in written order,
repeated keys included.
-/

namespace AstDump.Json

/-- A JSON value. Numbers, strings and keys keep their spelling. -/
inductive Value where
  | null
  | bool (b : Bool)
  | number (spelling : List Char)
  | string (spelling : List Char)
  | array (items : List Value)
  | object (fields : List (List Char × Value))
  deriving Repr

/-- An array, or an object that waits for the value of a key, that is not closed yet. What it holds so
    far stands last first. -/
inductive Frame where
  | array (items : List Value)
  | object (fields : List (List Char × Value)) (key : List Char)

/-- What a reader of tokens waits for: a value, a key, the colon after a key, or what may follow a
    value. Right after the opening of an array or an object it may be closed as well. The stack holds
    what is not closed yet, innermost first. -/
inductive ReadState where
  | value (opened : Bool) (stack : List Frame)
  | key (opened : Bool) (fields : List (List Char × Value)) (stack : List Frame)
  | colon (fields : List (List Char × Value)) (key : List Char) (stack : List Frame)
  | next (v : Value) (stack : List Frame)

namespace ReadState

/-- The state after one more token. -/
def step : ReadState → Token → Option ReadState
  | .value _ stack, .null => some (.next .null stack)
  | .value _ stack, .bool b => some (.next (.bool b) stack)
  | .value _ stack, .number s => some (.next (.number s) stack)
  | .value _ stack, .string s => some (.next (.string s) stack)
  | .value _ stack, .bracketOpen => some (.value true (.array [] :: stack))
  | .value _ stack, .braceOpen => some (.key true [] stack)
  | .value true (.array _ :: stack), .bracketClose => some (.next (.array []) stack)
  | .key _ fields stack, .string k => some (.colon fields k stack)
  | .key true _ stack, .braceClose => some (.next (.object []) stack)
  | .colon fields k stack, .colon => some (.value false (.object fields k :: stack))
  | .next v (.array items :: stack), .comma => some (.value false (.array (v :: items) :: stack))
  | .next v (.array items :: stack), .bracketClose =>
    some (.next (.array (v :: items).reverse) stack)
  | .next v (.object fields k :: stack), .comma => some (.key false ((k, v) :: fields) stack)
  | .next v (.object fields k :: stack), .braceClose =>
    some (.next (.object ((k, v) :: fields).reverse) stack)
  | _, _ => none

/-- The state after some tokens. -/
def run : ReadState → List Token → Option ReadState
  | s, [] => some s
  | s, t :: ts =>
    match s.step t with
    | none => none
    | some s => s.run ts

end ReadState

namespace Value

/-- The one value that some tokens spell. -/
def ofTokens? (ts : List Token) : Option Value :=
  match ReadState.run (.value false []) ts with
  | some (.next v []) => some v
  | _ => none

/-- The one value that a text spells. -/
def parse? (cs : List Char) : Option Value := (tokenize cs).bind ofTokens?

end Value

end AstDump.Json
