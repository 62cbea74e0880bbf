/-!
# Tokens of JSON text

JSON text is a sequence of tokens with blanks between them. A token keeps its spelling: a number
its characters, a string what stands between its quotes, escapes included. `Token.spell` writes a
token and `tokenize` reads a text; what a string means is read off its spelling by `unescape?`.
-/

namespace AstDump.Json

/-- One token. A number stands as it is spelled, a string as it is spelled between its quotes. -/
inductive Token where
  | braceOpen
  | braceClose
  | bracketOpen
  | bracketClose
  | comma
  | colon
  | null
  | bool (b : Bool)
  | number (spelling : List Char)
  | string (spelling : List Char)
  deriving DecidableEq, Repr

/-- The characters of a token. -/
def Token.spell : Token → List Char
  | .braceOpen => ['\x7b']
  | .braceClose => ['\x7d']
  | .bracketOpen => ['[']
  | .bracketClose => [']']
  | .comma => [',']
  | .colon => [':']
  | .null => ['n', 'u', 'l', 'l']
  | .bool true => ['t', 'r', 'u', 'e']
  | .bool false => ['f', 'a', 'l', 's', 'e']
  | .number s => s
  | .string s => '"' :: s ++ ['"']

/-- Whether a character may stand between tokens. -/
def isSpace (c : Char) : Bool := c == ' ' || c == '\t' || c == '\n' || c == '\r'

/-! ## Numbers -/

/-- The number of characters of the digits at the front, of which there must be one. -/
def digitsLength? (cs : List Char) : Option Nat :=
  match (cs.takeWhile Char.isDigit).length with
  | 0 => none
  | n + 1 => some (n + 1)

/-- The number of characters of the whole part at the front: digits that start with a zero only if
    that is all. -/
def wholeLength? : List Char → Option Nat
  | '0' :: c :: _ => if c.isDigit then none else some 1
  | cs => digitsLength? cs

/-- The number of characters of the fraction at the front, zero if there is none. -/
def fractionLength? : List Char → Option Nat
  | '.' :: cs => (digitsLength? cs).map (· + 1)
  | _ => some 0

/-- The number of characters of an exponent's digits and sign. -/
def exponentBodyLength? : List Char → Option Nat
  | '+' :: cs => (digitsLength? cs).map (· + 1)
  | '-' :: cs => (digitsLength? cs).map (· + 1)
  | cs => digitsLength? cs

/-- The number of characters of the exponent at the front, zero if there is none. -/
def exponentLength? : List Char → Option Nat
  | 'e' :: cs => (exponentBodyLength? cs).map (· + 1)
  | 'E' :: cs => (exponentBodyLength? cs).map (· + 1)
  | _ => some 0

/-- The number of characters of the unsigned number at the front. -/
def unsignedLength? (cs : List Char) : Option Nat :=
  match wholeLength? cs with
  | none => none
  | some m =>
    match fractionLength? (cs.drop m) with
    | none => none
    | some n => (exponentLength? (cs.drop (m + n))).map (m + n + ·)

/-- The number of characters of the number at the front. -/
def numberLength? : List Char → Option Nat
  | '-' :: cs => (unsignedLength? cs).map (· + 1)
  | cs => unsignedLength? cs

/-- The value of a number that is spelled by digits alone. -/
def natural? (spelling : List Char) : Option Nat :=
  if spelling.all Char.isDigit then some (Nat.ofDigitChars 10 spelling 0) else none

/-! ## Strings -/

/-- The value of a hexadecimal digit of either case. -/
def hexDigit? (c : Char) : Option Nat :=
  if '0' ≤ c ∧ c ≤ '9' then some (c.toNat - '0'.toNat)
  else if 'a' ≤ c ∧ c ≤ 'f' then some (c.toNat - 'a'.toNat + 10)
  else if 'A' ≤ c ∧ c ≤ 'F' then some (c.toNat - 'A'.toNat + 10)
  else none

/-- The value of four hexadecimal digits. -/
def hexUnit? (a b c d : Char) : Option Nat :=
  match hexDigit? a, hexDigit? b, hexDigit? c, hexDigit? d with
  | some a, some b, some c, some d => some (((a * 16 + b) * 16 + c) * 16 + d)
  | _, _, _, _ => none

/-- The character that an escape of one letter stands for. -/
def simpleEscape? : Char → Option Char
  | '"' => some '"'
  | '\\' => some '\\'
  | '/' => some '/'
  | 'b' => some '\x08'
  | 'f' => some '\x0c'
  | 'n' => some '\n'
  | 'r' => some '\r'
  | 't' => some '\t'
  | _ => none

/-- The number of characters up to the closing quote of a string. Control characters and unknown
    escapes are refused; an escape by four digits may name any number. -/
def stringLength? : List Char → Option Nat
  | [] => none
  | '"' :: _ => some 0
  | '\\' :: 'u' :: a :: b :: c :: d :: cs =>
    match hexUnit? a b c d with
    | none => none
    | some _ => (stringLength? cs).map (· + 6)
  | '\\' :: c :: cs =>
    match simpleEscape? c with
    | none => none
    | some _ => (stringLength? cs).map (· + 2)
  | c :: cs => if c.toNat < 0x20 then none else (stringLength? cs).map (· + 1)

/-- Whether a 16-bit unit is the first half of a pair. -/
def isHighHalf (u : Nat) : Bool := 0xD800 ≤ u && u < 0xDC00

/-- Whether a 16-bit unit is the second half of a pair. -/
def isLowHalf (u : Nat) : Bool := 0xDC00 ≤ u && u < 0xE000

/-- The character that two halves stand for. -/
def joinHalves (high low : Nat) : Char :=
  Char.ofNat (0x10000 + (high - 0xD800) * 0x400 + (low - 0xDC00))

/-- The characters that the spelling of a string stands for. Escapes by four digits name 16-bit
    units; a half without its other half stands for nothing. -/
def unescape? : List Char → Option (List Char)
  | [] => some []
  | '\\' :: 'u' :: a :: b :: c :: d :: cs =>
    match hexUnit? a b c d with
    | none => none
    | some u =>
      if isLowHalf u then none
      else if isHighHalf u then
        match cs with
        | '\\' :: 'u' :: a' :: b' :: c' :: d' :: cs' =>
          match hexUnit? a' b' c' d' with
          | none => none
          | some v => if isLowHalf v then (unescape? cs').map (joinHalves u v :: ·) else none
        | _ => none
      else (unescape? cs).map (Char.ofNat u :: ·)
  | '\\' :: c :: cs =>
    match simpleEscape? c with
    | none => none
    | some e => (unescape? cs).map (e :: ·)
  | c :: cs => (unescape? cs).map (c :: ·)

/-! ## Reading tokens -/

/-- The token that starts with `c` and goes on in `cs`, with the number of characters of `cs` that
    belong to it. -/
def scan? (c : Char) (cs : List Char) : Option (Token × Nat) :=
  match c, cs with
  | '\x7b', _ => some (.braceOpen, 0)
  | '\x7d', _ => some (.braceClose, 0)
  | '[', _ => some (.bracketOpen, 0)
  | ']', _ => some (.bracketClose, 0)
  | ',', _ => some (.comma, 0)
  | ':', _ => some (.colon, 0)
  | 'n', 'u' :: 'l' :: 'l' :: _ => some (.null, 3)
  | 't', 'r' :: 'u' :: 'e' :: _ => some (.bool true, 3)
  | 'f', 'a' :: 'l' :: 's' :: 'e' :: _ => some (.bool false, 4)
  | '"', cs => (stringLength? cs).map fun n => (.string (cs.take n), n + 1)
  | c, cs => (numberLength? (c :: cs)).map fun n => (.number ((c :: cs).take n), n - 1)

/-- The tokens of a text after its first `taken` characters. -/
def tokenizeFrom : (taken : Nat) → List Char → Option (List Token)
  | _, [] => some []
  | taken + 1, _ :: cs => tokenizeFrom taken cs
  | 0, c :: cs =>
    if isSpace c then tokenizeFrom 0 cs
    else
      match scan? c cs with
      | none => none
      | some (t, n) => (tokenizeFrom n cs).map (t :: ·)

/-- The tokens of a text. -/
def tokenize (cs : List Char) : Option (List Token) := tokenizeFrom 0 cs

end AstDump.Json
