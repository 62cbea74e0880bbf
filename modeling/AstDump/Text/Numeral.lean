/-!
# Decimal numerals

Reads a 32-bit word: an optional plus sign and one or more ASCII digits, any number of leading
zeros among them. Of several faults the leftmost is reported, and at one position a character that
is no digit is reported before a value that is too large.
-/

namespace AstDump.Text

/-- Why a text is no numeral of a word: there is no text; a character is no digit, or a sign stands
    alone; the value does not fit in a word. -/
inductive NumeralError where
  | empty
  | invalidDigit
  | tooLarge
  deriving DecidableEq, Repr

/-- The text of an error. -/
def NumeralError.message : NumeralError → String
  | .empty => "cannot parse integer from empty string"
  | .invalidDigit => "invalid digit found in string"
  | .tooLarge => "number too large to fit in target type"

/-- The value of an ASCII digit. -/
def digitValue? (c : Char) : Option Nat :=
  if c.isDigit then some (c.toNat - '0'.toNat) else none

/-- Reads digits after a value read so far, left to right, up to the first fault. -/
def readDigits (value : Nat) : List Char → Except NumeralError Nat
  | [] => .ok value
  | c :: cs =>
    match digitValue? c with
    | none => .error .invalidDigit
    | some d =>
      let value := 10 * value + d
      if value < UInt32.size then readDigits value cs else .error .tooLarge

/-- Reads the numeral of a word. -/
def readWord : List Char → Except NumeralError UInt32
  | [] => .error .empty
  | ['+'] => .error .invalidDigit
  | '+' :: cs => (readDigits 0 cs).map UInt32.ofNat
  | cs => (readDigits 0 cs).map UInt32.ofNat

end AstDump.Text
