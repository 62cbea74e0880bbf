import AstDump.IdScheme
import AstDump.Text.Blank
import AstDump.Text.Numeral

/-!
# Settings of a run

The settings of a run and how they are read from named variables. A variable whose value cannot be
read leaves the default in place and is reported by a warning.
-/

namespace AstDump

/-- The settings of one run: how nodes are numbered, the number of the run, which every token of a text
    stream shows, and whether a deep traversal may take more stack. The last has no effect on what is
    dumped. -/
structure Config where
  idScheme : IdScheme := .sequential
  runId : UInt32 := 0
  growStack : Bool := true
  deriving DecidableEq, Repr

/-- A report about a variable that was passed over: its name, its value as found, and why. -/
structure Warning where
  name : String
  value : String
  reason : String
  deriving DecidableEq, Repr

/-- The text of a warning. -/
def Warning.message (w : Warning) : String := s!"ignoring: {w.reason}"

namespace Config

/-- The variable that holds the number of the run. -/
def runIdVariable : String := "CDUMP_RUN_ID"

/-- The variable that holds the name of the id scheme. -/
def idSchemeVariable : String := "CDUMP_ID_SCHEME"

/-- The settings without any variable. -/
def default : Config := {}

/-- The run number that a value stands for, if it is one between blanks. -/
def readRunId (value : String) : Except Text.NumeralError UInt32 :=
  Text.readWord (Text.trim value.toList)

/-- The id scheme that a value stands for, if it is the name of one between blanks. -/
def readIdScheme (value : String) : Except UnknownScheme IdScheme :=
  IdScheme.parse (String.ofList (Text.trim value.toList))

/-- Takes the run number from its variable. -/
def applyRunId (c : Config) : Option String → Config × List Warning
  | none => (c, [])
  | some value =>
    match readRunId value with
    | .ok n => ({ c with runId := n }, [])
    | .error e => (c, [⟨runIdVariable, value, e.message⟩])

/-- Takes the id scheme from its variable. -/
def applyIdScheme (c : Config) : Option String → Config × List Warning
  | none => (c, [])
  | some value =>
    match readIdScheme value with
    | .ok s => ({ c with idScheme := s }, [])
    | .error e => (c, [⟨idSchemeVariable, value, e.message⟩])

/-- The settings that variables ask for, and the warnings about those passed over, the run number
    first. -/
def ofLookup (lookup : String → Option String) : Config × List Warning :=
  let (c, ws) := default.applyRunId (lookup runIdVariable)
  let (c, ws') := c.applyIdScheme (lookup idSchemeVariable)
  (c, ws ++ ws')

end Config

end AstDump
