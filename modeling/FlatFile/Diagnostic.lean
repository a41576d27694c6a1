/-!
# Diagnostics

Findings that stop nothing: a label that fell back to the default name, a data line that was
skipped.  A pass collects them in order; every one of them is a warning.
-/

namespace FlatFile

/-- The kinds of finding. -/
inductive DiagnosticCode where
  /-- A label had no identifier. -/
  | fallbackIdentifier
  /-- A data line did not have the layout's length. -/
  | malformedDataLine
  deriving DecidableEq, Repr

namespace DiagnosticCode

/-- The short code of a kind. -/
def code : DiagnosticCode → String
  | fallbackIdentifier => "W001"
  | malformedDataLine => "W002"

/-- The name of a kind. -/
def name : DiagnosticCode → String
  | fallbackIdentifier => "FallbackIdentifier"
  | malformedDataLine => "MalformedDataLine"

/-- All kinds. -/
def all : List DiagnosticCode := [fallbackIdentifier, malformedDataLine]

/-- How grave a finding of this kind is. -/
def severity : DiagnosticCode → String
  | fallbackIdentifier | malformedDataLine => "warning"

end DiagnosticCode

/-- One finding. -/
structure Diagnostic where
  /-- The line it is about, counted from one. -/
  line : Nat
  code : DiagnosticCode
  message : String
  deriving DecidableEq, Repr

namespace Diagnostic

/-- A label was given the name `name` because it had no identifier. -/
def fallback (line : Nat) (label name : String) : Diagnostic :=
  ⟨line, .fallbackIdentifier, "'" ++ label ++ "' is not a valid variable name so it is renamed to '"
    ++ name ++ "'. Please provide a better columnName instead."⟩

/-- What is said of a data line that was skipped. -/
def malformedMessage (data : String) : String :=
  "Data '" ++ data ++ "' is not parsed as it does not follow the schema."

/-- A data line was skipped. -/
def malformed (line : Nat) (data : String) : Diagnostic :=
  ⟨line, .malformedDataLine, malformedMessage data⟩

/-- The finding in words. -/
def text (d : Diagnostic) : String :=
  "[" ++ d.code.code ++ "] " ++ d.code.severity ++ ": " ++ d.message ++ " (line "
    ++ toString d.line ++ ")"

end Diagnostic

/-- The findings of one pass, in order. -/
structure Diagnostics where
  items : List Diagnostic := []
  deriving DecidableEq, Repr

namespace Diagnostics

/-- Adds a finding. -/
def push (ds : Diagnostics) (d : Diagnostic) : Diagnostics := ⟨ds.items ++ [d]⟩

/-- The findings that are warnings. -/
def warnings (ds : Diagnostics) : List Diagnostic :=
  ds.items.filter fun d => d.code.severity == "warning"

/-- All findings, one a line, and their number; nothing when there are none. -/
def text (ds : Diagnostics) : String :=
  String.join (ds.items.map fun d => d.text ++ "\n")
    ++ if ds.items.isEmpty then "" else "\n" ++ toString ds.warnings.length ++ " warning(s)\n"

end Diagnostics

end FlatFile
