/-!
# Template errors

What can be wrong with a template: its sections do not nest, or a scope does not give what it asks
for.
-/

namespace FlatFile

/-- Why a template cannot be read or rendered. -/
inductive TemplateError where
  | unclosedSection (name : String)
  | mismatchedClose (expected found : String)
  | unexpectedClose (name : String)
  | unknownVariable (name : String)
  | notScalar (name : String)
  | missingBuiltin (path : String)
  deriving DecidableEq, Repr

/-- The error in words. -/
def TemplateError.message : TemplateError → String
  | unclosedSection name => "section '" ++ name ++ "' is never closed"
  | mismatchedClose expected found =>
    "section '" ++ found ++ "' closed while '" ++ expected ++ "' is open"
  | unexpectedClose name => "closing tag '" ++ name ++ "' has no matching open section"
  | unknownVariable name => "unknown template variable '" ++ name ++ "'"
  | notScalar name => "variable '" ++ name ++ "' is a list and cannot be substituted as text"
  | missingBuiltin path => "no built-in template at '" ++ path ++ "'"

end FlatFile
