import FlatFile.Files.Tree
import FlatFile.Schema.Error
import FlatFile.Template.Error

/-!
# Failures

Why a whole operation fails: its schema, a template, a file or the configuration is at fault.
-/

namespace FlatFile

/-- Why an operation fails. -/
inductive Failure where
  | schema (e : SchemaError)
  | template (e : TemplateError)
  | file (e : FileError)
  | configuration (message : String)
  deriving DecidableEq, Repr

namespace Failure

/-- The failure in words. -/
def message : Failure → String
  | schema e => e.message
  | template e => "Template error: " ++ e.message
  | file e => "IO error: " ++ e.message
  | configuration m => "Configuration error: " ++ m

/-- The failure and its causes in words, the outermost first. -/
def chain : Failure → List String
  | schema e => [e.message]
  | template e => ["Template error: " ++ e.message, e.message]
  | file e => ["IO error: " ++ e.message, e.message]
  | configuration m => ["Configuration error: " ++ m, m]

/-- The schema error behind a failure. -/
def schema? : Failure → Option SchemaError
  | schema e => some e
  | _ => none

end Failure

end FlatFile
