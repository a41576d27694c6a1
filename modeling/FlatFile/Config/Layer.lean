import FlatFile.Binary64.Text
import FlatFile.Config.Key
import FlatFile.Config.Value
import FlatFile.Text.Lines

/-!
# Configuration layers

A configuration is layered: each source is laid over the ones before it.  Names count in lower case;
tables are merged name by name, and everything else, lists included, is replaced.  The outermost
names of a layer are keys.

The fields of a layer and of its tables are laid in the order in which they are listed.  A table has
no such order by itself: it is chosen before a layer is laid, and it counts only where two names of
one table lead to the same place.
-/

namespace FlatFile.Config

open Toml (setField)

/-- A source of configuration: keys with their values. -/
abbrev Layer := List (String × Value)

mutual

/-- A value laid over what was there. -/
def overlay (target : Option Value) : Value → Value
  | .table fields => overlayFields (target.getD (.table [])) fields
  | v => v

/-- Fields laid over what was there; without any field it stays as it was. -/
def overlayFields (target : Value) : List (String × Value) → Value
  | [] => target
  | (name, v) :: rest =>
    let key := Text.lower name
    let field := overlay (target.fields.lookup key) v
    overlayFields (.table (setField key field target.fields)) rest

end

/-- Puts a value where the steps lead.  A name leads into a table and an index into a list; what
stands in the way is replaced.  A field is laid over what was there, a place of a list is replaced.
An index in front of the first place leaves the list as it is. -/
def place : List Step → Value → Option Value → Value
  | [], v, target => overlay target v
  | .name name :: steps, v, target =>
    let fields := (target.map Value.fields).getD []
    .table (setField name (place steps v (fields.lookup name)) fields)
  | .index i :: steps, v, target =>
    let items := (target.map Value.items).getD []
    match Value.position? items.length i with
    | none => .list items
    | some n =>
      let item := if steps.isEmpty then v else place steps v (items[n]?.join)
      .list (Value.setItem n item items)

/-- Lays a layer over a configuration. -/
def lay (root : Value) (layer : Layer) : Value :=
  layer.foldl (fun t p => place (stepsOf (Text.lower p.1)) p.2 (some t)) root

/-! ## The environment -/

/-- Environment variables with their values. -/
abbrev Environment := List (String × String)

/-- What the names of the variables that configure something start with, in lower case. -/
def variableStart : List Char := "fwgen__".toList

/-- A text with every double underscore replaced by a dot. -/
def dotted : List Char → List Char
  | '_' :: '_' :: rest => '.' :: dotted rest
  | c :: rest => c :: dotted rest
  | [] => []

/-- The value of a variable: a boolean, an integer, a floating-point number, or else its text. -/
def variableValue (s : String) : Value :=
  if Text.lower s = "true" then .boolean true
  else if Text.lower s = "false" then .boolean false
  else
    match Text.readInt64? s.toList with
    | some i => .integer i
    | none =>
      match Binary64.read? s.toList with
      | some x => .float x
      | none => .text s

/-- The key and the value that a variable sets. -/
def ofVariable? (name value : String) : Option (String × Value) :=
  let key := (Text.lower name).toList
  if variableStart.isPrefixOf key then
    some (String.ofList (dotted (key.drop variableStart.length)), variableValue value)
  else none

/-- The layer of the environment; of variables with one key the last one counts. -/
def ofEnvironment (env : Environment) : Layer :=
  (env.filterMap fun p => ofVariable? p.1 p.2).foldl (fun l e => setField e.1 e.2 l) []

end FlatFile.Config
