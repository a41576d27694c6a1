import FlatFile.Template.Tree

/-!
# Rendering templates

A template is rendered in a scope, which gives variables their values.  A section over a list is
rendered once for each element, in the element's scope laid over the ones around it; any other
section is rendered once or not at all.  Nothing is escaped: the result is program text.
-/

namespace FlatFile.Template

/-- The value of a variable. -/
inductive Value where
  | text (s : String)
  | flag (b : Bool)
  | list (items : List (List (String × Value)))
  deriving Inhabited

/-- Variables with their values. -/
abbrev Scope := List (String × Value)

/-- Looks a variable up, in the innermost scope first. -/
def find (scopes : List Scope) (name : String) : Except TemplateError Value :=
  match scopes.findSome? fun s => s.lookup name with
  | some v => .ok v
  | none => .error (.unknownVariable name)

/-- The text of a flag. -/
def flagText (b : Bool) : String := if b then "true" else "false"

mutual

/-- Renders a node in scopes, the innermost first. -/
def renderNode : Node → List Scope → Except TemplateError String
  | .text s, _ => .ok s
  | .value name, scopes =>
    match find scopes name with
    | .error e => .error e
    | .ok (.text s) => .ok s
    | .ok (.flag b) => .ok (flagText b)
    | .ok (.list _) => .error (.notScalar name)
  | .group name inverted body, scopes =>
    match find scopes name with
    | .error e => .error e
    | .ok (.text s) => if s.isEmpty = inverted then renderNodes body scopes else .ok ""
    | .ok (.flag b) => if b = inverted then .ok "" else renderNodes body scopes
    | .ok (.list items) =>
      if inverted then
        if items.isEmpty then renderNodes body scopes else .ok ""
      else (items.mapM fun item => renderNodes body (item :: scopes)).map String.join

/-- Renders nodes one after the other. -/
def renderNodes : List Node → List Scope → Except TemplateError String
  | [], _ => .ok ""
  | n :: ns, scopes =>
    match renderNode n scopes with
    | .error e => .error e
    | .ok s =>
      match renderNodes ns scopes with
      | .error e => .error e
      | .ok t => .ok (s ++ t)

end

end FlatFile.Template

namespace FlatFile

/-- Renders a template in a scope. -/
def Template.render (t : Template) (scope : Template.Scope) : Except TemplateError String :=
  Template.renderNodes t.nodes [scope]

end FlatFile
