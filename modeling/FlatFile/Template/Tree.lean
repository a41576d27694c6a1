import FlatFile.Template.Error
import FlatFile.Template.Tag

/-!
# Template trees

A template is a tree: text, variables, and sections with a body.  `Template.parse` builds it from
the tags of a text; sections must nest by name.
-/

namespace FlatFile.Template

/-- A part of a template. -/
inductive Node where
  | text (s : String)
  | value (name : String)
  | group (name : String) (inverted : Bool) (body : List Node)
  deriving Repr

mutual

/-- Equality of nodes is decidable. -/
def Node.decEq : (a b : Node) → Decidable (a = b)
  | .text s, .text t =>
    if h : s = t then isTrue (by rw [h]) else isFalse (by intro e; cases e; exact h rfl)
  | .value m, .value n =>
    if h : m = n then isTrue (by rw [h]) else isFalse (by intro e; cases e; exact h rfl)
  | .group m i xs, .group n j ys =>
    match Node.decEqList xs ys with
    | isTrue h =>
      if h' : m = n ∧ i = j then isTrue (by rw [h, h'.1, h'.2])
      else isFalse (by intro e; cases e; exact h' ⟨rfl, rfl⟩)
    | isFalse h => isFalse (by intro e; cases e; exact h rfl)
  | .text _, .value _ | .text _, .group _ _ _ | .value _, .text _ | .value _, .group _ _ _
  | .group _ _ _, .text _ | .group _ _ _, .value _ => isFalse (by intro e; cases e)

/-- Equality of lists of nodes is decidable. -/
def Node.decEqList : (as bs : List Node) → Decidable (as = bs)
  | [], [] => isTrue rfl
  | a :: as, b :: bs =>
    match Node.decEq a b, Node.decEqList as bs with
    | isTrue h, isTrue h' => isTrue (by rw [h, h'])
    | isFalse h, _ => isFalse (by intro e; cases e; exact h rfl)
    | _, isFalse h => isFalse (by intro e; cases e; exact h rfl)
  | [], _ :: _ | _ :: _, [] => isFalse (by intro e; cases e)

end

instance : DecidableEq Node := Node.decEq

/-- A token of a template: text, or what a tag says. -/
inductive Token where
  | text (s : List Char)
  | tag (kind : TagKind) (name : String)
  deriving DecidableEq, Repr

/-- A text as tokens: none when it is empty. -/
def textTokens (s : List Char) : List Token := if s.isEmpty then [] else [.text s]

/-- The tokens of a text that is cut at its tags. -/
def tokensOf (c : Cut) : List Token :=
  textTokens c.1 ++ c.2.flatMap fun p => .tag p.1.kind (String.ofList p.1.name) :: textTokens p.2

/-- The tokens of a template source. -/
def tokens (source : List Char) : List Token := tokensOf (cut source)

/-- A section that is still open. -/
structure Frame where
  name : String
  inverted : Bool
  /-- The nodes before the section. -/
  before : List Node

/-- Builds the nodes of a token sequence; `frames` are the open sections, the innermost first, and
`current` the nodes so far inside it. -/
def build (frames : List Frame) (current : List Node) :
    List Token → Except TemplateError (List Node)
  | [] =>
    match frames with
    | [] => .ok current
    | f :: _ => .error (.unclosedSection f.name)
  | .text s :: rest => build frames (current ++ [.text (String.ofList s)]) rest
  | .tag .value name :: rest => build frames (current ++ [.value name]) rest
  | .tag (.enter inverted) name :: rest => build (⟨name, inverted, current⟩ :: frames) [] rest
  | .tag .leave name :: rest =>
    match frames with
    | [] => .error (.unexpectedClose name)
    | f :: outer =>
      if f.name = name then build outer (f.before ++ [.group name f.inverted current]) rest
      else .error (.mismatchedClose f.name name)

end FlatFile.Template

namespace FlatFile

/-- A template. -/
structure Template where
  nodes : List Template.Node
  deriving DecidableEq, Repr

/-- Reads a template source. -/
def Template.parse (source : String) : Except TemplateError Template :=
  (Template.build [] [] (Template.tokens source.toList)).map Template.mk

end FlatFile
