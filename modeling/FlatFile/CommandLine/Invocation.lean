import FlatFile.Target.Language

/-!
# Invocations

What a list of arguments asks for.  An option has a long name and mostly a short one; its value
follows as the next argument, after `=`, or right behind the short name.  Options for the
configuration file and the language may stand before or after the command, and the ones after it
win; no option may stand twice at one of the two places.  After `--` every argument is a plain one.
Help is asked for by an option, at any place before `--`, or by a command of its own.
-/

namespace FlatFile.CommandLine

/-- What can be asked for. -/
inductive Action where
  /-- Write the generated files. -/
  | generate (schema : String) (output : Option String)
  /-- Tell whether the generated files have drifted. -/
  | check (schema : String) (output : Option String)
  /-- Print the columns. -/
  | columns (schema : String) (json : Bool)
  /-- Read a data file and print its records. -/
  | preview (schema data : String)
  deriving DecidableEq, Repr

/-- One run of the program. -/
structure Invocation where
  /-- A configuration file on top of those in fixed places. -/
  config : Option String
  /-- A language in place of the configured one. -/
  language : Option Language
  action : Action
  deriving DecidableEq, Repr

/-- The options. -/
inductive Switch where
  | config
  | language
  | output
  | json
  deriving DecidableEq, Repr

namespace Switch

/-- The long name of an option. -/
def long : Switch → String
  | config => "config"
  | language => "language"
  | output => "output"
  | json => "json"

/-- The short name of an option. -/
def short? : Switch → Option Char
  | config => some 'c'
  | language => some 'l'
  | output => some 'o'
  | json => none

/-- Whether an option has a value. -/
def hasValue : Switch → Bool
  | json => false
  | _ => true

/-- Whether an option can have a certain value. -/
def accepts (s : Switch) (value : String) : Bool :=
  match s with
  | config | output => value ≠ ""
  | language => (Language.ofUserText? value).isSome
  | json => true

end Switch

/-- The options that may stand before the command. -/
def globalSwitches : List Switch := [.config, .language]

/-- The options of a command and the number of its plain arguments; `none` when there is no such
command. -/
def shapeOf? : String → Option (List Switch × Nat)
  | "generate" | "check" => some ([.config, .language, .output], 1)
  | "columns" => some ([.config, .language, .json], 1)
  | "preview" => some ([.config, .language], 2)
  | _ => none

/-- Why arguments are no invocation. -/
inductive Refusal where
  /-- They ask for help. -/
  | help
  /-- They do not fit. -/
  | misfit
  deriving DecidableEq, Repr

/-! ## Options -/

/-- The value written in the same argument as its option. -/
def attached? : List Char → Option String
  | [] => none
  | '=' :: value => some (String.ofList value)
  | value => some (String.ofList value)

/-- The option that an argument names, with the value written there. -/
def switchOf? (known : List Switch) (arg : String) : Option (Switch × Option String) :=
  match arg.toList with
  | '-' :: '-' :: body =>
    let name := body.takeWhile (· ≠ '=')
    (known.find? fun s => s.long == String.ofList name).map
      fun s => (s, attached? (body.drop name.length))
  | '-' :: c :: body =>
    (known.find? fun s => s.short? == some c).map fun s => (s, attached? body)
  | _ => none

/-- Whether an argument stands for an option; a lone dash does not. -/
def isOption (arg : String) : Bool := arg.startsWith "-" && arg ≠ "-"

/-- Options with their values. -/
abbrev Options := List (Switch × String)

/-- Reads an option and its value; gives the arguments behind them. -/
def option? (known : List Switch) (arg : String) (rest : List String) :
    Option ((Switch × String) × List String) :=
  match switchOf? known arg with
  | none => none
  | some (s, some value) => if s.hasValue then some ((s, value), rest) else none
  | some (s, none) =>
    if s.hasValue then
      match rest with
      | [] => none
      | value :: behind => if isOption value then none else some ((s, value), behind)
    else some ((s, ""), rest)

/-- Whether an option asks for help; whatever follows the short name does not matter. -/
def isHelp (arg : String) : Bool := arg = "--help" || arg.startsWith "-h"

/-- Takes an option in, behind those seen before it; gives the arguments behind it.  It may not
stand twice, and it must have a value that it can have. -/
def option (known : List Switch) (seen : Options) (arg : String) (rest : List String) :
    Except Refusal (Options × List String) :=
  if isHelp arg then .error .help
  else
    match option? known arg rest with
    | none => .error .misfit
    | some (o, behind) =>
      if o.1 ∉ seen.map (·.1) ∧ o.1.accepts o.2 then .ok (seen ++ [o], behind)
      else .error .misfit

theorem option?_length {known : List Switch} {arg : String} {rest behind : List String}
    {o : Switch × String} (h : option? known arg rest = some (o, behind)) :
    behind.length ≤ rest.length := by
  unfold option? at h
  grind

theorem option_length {known : List Switch} {seen seen' : Options} {arg : String}
    {rest behind : List String} (h : option known seen arg rest = .ok (seen', behind)) :
    behind.length ≤ rest.length := by
  unfold option at h
  split at h
  · cases h
  · split at h
    · cases h
    · rename_i o behind' hoption
      split at h
      · obtain ⟨-, rfl⟩ := Prod.mk.inj (Except.ok.inj h)
        exact option?_length hoption
      · cases h

/-- Takes the options before the command in; gives the arguments from the command on. -/
def leading (seen : Options) (args : List String) : Except Refusal (Options × List String) :=
  match args with
  | [] => .ok (seen, [])
  | arg :: rest =>
    if isOption arg then
      match h : option globalSwitches seen arg rest with
      | .error r => .error r
      | .ok (seen', behind) =>
        have := option_length h
        leading seen' behind
    else .ok (seen, arg :: rest)
termination_by args.length
decreasing_by
  simp only [List.length_cons]
  omega

/-- Takes the arguments of a command in, its options and at most `count` plain arguments. -/
def arguments (known : List Switch) (count : Nat) (seen : Options) (plain args : List String) :
    Except Refusal (Options × List String) :=
  match args with
  | [] => .ok (seen, plain)
  | arg :: rest =>
    if arg = "--" then .ok (seen, plain ++ rest)
    else if isOption arg then
      match h : option known seen arg rest with
      | .error r => .error r
      | .ok (seen', behind) =>
        have := option_length h
        arguments known count seen' plain behind
    else if plain.length < count ∧ arg ≠ "" then
      arguments known count seen (plain ++ [arg]) rest
    else .error .misfit
termination_by args.length
decreasing_by
  all_goals simp only [List.length_cons]
  all_goals omega

/-! ## Commands -/

/-- What a command does with its options and plain arguments. -/
def action? (command : String) (options : Options) (plain : List String) : Option Action :=
  if plain.any (· = "") then none
  else
    match command, plain with
    | "generate", [schema] => some (.generate schema (options.lookup .output))
    | "check", [schema] => some (.check schema (options.lookup .output))
    | "columns", [schema] => some (.columns schema (options.lookup .json).isSome)
    | "preview", [schema, data] => some (.preview schema data)
    | _, _ => none

/-- The command `help`, which may name one of the commands. -/
def helpOn : List String → Refusal
  | [] => .help
  | [command] => if command = "help" ∨ (shapeOf? command).isSome then .help else .misfit
  | _ => .misfit

/-- What arguments ask for.  They are taken in from left to right, so that help is refused where
something before it does not fit, and given where something behind it does not. -/
def Invocation.ofArgs (args : List String) : Except Refusal Invocation := do
  let (before, fromCommand) ← leading [] args
  match fromCommand with
  | [] => .error .misfit
  | command :: rest =>
    if command = "help" then .error (helpOn rest)
    else
      match shapeOf? command with
      | none => .error .misfit
      | some (known, count) =>
        let (options, plain) ← arguments known count [] [] rest
        match action? command options plain with
        | none => .error .misfit
        | some action =>
          let all := options ++ before
          .ok ⟨all.lookup .config, (all.lookup .language).bind Language.ofUserText?, action⟩

/-- How the program is called. -/
def usage : String :=
  "Usage: fwgen [-c FILE] [-l LANGUAGE] COMMAND\n\n"
    ++ "  generate SCHEMA [-o DIR]\n"
    ++ "  check SCHEMA [-o DIR]\n"
    ++ "  columns SCHEMA [--json]\n"
    ++ "  preview SCHEMA DATA\n"
    ++ "  help [COMMAND]\n"

end FlatFile.CommandLine
