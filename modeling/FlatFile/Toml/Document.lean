import FlatFile.Toml.Statement

/-!
# TOML documents

Putting the statements of a document together.  While a document is read, every table remembers how
it came to be (`Origin`), because a table may be opened by a header once, and may be extended by
dotted keys only if dotted keys made it.  Inline tables are closed once they are read.
-/

namespace FlatFile.Toml

/-- How a table came to be. -/
inductive Origin where
  /-- A header opened it. -/
  | header
  /-- It stands on the way to a table that a header opened. -/
  | implied
  /-- A dotted key made it. -/
  | dotted
  deriving DecidableEq, Repr

/-- A value of a document that is being read. -/
inductive Node where
  /-- A value that is complete. -/
  | leaf (v : Toml)
  | table (origin : Origin) (fields : List (String × Node))
  /-- The tables of an array of tables. -/
  | series (tables : List (List (String × Node)))

/-- The fields of a table that is being read. -/
abbrev Fields := List (String × Node)

mutual

/-- The value a node stands for. -/
def Node.value : Node → Toml
  | .leaf v => v
  | .table _ fields => .table (fieldValues fields)
  | .series tables => .array (tableValues tables)

/-- The values of fields. -/
def fieldValues : List (String × Node) → List (String × Toml)
  | [] => []
  | (k, n) :: rest => (k, n.value) :: fieldValues rest

/-- The values of tables. -/
def tableValues : List (List (String × Node)) → List Toml
  | [] => []
  | t :: rest => .table (fieldValues t) :: tableValues rest

end

/-- Changes the table at the end of a path by `change`, which is told how the table came to be.
Tables that are missing on the way are made with `origin`; a dotted key does not enter a table that
a header opened, and nothing enters a value that is complete. -/
def updateAt (origin : Origin) (change : Origin → Fields → Option Fields) :
    List String → Origin → Fields → Option Fields
  | [], here, fields => change here fields
  | k :: path, _, fields =>
    match fields.lookup k with
    | none =>
      (updateAt origin change path origin []).map fun inner =>
        setField k (.table origin inner) fields
    | some (.leaf _) => none
    | some (.table made inner) =>
      if origin = .dotted ∧ made = .header then none
      else
        (updateAt origin change path made inner).map fun inner' =>
          setField k (.table made inner') fields
    | some (.series tables) =>
      match tables.getLast? with
      | none => none
      | some last =>
        (updateAt origin change path .header last).map fun last' =>
          setField k (.series (tables.dropLast ++ [last'])) fields

/-- Splits a path into its last name and what comes before it. -/
def splitLast? (path : List String) : Option (List String × String) :=
  path.getLast?.map fun k => (path.dropLast, k)

/-- Assigns a value to a key of a table. -/
def assign (path : List String) (v : Toml) (fields : Fields) : Option Fields :=
  match splitLast? path with
  | none => none
  | some (outer, k) =>
    updateAt .dotted (fun made inner =>
      if outer ≠ [] ∧ made ≠ .dotted then none
      else
        match inner.lookup k with
        | some _ => none
        | none => some (inner ++ [(k, .leaf v)])) outer .header fields

/-- Opens the table of a header. -/
def openTable (path : List String) (root : Fields) : Option Fields :=
  match splitLast? path with
  | none => none
  | some (outer, k) =>
    updateAt .implied (fun _ inner =>
      match inner.lookup k with
      | none => some (inner ++ [(k, .table .header [])])
      | some (.table .implied fields) => some (setField k (.table .header fields) inner)
      | some _ => none) outer .header root

/-- Opens one more table of an array of tables. -/
def openElement (path : List String) (root : Fields) : Option Fields :=
  match splitLast? path with
  | none => none
  | some (outer, k) =>
    updateAt .implied (fun _ inner =>
      match inner.lookup k with
      | none => some (inner ++ [(k, .series [[]])])
      | some (.series tables) => some (setField k (.series (tables ++ [[]])) inner)
      | some _ => none) outer .header root

/-- A document that is being read: its tables, and the path of the one that is open. -/
structure Draft where
  root : Fields := []
  here : List String := []

/-- Takes a statement in. -/
def Draft.add (d : Draft) : Statement → Option Draft
  | .header path => (openTable path d.root).map fun root => ⟨root, path⟩
  | .element path => (openElement path d.root).map fun root => ⟨root, path⟩
  | .assign path v =>
    (updateAt .implied (fun _ fields => assign path v fields) d.here .header d.root).map
      fun root => ⟨root, d.here⟩

/-- The fields that statements make. -/
def ofStatements? (statements : List Statement) : Option (List (String × Toml)) :=
  (statements.foldlM Draft.add {}).map fun d => fieldValues d.root

/-! ## Reading

The readers of values call each other.  They take a bound on the number of calls, `fuel`, which
`statements?` sets to the length of the text, and the number of brackets that may still be opened,
`depth`. -/

mutual

/-- Reads a value. -/
def value? : (fuel depth : Nat) → List Char → Option (Toml × List Char)
  | 0, _, _ => none
  | fuel + 1, depth, s =>
    match s, depth with
    | '"' :: _, _ | '\x27' :: _, _ => (quoted? s).map fun r => (.text (String.ofList r.1), r.2)
    | '[' :: rest, inner + 1 => (items? fuel inner rest).map fun r => (.array r.1, r.2)
    | '\x7b' :: rest, inner + 1 =>
      match rest.dropWhile isSpace with
      | '\x7d' :: rest' => some (.table [], rest')
      | _ =>
        match pairs? fuel inner rest with
        | none => none
        | some (pairs, rest') =>
          (pairs.foldlM (fun fields p => assign p.1 p.2 fields) []).map fun fields =>
            (.table (fieldValues fields), rest')
    | _, _ => plain? s

/-- Reads the elements of an array up to its closing bracket. -/
def items? : (fuel depth : Nat) → List Char → Option (List Toml × List Char)
  | 0, _, _ => none
  | fuel + 1, depth, s =>
    match skipLines false s with
    | none => none
    | some (']' :: rest) => some ([], rest)
    | some s' =>
      match value? fuel depth s' with
      | none => none
      | some (v, rest) =>
        match skipLines false rest with
        | some (',' :: more) => (items? fuel depth more).map fun r => (v :: r.1, r.2)
        | some (']' :: more) => some ([v], more)
        | _ => none

/-- Reads the assignments of an inline table up to its closing brace. -/
def pairs? : (fuel depth : Nat) → List Char → Option (List (List String × Toml) × List Char)
  | 0, _, _ => none
  | fuel + 1, depth, s =>
    match key? s with
    | some (path, '=' :: rest) =>
      match value? fuel depth (rest.dropWhile isSpace) with
      | none => none
      | some (v, rest') =>
        match rest'.dropWhile isSpace with
        | ',' :: more => (pairs? fuel depth more).map fun r => ((path, v) :: r.1, r.2)
        | '\x7d' :: more => some ([(path, v)], more)
        | _ => none
    | _ => none

end

/-- Reads a statement. -/
def statement? (fuel : Nat) (s : List Char) : Option (Statement × List Char) :=
  match s with
  | '[' :: '[' :: rest =>
    match key? rest with
    | some (path, ']' :: ']' :: rest') => some (.element path, rest')
    | _ => none
  | '[' :: rest =>
    match key? rest with
    | some (path, ']' :: rest') => some (.header path, rest')
    | _ => none
  | _ =>
    match key? s with
    | some (path, '=' :: rest) =>
      (value? fuel depthLimit (rest.dropWhile isSpace)).map fun r => (.assign path r.1, r.2)
    | _ => none

/-- Reads statements up to the end. -/
def statementsAux (fuel : Nat) : Nat → List Char → Option (List Statement)
  | 0, _ => none
  | count + 1, s =>
    match skipLines false s with
    | none => none
    | some [] => some []
    | some s' =>
      match statement? fuel s' with
      | none => none
      | some (st, rest) =>
        if endsLine rest then (statementsAux fuel count rest).map (st :: ·) else none

/-- Reads the statements of a document; a byte order mark may stand in front. -/
def statements? (s : List Char) : Option (List Statement) :=
  let body := match s with
    | '\ufeff' :: rest => rest
    | _ => s
  statementsAux (body.length + 1) (body.length + 1) body

/-- Reads a document: the fields of its outermost table. -/
def parse? (text : String) : Option (List (String × Toml)) :=
  match statements? text.toList with
  | none => none
  | some statements => ofStatements? statements

end FlatFile.Toml
