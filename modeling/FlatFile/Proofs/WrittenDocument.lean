import FlatFile.Proofs.QuotedText
import FlatFile.Proofs.TextLaws
import FlatFile.Toml.Document

/-!
# Written documents read back

A document of sections, each a header and assignments of texts and lists of texts, reads back as
tables with these texts (`parse?_document`).  It is written line by line (`Line.chars`), a blank
line before each header.  A line reads back as its statement, whatever lines follow
(`statement?_line`), and the statements of a section fill its table (`add_section`).

The readers of values count their calls.  There are enough of them, because a written value is at
least as long as the calls it takes (`Written.calls_le_length`).
-/

namespace FlatFile.Toml

/-! ### Values -/

/-- A value that is written: a text or a list of texts. -/
inductive Written where
  | text (s : String)
  | texts (items : List String)

namespace Written

/-- A value as it is written. -/
def chars : Written → List Char
  | text s => (quote s).toList
  | texts items => (quoteList items).toList

/-- The value that is written. -/
def toml : Written → Toml
  | text s => .text s
  | texts items => .array (items.map .text)

/-- How many calls it takes to read the value. -/
def calls : Written → Nat
  | text _ => 1
  | texts items => items.length + 2

end Written

/-- A quoted text begins with a quote. -/
theorem quoteChars_eq_cons (s : List Char) :
    ∃ q tail, quoteChars s = q :: tail ∧ (q = '"' ∨ q = '\x27') := by
  rw [quoteChars]
  cases quoteForm s with
  | basic | longBasic => exact ⟨'"', _, rfl, Or.inl rfl⟩
  | literal | longLiteral => exact ⟨'\x27', _, rfl, Or.inr rfl⟩

/-- What cannot be taken for a part of a quoted text before it. -/
def NoQuote (rest : List Char) : Prop := rest.head? ≠ some '"' ∧ rest.head? ≠ some '\x27'

theorem value?_quoteChars (fuel depth : Nat) (s : String) {rest : List Char} (h : NoQuote rest) :
    value? (fuel + 1) depth (quoteChars s.toList ++ rest) = some (.text s, rest) := by
  have hread := quoted?_quoteChars s.toList h.1 h.2
  obtain ⟨q, tail, hq, hquote⟩ := quoteChars_eq_cons s.toList
  rw [hq, List.cons_append] at hread ⊢
  rcases hquote with rfl | rfl
  · rw [value?, hread]
    simp
  · rw [value?, hread]
    simp

/-- Blanks are skipped up to a quoted text. -/
theorem skipLines_quoteChars (s rest : List Char) :
    skipLines false (quoteChars s ++ rest) = some (quoteChars s ++ rest) := by
  obtain ⟨q, tail, hq, rfl | rfl⟩ := quoteChars_eq_cons s
  · rw [hq]
    rfl
  · rw [hq]
    rfl

/-- The reader of a list takes a text in and goes on behind the comma, or ends at the bracket. -/
theorem items?_quoteChars (fuel depth : Nat) (s : String) {ahead rest : List Char}
    (hahead : skipLines false ahead = some (quoteChars s.toList ++ rest)) (h : NoQuote rest) :
    (∀ more, rest = ',' :: more → items? (fuel + 1 + 1) depth ahead =
      (items? (fuel + 1) depth more).map fun r => (.text s :: r.1, r.2)) ∧
    (∀ more, rest = ']' :: more → items? (fuel + 1 + 1) depth ahead = some ([.text s], more)) := by
  have hvalue := value?_quoteChars fuel depth s h
  obtain ⟨q, tail, hq, hquote⟩ := quoteChars_eq_cons s.toList
  rw [hq, List.cons_append] at hahead hvalue
  have hopen : q ≠ ']' := by
    rcases hquote with rfl | rfl <;> decide
  rw [items?, hahead]
  refine ⟨?_, ?_⟩
  · rintro more rfl
    simp [hopen, hvalue, skipLines, isSpace]
  · rintro more rfl
    simp [hopen, hvalue, skipLines, isSpace]

/-- A line of a list. -/
def itemLine (s : String) : List Char := "    ".toList ++ quoteChars s.toList ++ [',', '\n']

/-- A list with one text a line reads back. -/
theorem items?_lines {fuel : Nat} (depth : Nat) {items : List String} (rest : List Char)
    (hfuel : items.length < fuel) :
    items? fuel depth ('\n' :: (items.flatMap itemLine ++ ']' :: rest))
      = some (items.map .text, rest) := by
  induction items generalizing fuel with
  | nil =>
    obtain ⟨fuel, rfl⟩ := Nat.exists_eq_succ_of_ne_zero (Nat.ne_zero_of_lt hfuel)
    rw [items?]
    rfl
  | cons s items ih =>
    rw [List.length_cons] at hfuel
    obtain ⟨fuel, rfl⟩ : ∃ f, fuel = f + 1 + 1 := ⟨fuel - 2, by omega⟩
    have hskip : ∀ tail, skipLines false ('\n' :: ("    ".toList ++ (quoteChars s.toList ++ tail)))
        = some (quoteChars s.toList ++ tail) := by
      intro tail
      rw [← skipLines_quoteChars]
      rfl
    have hnext := @ih (fuel + 1) (by omega)
    rw [List.flatMap_cons, itemLine]
    simp only [List.append_assoc, List.cons_append, List.nil_append]
    rw [(items?_quoteChars fuel depth s (hskip _) ⟨by simp, by simp⟩).1 _ rfl, hnext]
    rfl

theorem toList_quoteList_lines (s s' : String) (items : List String) :
    (quoteList (s :: s' :: items)).toList
      = '[' :: '\n' :: ((s :: s' :: items).flatMap itemLine ++ [']']) := by
  have hline : ∀ s, ("    " ++ quote s ++ ",\n").toList = itemLine s := by
    intro s
    simp [itemLine, quote]
  simp only [quoteList, String.toList_append, String.toList_join, List.flatMap_map, hline]
  simp

/-- A list of texts reads back. -/
theorem items?_quoteList {fuel : Nat} (depth : Nat) (items : List String) (rest : List Char)
    (hfuel : items.length < fuel) : ∃ tail, (quoteList items).toList ++ rest = '[' :: tail ∧
      items? fuel depth tail = some (items.map .text, rest) := by
  match items with
  | [] =>
    obtain ⟨fuel, rfl⟩ := Nat.exists_eq_succ_of_ne_zero (Nat.ne_zero_of_lt hfuel)
    refine ⟨']' :: rest, rfl, ?_⟩
    rw [items?]
    rfl
  | [s] =>
    rw [List.length_singleton] at hfuel
    obtain ⟨fuel, rfl⟩ : ∃ f, fuel = f + 1 + 1 := ⟨fuel - 2, by omega⟩
    refine ⟨quoteChars s.toList ++ ']' :: rest, by simp [quoteList, quote], ?_⟩
    exact (items?_quoteChars fuel depth s (skipLines_quoteChars _ _) ⟨by simp, by simp⟩).2 rest rfl
  | s :: s' :: items =>
    refine ⟨'\n' :: ((s :: s' :: items).flatMap itemLine ++ ']' :: rest), ?_,
      items?_lines depth rest hfuel⟩
    rw [toList_quoteList_lines, List.cons_append, List.cons_append, List.append_assoc]
    rfl

/-- **A written value reads back**, whatever follows it but a quote. -/
theorem Written.value? {fuel : Nat} (depth : Nat) (v : Written) {rest : List Char}
    (h : NoQuote rest) (hfuel : v.calls ≤ fuel) :
    Toml.value? fuel (depth + 1) (v.chars ++ rest) = some (v.toml, rest) := by
  cases v with
  | text s =>
    obtain ⟨fuel, rfl⟩ := Nat.exists_eq_succ_of_ne_zero (Nat.ne_zero_of_lt hfuel)
    rw [chars, quote, String.toList_ofList]
    exact value?_quoteChars fuel (depth + 1) s h
  | texts items =>
    obtain ⟨fuel, rfl⟩ : ∃ f, fuel = f + 1 := ⟨fuel - 1, by simp only [calls] at hfuel; omega⟩
    have hitems : items.length < fuel := by simp only [calls] at hfuel; omega
    obtain ⟨tail, htail, hread⟩ := items?_quoteList depth items rest hitems
    rw [chars, htail, Toml.value?, hread]
    rfl

/-- A written value begins with no blank. -/
theorem Written.chars_eq_cons (v : Written) :
    ∃ c tail, v.chars = c :: tail ∧ isSpace c = false := by
  cases v with
  | text s =>
    obtain ⟨q, tail, hq, hquote⟩ := quoteChars_eq_cons s.toList
    refine ⟨q, tail, by rw [chars, quote, String.toList_ofList, hq], ?_⟩
    rcases hquote with rfl | rfl <;> rfl
  | texts items =>
    obtain ⟨tail, htail, -⟩ := items?_quoteList 0 items [] (Nat.lt_succ_self _)
    rw [List.append_nil] at htail
    exact ⟨'[', tail, htail, rfl⟩

/-! ### Lines -/

/-- A name that needs no quotes. -/
def Bare (name : String) : Prop := name ≠ "" ∧ name.toList.all isBare = true

instance decBare (name : String) : Decidable (Bare name) :=
  inferInstanceAs (Decidable (name ≠ "" ∧ name.toList.all isBare = true))

theorem Bare.eq_cons {name : String} (h : Bare name) :
    ∃ c cs, name.toList = c :: cs ∧ isBare c = true := by
  obtain ⟨hne, hall⟩ := h
  cases hc : name.toList with
  | nil => exact absurd (String.toList_eq_nil_iff.mp hc) hne
  | cons c cs =>
    rw [hc, List.all_cons, Bool.and_eq_true] at hall
    exact ⟨c, cs, rfl, hall.1⟩

theorem ne_of_isBare {c d : Char} (hc : isBare c = true) (hd : isBare d = false) : c ≠ d := by
  rintro rfl
  rw [hc] at hd
  cases hd

theorem isSpace_of_isBare {c : Char} (h : isBare c = true) : isSpace c = false := by
  simp [isSpace, ne_of_isBare h (d := ' ') (by decide), ne_of_isBare h (d := '\t') (by decide)]

/-- A bare name is read as a key, up to the first character that stands for something else. -/
theorem key?_bare {name : String} (h : Bare name) {rest : List Char}
    (hend : ∀ c ∈ rest.head?, isBare c = false)
    (hdot : (rest.dropWhile isSpace).head? ≠ some '.') :
    key? (name.toList ++ rest) = some ([name], rest.dropWhile isSpace) := by
  have htake := Text.takeWhile_run (List.all_eq_true.mp h.2) hend
  have hdrop := Text.dropWhile_run (List.all_eq_true.mp h.2) hend
  obtain ⟨c, cs, hcs, hc⟩ := h.eq_cons
  have hname : name? (name.toList ++ rest) = some (name, rest) := by
    have hdouble := ne_of_isBare hc (d := '"') (by decide)
    have hsingle := ne_of_isBare hc (d := '\x27') (by decide)
    have htext : String.ofList (c :: cs) = name := by rw [← hcs, String.ofList_toList]
    rw [name?.eq_def, htake, hdrop, hcs]
    simp [hdouble, hsingle, htext]
  have hspace : (name.toList ++ rest).dropWhile isSpace = name.toList ++ rest := by
    rw [hcs, List.cons_append, List.dropWhile_cons_of_neg (by simp [isSpace_of_isBare hc])]
  rw [key?, depthLimit, names?, hspace, hname]
  simp only []
  split
  · rename_i more hmore
    rw [hmore] at hdot
    exact absurd rfl hdot
  · rfl

/-- A line of a document. -/
inductive Line where
  | header (name : String)
  | assign (name : String) (value : Written)

namespace Line

/-- The name in a line. -/
def name : Line → String
  | header name | assign name _ => name

/-- A line without the line ends around it. -/
def body : Line → List Char
  | header name => '[' :: (name.toList ++ [']'])
  | assign name value => name.toList ++ (' ' :: '=' :: ' ' :: value.chars)

/-- A line with its line end; in front of a header there is a blank line. -/
def chars : Line → List Char
  | header name => '\n' :: ((header name).body ++ ['\n'])
  | assign name value => (assign name value).body ++ ['\n']

/-- What a line says. -/
def statement : Line → Statement
  | header name => .header [name]
  | assign name value => .assign [name] value.toml

/-- How many calls it takes to read the value in a line. -/
def calls : Line → Nat
  | header _ => 0
  | assign _ value => value.calls

end Line

/-- **A line reads back as its statement**, whatever lines follow. -/
theorem statement?_line {fuel : Nat} {l : Line} (hname : Bare l.name) (hfuel : l.calls ≤ fuel)
    (rest : List Char) :
    statement? fuel (l.body ++ '\n' :: rest) = some (l.statement, '\n' :: rest) := by
  obtain ⟨c, cs, hcs, hc⟩ := hname.eq_cons
  have hopen := ne_of_isBare hc (d := '[') (by decide)
  cases l with
  | header name =>
    have hkey : key? (name.toList ++ ']' :: '\n' :: rest) = some ([name], ']' :: '\n' :: rest) :=
      key?_bare hname (by simp; decide) (by simp [isSpace])
    simp only [Line.name] at hcs
    simp only [Line.body, List.cons_append, List.append_assoc, List.nil_append]
    rw [statement?.eq_def]
    rw [hcs, List.cons_append] at hkey ⊢
    simp [hopen, hkey, Line.statement]
  | assign name value =>
    have hkey : key? (name.toList ++ ' ' :: '=' :: ' ' :: (value.chars ++ '\n' :: rest))
        = some ([name], '=' :: ' ' :: (value.chars ++ '\n' :: rest)) :=
      key?_bare hname (by simp; decide) (by simp [isSpace])
    have hblank : (' ' :: (value.chars ++ '\n' :: rest)).dropWhile isSpace
        = value.chars ++ '\n' :: rest := by
      obtain ⟨d, tail, hd, hspace⟩ := value.chars_eq_cons
      rw [hd, List.dropWhile_cons_of_pos rfl, List.cons_append,
        List.dropWhile_cons_of_neg (by simp [hspace])]
    have hvalue : value? fuel depthLimit (value.chars ++ '\n' :: rest)
        = some (value.toml, '\n' :: rest) := value.value? 78 ⟨by simp, by simp⟩ hfuel
    simp only [Line.name] at hcs
    simp only [Line.body, List.cons_append, List.append_assoc]
    rw [statement?.eq_def]
    rw [hcs, List.cons_append] at hkey ⊢
    simp [hopen, hkey, hblank, hvalue, Line.statement]

/-! ### Documents -/

theorem statementsAux_newline (fuel count : Nat) (s : List Char) :
    statementsAux fuel count ('\n' :: s) = statementsAux fuel count s := by
  cases count with
  | zero => rfl
  | succ count =>
    rw [statementsAux, statementsAux, skipLines, if_pos rfl]

/-- Nothing is skipped in front of a line. -/
theorem skipLines_body {l : Line} (hname : Bare l.name) (rest : List Char) :
    ∃ c tail, l.body ++ rest = c :: tail ∧ skipLines false (c :: tail) = some (c :: tail) := by
  obtain ⟨c, cs, hcs, hc⟩ := hname.eq_cons
  cases l with
  | header name => exact ⟨'[', _, rfl, rfl⟩
  | assign name value =>
    simp only [Line.name] at hcs
    refine ⟨c, _, by rw [Line.body, hcs]; rfl, ?_⟩
    rw [skipLines, if_neg (ne_of_isBare hc (by decide)),
      if_neg fun h => ne_of_isBare hc (d := '\r') (by decide) h.1, if_neg (by simp),
      if_neg (by simp [isSpace_of_isBare hc]), if_neg (ne_of_isBare hc (by decide))]

/-- **Lines read back as their statements.** -/
theorem statementsAux_lines {fuel count : Nat} {lines : List Line}
    (hname : ∀ l ∈ lines, Bare l.name) (hfuel : ∀ l ∈ lines, l.calls ≤ fuel)
    (hcount : lines.length < count) :
    statementsAux fuel count (lines.flatMap Line.chars) = some (lines.map Line.statement) := by
  induction lines generalizing count with
  | nil =>
    obtain ⟨count, rfl⟩ := Nat.exists_eq_succ_of_ne_zero (Nat.ne_zero_of_lt hcount)
    rfl
  | cons l lines ih =>
    obtain ⟨count, rfl⟩ := Nat.exists_eq_succ_of_ne_zero (Nat.ne_zero_of_lt hcount)
    have hrest := @ih count (fun m hm => hname m (List.mem_cons_of_mem l hm))
      (fun m hm => hfuel m (List.mem_cons_of_mem l hm)) (by simpa using hcount)
    have hl := hname l List.mem_cons_self
    have hchars : ∀ tail, statementsAux fuel (count + 1) (l.chars ++ tail)
        = statementsAux fuel (count + 1) (l.body ++ '\n' :: tail) := by
      intro tail
      cases l with
      | header name =>
        rw [Line.chars, List.cons_append, statementsAux_newline, List.append_assoc]
        rfl
      | assign name value =>
        rw [Line.chars, List.append_assoc]
        rfl
    obtain ⟨c, tail, hbody, hskip⟩ := skipLines_body hl ('\n' :: lines.flatMap Line.chars)
    have hstatement := statement?_line hl (hfuel l List.mem_cons_self) (lines.flatMap Line.chars)
    rw [List.flatMap_cons, hchars, hbody, statementsAux, hskip]
    rw [hbody] at hstatement
    simp only [hstatement]
    rw [if_pos (by rfl), statementsAux_newline, hrest]
    rfl

/-! ### Sections -/

/-- A section: its name, and the names and values that are assigned in it. -/
abbrev Section := String × List (String × Written)

/-- The lines of a section. -/
def Section.lines (sec : Section) : List Line :=
  .header sec.1 :: sec.2.map fun f => .assign f.1 f.2

/-- The table of a section. -/
def Section.node (sec : Section) : Node :=
  .table .header (sec.2.map fun f => (f.1, .leaf f.2.toml))

theorem setField_append_last {α : Type} {name : String} {root : List (String × α)}
    (h : root.lookup name = none) (a b : α) :
    setField name a (root ++ [(name, b)]) = root ++ [(name, a)] := by
  induction root with
  | nil => simp [setField]
  | cons f root ih =>
    obtain ⟨k, d⟩ := f
    rw [List.lookup_cons] at h
    split at h
    · cases h
    · rename_i hk
      have hne : k ≠ name := fun he => by simp [he] at hk
      rw [List.cons_append, setField, if_neg hne, ih h, List.cons_append]

theorem add_header {root : Fields} (here : List String) {name : String}
    (h : root.lookup name = none) :
    Draft.add ⟨root, here⟩ (.header [name])
      = some ⟨root ++ [(name, .table .header [])], [name]⟩ := by
  simp [Draft.add, openTable, splitLast?, updateAt, h]

theorem add_assign {root fields : Fields} {name k : String} (hname : root.lookup name = none)
    (hk : fields.lookup k = none) (v : Toml) :
    Draft.add ⟨root ++ [(name, .table .header fields)], [name]⟩ (.assign [k] v)
      = some ⟨root ++ [(name, .table .header (fields ++ [(k, .leaf v)]))], [name]⟩ := by
  have hfind : (root ++ [(name, Node.table .header fields)]).lookup name
      = some (.table .header fields) := by
    rw [List.lookup_append, hname]
    simp
  simp [Draft.add, updateAt, hfind, assign, splitLast?, hk, setField_append_last hname]

/-- A name that no field has is not found. -/
theorem lookup_eq_none_of_not_mem {α : Type} {name : String} {fs : List (String × α)}
    (h : name ∉ fs.map Prod.fst) : fs.lookup name = none := by
  rw [List.lookup_eq_none_iff]
  intro f hf
  have hne : name ≠ f.1 := fun he => h (he ▸ List.mem_map_of_mem hf)
  simpa using hne

/-- Assignments fill the table that is open. -/
theorem add_assigns {root : Fields} {name : String} (hname : root.lookup name = none)
    (done todo : List (String × Written)) (hnodup : ((done ++ todo).map Prod.fst).Nodup) :
    (todo.map fun f => (Line.assign f.1 f.2).statement).foldlM Draft.add
        ⟨root ++ [(name, Section.node (name, done))], [name]⟩
      = some ⟨root ++ [(name, Section.node (name, done ++ todo))], [name]⟩ := by
  induction todo generalizing done with
  | nil => simp
  | cons f todo ih =>
    obtain ⟨k, v⟩ := f
    have hk : k ∉ (done.map fun f => (f.1, Node.leaf f.2.toml)).map Prod.fst := by
      rw [List.map_append, List.map_cons, List.nodup_append] at hnodup
      intro hmem
      refine hnodup.2.2 k ?_ k List.mem_cons_self rfl
      simpa using hmem
    have hadd := add_assign hname (lookup_eq_none_of_not_mem hk) v.toml
    have hnext := ih (done ++ [(k, v)]) (by simpa using hnodup)
    rw [List.map_cons, List.foldlM_cons]
    simp only [Section.node, Line.statement] at hnext ⊢
    rw [hadd]
    simpa using hnext

/-- A section adds its table. -/
theorem add_section {root : Fields} (here : List String) {sec : Section}
    (hname : root.lookup sec.1 = none) (hnodup : (sec.2.map Prod.fst).Nodup) :
    (sec.lines.map Line.statement).foldlM Draft.add ⟨root, here⟩
      = some ⟨root ++ [(sec.1, sec.node)], [sec.1]⟩ := by
  rw [Section.lines, List.map_cons, List.foldlM_cons, Line.statement, add_header here hname]
  have hassigns := add_assigns hname [] sec.2 (by simpa using hnodup)
  simpa [Section.node, Function.comp_def] using hassigns

/-- Sections add their tables one after the other. -/
theorem add_sections {secs : List Section} (root : Fields) (here : List String)
    (hnodup : (root.map Prod.fst ++ secs.map Prod.fst).Nodup)
    (hfields : ∀ sec ∈ secs, (sec.2.map Prod.fst).Nodup) :
    ∃ last, ((secs.flatMap Section.lines).map Line.statement).foldlM Draft.add ⟨root, here⟩
      = some ⟨root ++ secs.map fun sec => (sec.1, sec.node), last⟩ := by
  induction secs generalizing root here with
  | nil => exact ⟨here, by simp⟩
  | cons sec secs ih =>
    have hname : sec.1 ∉ root.map Prod.fst := by
      rw [List.map_cons, List.nodup_append] at hnodup
      intro hmem
      exact hnodup.2.2 _ hmem _ List.mem_cons_self rfl
    have hadd := add_section here (lookup_eq_none_of_not_mem hname)
      (hfields sec List.mem_cons_self)
    obtain ⟨last, hlast⟩ := ih (root ++ [(sec.1, sec.node)]) [sec.1] (by simpa using hnodup)
      fun sec' hsec' => hfields sec' (List.mem_cons_of_mem sec hsec')
    refine ⟨last, ?_⟩
    rw [List.flatMap_cons, List.map_append, List.foldlM_append, hadd]
    simpa using hlast

/-- The fields of a section's table. -/
def Section.fields (sec : Section) : List (String × Toml) := sec.2.map fun f => (f.1, f.2.toml)

theorem fieldValues_leaves (fs : List (String × Written)) :
    fieldValues (fs.map fun f => (f.1, Node.leaf f.2.toml)) = fs.map fun f => (f.1, f.2.toml) := by
  induction fs with
  | nil => rfl
  | cons f fs ih => rw [List.map_cons, fieldValues, ih, Node.value, List.map_cons]

theorem fieldValues_sections (secs : List Section) :
    fieldValues (secs.map fun sec => (sec.1, sec.node))
      = secs.map fun sec => (sec.1, .table sec.fields) := by
  induction secs with
  | nil => rfl
  | cons sec secs ih =>
    rw [List.map_cons, fieldValues, ih, Section.node, Node.value, fieldValues_leaves,
      List.map_cons, Section.fields]

theorem ofStatements?_sections {secs : List Section} (hnodup : (secs.map Prod.fst).Nodup)
    (hfields : ∀ sec ∈ secs, (sec.2.map Prod.fst).Nodup) :
    ofStatements? ((secs.flatMap Section.lines).map Line.statement)
      = some (secs.map fun sec => (sec.1, .table sec.fields)) := by
  obtain ⟨last, hlast⟩ := add_sections [] [] (by simpa using hnodup) hfields
  rw [List.nil_append] at hlast
  rw [ofStatements?, hlast]
  simp only [Option.map_some, fieldValues_sections]

/-! ### Enough calls -/

theorem two_le_length_quoteChars (s : List Char) : 2 ≤ (quoteChars s).length := by
  rw [quoteChars]
  cases quoteForm s <;> simp only [List.length_append, List.length_cons, List.length_nil] <;> omega

theorem length_le_length_itemLines (items : List String) :
    items.length ≤ (items.flatMap itemLine).length := by
  induction items with
  | nil => simp
  | cons s items ih =>
    rw [List.flatMap_cons, List.length_append, List.length_cons, itemLine, List.length_append]
    simp only [List.length_cons, List.length_nil]
    omega

/-- A written value is at least as long as the calls it takes to read it. -/
theorem Written.calls_le_length (v : Written) : v.calls ≤ v.chars.length := by
  match v with
  | text s =>
    have hquote := two_le_length_quoteChars s.toList
    rw [calls, chars, quote, String.toList_ofList]
    omega
  | texts [] => exact Nat.le_refl 2
  | texts [s] =>
    have hquote := two_le_length_quoteChars s.toList
    simp only [calls, chars, quoteList, quote, String.toList_append, String.toList_ofList,
      List.length_append, List.length_singleton, String.reduceToList]
    omega
  | texts (s :: s' :: items) =>
    have hlines := length_le_length_itemLines (s :: s' :: items)
    rw [calls, chars, toList_quoteList_lines]
    simp only [List.length_cons, List.length_append] at hlines ⊢
    omega

theorem Line.calls_le_length (l : Line) : l.calls ≤ l.chars.length := by
  cases l with
  | header name => exact Nat.zero_le _
  | assign name value =>
    have hvalue := value.calls_le_length
    simp only [calls, chars, body, List.length_append, List.length_cons]
    omega

theorem Line.two_le_length (l : Line) : 2 ≤ l.chars.length := by
  cases l with
  | header name => simp only [chars, body, List.length_append, List.length_cons]; omega
  | assign name value => simp only [chars, body, List.length_append, List.length_cons]; omega

theorem two_mul_length_le (lines : List Line) :
    2 * lines.length ≤ (lines.flatMap Line.chars).length := by
  induction lines with
  | nil => simp
  | cons l lines ih =>
    have hl := l.two_le_length
    rw [List.flatMap_cons, List.length_append, List.length_cons]
    omega

/-- **A document of sections reads back as their tables.** -/
theorem parse?_document {secs : List Section} {text : String}
    (htext : '\n' :: text.toList = (secs.flatMap Section.lines).flatMap Line.chars)
    (hname : ∀ sec ∈ secs, Bare sec.1 ∧ ∀ f ∈ sec.2, Bare f.1)
    (hnodup : (secs.map Prod.fst).Nodup) (hfields : ∀ sec ∈ secs, (sec.2.map Prod.fst).Nodup) :
    parse? text = some (secs.map fun sec => (sec.1, .table sec.fields)) := by
  have hlength := two_mul_length_le (secs.flatMap Section.lines)
  rw [← htext, List.length_cons] at hlength
  have hbare : ∀ l ∈ secs.flatMap Section.lines, Bare l.name := by
    intro l hl
    obtain ⟨sec, hsec, hl⟩ := List.mem_flatMap.mp hl
    obtain ⟨hheader, hassign⟩ := hname sec hsec
    rw [Section.lines, List.mem_cons, List.mem_map] at hl
    rcases hl with rfl | ⟨f, hf, rfl⟩
    · exact hheader
    · exact hassign f hf
  have hcalls : ∀ l ∈ secs.flatMap Section.lines, l.calls ≤ text.toList.length + 1 := by
    intro l hl
    have hcalls := l.calls_le_length
    have hchars := congrArg List.length htext
    obtain ⟨before, after, hsplit⟩ := List.append_of_mem hl
    rw [hsplit, List.flatMap_append, List.flatMap_cons, List.length_cons, List.length_append,
      List.length_append] at hchars
    omega
  have hread := statementsAux_lines hbare hcalls
    (show _ < text.toList.length + 1 by omega)
  rw [← htext, statementsAux_newline] at hread
  -- the text begins with the bracket of a header, not with a byte order mark
  have hstatements : statements? text.toList
      = some ((secs.flatMap Section.lines).map Line.statement) := by
    cases secs with
    | nil => cases htext
    | cons sec secs =>
      rw [← hread]
      rw [List.flatMap_cons, Section.lines, List.cons_append, List.flatMap_cons, Line.chars,
        Line.body] at htext
      rw [(List.cons.inj htext).2]
      rfl
  rw [parse?, hstatements]
  exact ofStatements?_sections hnodup hfields

end FlatFile.Toml
