import FlatFile.CommandLine.Run
import FlatFile.Proofs.ColumnReading
import FlatFile.Proofs.WrittenJson

/-!
# Records as lines of JSON

A record is printed as the compact text of an object with a field for each column.  Such a text has
no control character in it (`Json.printable_compact`): strings escape theirs, and nothing else has
any.  So texts that each get a newline behind them are cut at exactly these newlines
(`Text.lines_join_printable`), and printed records can be told apart line by line.

The text reads back as the object (`Json.read?_compact`), hence it tells the fields, their order and
the record (`Record.toJson_injective`).  That no name comes twice is what the compiler saw to.
-/

namespace FlatFile

namespace Json

open Text (hexDigit)

/-! ### No control characters -/

/-- **No control character**, below the blank, is among the characters. -/
def Printable (s : List Char) : Prop := ∀ c ∈ s, 0x20 ≤ c.toNat

instance decPrintable (s : List Char) : Decidable (Printable s) :=
  List.decidableBAll _ s

theorem Printable.append {s u : List Char} (hs : Printable s) (hu : Printable u) :
    Printable (s ++ u) :=
  List.forall_mem_append.mpr ⟨hs, hu⟩

theorem Printable.not_mem {s : List Char} (h : Printable s) {c : Char} (hc : c.toNat < 0x20) :
    c ∉ s :=
  fun hmem => absurd (h c hmem) (Nat.not_le.mpr hc)

theorem printable_hexDigit (n : Nat) : 0x20 ≤ (hexDigit n).toNat := by
  have hdigits : ∀ m < 16, 0x20 ≤ (hexDigit m).toNat := by decide +kernel
  have hmod : hexDigit n = hexDigit (n % 16) := by
    unfold hexDigit
    rw [Nat.mod_mod]
  rw [hmod]
  exact hdigits _ (Nat.mod_lt n (by decide))

/-- What stands for a character in a string has no control character, whatever it stands for. -/
theorem printable_escapeChar (c : Char) : Printable (escapeChar c) := by
  rw [escapeChar]
  iterate 7
    split
    · decide
  split
  · have hlead : Printable ['\\', 'u', '0', '0'] := by decide
    refine hlead.append ?_
    simp [Printable, printable_hexDigit]
  · rename_i hcontrol
    simpa [Printable] using hcontrol

theorem printable_quote (s : String) : Printable (quote s).toList := by
  have hquote : Printable ['"'] := by decide
  rw [toList_quote]
  refine hquote.append (Printable.append ?_ hquote)
  intro d hd
  obtain ⟨c, -, hd⟩ := List.mem_flatMap.mp hd
  exact printable_escapeChar c d hd

theorem printable_of_isNumber {s : List Char} (h : isNumber s = true) : Printable s := by
  intro c hc
  have hchar := isNumberChar_of_isNumber h c hc
  simp only [isNumberChar, Bool.or_eq_true, decide_eq_true_eq] at hchar
  rcases hchar with ((((hdigit | rfl) | rfl) | rfl) | rfl) | rfl
  · have hlow := ((Text.isDigit_iff c).mp hdigit).1
    omega
  all_goals decide

theorem printable_joinWith {ss : List String} (h : ∀ s ∈ ss, Printable s.toList) :
    Printable (joinWith "," ss).toList := by
  induction ss with
  | nil => exact fun c hc => nomatch hc
  | cons s ss ih =>
    obtain ⟨hs, hss⟩ := List.forall_mem_cons.mp h
    cases ss with
    | nil => exact hs
    | cons u ss =>
      have hcomma : Printable ",".toList := by decide
      rw [joinWith, String.toList_append, String.toList_append]
      · exact (hs.append hcomma).append (ih hss)
      · simp

mutual

/-- **The compact text of a value has no control character.** -/
theorem printable_compact (j : Json) : Printable j.compact.toList := by
  match j with
  | .null => decide
  | .bool b => cases b <;> decide
  | .num n => exact printable_of_isNumber (isNumber_toString n)
  | .decimal d => exact printable_of_isNumber d.isNumber
  | .str s => exact printable_quote s
  | .arr items =>
    have hopen : Printable "[".toList := by decide
    have hclose : Printable "]".toList := by decide
    rw [compact, String.toList_append, String.toList_append]
    exact (hopen.append (printable_joinWith (printable_compactItems items))).append hclose
  | .obj fields =>
    have hopen : Printable "\x7b".toList := by decide
    have hclose : Printable "\x7d".toList := by decide
    rw [compact, String.toList_append, String.toList_append]
    exact (hopen.append (printable_joinWith (printable_compactFields fields))).append hclose

theorem printable_compactItems (items : List Json) :
    ∀ s ∈ compactItems items, Printable s.toList := by
  match items with
  | [] => exact fun s hs => nomatch hs
  | v :: vs =>
    rw [compactItems]
    exact List.forall_mem_cons.mpr ⟨printable_compact v, printable_compactItems vs⟩

theorem printable_compactFields (fields : List (String × Json)) :
    ∀ s ∈ compactFields fields, Printable s.toList := by
  match fields with
  | [] => exact fun s hs => nomatch hs
  | (k, v) :: rest =>
    have hcolon : Printable ":".toList := by decide
    rw [compactFields]
    refine List.forall_mem_cons.mpr ⟨?_, printable_compactFields rest⟩
    rw [String.toList_append, String.toList_append]
    exact ((printable_quote k).append hcolon).append (printable_compact v)

end

end Json

/-! ### One line for each text -/

namespace Text

/-- **Texts without control characters, each with a newline behind it, are the lines of the
whole.** -/
theorem lines_join_printable {ss : List String} (h : ∀ s ∈ ss, Json.Printable s.toList) :
    lines (String.join (ss.map (· ++ "\n"))) = ss :=
  lines_join fun s hs => ⟨(h s hs).not_mem (by decide),
    fun hlast => (h s hs).not_mem (by decide) (List.mem_of_getLast? hlast)⟩

/-- The newlines behind such texts are the only control characters of the whole. -/
theorem eq_newline_of_mem_join {ss : List String} (h : ∀ s ∈ ss, Json.Printable s.toList)
    {c : Char} (hc : c ∈ (String.join (ss.map (· ++ "\n"))).toList) (hcontrol : c.toNat < 0x20) :
    c = '\n' := by
  rw [String.toList_join, List.flatMap_map, List.mem_flatMap] at hc
  obtain ⟨s, hs, hc⟩ := hc
  rw [String.toList_append] at hc
  rcases List.mem_append.mp hc with hc | hc
  · exact absurd hc ((h s hs).not_mem hcontrol)
  · exact List.mem_singleton.mp hc

end Text

/-! ### Records -/

namespace Record

theorem printable_toJson (r : Record) : Json.Printable r.toJson.toList :=
  Json.printable_compact _

theorem read?_toJson (r : Record) :
    Json.read? r.toJson = some (.obj (r.fields.map fun f => (f.1, .str f.2))) :=
  Json.read?_compact _

/-- **A record is told by its text.** -/
theorem toJson_injective : Function.Injective toJson := by
  intro r r' h
  have hread := read?_toJson r
  rw [h, read?_toJson r'] at hread
  have hfields := Json.obj.inj (Option.some.inj hread)
  have hinjective : Function.Injective fun f : String × String => (f.1, Json.str f.2) := by
    rintro ⟨k, v⟩ ⟨k', v'⟩ hf
    obtain ⟨hk, hv⟩ := Prod.mk.inj hf
    exact Prod.ext hk (Json.str.inj hv)
  exact (congrArg mk (List.map_injective_iff.mpr hinjective hfields)).symm

end Record

/-- The fields of a record have the names of the columns, in their order. -/
theorem Layout.names_of_read? {l : Layout} {line : String} {r : Record}
    (h : l.read? line = some r) : r.fields.map Prod.fst = l.columns.map Column.name := by
  rw [read?] at h
  split at h
  · obtain rfl := Option.some.inj h
    rw [List.map_map]
    rfl
  · cases h

namespace Compilation

/-- **Records print faithfully.**  For a compiled layout and a line that it reads, the text of the
record has no control character; it reads back as an object with exactly the fields of the record,
named after the columns in their order, each name once; and no other record has that text.  Hence
`preview` prints the records of a file line by line: the lines of what it prints are their texts,
and it prints no control character but the newlines behind them. -/
theorem toJson_faithful (reserved : Schema.ReservedWords) (raws : List String) (c : Compilation)
    (h : (ofLines reserved raws).result = .ok c) :
    (∀ line r, c.layout.read? line = some r →
      (∀ ch ∈ r.toJson.toList, 0x20 ≤ ch.toNat) ∧
      Json.read? r.toJson = some (.obj (r.fields.map fun f => (f.1, .str f.2))) ∧
      r.fields.map Prod.fst = c.layout.columns.map Column.name ∧
      (r.fields.map Prod.fst).Nodup ∧
      ∀ r' : Record, r'.toJson = r.toJson → r' = r) ∧
    ∀ t data text, FileTree.readText t data = .ok text →
      Text.lines (CommandLine.preview t data c.layout).stdout =
        (Reading.ofText c.layout text).result.records.map Record.toJson ∧
      ∀ ch ∈ (CommandLine.preview t data c.layout).stdout.toList, ch.toNat < 0x20 → ch = '\n' := by
  obtain ⟨-, hlawful, -⟩ := lawful_of_ofLines h
  refine ⟨fun line r hr => ?_, fun t data text htext => ?_⟩
  · have hnames := Layout.names_of_read? hr
    refine ⟨r.printable_toJson, r.read?_toJson, hnames, ?_, fun r' hsame => ?_⟩
    · rw [hnames]
      exact hlawful.distinct
    · exact Record.toJson_injective hsame
  · have hprinted : (CommandLine.preview t data c.layout).stdout = String.join
        (((Reading.ofText c.layout text).result.records.map Record.toJson).map (· ++ "\n")) := by
      rw [CommandLine.preview, htext, List.map_map]
      rfl
    have hprintable : ∀ s ∈ (Reading.ofText c.layout text).result.records.map Record.toJson,
        Json.Printable s.toList := by
      intro s hs
      obtain ⟨r, -, rfl⟩ := List.mem_map.mp hs
      exact r.printable_toJson
    rw [hprinted]
    exact ⟨Text.lines_join_printable hprintable, fun ch => Text.eq_newline_of_mem_join hprintable⟩

/-- A value with a quote, a backslash, a tab and a bell in it, and a file with that line twice. -/
theorem toJson_faithful_escapes :
    let l : Layout := ⟨[⟨"a", 1, 6⟩, ⟨"b", 7, 8⟩]⟩
    let r : Record := ⟨[("a", "x\"\\\t\x07é"), ("b", "")]⟩
    let t : FileTree := ⟨[(["d"], .file "x\"\\\t\x07é  \nx\"\\\t\x07é  \n".toUTF8)]⟩
    (ofLines (.ofList []) ["a 1 6", "b 7 8"]).result = .ok ⟨l, ⟨[]⟩⟩ ∧
      l.read? "x\"\\\t\x07é  " = some r ∧
      r.toJson = "\x7b\"a\":\"x\\\"\\\\\\t\\u0007é\",\"b\":\"\"\x7d" ∧
      Json.read? r.toJson = some (.obj [("a", .str "x\"\\\t\x07é"), ("b", .str "")]) ∧
      Text.lines (CommandLine.preview t "d" l).stdout = [r.toJson, r.toJson] := by
  intro l r t
  have hc : (ofLines (.ofList []) ["a 1 6", "b 7 8"]).result = .ok ⟨l, ⟨[]⟩⟩ := rfl
  have hr : l.read? "x\"\\\t\x07é  " = some r := by decide +kernel
  have htext : t.readText "d" = .ok "x\"\\\t\x07é  \nx\"\\\t\x07é  \n" := by decide +kernel
  have hrecords : (Reading.ofText l "x\"\\\t\x07é  \nx\"\\\t\x07é  \n").result.records
      = [r, r] := by
    decide +kernel
  obtain ⟨hline, hfile⟩ := toJson_faithful _ _ _ hc
  have hlines := (hfile t "d" _ htext).1
  rw [hrecords] at hlines
  exact ⟨hc, hr, by decide +kernel, (hline _ r hr).2.1, hlines⟩

end Compilation

end FlatFile
