import FlatFile.Proofs.WriteEffects

/-!
# When two types share a file

The file of a type is named after it.  Kotlin and Java keep the name as it is, so different types
have different files.  Rust writes it in snake case, which forgets how a capital was spelled: every
name can be respelled, one capital after the other, until it is in snake case
(`respelled_snakeCase`), and no respelling changes the snake case (`snakeCase_of_respells`).  So two
names share a file exactly when respelling leads from both to one name (`snakeCase_eq_iff`).

Different file names are different files of a directory when they hold no slash: the last name on
the way to a place is the file's own (`FileTree.last_of_place?_join`).
-/

namespace FlatFile

/-! ### Respelling capitals -/

namespace Profile

open Relation (ReflTransGen Join)

/-- **A capital is respelled**: at the start of a name as the small letter, further on as an
underscore and the small letter. -/
inductive Respells : List Char → List Char → Prop where
  | first {c : Char} {rest : List Char} (capital : c.isUpper = true) :
      Respells (c :: rest) (c.toLower :: rest)
  | later {before rest : List Char} {c : Char} (ne : before ≠ []) (capital : c.isUpper = true) :
      Respells (before ++ c :: rest) (before ++ '_' :: c.toLower :: rest)

/-- **Names that are spelled alike** but for their capitals: respelling these, one after the other,
leads from both names to one. -/
def SpelledAlike (a b : List Char) : Prop := Join (ReflTransGen Respells) a b

theorem snakeChar_of_isUpper {c : Char} (h : c.isUpper = true) :
    snakeChar true c = [c.toLower] ∧ snakeChar false c = ['_', c.toLower] := by
  simp [snakeChar, h]

theorem snakeChar_of_not_isUpper {c : Char} (h : c.isUpper = false) (isFirst : Bool) :
    snakeChar isFirst c = [c] := by
  simp [snakeChar, h]

theorem snakeChar_toLower (c : Char) (isFirst : Bool) :
    snakeChar isFirst c.toLower = [c.toLower] :=
  snakeChar_of_not_isUpper (by simp) isFirst

/-- Behind its start a name is put into snake case character by character. -/
theorem snakeCase_append {a : List Char} (h : a ≠ []) (b : List Char) :
    snakeCase (a ++ b) = snakeCase a ++ b.flatMap (snakeChar false) := by
  cases a with
  | nil => exact absurd rfl h
  | cons c a =>
    rw [List.cons_append, snakeCase, snakeCase, List.flatMap_append, List.append_assoc]

/-- **Respelling a capital does not change the snake case.** -/
theorem snakeCase_of_respells {a b : List Char} (h : Respells a b) : snakeCase a = snakeCase b := by
  cases h with
  | @first c rest capital =>
    rw [snakeCase, snakeCase, (snakeChar_of_isUpper capital).1, snakeChar_toLower]
  | @later before rest c ne capital =>
    rw [snakeCase_append ne, snakeCase_append ne]
    simp only [List.flatMap_cons, (snakeChar_of_isUpper capital).2, snakeChar_toLower,
      snakeChar_of_not_isUpper (show '_'.isUpper = false by decide), List.cons_append,
      List.nil_append]

theorem snakeCase_of_reflTransGen {a b : List Char} (h : ReflTransGen Respells a b) :
    snakeCase a = snakeCase b := by
  induction h with
  | refl => rfl
  | tail _ step ih => exact ih.trans (snakeCase_of_respells step)

/-- Behind its start a name is respelled into snake case. -/
theorem respelled_append {a : List Char} (h : a ≠ []) (b : List Char) :
    ReflTransGen Respells (a ++ b) (a ++ b.flatMap (snakeChar false)) := by
  induction b generalizing a with
  | nil => exact .refl
  | cons c b ih =>
    -- what is done already goes to the front
    have hdone := fun done : List Char => @ih (a ++ done) (by simp [h])
    by_cases hc : c.isUpper = true
    · have hrest := hdone ['_', c.toLower]
      rw [List.flatMap_cons, (snakeChar_of_isUpper hc).2]
      simp only [List.append_assoc, List.cons_append, List.nil_append] at hrest ⊢
      exact hrest.head (.later h hc)
    · have hrest := hdone [c]
      rw [List.flatMap_cons, snakeChar_of_not_isUpper (by simpa using hc)]
      simpa only [List.append_assoc, List.cons_append, List.nil_append] using hrest

/-- **Every name can be respelled into its snake case.** -/
theorem respelled_snakeCase (a : List Char) : ReflTransGen Respells a (snakeCase a) := by
  cases a with
  | nil => exact .refl
  | cons c a =>
    rw [snakeCase]
    by_cases hc : c.isUpper = true
    · rw [(snakeChar_of_isUpper hc).1]
      exact (respelled_append (List.cons_ne_nil c.toLower []) a).head (.first hc)
    · rw [snakeChar_of_not_isUpper (by simpa using hc)]
      exact respelled_append (List.cons_ne_nil c []) a

/-- **Names with the same snake case are those that are spelled alike.** -/
theorem snakeCase_eq_iff (a b : List Char) : snakeCase a = snakeCase b ↔ SpelledAlike a b := by
  constructor
  · intro h
    have hb := respelled_snakeCase b
    rw [← h] at hb
    exact ⟨snakeCase a, respelled_snakeCase a, hb⟩
  · rintro ⟨c, ha, hb⟩
    exact (snakeCase_of_reflTransGen ha).trans (snakeCase_of_reflTransGen hb).symm

/-! ### The files of types -/

theorem baseName_eq_iff (l : Language) (a b : String) :
    baseName l a = baseName l b ↔ a = b ∨ l = .rust ∧ SpelledAlike a.toList b.toList := by
  cases l with
  | kotlin | java => simp [baseName]
  | rust =>
    rw [baseName, baseName, String.ofList_inj, snakeCase_eq_iff]
    refine ⟨fun h => Or.inr ⟨rfl, h⟩, ?_⟩
    rintro (rfl | ⟨-, h⟩)
    · exact (snakeCase_eq_iff _ _).mp rfl
    · exact h

theorem fileName_eq_iff (p : Profile) (a b : String) :
    p.fileName a = p.fileName b ↔ a = b ∨ p.language = .rust ∧ SpelledAlike a.toList b.toList := by
  rw [fileName, fileName, String.append_left_inj, String.append_left_inj, baseName_eq_iff]

theorem slash_not_mem_snakeChar {c : Char} (h : c ≠ '/') (isFirst : Bool) :
    '/' ∉ snakeChar isFirst c := by
  by_cases hc : c.isUpper = true
  · -- the small letter of a capital is a letter
    have hlower : c.toLower ≠ '/' := by
      intro hslash
      have halpha := Char.isLower_toLower_eq_isAlpha c
      rw [hslash, Char.isAlpha, hc] at halpha
      cases halpha
    cases isFirst
    · simpa [(snakeChar_of_isUpper hc).2] using hlower.symm
    · simpa [(snakeChar_of_isUpper hc).1] using hlower.symm
  · rw [snakeChar_of_not_isUpper (by simpa using hc)]
    simpa using h.symm

theorem slash_not_mem_snakeCase {a : List Char} (h : '/' ∉ a) : '/' ∉ snakeCase a := by
  cases a with
  | nil => exact h
  | cons c a =>
    obtain ⟨hc, ha⟩ := List.ne_and_not_mem_of_not_mem_cons h
    rw [snakeCase, List.mem_append, List.mem_flatMap, not_or]
    refine ⟨slash_not_mem_snakeChar hc.symm true, ?_⟩
    rintro ⟨d, hd, hslash⟩
    exact slash_not_mem_snakeChar (fun he => ha (he ▸ hd)) false hslash

/-- The file of a type holds no slash when its name holds none. -/
theorem slash_not_mem_fileName (p : Profile) {name : String} (h : '/' ∉ name.toList) :
    '/' ∉ (p.fileName name).toList := by
  have hext : ∀ l : Language, '/' ∉ ("." : String).toList ++ l.extension.toList := by
    rintro (_ | _ | _) <;> decide
  have hbase : '/' ∉ (baseName p.language name).toList := by
    cases p.language with
    | kotlin | java => exact h
    | rust =>
      rw [baseName, String.toList_ofList]
      exact slash_not_mem_snakeCase h
  rw [fileName, String.append_assoc, String.toList_append, String.toList_append, List.mem_append,
    not_or]
  exact ⟨hbase, hext p.language⟩

end Profile

/-! ### Files of a directory -/

/-- A file without a slash is the last segment of its path. -/
theorem Path.segments_join (dir : String) {file : String} (h : '/' ∉ file.toList) :
    ∃ outer, segments (join dir file) = outer ++ [file] := by
  have hfile : (Text.cutAt '/' file.toList).map String.ofList = [file] := by
    rw [Text.cutAt_of_not_mem '/' h, List.map_singleton, String.ofList_toList]
  have hrelative : file.toList.head? ≠ some '/' := fun hhead => h (List.mem_of_head? hhead)
  by_cases hdir : dir = ""
  · exact ⟨[], by rw [join, if_pos (Or.inr hdir), segments, hfile, List.nil_append]⟩
  · obtain ⟨front, hfront⟩ : ∃ front, (join dir file).toList = front ++ '/' :: file.toList := by
      rw [join, if_neg (not_or.mpr ⟨hrelative, hdir⟩)]
      split
      · rename_i hslash
        obtain ⟨front, hfront⟩ := List.getLast?_eq_some_iff.mp hslash
        exact ⟨front, by rw [String.toList_append, hfront, List.append_assoc]; rfl⟩
      · exact ⟨dir.toList, by simp⟩
    refine ⟨(Text.cutAt '/' front).map String.ofList, ?_⟩
    rw [segments, hfront, Text.cutAt_append_sep, List.map_append, hfile]

/-- The last name on the way to a file without a slash is its own. -/
theorem FileTree.last_of_place?_join {t : FileTree} {dir file : String} {p : List String}
    (h : '/' ∉ file.toList) (hp : t.place? (Path.join dir file) = some p) :
    p.getLast? = some file := by
  obtain ⟨outer, s, d, hsegs, -, -, -, rfl⟩ := place?_eq_some_iff.mp hp
  obtain ⟨outer', hsegs'⟩ := Path.segments_join dir h
  obtain ⟨-, hlast⟩ := List.append_inj' (hsegs.symm.trans hsegs') rfl
  rw [List.getLast?_concat, List.singleton_inj.mp hlast]

/-- Two files without a slash that were written into a directory have places of their own. -/
theorem Artifacts.places_apart {a : Artifacts} {dir : String} {t after : FileTree}
    {paths : List String} (hne : a.record.fileName ≠ a.parser.fileName)
    (hrecord : '/' ∉ a.record.fileName.toList) (hparser : '/' ∉ a.parser.fileName.toList)
    (h : (a.write dir t).result = (after, .ok paths)) :
    after.place? (a.record.pathIn dir) ≠ after.place? (a.parser.pathIn dir) := by
  obtain ⟨r, q, hr, hq⟩ := places_of_write h
  intro hsame
  obtain rfl : r = q := Option.some.inj (hr.symm.trans (hsame.trans hq))
  have hlast := FileTree.last_of_place?_join hrecord hr
  rw [FileTree.last_of_place?_join hparser hq] at hlast
  exact hne (Option.some.inj hlast).symm

namespace Profile

/-- **Types with different names have different files**, but for Rust where the names are spelled
alike up to their capitals.  Files with different names, written into a directory, both hold their
contents, whenever the names hold no slash and, if they do, as long as they lead to two places. -/
theorem files_apart (p : Profile) (hnames : p.recordName ≠ p.parserName) :
    (p.recordFile = p.parserFile ↔
      p.language = .rust ∧ SpelledAlike p.recordName.toList p.parserName.toList) ∧
    ∀ (a : Artifacts) (dir : String) (t after : FileTree) (paths : List String),
      a.record.fileName = p.recordFile → a.parser.fileName = p.parserFile →
      (a.write dir t).result = (after, .ok paths) → p.recordFile ≠ p.parserFile →
      ('/' ∉ p.recordName.toList ∧ '/' ∉ p.parserName.toList ∨
        after.place? (a.record.pathIn dir) ≠ after.place? (a.parser.pathIn dir)) →
      after.read (a.record.pathIn dir) = .ok a.record.contents.toUTF8 ∧
        after.read (a.parser.pathIn dir) = .ok a.parser.contents.toUTF8 := by
  refine ⟨?_, fun a dir t after paths hrecord hparser hwrite hfiles hplaces => ?_⟩
  · rw [recordFile, parserFile, fileName_eq_iff, or_iff_right hnames]
  · have hapart : after.place? (a.record.pathIn dir) ≠ after.place? (a.parser.pathIn dir) := by
      rcases hplaces with ⟨hr, hp⟩ | hapart
      · rw [← hrecord, ← hparser] at hfiles
        refine Artifacts.places_apart hfiles ?_ ?_ hwrite
        · rw [hrecord]
          exact p.slash_not_mem_fileName hr
        · rw [hparser]
          exact p.slash_not_mem_fileName hp
      · exact hapart
    obtain ⟨hleft, -⟩ := Artifacts.left_of_write hwrite hapart
    exact ⟨hleft.record, hleft.parser⟩

/-- In Rust `RecordLine` and `record_line` are spelled alike, and `HttpLine` and `HTTPLine` are
not: these two are written into files of their own. -/
theorem files_apart_acronym :
    let files : Artifacts := ⟨⟨.record, "http_line.rs", "r"⟩, ⟨.parser, "h_t_t_p_line.rs", "p"⟩⟩
    let after : FileTree := ⟨[(["out"], .directory), (["out", "http_line.rs"], .file "r".toUTF8),
      (["out", "h_t_t_p_line.rs"], .file "p".toUTF8)]⟩
    SpelledAlike "RecordLine".toList "record_line".toList ∧
      ¬ SpelledAlike "HttpLine".toList "HTTPLine".toList ∧
      (files.write "out" ⟨[]⟩).result =
        (after, .ok ["out/http_line.rs", "out/h_t_t_p_line.rs"]) ∧
      after.read (files.record.pathIn "out") = .ok "r".toUTF8 ∧
      after.read (files.parser.pathIn "out") = .ok "p".toUTF8 := by
  intro files after
  have hwrite : (files.write "out" ⟨[]⟩).result =
      (after, .ok ["out/http_line.rs", "out/h_t_t_p_line.rs"]) := by decide +kernel
  obtain ⟨halike, -⟩ := files_apart ⟨.rust, "", "RecordLine", "record_line", none⟩ (by decide)
  obtain ⟨hunlike, hfiles⟩ := files_apart ⟨.rust, "", "HttpLine", "HTTPLine", none⟩ (by decide)
  refine ⟨(halike.mp (by decide)).2, fun h => absurd (hunlike.mpr ⟨rfl, h⟩) (by decide), hwrite, ?_⟩
  exact hfiles files "out" _ _ _ (by decide) (by decide) hwrite (by decide) (Or.inl (by decide))

/-- Where names differ, their files may not: in Rust `Record` and `record` have one file, and in
Kotlin the files of `A` and `./A` have two names but one place.  Both times the parser file takes
the place of the record file. -/
theorem files_shared :
    let rust : Profile := ⟨.rust, "", "Record", "record", none⟩
    let kotlin : Profile := ⟨.kotlin, "", "A", "./A", none⟩
    (rust.recordName ≠ rust.parserName ∧ rust.recordFile = rust.parserFile ∧
      (Artifacts.write ⟨⟨.record, rust.recordFile, "r"⟩, ⟨.parser, rust.parserFile, "p"⟩⟩ "out"
          ⟨[]⟩).result =
        (⟨[(["out"], .directory), (["out", "record.rs"], .file "p".toUTF8)]⟩,
          .ok ["out/record.rs", "out/record.rs"])) ∧
    kotlin.recordName ≠ kotlin.parserName ∧ kotlin.recordFile ≠ kotlin.parserFile ∧
      (Artifacts.write ⟨⟨.record, kotlin.recordFile, "r"⟩, ⟨.parser, kotlin.parserFile, "p"⟩⟩ "out"
          ⟨[]⟩).result =
        (⟨[(["out"], .directory), (["out", "A.kt"], .file "p".toUTF8)]⟩,
          .ok ["out/A.kt", "out/./A.kt"]) := by
  decide +kernel

end Profile

end FlatFile
