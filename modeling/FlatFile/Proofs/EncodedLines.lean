import FlatFile.Stream
import Mathlib

/-!
# Lines of bytes and lines of text

A schema file and a stream of data are cut into lines as bytes, and each line is decoded on its own;
a text that is held in memory is cut into lines as characters.  The two agree because a line end is
told apart from every other character by its bytes: no character but `\n` has a byte 10 in its
encoding and none but `\r` a byte 13 (`ascii_or_high`).  So cutting commutes with encoding
(`cutLines_encoded`).

In the other direction, a sequence of bytes is put together from its lines and its line ends
(`cutLines_cases`), and line ends are text, so bytes whose lines are all text are text
(`isText_of_lines`).  Hence `byteLines?` gives the lines of the text that the bytes encode, and
fails exactly when they encode none.
-/

namespace FlatFile.Text

/-! ### Cutting -/

section Cutting
variable {α : Type} [DecidableEq α] {lf cr : α}

/-- A sequence is empty, or a last line without an end, or a line with its end and more behind
it. -/
theorem cutLines_cases (s : List α) :
    s = [] ∨ cutLines lf cr s = [s] ∨
      ∃ l e rest, s = l ++ e ++ rest ∧ (e = [lf] ∨ e = [cr, lf]) ∧
        cutLines lf cr s = l :: cutLines lf cr rest := by
  induction s with
  | nil => exact Or.inl rfl
  | cons a s ih =>
    refine Or.inr ?_
    by_cases hlf : a = lf
    · subst hlf
      exact Or.inr ⟨[], [a], s, rfl, Or.inl rfl, by rw [cutLines, if_pos rfl]⟩
    · by_cases hcr : a = cr ∧ s.head? = some lf
      · obtain ⟨rfl, hhead⟩ := hcr
        obtain ⟨rest, rfl⟩ := List.head?_eq_some_iff.mp hhead
        refine Or.inr ⟨[], [a, lf], rest, rfl, Or.inr rfl, ?_⟩
        rw [cutLines, if_neg hlf, if_pos ⟨rfl, hhead⟩, cutLines, if_pos rfl]
      · rw [cutLines, if_neg hlf, if_neg hcr]
        rcases ih with rfl | hlast | ⟨l, e, rest, rfl, he, hcut⟩
        · exact Or.inl rfl
        · rw [hlast]
          exact Or.inl rfl
        · rw [hcut]
          exact Or.inr ⟨a :: l, e, rest, rfl, he, rfl⟩

/-- What holds no `lf` and no `cr` stays together at the start of the first line. -/
theorem cutLines_append_of_not_mem {s : List α} (hne : s ≠ []) (hlf : lf ∉ s) (hcr : cr ∉ s)
    (rest : List α) :
    cutLines lf cr (s ++ rest) =
      match cutLines lf cr rest with
      | [] => [s]
      | l :: ls => (s ++ l) :: ls := by
  induction s with
  | nil => exact absurd rfl hne
  | cons a s ih =>
    have ha : a ≠ lf := fun h => hlf (h ▸ List.mem_cons_self)
    have ha' : ¬ (a = cr ∧ (s ++ rest).head? = some lf) :=
      fun h => hcr (h.1 ▸ List.mem_cons_self)
    rw [List.cons_append, cutLines, if_neg ha, if_neg ha']
    by_cases hs : s = []
    · subst hs
      rfl
    · rw [ih hs (fun h => hlf (List.mem_cons_of_mem a h)) (fun h => hcr (List.mem_cons_of_mem a h))]
      cases cutLines lf cr rest <;> rfl

end Cutting

/-! ### Encoding -/

/-- The bytes that characters are encoded in. -/
def encoded (s : List Char) : List UInt8 := s.flatMap String.utf8EncodeChar

@[simp] theorem encoded_cons (c : Char) (s : List Char) :
    encoded (c :: s) = String.utf8EncodeChar c ++ encoded s := rfl

/-- **The bytes of a character are its code point alone, or all high.** -/
theorem ascii_or_high (c : Char) :
    String.utf8EncodeChar c = [UInt8.ofNat c.toNat] ∧ c.toNat < 128 ∨
      ∀ b ∈ String.utf8EncodeChar c, 128 ≤ b.toNat := by
  by_cases h : c.toNat ≤ 0x7f
  · left
    refine ⟨?_, by omega⟩
    rw [String.utf8EncodeChar]
    exact if_pos h
  · right
    intro b hb
    have hval : ¬ c.val.toNat ≤ 0x7f := h
    simp only [String.utf8EncodeChar, if_neg hval] at hb
    split at hb
    · simp only [List.mem_cons, List.not_mem_nil, or_false] at hb
      rcases hb with rfl | rfl <;> simp only [UInt8.toNat_ofNat'] <;> omega
    · split at hb
      · simp only [List.mem_cons, List.not_mem_nil, or_false] at hb
        rcases hb with rfl | rfl | rfl <;> simp only [UInt8.toNat_ofNat'] <;> omega
      · simp only [List.mem_cons, List.not_mem_nil, or_false] at hb
        rcases hb with rfl | rfl | rfl | rfl <;> simp only [UInt8.toNat_ofNat'] <;> omega

/-- A low byte stands in the encoding of one character only. -/
theorem eq_of_mem_utf8EncodeChar {b : UInt8} (hb : b.toNat < 128) {c : Char}
    (h : b ∈ String.utf8EncodeChar c) : c.toNat = b.toNat := by
  rcases ascii_or_high c with ⟨heq, hlow⟩ | hhigh
  · rw [heq, List.mem_singleton] at h
    rw [h, UInt8.toNat_ofNat']
    omega
  · exact absurd (hhigh b h) (by omega)

theorem lf_not_mem {c : Char} (hc : c ≠ '\n') : (10 : UInt8) ∉ String.utf8EncodeChar c :=
  fun h => hc (Char.toNat_inj.mp (eq_of_mem_utf8EncodeChar (by decide) h))

theorem cr_not_mem {c : Char} (hc : c ≠ '\r') : (13 : UInt8) ∉ String.utf8EncodeChar c :=
  fun h => hc (Char.toNat_inj.mp (eq_of_mem_utf8EncodeChar (by decide) h))

theorem head?_encoded_eq_lf_iff (s : List Char) :
    (encoded s).head? = some 10 ↔ s.head? = some '\n' := by
  cases s with
  | nil => exact iff_of_false nofun nofun
  | cons c s =>
    rw [encoded_cons, List.head?_append_of_ne_nil _ String.utf8EncodeChar_ne_nil, List.head?_cons]
    by_cases hc : c = '\n'
    · subst hc
      exact iff_of_true rfl rfl
    · refine iff_of_false (fun h => lf_not_mem hc (List.mem_of_head? h)) fun h => hc ?_
      exact Option.some.inj h

/-- **Cutting commutes with encoding**: the lines of the bytes are the bytes of the lines. -/
theorem cutLines_encoded (s : List Char) :
    cutLines 10 13 (encoded s) = (cutLines '\n' '\r' s).map encoded := by
  induction s with
  | nil => rfl
  | cons c s ih =>
    by_cases hlf : c = '\n'
    · subst hlf
      change cutLines 10 13 (10 :: encoded s) = _
      rw [cutLines, if_pos rfl, ih, cutLines, if_pos rfl]
      rfl
    · by_cases hcr : c = '\r'
      · subst hcr
        change cutLines 10 13 (13 :: encoded s) = _
        rw [cutLines, if_neg (by decide), cutLines, if_neg hlf, ih]
        -- the two sides ask the same question: whether a line feed follows
        have hnext := head?_encoded_eq_lf_iff s
        by_cases hhead : s.head? = some '\n'
        · rw [if_pos ⟨rfl, hnext.mpr hhead⟩, if_pos ⟨rfl, hhead⟩]
        · rw [if_neg (fun h => hhead (hnext.mp h.2)), if_neg (fun h => hhead h.2)]
          cases cutLines '\n' '\r' s <;> rfl
      · rw [encoded_cons, cutLines_append_of_not_mem String.utf8EncodeChar_ne_nil (lf_not_mem hlf)
          (cr_not_mem hcr), ih, cutLines, if_neg hlf, if_neg (fun h => hcr h.1)]
        cases cutLines '\n' '\r' s with
        | nil => simp [encoded]
        | cons l ls => simp

/-! ### Decoding -/

/-- **Bytes that are text**: they are the encoding of some characters. -/
def IsText (bytes : List UInt8) : Prop := ∃ s, bytes = encoded s

theorem IsText.append {a b : List UInt8} (ha : IsText a) (hb : IsText b) : IsText (a ++ b) := by
  obtain ⟨s, rfl⟩ := ha
  obtain ⟨u, rfl⟩ := hb
  exact ⟨s ++ u, List.flatMap_append.symm⟩

/-- **Bytes whose lines are all text are text**, since line ends are. -/
theorem isText_of_lines (bytes : List UInt8) (h : ∀ l ∈ cutLines 10 13 bytes, IsText l) :
    IsText bytes := by
  induction hn : bytes.length using Nat.strong_induction_on generalizing bytes with
  | _ n ih =>
    rcases @cutLines_cases UInt8 _ 10 13 bytes with rfl | hlast | ⟨l, e, rest, rfl, he, hcut⟩
    · exact ⟨[], rfl⟩
    · exact h bytes (by rw [hlast]; exact List.mem_singleton_self bytes)
    · rw [hcut] at h
      have hend : IsText e := by
        rcases he with rfl | rfl
        · exact ⟨['\n'], by decide⟩
        · exact ⟨['\r', '\n'], by decide⟩
      have hshort : rest.length < n := by
        have hpos : 0 < e.length := by rcases he with rfl | rfl <;> decide
        rw [List.length_append, List.length_append] at hn
        omega
      have hrest : IsText rest :=
        ih _ hshort rest (fun m hm => h m (List.mem_cons_of_mem l hm)) rfl
      exact ((h l List.mem_cons_self).append hend).append hrest

theorem toUTF8_eq (s : String) : s.toUTF8 = ⟨(encoded s.toList).toArray⟩ := by
  rw [String.toUTF8_eq_toByteArray, ← String.utf8Encode_toList]
  exact ByteArray.ext List.data_toByteArray

/-- Bytes are decoded to the text whose encoding they are. -/
theorem fromUTF8?_eq_some_iff (bytes : ByteArray) (s : String) :
    String.fromUTF8? bytes = some s ↔ bytes = s.toUTF8 := by
  rw [String.toUTF8_eq_toByteArray, String.fromUTF8?]
  constructor
  · intro h
    split at h
    · exact congrArg String.toByteArray (Option.some.inj h)
    · cases h
  · rintro rfl
    rw [dif_pos s.isValidUTF8]
    rfl

/-- A list is gone through without a failure exactly when each member gives its result. -/
theorem mapM_eq_some_iff {α β : Type} {f : α → Option β} {as : List α} {bs : List β} :
    as.mapM f = some bs ↔ List.Forall₂ (fun a b => f a = some b) as bs := by
  induction as generalizing bs with
  | nil => cases bs <;> simp
  | cons a as ih =>
    rw [List.mapM_cons]
    constructor
    · intro h
      obtain ⟨b, hb, h⟩ := Option.bind_eq_some_iff.mp h
      obtain ⟨bs', hbs, h⟩ := Option.bind_eq_some_iff.mp h
      obtain rfl := Option.some.inj h
      exact List.Forall₂.cons hb (ih.mp hbs)
    · rintro (_ | ⟨hb, hbs⟩)
      rw [hb, ih.mpr hbs]
      rfl

/-- **The lines of encoded text**, each decoded on its own, are the lines of the text. -/
theorem byteLines?_toUTF8 (s : String) : byteLines? s.toUTF8 = some (lines s) := by
  rw [byteLines?, toUTF8_eq, cutLines_encoded, lines, mapM_eq_some_iff, List.forall₂_map_left_iff,
    List.forall₂_map_right_iff, List.forall₂_same]
  intro l _
  rw [fromUTF8?_eq_some_iff, toUTF8_eq, String.toList_ofList]

/-- Bytes that are no text have a line that is none. -/
theorem byteLines?_of_not_text {bytes : ByteArray} (h : ∀ s : String, bytes ≠ s.toUTF8) :
    byteLines? bytes = none := by
  rw [Option.eq_none_iff_forall_ne_some]
  intro ls hls
  -- were every line decoded, the whole would be the encoding of a text
  have hlines : ∀ l ∈ cutLines 10 13 bytes.data.toList, IsText l := by
    have hdecoded := mapM_eq_some_iff.mp hls
    refine ((List.forall₂_and_left _ _).mp (hdecoded.imp fun l s hl => ⟨?_, hl⟩)).1
    rw [fromUTF8?_eq_some_iff, toUTF8_eq] at hl
    exact ⟨s.toList, Array.toList_inj.mpr (congrArg ByteArray.data hl)⟩
  obtain ⟨s, hs⟩ := isText_of_lines _ hlines
  refine h (String.ofList s) ?_
  rw [toUTF8_eq, String.toList_ofList, ← hs]

end FlatFile.Text

namespace FlatFile
open Schema

/-! ### Schemas and data from bytes -/

/-- The lines of a file that holds a text are those of the text. -/
theorem FileTree.readLines_of_text {t : FileTree} {path s : String}
    (h : t.read path = .ok s.toUTF8) : t.readLines path = .ok (Text.lines s) := by
  simp only [FileTree.readLines, h, Text.byteLines?_toUTF8]

/-- The text of a file is the one whose encoding it holds. -/
theorem FileTree.readText_eq_ok_iff {t : FileTree} {path s : String} :
    t.readText path = .ok s ↔ t.read path = .ok s.toUTF8 := by
  rw [FileTree.readText]
  cases t.read path with
  | error e => simp
  | ok bytes =>
    rw [Except.ok.injEq, ← Text.fromUTF8?_eq_some_iff]
    simp only []
    cases String.fromUTF8? bytes with
    | none => exact iff_of_false nofun nofun
    | some u => rw [Except.ok.injEq, Option.some.injEq]

theorem FileTree.readLines_of_not_text {t : FileTree} {path : String} {bytes : ByteArray}
    (h : t.read path = .ok bytes) (hnot : ∀ s : String, bytes ≠ s.toUTF8) :
    t.readLines path = .error .notText := by
  simp only [FileTree.readLines, h, Text.byteLines?_of_not_text hnot]

/-- A schema file compiles as its lines do. -/
theorem Compilation.ofFile_result {t : FileTree} {path : String} {raws : List String}
    (h : t.readLines path = .ok raws) (reserved : ReservedWords) :
    (ofFile reserved t path).result = (ofLines reserved raws).result.mapError .schema := by
  simp only [ofFile, h, Traced.andThen_result]
  cases (ofLines reserved raws).result <;> rfl

theorem Compilation.ofFile_error {t : FileTree} {path : String} {e : FileError}
    (h : t.readLines path = .error e) (reserved : ReservedWords) :
    (ofFile reserved t path).result = .error (.file e) := by
  simp only [ofFile, h]

/-- **Held in memory or read as bytes, a text is the same schema and the same data.**  Bytes that
encode a text, as a file, compile to what the text compiles to, or fail with the same error of the
schema, and as a stream they are read as the text is, with the same reports.  Bytes that encode no
text are a failure of the file and of the stream, whatever their lines say. -/
theorem ofBytes_agrees_with_ofText (reserved : ReservedWords) (layout : Layout) (t : FileTree)
    (path : String) (bytes : ByteArray) (hfile : t.read path = .ok bytes) :
    (∀ s : String, bytes = s.toUTF8 →
      (Compilation.ofFile reserved t path).result
          = (Compilation.ofText reserved s).result.mapError Failure.schema ∧
        Reading.ofBytes layout bytes = (Reading.ofText layout s).map .ok) ∧
    ((∀ s : String, bytes ≠ s.toUTF8) →
      (Compilation.ofFile reserved t path).result = .error (.file .notText) ∧
        (Reading.ofBytes layout bytes).result = .error (.file .notText)) := by
  constructor
  · rintro s rfl
    refine ⟨Compilation.ofFile_result (FileTree.readLines_of_text hfile) reserved, ?_⟩
    rw [Reading.ofBytes, Text.byteLines?_toUTF8, Reading.ofText]
  · intro hnot
    refine ⟨Compilation.ofFile_error (FileTree.readLines_of_not_text hfile hnot) reserved, ?_⟩
    rw [Reading.ofBytes, Text.byteLines?_of_not_text hnot]

/-- Two files: one whose last line ends in a lone carriage return, and one whose first line is no
line of a schema but whose second line is no text. -/
theorem ofBytes_agrees_with_ofText_two_files :
    FileTree.read ⟨[(["s"], .file "a 1 2\r\nb 2 3\r".toUTF8)]⟩ "s" = .ok "a 1 2\r\nb 2 3\r".toUTF8 ∧
      (Compilation.ofFile (.ofList []) ⟨[(["s"], .file "a 1 2\r\nb 2 3\r".toUTF8)]⟩ "s").result
        = .error (.schema (.invalidLine 2 "b 2 3\r")) ∧
      FileTree.read ⟨[(["s"], .file ⟨#[97, 10, 255]⟩)]⟩ "s" = .ok ⟨#[97, 10, 255]⟩ ∧
      (Compilation.ofFile (.ofList []) ⟨[(["s"], .file ⟨#[97, 10, 255]⟩)]⟩ "s").result
        = .error (.file .notText) := by
  have htext : FileTree.read ⟨[(["s"], .file "a 1 2\r\nb 2 3\r".toUTF8)]⟩ "s"
      = .ok "a 1 2\r\nb 2 3\r".toUTF8 := rfl
  have hbytes : FileTree.read ⟨[(["s"], .file ⟨#[97, 10, 255]⟩)]⟩ "s"
      = .ok ⟨#[97, 10, 255]⟩ := rfl
  have hnot : ∀ s : String, (⟨#[97, 10, 255]⟩ : ByteArray) ≠ s.toUTF8 := by
    intro s hs
    have hnone : String.fromUTF8? ⟨#[97, 10, 255]⟩ = none := by decide +kernel
    rw [(Text.fromUTF8?_eq_some_iff _ s).mpr hs] at hnone
    cases hnone
  refine ⟨htext, ?_, hbytes, ?_⟩
  · rw [((ofBytes_agrees_with_ofText (.ofList []) ⟨[]⟩ _ _ _ htext).1 _ rfl).1]
    rfl
  · exact ((ofBytes_agrees_with_ofText (.ofList []) ⟨[]⟩ _ _ _ hbytes).2 hnot).1

end FlatFile
