import FlatFile.Json.Reader
import FlatFile.Json.Printer
import FlatFile.Proofs.TextLaws
import Mathlib

/-!
# Written JSON reads back

The compact text of a value reads back as the value (`read?_compact`), so two values with the same
text are the same.  A string reads back one character at a time, whether the writer escapes it or
not.  A number reads back as long as nothing follows that could be a part of it (`Ends`), which is
so inside an array or an object and at the end of a text.

The readers of values call each other, and `calls` counts how often for a written value: at most
once for each character of its text.
-/

namespace FlatFile.Json

open Text

/-! ### Strings -/

theorem string?_escape {c : Char} {s rest : List Char} (h : escape? s = some (c, rest)) :
    string? ('\\' :: s) = prepend c (string? rest) := by
  rw [string?.eq_def]
  simp only [if_neg (show '\\' ≠ '"' by decide), if_true]
  split
  · rename_i hnone
    rw [h] at hnone
    cases hnone
  · rename_i hsome
    rw [h] at hsome
    obtain ⟨rfl, rfl⟩ := Prod.mk.inj (Option.some.inj hsome)
    rfl

theorem string?_plain {c : Char} (hq : c ≠ '"') (hb : c ≠ '\\') (hc : ¬ c.toNat < 0x20)
    (rest : List Char) : string? (c :: rest) = prepend c (string? rest) := by
  rw [string?.eq_def]
  simp only [if_neg hq, if_neg hb, if_neg hc]

/-- A control character is escaped as a code unit. -/
theorem codePoint?_hexDigit {n : Nat} (h : n < 0x20) (rest : List Char) :
    codePoint? ('0' :: '0' :: hexDigit (n / 16) :: hexDigit n :: rest) =
      some (Char.ofNat n, rest) := by
  have hunits : ∀ n < 0x20, ((['0', '0', hexDigit (n / 16), hexDigit n].mapM hexValue?).map
      fun ds => ds.foldl (fun v d => 16 * v + d) 0) = some n := by decide
  obtain ⟨ds, hds, hn⟩ := Option.map_eq_some_iff.mp (hunits n h)
  simp only [codePoint?, codeUnit?, hds, Option.map_some, hn]
  have hhigh : isHigh n = false := by simp [isHigh]; omega
  have hlow : isLow n = false := by simp [isLow]; omega
  rw [hhigh, hlow]
  rfl

/-- **A character reads back**, escaped or as it is. -/
theorem string?_escapeChar (c : Char) (rest : List Char) :
    string? (escapeChar c ++ rest) = prepend c (string? rest) := by
  rw [escapeChar]
  by_cases hq : c = '"'
  · rw [if_pos hq, hq]
    exact string?_escape rfl
  rw [if_neg hq]
  by_cases hb : c = '\\'
  · rw [if_pos hb, hb]
    exact string?_escape rfl
  rw [if_neg hb]
  by_cases h08 : c = '\x08'
  · rw [if_pos h08, h08]
    exact string?_escape rfl
  rw [if_neg h08]
  by_cases h0c : c = '\x0c'
  · rw [if_pos h0c, h0c]
    exact string?_escape rfl
  rw [if_neg h0c]
  by_cases hn : c = '\n'
  · rw [if_pos hn, hn]
    exact string?_escape rfl
  rw [if_neg hn]
  by_cases hr : c = '\r'
  · rw [if_pos hr, hr]
    exact string?_escape rfl
  rw [if_neg hr]
  by_cases ht : c = '\t'
  · rw [if_pos ht, ht]
    exact string?_escape rfl
  rw [if_neg ht]
  by_cases hc : c.toNat < 0x20
  · rw [if_pos hc]
    have hpoint := codePoint?_hexDigit hc rest
    rw [Char.ofNat_toNat] at hpoint
    exact string?_escape hpoint
  · rw [if_neg hc]
    exact string?_plain hq hb hc rest

/-- A string reads back from what stands between its quotes. -/
theorem string?_inside (s rest : List Char) :
    string? (s.flatMap escapeChar ++ '"' :: rest) = some (s, rest) := by
  induction s with
  | nil =>
    rw [string?.eq_def]
    rfl
  | cons c s ih =>
    rw [List.flatMap_cons, List.append_assoc, string?_escapeChar, ih]
    rfl

theorem toList_quote (s : String) :
    (quote s).toList = '"' :: (s.toList.flatMap escapeChar ++ ['"']) := by
  simp [quote]

/-! ### Numbers -/

/-- The digits of a positive number have no zero in front. -/
theorem head?_toDigits {n : Nat} (h : 0 < n) : (Nat.toDigits 10 n).head? ≠ some '0' := by
  induction n using Nat.strong_induction_on with
  | _ n ih =>
    by_cases hlt : n < 10
    · have hdigits : ∀ n < 10, 0 < n → Nat.digitChar n ≠ '0' := by decide
      rw [Nat.toDigits_of_lt_base hlt]
      simpa using hdigits n hlt h
    · have hsplit := @Nat.toDigits_append_toDigits 10 (n / 10) (n % 10) (by omega) (by omega)
        (by omega)
      rw [Nat.div_add_mod] at hsplit
      rw [← hsplit, List.head?_append_of_ne_nil _ Nat.toDigits_ne_nil]
      exact ih (n / 10) (by omega) (by omega)

theorem isWhole_toString (n : Nat) : isWhole (toString n).toList = true := by
  have hdigits : (toString n).toList.all isDigit = true :=
    List.all_eq_true.mpr fun c hc => isDigit_of_mem_toString hc
  rw [Nat.toString_eq_repr, Nat.toList_repr] at hdigits ⊢
  rw [isWhole, hdigits]
  rcases Nat.eq_zero_or_pos n with rfl | hpos
  · rfl
  · simp [Nat.toDigits_ne_nil, head?_toDigits hpos]

theorem integer?_of_isWhole {ds : List Char} (h : isWhole ds = true) :
    integer? ds = some (Int.ofNat (digitsValue ds)) := by
  rw [integer?, if_pos h]
  rintro ds' rfl
  simp [isWhole, isDigit] at h

theorem toList_toString_negSucc (m : Nat) :
    (toString (Int.negSucc m)).toList = '-' :: (toString (m + 1)).toList :=
  String.toList_append

/-- An integer reads back. -/
theorem integer?_toString (n : Int) : integer? (toString n).toList = some n := by
  cases n with
  | ofNat m =>
    have h := integer?_of_isWhole (isWhole_toString m)
    rwa [digitsValue_toString] at h
  | negSucc m =>
    have hpos : (toString (m + 1)).toList ≠ ['0'] := by
      intro h
      have hvalue := digitsValue_toString (m + 1)
      rw [h] at hvalue
      exact absurd hvalue (Nat.succ_ne_zero m).symm
    rw [toList_toString_negSucc, integer?, if_pos ⟨isWhole_toString _, hpos⟩, digitsValue_toString]
    rfl

theorem isNumberChar_of_isDigit {c : Char} (h : isDigit c = true) : isNumberChar c = true := by
  simp [isNumberChar, h]

theorem isNumberChar_of_isPower {s : List Char} (h : isPower s = true) :
    ∀ c ∈ s, isNumberChar c = true := by
  rw [isPower.eq_def] at h
  split at h
  all_goals
    simp only [Bool.and_eq_true, List.all_eq_true] at h
    have hdigits := fun c hc => isNumberChar_of_isDigit (h.2 c hc)
  · exact List.forall_mem_cons.mpr ⟨rfl, hdigits⟩
  · exact List.forall_mem_cons.mpr ⟨rfl, hdigits⟩
  · exact hdigits

theorem isNumberChar_of_isExponent {s : List Char} (h : isExponent s = true) :
    ∀ c ∈ s, isNumberChar c = true := by
  match s with
  | [] => simp
  | c :: rest =>
    simp only [isExponent, Bool.and_eq_true] at h
    refine List.forall_mem_cons.mpr ⟨?_, isNumberChar_of_isPower h.2⟩
    have hc : c = 'e' ∨ c = 'E' := by simpa using h.1
    rcases hc with rfl | rfl <;> rfl

/-- Digits and what follows them. -/
theorem isNumberChar_of_digits {s : List Char}
    (h : ∀ c ∈ s.dropWhile isDigit, isNumberChar c = true) : ∀ c ∈ s, isNumberChar c = true := by
  intro c hc
  rw [← List.takeWhile_append_dropWhile (p := isDigit) (l := s)] at hc
  rcases List.mem_append.mp hc with hc | hc
  · exact isNumberChar_of_isDigit (List.mem_takeWhile_imp hc)
  · exact h c hc

theorem isNumberChar_of_isFraction {s : List Char} (h : isFraction s = true) :
    ∀ c ∈ s, isNumberChar c = true := by
  rw [isFraction.eq_def] at h
  split at h
  · rw [Bool.and_eq_true] at h
    exact List.forall_mem_cons.mpr
      ⟨rfl, isNumberChar_of_digits (isNumberChar_of_isExponent h.2)⟩
  · exact isNumberChar_of_isExponent h

theorem isNumberChar_of_isUnsigned {s : List Char} (h : isUnsigned s = true) :
    ∀ c ∈ s, isNumberChar c = true := by
  rw [isUnsigned, Bool.and_eq_true] at h
  exact isNumberChar_of_digits (isNumberChar_of_isFraction h.2)

theorem isNumberChar_of_isNumber {s : List Char} (h : isNumber s = true) :
    ∀ c ∈ s, isNumberChar c = true := by
  rw [isNumber.eq_def] at h
  split at h
  · exact List.forall_mem_cons.mpr ⟨rfl, isNumberChar_of_isUnsigned h⟩
  · exact isNumberChar_of_isUnsigned h

theorem isUnsigned_of_isWhole {ds : List Char} (h : isWhole ds = true) : isUnsigned ds = true := by
  have hdigits : ∀ c ∈ ds, isDigit c = true := by
    simp only [isWhole, Bool.and_eq_true, List.all_eq_true] at h
    exact h.1.2
  rw [isUnsigned, List.takeWhile_eq_self_iff.mpr hdigits, List.dropWhile_eq_nil_iff.mpr hdigits, h]
  rfl

theorem exists_cons_of_isUnsigned {s : List Char} (h : isUnsigned s = true) :
    ∃ c rest, s = c :: rest ∧ isDigit c = true := by
  match s with
  | [] => nomatch h
  | c :: rest =>
    refine ⟨c, rest, rfl, ?_⟩
    by_contra hc
    rw [isUnsigned, List.takeWhile_cons_of_neg hc] at h
    nomatch h

theorem isNumber_of_isUnsigned {s : List Char} (h : isUnsigned s = true) : isNumber s = true := by
  obtain ⟨c, rest, rfl, hc⟩ := exists_cons_of_isUnsigned h
  rw [isNumber, h]
  intro rest' heq
  obtain ⟨rfl, -⟩ := List.cons.inj heq
  nomatch hc

theorem isNumber_toString (n : Int) : isNumber (toString n).toList = true := by
  cases n with
  | ofNat m => exact isNumber_of_isUnsigned (isUnsigned_of_isWhole (isWhole_toString m))
  | negSucc m =>
    rw [toList_toString_negSucc, isNumber]
    exact isUnsigned_of_isWhole (isWhole_toString (m + 1))

/-- A number starts with a digit or a minus sign. -/
theorem exists_cons_of_isNumber {s : List Char} (h : isNumber s = true) :
    ∃ c rest, s = c :: rest ∧ (c = '-' ∨ isDigit c = true) := by
  rw [isNumber.eq_def] at h
  split at h
  · exact ⟨_, _, rfl, .inl rfl⟩
  · obtain ⟨c, rest, rfl, hc⟩ := exists_cons_of_isUnsigned h
    exact ⟨c, rest, rfl, .inr hc⟩

theorem ofLiteral?_toString (n : Int) : ofLiteral? (toString n).toList = some (.num n) := by
  rw [ofLiteral?]
  split
  · rename_i m hm
    rw [integer?_toString] at hm
    cases hm
    rfl
  · rename_i hnone
    rw [integer?_toString] at hnone
    nomatch hnone

theorem ofLiteral?_literal (d : Decimal) : ofLiteral? d.literal.toList = some (.decimal d) := by
  rw [ofLiteral?]
  split
  · rename_i m hm
    rw [d.notInteger] at hm
    nomatch hm
  · simp [d.isNumber]

/-- Nothing follows that could be a part of a number. -/
def Ends (rest : List Char) : Prop := ∀ c ∈ rest.head?, isNumberChar c = false

/-- A number is read up to its end. -/
theorem number?_literal {literal rest : List Char} {v : Json} (h : isNumber literal = true)
    (hv : ofLiteral? literal = some v) (hrest : Ends rest) :
    number? (literal ++ rest) = some (v, rest) := by
  have hchars := isNumberChar_of_isNumber h
  rw [number?, takeWhile_run hchars hrest, dropWhile_run hchars hrest, hv]
  rfl

theorem value?_literal {literal rest : List Char} {v : Json} (fuel : Nat)
    (h : isNumber literal = true) (hv : ofLiteral? literal = some v) (hrest : Ends rest) :
    value? (fuel + 1) (literal ++ rest) = some (v, rest) := by
  rw [← number?_literal h hv hrest]
  obtain ⟨c, cs, rfl, hc⟩ := exists_cons_of_isNumber h
  rw [List.cons_append, value?]
  all_goals
    intros
    rename_i heq
    obtain ⟨rfl, -⟩ := List.cons.inj heq
    revert hc
    decide

/-! ### Values -/

theorem skipGap_cons {c : Char} (h : isGap c = false) (s : List Char) :
    skipGap (c :: s) = c :: s :=
  List.dropWhile_cons_of_neg (by simp [h])

/-- A text starts with neither a blank nor a closing bracket. -/
def Starts (s : List Char) : Prop := ∃ c rest, s = c :: rest ∧ isGap c = false ∧ c ≠ ']'

theorem starts_of_isNumber {s : List Char} (h : isNumber s = true) : Starts s := by
  obtain ⟨c, rest, rfl, hc⟩ := exists_cons_of_isNumber h
  have hgap : isGap c = false := by
    rw [Bool.eq_false_iff]
    intro hgap
    have hblank : ((c = ' ' ∨ c = '\t') ∨ c = '\n') ∨ c = '\r' := by
      simpa only [isGap, Bool.or_eq_true, decide_eq_true_eq] using hgap
    rcases hblank with ((rfl | rfl) | rfl) | rfl <;> revert hc <;> decide
  refine ⟨c, rest, rfl, hgap, ?_⟩
  rintro rfl
  revert hc
  decide

theorem starts_compact (j : Json) : Starts j.compact.toList := by
  cases j with
  | null => exact ⟨_, _, rfl, rfl, by decide⟩
  | bool b => cases b <;> exact ⟨_, _, rfl, rfl, by decide⟩
  | num n => exact starts_of_isNumber (isNumber_toString n)
  | decimal d => exact starts_of_isNumber d.isNumber
  | str s =>
    rw [compact, toList_quote]
    exact ⟨_, _, rfl, rfl, by decide⟩
  | arr items =>
    rw [compact, String.toList_append, String.toList_append]
    exact ⟨_, _, rfl, rfl, by decide⟩
  | obj fields =>
    rw [compact, String.toList_append, String.toList_append]
    exact ⟨_, _, rfl, rfl, by decide⟩

/-- Entries start as the first one does. -/
theorem starts_joinWith {s : String} (h : Starts s.toList) (rest : List String) (more : List Char) :
    Starts ((joinWith "," (s :: rest)).toList ++ more) := by
  obtain ⟨c, cs, hs, hgap, hbracket⟩ := h
  cases rest with
  | nil => exact ⟨c, cs ++ more, by rw [joinWith, hs, List.cons_append], hgap, hbracket⟩
  | cons u rest =>
    refine ⟨c, cs ++ ',' :: ((joinWith "," (u :: rest)).toList ++ more), ?_, hgap, hbracket⟩
    simp [joinWith, hs]

theorem Starts.skipGap_eq {s : List Char} (h : Starts s) : skipGap s = s := by
  obtain ⟨c, rest, rfl, hgap, -⟩ := h
  exact skipGap_cons hgap rest

mutual

/-- How often the readers call each other for a written value. -/
def calls : Json → Nat
  | .arr items => callsItems items + 1
  | .obj fields => callsFields fields + 1
  | _ => 1

/-- The same for the elements of an array. -/
def callsItems : List Json → Nat
  | [] => 0
  | v :: vs => calls v + callsItems vs + 1

/-- The same for the fields of an object. -/
def callsFields : List (String × Json) → Nat
  | [] => 0
  | (_, v) :: rest => calls v + callsFields rest + 2

end

/-- An array that is not empty is read as its elements. -/
theorem value?_array {s : List Char} (fuel : Nat) (h : Starts s) :
    value? (fuel + 1) ('[' :: s) = (items? fuel s).map fun r => (.arr r.1, r.2) := by
  rw [value?, h.skipGap_eq]
  obtain ⟨c, rest, rfl, -, hbracket⟩ := h
  split
  · rename_i heq
    exact absurd (List.cons.inj heq).1 hbracket
  · rfl

/-- An object that is not empty is read as its fields. -/
theorem value?_object (fuel : Nat) (s : List Char) :
    value? (fuel + 1) ('\x7b' :: '"' :: s) =
      (fields? fuel ('"' :: s)).map fun r => (.obj r.1, r.2) := by
  rw [value?, skipGap_cons rfl]
  rfl

theorem toList_field (k : String) (v : Json) (rest : List Char) :
    (quote k ++ ":" ++ v.compact).toList ++ rest =
      '"' :: (k.toList.flatMap escapeChar ++ '"' :: ':' :: (v.compact.toList ++ rest)) := by
  simp [toList_quote]

/-- A field reads back when its value does. -/
theorem field?_of_value? {v : Json} {fuel : Nat} {rest : List Char} (k : String)
    (h : value? fuel (v.compact.toList ++ rest) = some (v, rest)) :
    field? (fuel + 1) ((quote k ++ ":" ++ v.compact).toList ++ rest) = some ((k, v), rest) := by
  obtain ⟨c, cs, hc, hgap, -⟩ := starts_compact v
  have hstart : skipGap (v.compact.toList ++ rest) = v.compact.toList ++ rest := by
    rw [hc, List.cons_append, skipGap_cons hgap]
  rw [toList_field, field?, string?_inside]
  simp only [skipGap_cons (show isGap ':' = false from rfl), hstart, h, Option.map_some,
    String.ofList_toList]

/-- Elements are read one by one. -/
theorem items?_cons {v : Json} {fuel : Nat} {s more : List Char}
    (h : value? fuel s = some (v, ',' :: more)) (hmore : Starts more) :
    items? (fuel + 1) s = (items? fuel more).map fun r => (v :: r.1, r.2) := by
  rw [items?, h]
  simp only [skipGap_cons (show isGap ',' = false from rfl), hmore.skipGap_eq]

theorem items?_last {v : Json} {fuel : Nat} {s more : List Char}
    (h : value? fuel s = some (v, ']' :: more)) : items? (fuel + 1) s = some ([v], more) := by
  rw [items?, h]
  rfl

/-- Fields are read one by one. -/
theorem fields?_cons {field : String × Json} {fuel : Nat} {s more : List Char}
    (h : field? fuel s = some (field, ',' :: more)) (hmore : Starts more) :
    fields? (fuel + 1) s = (fields? fuel more).map fun r => (field :: r.1, r.2) := by
  rw [fields?, h]
  simp only [skipGap_cons (show isGap ',' = false from rfl), hmore.skipGap_eq]

theorem fields?_last {field : String × Json} {fuel : Nat} {s more : List Char}
    (h : field? fuel s = some (field, '\x7d' :: more)) :
    fields? (fuel + 1) s = some ([field], more) := by
  rw [fields?, h]
  rfl

theorem ends_cons {c : Char} (h : isNumberChar c = false) (rest : List Char) :
    Ends (c :: rest) := by
  rintro d ⟨⟩
  exact h

theorem ends_comma (rest : List Char) : Ends (',' :: rest) := ends_cons rfl rest

theorem starts_field (k : String) (v : Json) : Starts (quote k ++ ":" ++ v.compact).toList := by
  have h := toList_field k v []
  rw [List.append_nil] at h
  exact ⟨_, _, h, rfl, by decide⟩

theorem toList_joinWith_cons (s u : String) (ss : List String) (rest : List Char) :
    (joinWith "," (s :: u :: ss)).toList ++ rest =
      s.toList ++ ',' :: ((joinWith "," (u :: ss)).toList ++ rest) := by
  simp [joinWith]

/-- The first field of an object starts with the quote of its name. -/
theorem joinWith_field (k : String) (v : Json) (ss : List String) (rest : List Char) :
    ∃ s, (joinWith "," ((quote k ++ ":" ++ v.compact) :: ss)).toList ++ rest = '"' :: s := by
  cases ss with
  | nil => exact ⟨_, toList_field k v rest⟩
  | cons u ss => exact ⟨_, (toList_joinWith_cons _ _ _ _).trans (toList_field k v _)⟩

mutual

/-- A value reads back from its text. -/
theorem value?_compact (j : Json) (fuel : Nat) (rest : List Char) (hfuel : calls j ≤ fuel)
    (hrest : Ends rest) : value? fuel (j.compact.toList ++ rest) = some (j, rest) := by
  match j, fuel, hfuel with
  | .null, fuel + 1, _ => rfl
  | .bool b, fuel + 1, _ => cases b <;> rfl
  | .num n, fuel + 1, _ =>
    exact value?_literal fuel (isNumber_toString n) (ofLiteral?_toString n) hrest
  | .decimal d, fuel + 1, _ => exact value?_literal fuel d.isNumber (ofLiteral?_literal d) hrest
  | .str s, fuel + 1, _ =>
    rw [compact, toList_quote]
    simp [value?, string?_inside]
  | .arr [], fuel + 1, _ => rfl
  | .arr (v :: vs), fuel + 1, hfuel =>
    rw [calls] at hfuel
    have hitems := items?_compact (v :: vs) fuel rest (by omega) (by simp)
    have hstarts := starts_joinWith (starts_compact v) (compactItems vs) (']' :: rest)
    rw [compactItems] at hitems
    rw [compact, compactItems, String.toList_append, String.toList_append, List.append_assoc]
    exact (value?_array fuel hstarts).trans (by rw [hitems]; rfl)
  | .obj [], fuel + 1, _ => rfl
  | .obj ((k, v) :: fields), fuel + 1, hfuel =>
    rw [calls] at hfuel
    have hfields := fields?_compact ((k, v) :: fields) fuel rest (by omega) (by simp)
    obtain ⟨s, hs⟩ := joinWith_field k v (compactFields fields) ('\x7d' :: rest)
    rw [compactFields, hs] at hfields
    rw [compact, compactFields, String.toList_append, String.toList_append, List.append_assoc]
    exact (congrArg (value? (fuel + 1) ∘ List.cons '\x7b') hs).trans
      ((value?_object fuel s).trans (by rw [hfields]; rfl))

theorem items?_compact (items : List Json) (fuel : Nat) (rest : List Char)
    (hfuel : callsItems items ≤ fuel) (hne : items ≠ []) :
    items? fuel ((joinWith "," (compactItems items)).toList ++ ']' :: rest) =
      some (items, rest) := by
  match items, fuel, hfuel with
  | [v], fuel + 1, hfuel =>
    simp only [callsItems] at hfuel
    exact items?_last (value?_compact v fuel (']' :: rest) (by omega) (ends_cons rfl rest))
  | v :: w :: ws, fuel + 1, hfuel =>
    rw [callsItems] at hfuel
    have hmore := items?_compact (w :: ws) fuel rest (by omega) (by simp)
    have hstarts := starts_joinWith (starts_compact w) (compactItems ws) (']' :: rest)
    have hv := fun rest => value?_compact v fuel (',' :: rest) (by omega) (ends_comma rest)
    rw [compactItems] at hmore
    rw [compactItems, compactItems, toList_joinWith_cons, items?_cons (hv _) hstarts, hmore]
    rfl

theorem fields?_compact (fields : List (String × Json)) (fuel : Nat) (rest : List Char)
    (hfuel : callsFields fields ≤ fuel) (hne : fields ≠ []) :
    fields? fuel ((joinWith "," (compactFields fields)).toList ++ '\x7d' :: rest) =
      some (fields, rest) := by
  match fields with
  | [(k, v)] =>
    simp only [callsFields] at hfuel
    obtain ⟨fuel, rfl⟩ : ∃ f, fuel = f + 2 := ⟨fuel - 2, by omega⟩
    have hv := value?_compact v fuel ('\x7d' :: rest) (by omega) (ends_cons rfl rest)
    exact fields?_last (field?_of_value? k hv)
  | (k, v) :: (k', v') :: more =>
    rw [callsFields] at hfuel
    obtain ⟨fuel, rfl⟩ : ∃ f, fuel = f + 2 := ⟨fuel - 2, by omega⟩
    have hmore := fields?_compact ((k', v') :: more) (fuel + 1) rest (by omega) (by simp)
    have hstarts := starts_joinWith (starts_field k' v') (compactFields more) ('\x7d' :: rest)
    have hv := fun rest => value?_compact v fuel (',' :: rest) (by omega) (ends_comma rest)
    rw [compactFields] at hmore
    rw [compactFields, compactFields, toList_joinWith_cons,
      fields?_cons (field?_of_value? k (hv _)) hstarts, hmore]
    rfl

end

/-! ### Texts -/

theorem Starts.length_pos {s : List Char} (h : Starts s) : 0 < s.length := by
  obtain ⟨c, rest, rfl, -⟩ := h
  exact Nat.succ_pos _

theorem length_joinWith_cons (s u : String) (ss : List String) :
    (joinWith "," (s :: u :: ss)).toList.length =
      s.toList.length + (joinWith "," (u :: ss)).toList.length + 1 := by
  have h := congrArg List.length (toList_joinWith_cons s u ss [])
  simp only [List.append_nil, List.length_append, List.length_cons] at h
  omega

theorem length_bracketed (a b s : String) :
    (a ++ s ++ b).toList.length = a.toList.length + s.toList.length + b.toList.length := by
  rw [String.toList_append, String.toList_append, List.length_append, List.length_append]

mutual

/-- There is a character for each call. -/
theorem calls_le_length (j : Json) : calls j ≤ j.compact.toList.length := by
  match j with
  | .null | .bool _ | .num _ | .decimal _ | .str _ => exact (starts_compact _).length_pos
  | .arr items =>
    have hitems := callsItems_le_length items
    rw [calls, compact, length_bracketed]
    exact (Nat.succ_le_succ hitems).trans (by simp)
  | .obj fields =>
    have hfields := callsFields_le_length fields
    rw [calls, compact, length_bracketed]
    exact (Nat.succ_le_succ hfields).trans (by simp)

theorem callsItems_le_length (items : List Json) :
    callsItems items ≤ (joinWith "," (compactItems items)).toList.length + 1 := by
  match items with
  | [] => exact Nat.zero_le _
  | [v] => exact Nat.succ_le_succ (calls_le_length v)
  | v :: w :: ws =>
    have hv := calls_le_length v
    have hmore := callsItems_le_length (w :: ws)
    rw [compactItems] at hmore
    rw [callsItems, compactItems, compactItems, length_joinWith_cons]
    omega

theorem callsFields_le_length (fields : List (String × Json)) :
    callsFields fields ≤ (joinWith "," (compactFields fields)).toList.length + 1 := by
  match fields with
  | [] => exact Nat.zero_le _
  | (k, v) :: rest =>
    have hv := calls_le_length v
    have hfield : (quote k ++ ":" ++ v.compact).toList.length ≥ v.compact.toList.length + 1 := by
      have hcolon : ":".toList.length = 1 := rfl
      rw [String.toList_append, String.toList_append, List.length_append, List.length_append]
      omega
    match rest with
    | [] =>
      simp only [callsFields, compactFields, joinWith]
      omega
    | (k', v') :: more =>
      have hmore := callsFields_le_length ((k', v') :: more)
      rw [compactFields] at hmore
      rw [callsFields, compactFields, compactFields, length_joinWith_cons]
      omega

end

/-- **The text of a value reads back as the value.** -/
theorem read?_compact (j : Json) : read? j.compact = some j := by
  have hcalls := calls_le_length j
  have hvalue := value?_compact j (j.compact.toList.length + 1) [] (by omega) (by simp [Ends])
  rw [List.append_nil] at hvalue
  rw [read?, (starts_compact j).skipGap_eq, hvalue]
  rfl

end FlatFile.Json
