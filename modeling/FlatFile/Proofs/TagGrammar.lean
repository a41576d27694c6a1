import FlatFile.Proofs.TextLaws
import FlatFile.Template.Tag

/-!
# The tags of a text

What a tag is, said without reading one (`Tag.Matches`), and which tags a text has: from left to
right, each at the first place where one starts behind the tag before it (`Leftmost`).

Reading a tag off the start of a text finds exactly the tag that stands there
(`tagAt?_eq_some_iff`), so there is never more than one; and cutting a text at its tags finds
exactly the leftmost ones (`leftmost_iff`).  A text between two tags holds none itself
(`Clear.not_within`), and the pieces put together are the text again (`Leftmost.flat_eq`).
-/

namespace FlatFile.Template
open Text

/-! ### The tag pattern -/

/-- The sign that tags of a kind carry. -/
def TagKind.mark : TagKind → List Char
  | .value => []
  | .enter false => ['#']
  | .enter true => ['^']
  | .leave => ['/']

/-- **The tag pattern**: doubled braces around a name that does not start with a digit, the sign of
the kind before the name, and blanks at will on both sides of the sign and behind the name. -/
structure Tag.Matches (tag : Tag) : Prop where
  word : ∀ c ∈ tag.name, isWordChar c = true
  lead : ∃ c ∈ tag.name.head?, isDigit c = false
  text : ∃ b₁ b₂ b₃, (∀ c ∈ b₁, isBlank c = true) ∧ (∀ c ∈ b₂, isBlank c = true) ∧
    (∀ c ∈ b₃, isBlank c = true) ∧
    tag.source = ['\x7b', '\x7b'] ++ b₁ ++ tag.kind.mark ++ b₂ ++ tag.name ++ b₃ ++ ['\x7d', '\x7d']

/-- A sign is read off the start of a text. -/
theorem sign_append (s : List Char) : s = (sign s).1.mark ++ (sign s).2 := by
  unfold sign
  split <;> rfl

theorem sign_of_isWordChar {c : Char} (h : isWordChar c = true) (s : List Char) :
    sign (c :: s) = (.value, c :: s) := by
  unfold sign
  split
  · rename_i he; obtain rfl := (List.cons.inj he).1; exact absurd h (by decide)
  · rename_i he; obtain rfl := (List.cons.inj he).1; exact absurd h (by decide)
  · rename_i he; obtain rfl := (List.cons.inj he).1; exact absurd h (by decide)
  · rfl

/-- **Reading a sign with blanks around it.**  The sign is found, and behind its blanks what follows
it: a text that starts with a word character. -/
theorem sign_dropWhile (kind : TagKind) {b₁ b₂ s : List Char} {c : Char}
    (h₁ : ∀ c ∈ b₁, isBlank c = true) (h₂ : ∀ c ∈ b₂, isBlank c = true)
    (hc : isWordChar c = true) :
    (sign ((b₁ ++ kind.mark ++ b₂ ++ c :: s).dropWhile isBlank)).1 = kind ∧
      (sign ((b₁ ++ kind.mark ++ b₂ ++ c :: s).dropWhile isBlank)).2.dropWhile isBlank
        = c :: s := by
  have hsolid : ∀ d ∈ (c :: s).head?, isBlank d = false := by
    rintro d ⟨⟩
    exact isBlank_of_isWordChar hc
  -- with a sign the blanks before it end there; without one both runs of blanks are one
  have hsigned : ∀ d, isBlank d = false → (b₁ ++ [d] ++ b₂ ++ c :: s).dropWhile isBlank
      = d :: (b₂ ++ c :: s) := by
    intro d hd
    rw [List.append_assoc, List.append_assoc]
    refine dropWhile_run h₁ ?_
    rintro e ⟨⟩
    exact hd
  have hbehind := dropWhile_run h₂ hsolid
  match kind with
  | .value =>
    have hplain : (b₁ ++ [] ++ b₂ ++ c :: s).dropWhile isBlank = c :: s := by
      rw [List.append_nil]
      refine dropWhile_run (fun d hd => ?_) hsolid
      exact (List.mem_append.mp hd).elim (h₁ d) (h₂ d)
    simp only [TagKind.mark, hplain, sign_of_isWordChar hc]
    exact ⟨trivial, List.dropWhile_cons_of_neg (by simp [isBlank_of_isWordChar hc])⟩
  | .enter false =>
    simp only [TagKind.mark, hsigned '#' (by decide), sign]
    exact ⟨trivial, hbehind⟩
  | .enter true =>
    simp only [TagKind.mark, hsigned '^' (by decide), sign]
    exact ⟨trivial, hbehind⟩
  | .leave =>
    simp only [TagKind.mark, hsigned '/' (by decide), sign]
    exact ⟨trivial, hbehind⟩

/-- The tag in front of a text is read off it. -/
theorem tagAt?_of_matches {tag : Tag} (h : tag.Matches) (rest : List Char) :
    tagAt? (tag.source ++ rest) = some tag := by
  obtain ⟨kind, name, source⟩ := tag
  obtain ⟨hword, ⟨c, hc, hdigit⟩, b₁, b₂, b₃, h₁, h₂, h₃, hsource⟩ := h
  dsimp only at hword hc hdigit hsource
  obtain ⟨name, rfl⟩ : ∃ tail, name = c :: tail := List.head?_eq_some_iff.mp hc
  have hend : ∀ d ∈ (b₃ ++ ['\x7d', '\x7d'] ++ rest).head?, isWordChar d = false := by
    cases b₃ with
    | nil =>
      rintro d ⟨⟩
      decide
    | cons b b₃ =>
      rintro d ⟨⟩
      by_contra hd
      have := isBlank_of_isWordChar (eq_true_of_ne_false hd)
      rw [h₃ b List.mem_cons_self] at this
      cases this
  -- the four stretches of the tag, each cut off where the next begins
  obtain ⟨hkind, hnamed⟩ := sign_dropWhile kind (s := name ++ (b₃ ++ ['\x7d', '\x7d'] ++ rest))
    h₁ h₂ (hword c List.mem_cons_self)
  have hname := takeWhile_run hword hend
  have hbehind := dropWhile_run hword hend
  have hclose : (b₃ ++ ['\x7d', '\x7d'] ++ rest).dropWhile isBlank = '\x7d' :: '\x7d' :: rest := by
    rw [List.append_assoc]
    refine dropWhile_run h₃ ?_
    rintro d ⟨⟩
    decide
  have htext : source ++ rest = '\x7b' :: '\x7b' ::
      (b₁ ++ kind.mark ++ b₂ ++ c :: (name ++ (b₃ ++ ['\x7d', '\x7d'] ++ rest))) := by
    rw [hsource]
    simp only [List.append_assoc, List.cons_append, List.nil_append]
  have hlength : (source ++ rest).take ((source ++ rest).length - rest.length) = source := by
    rw [List.length_append, Nat.add_sub_cancel, List.take_left]
  rw [List.cons_append] at hname hbehind
  rw [htext] at hlength ⊢
  simp only [tagAt?, hkind, hnamed, hname, hbehind, hclose, hdigit, hlength]
  simp

/-- What is read off the start of a text is a tag that stands there. -/
theorem matches_of_tagAt? {s : List Char} {tag : Tag} (h : tagAt? s = some tag) :
    tag.Matches ∧ tag.source <+: s := by
  unfold tagAt? at h
  split at h
  · rename_i inner
    dsimp only at h
    split at h
    · rename_i c name rest hname hclose
      split at h
      · cases h
      · rename_i hdigit
        obtain rfl := Option.some.inj h
        have hinner := (List.takeWhile_append_dropWhile (p := isBlank) (l := inner)).symm
        generalize inner.dropWhile isBlank = signed at hname hclose hinner
        have hbehind := (List.takeWhile_append_dropWhile (p := isBlank) (l := (sign signed).2)).symm
        generalize (sign signed).2.dropWhile isBlank = named at hname hclose hbehind
        have hnamed := (List.takeWhile_append_dropWhile (p := isWordChar) (l := named)).symm
        have hend := (List.takeWhile_append_dropWhile (p := isBlank)
          (l := named.dropWhile isWordChar)).symm
        rw [hclose] at hend
        -- put the stretches that were cut off together again
        have htext : '\x7b' :: '\x7b' :: inner =
            (['\x7b', '\x7b'] ++ inner.takeWhile isBlank ++ (sign signed).1.mark
              ++ (sign signed).2.takeWhile isBlank ++ named.takeWhile isWordChar
              ++ (named.dropWhile isWordChar).takeWhile isBlank ++ ['\x7d', '\x7d']) ++ rest := by
          conv_lhs => rw [hinner, sign_append signed, hbehind, hnamed, hend]
          simp only [List.append_assoc, List.cons_append, List.nil_append]
        rw [htext, List.length_append, Nat.add_sub_cancel, List.take_left]
        refine ⟨⟨fun d hd => List.mem_takeWhile_imp hd, ⟨c, ?_, eq_false_of_ne_true hdigit⟩,
          _, _, _, ?_, ?_, ?_, rfl⟩, List.prefix_append _ _⟩
        · rw [hname]
          rfl
        all_goals exact fun d hd => List.mem_takeWhile_imp hd
    · cases h
  · cases h

/-- **Reading a tag finds exactly the tag that stands at the start of a text.** -/
theorem tagAt?_eq_some_iff (s : List Char) (tag : Tag) :
    tagAt? s = some tag ↔ tag.Matches ∧ tag.source <+: s := by
  refine ⟨matches_of_tagAt?, ?_⟩
  rintro ⟨hmatches, rest, rfl⟩
  exact tagAt?_of_matches hmatches rest

theorem tagAt?_eq_none_iff (s : List Char) :
    tagAt? s = none ↔ ∀ tag : Tag, tag.Matches → ¬ tag.source <+: s := by
  rw [Option.eq_none_iff_forall_ne_some]
  exact forall_congr' fun tag => by rw [Ne, tagAt?_eq_some_iff, not_and]

/-- A tag starts with a brace and ends with one. -/
theorem Tag.Matches.ends {tag : Tag} (h : tag.Matches) :
    tag.source.head? = some '\x7b' ∧ tag.source.getLast? = some '\x7d' := by
  obtain ⟨_, _, _, _, _, _, hsource⟩ := h.text
  rw [hsource]
  constructor
  · simp
  · rw [List.getLast?_append]
    rfl

theorem Tag.Matches.source_ne_nil {tag : Tag} (h : tag.Matches) : tag.source ≠ [] := by
  intro he
  have := h.ends.1
  rw [he] at this
  cases this

/-! ### Leftmost tags -/

/-- **No tag starts in a text**, read with what follows it. -/
def Clear (text rest : List Char) : Prop :=
  ∀ tag : Tag, tag.Matches → ∀ front back, text = front ++ back → back ≠ [] →
    ¬ tag.source <+: back ++ rest

/-- **The tags of a text**, cut at the first place where one starts and then again behind it. -/
inductive Leftmost : List Char → Cut → Prop where
  | done {text : List Char} (clear : Clear text []) : Leftmost text (text, [])
  | tag {text rest : List Char} {tag : Tag} {cut : Cut} (clear : Clear text (tag.source ++ rest))
      (is_tag : tag.Matches) (behind : Leftmost rest cut) :
      Leftmost (text ++ (tag.source ++ rest)) (text, (tag, cut.1) :: cut.2)

theorem clear_nil (rest : List Char) : Clear [] rest := by
  rintro tag - front back htext hne -
  exact hne (List.append_eq_nil_iff.mp htext.symm).2

theorem clear_cons_iff (c : Char) (text rest : List Char) :
    Clear (c :: text) rest ↔ tagAt? (c :: (text ++ rest)) = none ∧ Clear text rest := by
  rw [tagAt?_eq_none_iff]
  constructor
  · intro h
    refine ⟨fun tag htag => h tag htag [] (c :: text) rfl (by simp), fun tag htag front back => ?_⟩
    intro htext
    exact h tag htag (c :: front) back (by rw [htext, List.cons_append])
  · rintro ⟨hhere, hbehind⟩ tag htag front back htext hne
    cases front with
    | nil =>
      rw [List.nil_append] at htext
      rw [← htext]
      exact hhere tag htag
    | cons d front => exact hbehind tag htag front back (List.cons.inj htext).2 hne

/-- No tag stands within a text that none starts in. -/
theorem Clear.not_within {text rest : List Char} (h : Clear text rest) {tag : Tag}
    (htag : tag.Matches) : ¬ tag.source <:+: text := by
  rintro ⟨front, back, rfl⟩
  refine h tag htag front (tag.source ++ back) (by rw [List.append_assoc]) ?_ ?_
  · exact fun he => htag.source_ne_nil (List.append_eq_nil_iff.mp he).1
  · rw [List.append_assoc]
    exact List.prefix_append _ _

/-! ### Cutting finds the leftmost tags -/

theorem scanFrom_drop (n : Nat) (s : List Char) : scanFrom n s = scan (s.drop n) := by
  induction s generalizing n with
  | nil => simp [scan, scanFrom]
  | cons c s ih =>
    cases n with
    | zero => rfl
    | succ n => rw [scanFrom, ih, List.drop_succ_cons]

theorem scan_of_no_tag {c : Char} {s : List Char} (h : tagAt? (c :: s) = none) :
    scan (c :: s) = (c :: (scan s).1, (scan s).2) := by
  rw [scan, scanFrom, h]
  rfl

theorem scan_tag {tag : Tag} (h : tag.Matches) (rest : List Char) :
    scan (tag.source ++ rest) = ([], (tag, (scan rest).1) :: (scan rest).2) := by
  have hread := tagAt?_of_matches h rest
  obtain ⟨c, source, hsource⟩ := List.exists_cons_of_ne_nil h.source_ne_nil
  rw [hsource, List.cons_append] at hread ⊢
  rw [scan, scanFrom, hread]
  dsimp only
  rw [scanFrom_drop, hsource, List.length_cons, Nat.add_sub_cancel, List.drop_left]

theorem scan_of_clear {text rest : List Char} (h : Clear text rest) :
    scan (text ++ rest) = (text ++ (scan rest).1, (scan rest).2) := by
  induction text with
  | nil => rfl
  | cons c text ih =>
    obtain ⟨hhere, hbehind⟩ := (clear_cons_iff c text rest).mp h
    rw [List.cons_append, scan_of_no_tag hhere, ih hbehind, List.cons_append]

theorem Leftmost.cons {c : Char} {s : List Char} {cut : Cut} (hc : tagAt? (c :: s) = none)
    (h : Leftmost s cut) : Leftmost (c :: s) (c :: cut.1, cut.2) := by
  cases h with
  | done clear =>
    refine Leftmost.done ((clear_cons_iff _ _ _).mpr ⟨?_, clear⟩)
    rwa [List.append_nil]
  | tag clear is_tag behind =>
    exact Leftmost.tag ((clear_cons_iff _ _ _).mpr ⟨hc, clear⟩) is_tag behind

theorem leftmost_scan (s : List Char) : Leftmost s (scan s) := by
  -- behind a tag the text is shorter by the whole tag, so the induction is on its length
  induction hn : s.length using Nat.strong_induction_on generalizing s with
  | _ n ih =>
    subst hn
    cases s with
    | nil => exact Leftmost.done (clear_nil [])
    | cons c s =>
      cases hread : tagAt? (c :: s) with
      | none =>
        rw [scan_of_no_tag hread]
        exact (ih s.length (by simp) s rfl).cons hread
      | some tag =>
        obtain ⟨htag, rest, hs⟩ := (tagAt?_eq_some_iff _ _).mp hread
        have hshorter : rest.length < (c :: s).length := by
          have := List.length_pos_iff.mpr htag.source_ne_nil
          rw [← hs, List.length_append]
          omega
        rw [← hs, scan_tag htag]
        exact Leftmost.tag (clear_nil _) htag (ih _ hshorter rest rfl)

/-- **Cutting a text finds its leftmost tags**, and they are the only ones it has. -/
theorem leftmost_iff (s : List Char) (cut : Cut) : Leftmost s cut ↔ cut = scan s := by
  constructor
  · intro h
    induction h with
    | done clear =>
      have hscan := scan_of_clear clear
      rw [List.append_nil] at hscan
      rw [hscan, show scan [] = ([], []) from rfl, List.append_nil]
    | tag clear is_tag _ ih => rw [scan_of_clear clear, scan_tag is_tag, List.append_nil, ih]
  · rintro rfl
    exact leftmost_scan s

/-! ### The pieces of a text -/

/-- Tags and the texts behind them, written out. -/
def flatTags (rest : List (Tag × List Char)) : List Char :=
  rest.flatMap fun p => p.1.source ++ p.2

/-- A cut text put together again. -/
def flat (cut : Cut) : List Char := cut.1 ++ flatTags cut.2

theorem Leftmost.flat_eq {s : List Char} {cut : Cut} (h : Leftmost s cut) : flat cut = s := by
  induction h with
  | done => rw [flat, flatTags, List.flatMap_nil, List.append_nil]
  | tag _ _ _ ih =>
    rw [flat, flatTags] at ih ⊢
    rw [List.flatMap_cons, List.append_assoc, ih]

theorem Leftmost.tags_match {s : List Char} {cut : Cut} (h : Leftmost s cut) :
    ∀ p ∈ cut.2, p.1.Matches := by
  induction h with
  | done => simp
  | tag _ is_tag _ ih =>
    intro p hp
    rcases List.mem_cons.mp hp with rfl | hp
    · exact is_tag
    · exact ih p hp

/-- No tag stands within one of the texts. -/
theorem Leftmost.texts_clear {s : List Char} {cut : Cut} (h : Leftmost s cut) {tag : Tag}
    (htag : tag.Matches) : ∀ text ∈ cut.1 :: cut.2.map Prod.snd, ¬ tag.source <:+: text := by
  induction h with
  | done clear =>
    intro text ht
    obtain rfl : text = _ := by simpa using ht
    exact clear.not_within htag
  | tag clear _ _ ih =>
    intro text ht
    rcases List.mem_cons.mp ht with rfl | ht
    · exact clear.not_within htag
    · exact ih text ht

end FlatFile.Template
