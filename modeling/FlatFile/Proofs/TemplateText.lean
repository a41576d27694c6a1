import FlatFile.Proofs.SectionNesting
import FlatFile.Proofs.StandaloneTags

/-!
# Templates keep their text

Reading a template neither loses nor repeats text.  Going through its tree in the order of the
document (`walkAll`) gives back the tokens it was built from (`walk_build`); with every tag written
as it stood in the source, these are the source without the lines that section tags take
(`parse_keeps_text`).  The texts of the tree are tidy: none is empty, none stands next to another,
and none holds a tag.  All three are facts about the tokens, since the nodes next to each other at
any depth give a stretch of them (`Siblings.walk_within`).
-/

namespace FlatFile.Template
open Target.Builtin (sourceOf)

/-! ### Going through a tree -/

mutual

/-- The tokens of a node in the order of the document. -/
def Node.walk : Node → List Token
  | .text s => [.text s.toList]
  | .value name => [.tag .value name]
  | .group name inverted body =>
    .tag (.enter inverted) name :: (walkAll body ++ [.tag .leave name])

/-- The tokens of nodes in the order of the document. -/
def walkAll : List Node → List Token
  | [] => []
  | n :: ns => n.walk ++ walkAll ns

end

theorem walkAll_append (ms ns : List Node) : walkAll (ms ++ ns) = walkAll ms ++ walkAll ns := by
  induction ms with
  | nil => rfl
  | cons m ms ih => rw [List.cons_append, walkAll, walkAll, ih, List.append_assoc]

/-- The tokens so far of a tree that is being built. -/
def walkOpen : List Frame → List Node → List Token
  | [], current => walkAll current
  | f :: outer, current =>
    walkOpen outer f.before ++ .tag (.enter f.inverted) f.name :: walkAll current

theorem walkOpen_concat (frames : List Frame) (current : List Node) (n : Node) :
    walkOpen frames (current ++ [n]) = walkOpen frames current ++ n.walk := by
  have hone : walkAll [n] = n.walk := by rw [walkAll, walkAll, List.append_nil]
  cases frames with
  | nil => rw [walkOpen, walkOpen, walkAll_append, hone]
  | cons f outer =>
    rw [walkOpen, walkOpen, walkAll_append, hone, List.append_assoc, List.cons_append]

/-- **A tree holds the tokens it was built from.** -/
theorem walk_build {frames : List Frame} {current nodes : List Node} {toks : List Token}
    (h : build frames current toks = .ok nodes) :
    walkAll nodes = walkOpen frames current ++ toks := by
  induction toks generalizing frames current with
  | nil =>
    cases frames with
    | nil =>
      obtain rfl := Except.ok.inj h
      rw [walkOpen, List.append_nil]
    | cons f outer => cases h
  | cons tok toks ih =>
    match tok with
    | .text s =>
      rw [ih h, walkOpen_concat, Node.walk, String.toList_ofList, List.append_assoc]
      rfl
    | .tag .value name =>
      rw [ih h, walkOpen_concat, Node.walk, List.append_assoc]
      rfl
    | .tag (.enter inverted) name =>
      rw [ih h, walkOpen, walkAll, List.append_assoc]
      rfl
    | .tag .leave name =>
      cases frames with
      | nil => cases h
      | cons f outer =>
        rw [build] at h
        split at h
        · rename_i hname
          rw [ih h, walkOpen_concat, Node.walk, walkOpen, hname]
          simp only [List.append_assoc, List.cons_append, List.nil_append]
        · cases h

theorem walk_parse {source : String} {t : Template} (h : Template.parse source = .ok t) :
    walkAll t.nodes = tokens source.toList := by
  rw [Template.parse] at h
  cases hbuild : build [] [] (tokens source.toList) with
  | error e => rw [hbuild] at h; cases h
  | ok nodes =>
    rw [hbuild] at h
    obtain rfl := Except.ok.inj h
    exact walk_build hbuild

/-! ### Writing the tokens out -/

/-- **Tokens written out with the tags of a source**: a text as it is, and a tag as it stands in the
source, where it must have the kind and the name of the token. -/
inductive Written : List Token → List Tag → List Char → Prop where
  | nil : Written [] [] []
  | text {s out : List Char} {toks : List Token} {tags : List Tag}
      (rest : Written toks tags out) : Written (.text s :: toks) tags (s ++ out)
  | tag {tag : Tag} {out : List Char} {toks : List Token} {tags : List Tag}
      (rest : Written toks tags out) :
      Written (.tag tag.kind (String.ofList tag.name) :: toks) (tag :: tags) (tag.source ++ out)

theorem Written.textTokens {toks : List Token} {tags : List Tag} {out : List Char}
    (h : Written toks tags out) (s : List Char) :
    Written (textTokens s ++ toks) tags (s ++ out) := by
  unfold Template.textTokens
  split
  · rename_i hs
    rw [List.isEmpty_iff.mp hs]
    exact h
  · exact Written.text h

theorem tokensOf_cons (before after : List Char) (tag : Tag) (rest : List (Tag × List Char)) :
    tokensOf (before, (tag, after) :: rest) =
      textTokens before ++ .tag tag.kind (String.ofList tag.name) :: tokensOf (after, rest) := by
  simp only [tokensOf, List.flatMap_cons, List.cons_append]

theorem written_tokensOf (before : List Char) (rest : List (Tag × List Char)) :
    Written (tokensOf (before, rest)) (rest.map Prod.fst) (flat (before, rest)) := by
  induction rest generalizing before with
  | nil => exact Written.nil.textTokens before
  | cons p rest ih =>
    obtain ⟨tag, after⟩ := p
    rw [tokensOf_cons, flat_cons before tag (after, rest)]
    exact (Written.tag (ih after)).textTokens before

theorem written_tokens (s : List Char) :
    Written (tokens s) ((scan s).2.map Prod.fst) (stripped s) := by
  rw [← flat_cut, tokens, ← settle_tags true (scan s).1]
  exact written_tokensOf _ _

/-! ### The texts between tags -/

/-- Texts only lose their ends. -/
theorem settle_texts {fresh : Bool} {before : List Char} {rest : List (Tag × List Char)}
    {text : List Char}
    (h : text ∈ (settle fresh before rest).1 :: (settle fresh before rest).2.map Prod.snd) :
    ∃ whole ∈ before :: rest.map Prod.snd, text <:+: whole := by
  induction rest generalizing fresh before with
  | nil => exact ⟨text, h, List.infix_refl text⟩
  | cons p rest ih =>
    obtain ⟨tag, after⟩ := p
    rw [settle] at h
    split at h
    · rename_i front back hfound
      obtain ⟨_, hfront, hback⟩ := (aloneOnLine?_eq_some_iff _ _ _ _ _ _ _).mp hfound
      obtain ⟨indent, rfl, _⟩ := (dropIndent?_eq_some_iff _ _ _).mp hfront
      obtain ⟨blanks, _, hafter⟩ := (dropTrailing?_eq_some_iff _ _ _).mp hback
      have hsuffix : back <:+: after := by
        rcases hafter with rfl | ⟨rfl, rfl, _⟩
        · exact ⟨blanks ++ ['\n'], [], by simp⟩
        · exact List.nil_infix
      rcases List.mem_cons.mp h with rfl | h
      · exact ⟨_, List.mem_cons_self, (List.prefix_append _ _).isInfix⟩
      · obtain ⟨whole, hwhole, hwithin⟩ := ih h
        rcases List.mem_cons.mp hwhole with rfl | hwhole
        · exact ⟨after, by simp, hwithin.trans hsuffix⟩
        · exact ⟨whole, List.mem_cons_of_mem _ (List.mem_cons_of_mem _ hwhole), hwithin⟩
    · rcases List.mem_cons.mp h with rfl | h
      · exact ⟨_, List.mem_cons_self, List.infix_refl _⟩
      · obtain ⟨whole, hwhole, hwithin⟩ := ih h
        exact ⟨whole, List.mem_cons_of_mem _ hwhole, hwithin⟩

theorem mem_textTokens {s text : List Char} (h : Token.text text ∈ textTokens s) :
    text = s ∧ s ≠ [] := by
  unfold textTokens at h
  split at h
  · cases h
  · rename_i hs
    obtain rfl := Token.text.inj (List.mem_singleton.mp h)
    exact ⟨rfl, fun he => hs (List.isEmpty_iff.mpr he)⟩

theorem mem_tokensOf {before text : List Char} {rest : List (Tag × List Char)}
    (h : Token.text text ∈ tokensOf (before, rest)) :
    text ≠ [] ∧ text ∈ before :: rest.map Prod.snd := by
  induction rest generalizing before with
  | nil =>
    rw [tokensOf, List.flatMap_nil, List.append_nil] at h
    obtain ⟨rfl, hne⟩ := mem_textTokens h
    exact ⟨hne, List.mem_cons_self⟩
  | cons p rest ih =>
    obtain ⟨tag, after⟩ := p
    rw [tokensOf_cons, List.mem_append, List.mem_cons] at h
    rcases h with h | h | h
    · obtain ⟨rfl, hne⟩ := mem_textTokens h
      exact ⟨hne, List.mem_cons_self⟩
    · cases h
    · obtain ⟨hne, hmem⟩ := ih h
      exact ⟨hne, List.mem_cons_of_mem _ hmem⟩

/-- A text token is not empty and holds no tag. -/
theorem text_of_mem_tokens {s text : List Char} (h : Token.text text ∈ tokens s) :
    text ≠ [] ∧ ∀ tag : Tag, tag.Matches → ¬ tag.source <:+: text := by
  obtain ⟨hne, hmem⟩ := mem_tokensOf h
  refine ⟨hne, fun tag htag hwithin => ?_⟩
  obtain ⟨whole, hwhole, hpart⟩ := settle_texts hmem
  exact (leftmost_scan s).texts_clear htag whole hwhole (hwithin.trans hpart)

/-- Not both tokens are texts. -/
def Apart (a b : Token) : Prop := ∀ s t, a = .text s → b ≠ .text t

theorem isChain_textTokens {s : List Char} {toks : List Token} (h : toks.IsChain Apart)
    (hhead : ∀ t, .text t ∉ toks.head?) : (textTokens s ++ toks).IsChain Apart := by
  unfold textTokens
  split
  · exact h
  · refine h.cons fun b hb => ?_
    rintro _ t - rfl
    exact hhead t hb

/-- Two text tokens never follow each other. -/
theorem tokensOf_isChain (before : List Char) (rest : List (Tag × List Char)) :
    (tokensOf (before, rest)).IsChain Apart := by
  induction rest generalizing before with
  | nil =>
    rw [tokensOf, List.flatMap_nil]
    exact isChain_textTokens List.isChain_nil (by simp)
  | cons p rest ih =>
    obtain ⟨tag, after⟩ := p
    rw [tokensOf_cons]
    refine isChain_textTokens ((ih after).cons ?_) (by simp)
    rintro b - s t ⟨⟩

/-! ### Siblings -/

/-- **Nodes next to each other**, at the top of a tree or in the body of one of its sections. -/
inductive Siblings (top : List Node) : List Node → Prop where
  | top : Siblings top top
  | body {ns body : List Node} {name : String} {inverted : Bool} (outside : Siblings top ns)
      (inside : .group name inverted body ∈ ns) : Siblings top body

/-- Siblings give a stretch of the tokens of the whole tree. -/
theorem Siblings.walk_within {top ns : List Node} (h : Siblings top ns) :
    walkAll ns <:+: walkAll top := by
  induction h with
  | top => exact List.infix_refl _
  | @body ns body name inverted _ inside ih =>
    refine List.IsInfix.trans ?_ ih
    obtain ⟨before, after, rfl⟩ := List.append_of_mem inside
    rw [walkAll_append, walkAll, Node.walk]
    exact ⟨walkAll before ++ [.tag (.enter inverted) name], .tag .leave name :: walkAll after,
      by simp⟩

theorem text_mem_walkAll {s : String} {ns : List Node} (h : .text s ∈ ns) :
    .text s.toList ∈ walkAll ns := by
  obtain ⟨before, after, rfl⟩ := List.append_of_mem h
  rw [walkAll_append, walkAll, Node.walk]
  simp

/-- **Templates keep their text.**  Going through the tree of a template in the order of the
document and writing its tags as they stand in the source, one after the other, gives the source
without the lines that section tags alone on them take, and nothing else.  None of its texts is
empty, none holds a tag, and no two are siblings next to each other. -/
theorem parse_keeps_text (source : String) (t : Template) (h : Template.parse source = .ok t) :
    Leftmost source.toList (scan source.toList) ∧
    Written (walkAll t.nodes) ((scan source.toList).2.map Prod.fst) (stripped source.toList) ∧
    ∀ ns, Siblings t.nodes ns →
      (∀ s, .text s ∈ ns → s ≠ "" ∧ ∀ tag : Tag, tag.Matches → ¬ tag.source <:+: s.toList) ∧
      ∀ s s', ¬ [.text s, .text s'] <:+: ns := by
  have hwalk := walk_parse h
  refine ⟨leftmost_scan _, hwalk ▸ written_tokens _, fun ns hns => ⟨fun s hs => ?_, ?_⟩⟩
  · have hmem : .text s.toList ∈ tokens source.toList :=
      hwalk ▸ hns.walk_within.subset (text_mem_walkAll hs)
    obtain ⟨hne, hclear⟩ := text_of_mem_tokens hmem
    refine ⟨?_, hclear⟩
    rintro rfl
    exact hne rfl
  · rintro s s' ⟨before, after, rfl⟩
    -- next to each other in the tree, the two texts would be so in the tokens
    have hpair : [.text s.toList, .text s'.toList] <:+: tokens source.toList := by
      rw [← hwalk]
      refine List.IsInfix.trans ?_ hns.walk_within
      rw [walkAll_append, walkAll_append]
      exact ⟨walkAll before, walkAll after, rfl⟩
    have hapart := List.IsChain.infix (tokensOf_isChain _ _) hpair
    exact (List.isChain_cons_cons.mp hapart).1 _ _ rfl rfl

/-- Two section tags take their lines with them, one with an indent and blanks behind it; the blanks
inside the braces of the variable stay. -/
theorem parse_keeps_text_two_lines :
    Template.parse (sourceOf ["a", "  ⟪#x⟫ ", "⟪ y ⟫b", "⟪/x⟫"])
        = .ok ⟨[.text "a\n", .group "x" false [.value "y", .text "b\n"]]⟩ ∧
      stripped (sourceOf ["a", "  ⟪#x⟫ ", "⟪ y ⟫b", "⟪/x⟫"]).toList
        = "a\n".toList ++ "⟪#x⟫⟪ y ⟫b".toList.flatMap Target.Builtin.braces
          ++ "\n".toList ++ "⟪/x⟫".toList.flatMap Target.Builtin.braces ∧
      Written [.text "a\n".toList, .tag (.enter false) "x", .tag .value "y", .text "b\n".toList,
          .tag .leave "x"]
        ((scan (sourceOf ["a", "  ⟪#x⟫ ", "⟪ y ⟫b", "⟪/x⟫"]).toList).2.map Prod.fst)
        (stripped (sourceOf ["a", "  ⟪#x⟫ ", "⟪ y ⟫b", "⟪/x⟫"]).toList) := by
  have hparse : Template.parse (sourceOf ["a", "  ⟪#x⟫ ", "⟪ y ⟫b", "⟪/x⟫"])
      = .ok ⟨[.text "a\n", .group "x" false [.value "y", .text "b\n"]]⟩ := by rfl
  exact ⟨hparse, by decide +kernel, (parse_keeps_text _ _ hparse).2.1⟩

end FlatFile.Template
