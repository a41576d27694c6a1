import FlatFile.Proofs.TagGrammar
import FlatFile.Target.Builtin
import FlatFile.Template.Tree

/-!
# Sections nest

Which sources are templates.  Only the section tags of a source matter, in their order
(`brackets`): they must be **balanced** (`Balanced`), every section ended by a tag of its own name
behind the sections it holds.  Where they are not, either a tag ends a section that is not the
innermost open one, and the first such tag decides, or sections are left open at the end
(`parse_outcome`).

The step from the source to its section tags is `build_verdict`: building the tree comes out the way
the names alone do when they are kept on a stack (`nest`).  What the stack holds behind some section
tags is then said without a stack (`Opens`, `nest_eq_ok_iff`).
-/

namespace FlatFile.Template
open Target.Builtin (sourceOf)

/-! ### Balanced section tags -/

/-- A section tag without what it looks like. -/
inductive Bracket where
  /-- Starts a section, inverted or not. -/
  | enter (name : String)
  /-- Ends a section. -/
  | leave (name : String)
  deriving DecidableEq, Repr

/-- **Balanced section tags**: sections one behind the other, each with balanced tags inside and
ended by its own name. -/
inductive Balanced : List Bracket → Prop where
  | nil : Balanced []
  | block {name : String} {inner rest : List Bracket} (inside : Balanced inner)
      (behind : Balanced rest) : Balanced (.enter name :: (inner ++ .leave name :: rest))

/-- **Section tags that leave sections open**: every end tag is matched, and `names` are the
sections still open, the innermost first. -/
inductive Opens : List Bracket → List String → Prop where
  | closed {bs : List Bracket} (balanced : Balanced bs) : Opens bs []
  | enter {bs inner : List Bracket} {names : List String} {name : String} (before : Opens bs names)
      (inside : Balanced inner) : Opens (bs ++ .enter name :: inner) (name :: names)

theorem Balanced.append {as bs : List Bracket} (ha : Balanced as) (hb : Balanced bs) :
    Balanced (as ++ bs) := by
  induction ha with
  | nil => exact hb
  | block inside _ _ ih =>
    rw [List.cons_append, List.append_assoc, List.cons_append]
    exact Balanced.block inside ih

theorem Opens.append {as bs : List Bracket} {names : List String} (ha : Opens as names)
    (hb : Balanced bs) : Opens (as ++ bs) names := by
  cases ha with
  | closed balanced => exact Opens.closed (balanced.append hb)
  | enter before inside =>
    rw [List.append_assoc, List.cons_append]
    exact Opens.enter before (inside.append hb)

/-- An end tag of the innermost open section closes it. -/
theorem Opens.leave {bs : List Bracket} {names : List String} {name : String}
    (h : Opens bs (name :: names)) : Opens (bs ++ [.leave name]) names := by
  cases h with
  | enter before inside =>
    rw [List.append_assoc, List.cons_append]
    exact before.append (Balanced.block inside Balanced.nil)

theorem opens_nil_iff {bs : List Bracket} : Opens bs [] ↔ Balanced bs := by
  refine ⟨?_, Opens.closed⟩
  intro h
  cases h with
  | closed balanced => exact balanced

/-! ### Names on a stack -/

/-- Follows section tags with the names of the open sections on a stack. -/
def nest : List String → List Bracket → Except TemplateError (List String)
  | names, [] => .ok names
  | names, .enter name :: bs => nest (name :: names) bs
  | [], .leave name :: _ => .error (.unexpectedClose name)
  | top :: names, .leave name :: bs =>
    if top = name then nest names bs else .error (.mismatchedClose top name)

theorem nest_append (names : List String) (as bs : List Bracket) :
    nest names (as ++ bs) = (nest names as).bind fun names' => nest names' bs := by
  induction as generalizing names with
  | nil => rfl
  | cons a as ih =>
    cases a with
    | enter name => exact ih (name :: names)
    | leave name =>
      cases names with
      | nil => rfl
      | cons top names =>
        rw [List.cons_append, nest, nest]
        split
        · exact ih names
        · rfl

theorem nest_balanced {bs : List Bracket} (h : Balanced bs) (names : List String) :
    nest names bs = .ok names := by
  induction h generalizing names with
  | nil => rfl
  | block _ _ ihin ihrest =>
    rw [nest, nest_append, ihin]
    change nest _ (.leave _ :: _) = _
    rw [nest, if_pos rfl]
    exact ihrest names

/-- **The stack holds exactly the sections left open.** -/
theorem nest_eq_ok_iff {bs : List Bracket} {names : List String} :
    nest [] bs = .ok names ↔ Opens bs names := by
  constructor
  · intro h
    -- the stack changes at its top with the last tag
    induction bs using List.reverseRecOn generalizing names with
    | nil =>
      obtain rfl := Except.ok.inj h
      exact Opens.closed Balanced.nil
    | append_singleton bs b ih =>
      rw [nest_append] at h
      cases hbs : nest [] bs with
      | error e => rw [hbs] at h; cases h
      | ok before =>
        rw [hbs] at h
        have hopens := ih hbs
        cases b with
        | enter name =>
          obtain rfl := Except.ok.inj h
          exact Opens.enter hopens Balanced.nil
        | leave name =>
          cases before with
          | nil => cases h
          | cons top before =>
            change nest (top :: before) [.leave name] = _ at h
            rw [nest] at h
            split at h
            · rename_i htop
              obtain rfl := Except.ok.inj h
              rw [htop] at hopens
              exact hopens.leave
            · cases h
  · intro h
    induction h with
    | closed balanced => exact nest_balanced balanced []
    | enter _ inside ih =>
      rw [nest_append, ih]
      exact nest_balanced inside _

/-- **The first end tag that does not match decides.** -/
theorem nest_eq_error_iff {names : List String} {bs : List Bracket} {e : TemplateError} :
    nest names bs = .error e ↔
      ∃ before name after, bs = before ++ .leave name :: after ∧
        ((nest names before = .ok [] ∧ e = .unexpectedClose name) ∨
          ∃ top outer, nest names before = .ok (top :: outer) ∧ top ≠ name ∧
            e = .mismatchedClose top name) := by
  constructor
  · intro h
    induction bs generalizing names with
    | nil => cases h
    | cons b bs ih =>
      cases b with
      | enter name =>
        obtain ⟨before, name', after, rfl, hcause⟩ := ih h
        exact ⟨.enter name :: before, name', after, rfl, hcause⟩
      | leave name =>
        cases names with
        | nil =>
          obtain rfl := Except.error.inj h
          exact ⟨[], name, bs, rfl, Or.inl ⟨rfl, rfl⟩⟩
        | cons top names =>
          rw [nest] at h
          by_cases htop : top = name
          · rw [if_pos htop] at h
            obtain ⟨before, name', after, rfl, hcause⟩ := ih h
            refine ⟨.leave name :: before, name', after, rfl, ?_⟩
            rw [nest, if_pos htop]
            exact hcause
          · rw [if_neg htop] at h
            obtain rfl := Except.error.inj h
            exact ⟨[], name, bs, rfl, Or.inr ⟨top, names, rfl, htop, rfl⟩⟩
  · rintro ⟨before, name, after, rfl, ⟨hbefore, rfl⟩ | ⟨top, outer, hbefore, htop, rfl⟩⟩
    · rw [nest_append, hbefore]
      rfl
    · rw [nest_append, hbefore]
      change nest (top :: outer) _ = _
      rw [nest, if_neg htop]

/-! ### Building the tree -/

/-- The section tag that a tag of a kind is. -/
def Bracket.of? : TagKind → String → Option Bracket
  | .value, _ => none
  | .enter _, name => some (.enter name)
  | .leave, name => some (.leave name)

/-- **The section tags of a source**, in their order. -/
def brackets (source : List Char) : List Bracket :=
  (scan source).2.filterMap fun p => Bracket.of? p.1.kind (String.ofList p.1.name)

/-- The section tag that a token is. -/
def Token.bracket? : Token → Option Bracket
  | .text _ => none
  | .tag kind name => Bracket.of? kind name

/-- What becomes of a template whose section tags leave sections open. -/
def verdict : Except TemplateError (List String) → Except TemplateError Unit
  | .error e => .error e
  | .ok [] => .ok ()
  | .ok (name :: _) => .error (.unclosedSection name)

/-- **Building a tree comes out as its section tags do.** -/
theorem build_verdict (frames : List Frame) (current : List Node) (toks : List Token) :
    (build frames current toks).map (fun _ => ()) =
      verdict (nest (frames.map Frame.name) (toks.filterMap Token.bracket?)) := by
  induction toks generalizing frames current with
  | nil => cases frames <;> rfl
  | cons tok toks ih =>
    match tok with
    | .text s => exact ih frames _
    | .tag .value name => exact ih frames _
    | .tag (.enter inverted) name => exact ih (⟨name, inverted, current⟩ :: frames) []
    | .tag .leave name =>
      cases frames with
      | nil => rfl
      | cons frame frames =>
        change (build (frame :: frames) current (.tag .leave name :: toks)).map _ =
          verdict (nest (frame.name :: frames.map Frame.name)
            (.leave name :: toks.filterMap Token.bracket?))
        rw [build, nest]
        split
        · exact ih frames _
        · rfl

/-- Taking lines out leaves the tags as they are. -/
theorem settle_tags (fresh : Bool) (before : List Char) (rest : List (Tag × List Char)) :
    (settle fresh before rest).2.map Prod.fst = rest.map Prod.fst := by
  induction rest generalizing fresh before with
  | nil => rfl
  | cons p rest ih =>
    rw [settle]
    split
    · simp only [List.map_cons, ih]
    · simp only [List.map_cons, ih]

theorem filterMap_bracket?_tokensOf (c : Cut) :
    (tokensOf c).filterMap Token.bracket? =
      (c.2.map Prod.fst).filterMap fun tag => Bracket.of? tag.kind (String.ofList tag.name) := by
  have htext : ∀ s, (textTokens s).filterMap Token.bracket? = [] := by
    intro s
    unfold textTokens
    split <;> rfl
  obtain ⟨before, rest⟩ := c
  rw [tokensOf, List.filterMap_append, htext, List.nil_append]
  induction rest with
  | nil => rfl
  | cons p rest ih =>
    rw [List.flatMap_cons, List.filterMap_append, ih, List.filterMap_cons, htext, List.map_cons,
      List.filterMap_cons]
    dsimp only [Token.bracket?]
    cases Bracket.of? p.1.kind (String.ofList p.1.name) with
    | none => rfl
    | some b => rfl

theorem filterMap_bracket?_tokens (source : List Char) :
    (tokens source).filterMap Token.bracket? = brackets source := by
  rw [tokens, filterMap_bracket?_tokensOf, cut, settle_tags, List.filterMap_map]
  rfl

/-- **Whether a source is a template is decided by its section tags.** -/
theorem parse_verdict (source : String) :
    (Template.parse source).map (fun _ => ()) = verdict (nest [] (brackets source.toList)) := by
  have hbuild := build_verdict [] [] (tokens source.toList)
  rw [filterMap_bracket?_tokens, List.map_nil] at hbuild
  rw [← hbuild, Template.parse]
  cases build [] [] (tokens source.toList) with
  | error e => rfl
  | ok nodes => rfl

/-! ### The outcomes -/

theorem verdict_eq_ok_iff {r : Except TemplateError (List String)} :
    verdict r = .ok () ↔ r = .ok [] := by
  match r with
  | .error e => exact ⟨nofun, nofun⟩
  | .ok [] => exact ⟨fun _ => rfl, fun _ => rfl⟩
  | .ok (name :: outer) => exact ⟨nofun, nofun⟩

theorem verdict_eq_error_iff {r : Except TemplateError (List String)} {e : TemplateError} :
    verdict r = .error e ↔
      r = .error e ∨ ∃ name outer, r = .ok (name :: outer) ∧ e = .unclosedSection name := by
  match r with
  | .error e' =>
    refine ⟨fun h => Or.inl (by rw [Except.error.inj h]), ?_⟩
    rintro (h | ⟨_, _, h, _⟩)
    · rw [Except.error.inj h, verdict]
    · cases h
  | .ok [] =>
    refine ⟨nofun, ?_⟩
    rintro (h | ⟨_, _, h, _⟩) <;> cases h
  | .ok (name :: outer) =>
    refine ⟨fun h => Or.inr ⟨name, outer, rfl, (Except.error.inj h).symm⟩, ?_⟩
    rintro (h | ⟨name', outer', h, rfl⟩)
    · cases h
    · rw [(List.cons.inj (Except.ok.inj h)).1, verdict]

section Outcomes
variable {source : String}

theorem parse_eq_ok_iff :
    (∃ t, Template.parse source = .ok t) ↔ Balanced (brackets source.toList) := by
  rw [← opens_nil_iff, ← nest_eq_ok_iff, ← verdict_eq_ok_iff, ← parse_verdict]
  cases Template.parse source with
  | error e => exact ⟨nofun, nofun⟩
  | ok t => exact ⟨fun _ => rfl, fun _ => ⟨t, rfl⟩⟩

theorem parse_eq_error_iff {e : TemplateError} :
    Template.parse source = .error e ↔
      verdict (nest [] (brackets source.toList)) = .error e := by
  rw [← parse_verdict]
  cases Template.parse source with
  | error e' => exact ⟨fun h => by rw [Except.error.inj h]; rfl,
      fun h => by rw [Except.error.inj h]⟩
  | ok t => exact ⟨nofun, nofun⟩

theorem parse_eq_unexpectedClose_iff {name : String} :
    Template.parse source = .error (.unexpectedClose name) ↔
      ∃ before after, brackets source.toList = before ++ .leave name :: after ∧
        Opens before [] := by
  rw [parse_eq_error_iff, verdict_eq_error_iff]
  constructor
  · rintro (h | ⟨_, _, _, h⟩)
    · obtain ⟨before, name', after, hbs, ⟨hbefore, he⟩ | ⟨_, _, _, _, he⟩⟩ :=
        nest_eq_error_iff.mp h
      · obtain rfl := TemplateError.unexpectedClose.inj he
        exact ⟨before, after, hbs, nest_eq_ok_iff.mp hbefore⟩
      · cases he
    · cases h
  · rintro ⟨before, after, hbs, hopens⟩
    exact Or.inl (nest_eq_error_iff.mpr
      ⟨before, name, after, hbs, Or.inl ⟨nest_eq_ok_iff.mpr hopens, rfl⟩⟩)

theorem parse_eq_mismatchedClose_iff {top name : String} :
    Template.parse source = .error (.mismatchedClose top name) ↔
      ∃ before after outer, brackets source.toList = before ++ .leave name :: after ∧
        Opens before (top :: outer) ∧ top ≠ name := by
  rw [parse_eq_error_iff, verdict_eq_error_iff]
  constructor
  · rintro (h | ⟨_, _, _, h⟩)
    · obtain ⟨before, name', after, hbs, ⟨_, he⟩ | ⟨top', outer, hbefore, hne, he⟩⟩ :=
        nest_eq_error_iff.mp h
      · cases he
      · obtain ⟨rfl, rfl⟩ := TemplateError.mismatchedClose.inj he
        exact ⟨before, after, outer, hbs, nest_eq_ok_iff.mp hbefore, hne⟩
    · cases h
  · rintro ⟨before, after, outer, hbs, hopens, hne⟩
    exact Or.inl (nest_eq_error_iff.mpr
      ⟨before, name, after, hbs, Or.inr ⟨top, outer, nest_eq_ok_iff.mpr hopens, hne, rfl⟩⟩)

theorem parse_eq_unclosedSection_iff {top : String} :
    Template.parse source = .error (.unclosedSection top) ↔
      ∃ outer, Opens (brackets source.toList) (top :: outer) := by
  rw [parse_eq_error_iff, verdict_eq_error_iff]
  constructor
  · rintro (h | ⟨top', outer, hnest, he⟩)
    · obtain ⟨_, _, _, _, ⟨_, he⟩ | ⟨_, _, _, _, he⟩⟩ := nest_eq_error_iff.mp h <;> cases he
    · obtain rfl := TemplateError.unclosedSection.inj he
      exact ⟨outer, nest_eq_ok_iff.mp hnest⟩
  · rintro ⟨outer, hopens⟩
    exact Or.inr ⟨top, outer, nest_eq_ok_iff.mpr hopens, rfl⟩

/-- Reading a source fails in three ways only. -/
theorem parse_error_cases {e : TemplateError} (h : Template.parse source = .error e) :
    (∃ name, e = .unexpectedClose name) ∨ (∃ top name, e = .mismatchedClose top name) ∨
      ∃ top, e = .unclosedSection top := by
  rcases verdict_eq_error_iff.mp (parse_eq_error_iff.mp h) with h | ⟨top, _, _, rfl⟩
  · obtain ⟨_, name, _, _, ⟨_, rfl⟩ | ⟨top, _, _, _, rfl⟩⟩ := nest_eq_error_iff.mp h
    · exact Or.inl ⟨name, rfl⟩
    · exact Or.inr (Or.inl ⟨top, name, rfl⟩)
  · exact Or.inr (Or.inr ⟨top, rfl⟩)

end Outcomes

/-- **Templates are exactly the sources whose sections nest.**  The section tags of a source are
those among its leftmost tags.  It is read exactly when they are balanced.  Otherwise the first end
tag that does not match is reported, alone where no section is open and with the innermost open
section where one is; and when all end tags match, the innermost section left open is.  Sources with
the same section tags come out alike, whatever variables and texts they hold. -/
theorem parse_accepts_exactly_balanced (source : String) :
    (∀ c, Leftmost source.toList c ↔ c = scan source.toList) ∧
    ((∃ t, Template.parse source = .ok t) ↔ Balanced (brackets source.toList)) ∧
    (∀ name, Template.parse source = .error (.unexpectedClose name) ↔
      ∃ before after, brackets source.toList = before ++ .leave name :: after ∧
        Opens before []) ∧
    (∀ top name, Template.parse source = .error (.mismatchedClose top name) ↔
      ∃ before after outer, brackets source.toList = before ++ .leave name :: after ∧
        Opens before (top :: outer) ∧ top ≠ name) ∧
    (∀ top, Template.parse source = .error (.unclosedSection top) ↔
      ∃ outer, Opens (brackets source.toList) (top :: outer)) ∧
    (∀ e, Template.parse source = .error e → (∃ name, e = .unexpectedClose name) ∨
      (∃ top name, e = .mismatchedClose top name) ∨ ∃ top, e = .unclosedSection top) ∧
    (∀ other : String, brackets other.toList = brackets source.toList →
      ((∃ t, Template.parse other = .ok t) ↔ ∃ t, Template.parse source = .ok t) ∧
      ∀ e, Template.parse other = .error e ↔ Template.parse source = .error e) := by
  refine ⟨leftmost_iff _, parse_eq_ok_iff, fun _ => parse_eq_unexpectedClose_iff,
    fun _ _ => parse_eq_mismatchedClose_iff, fun _ => parse_eq_unclosedSection_iff,
    fun _ => parse_error_cases, fun other hsame => ⟨?_, fun e => ?_⟩⟩
  · rw [parse_eq_ok_iff, parse_eq_ok_iff, hsame]
  · rw [parse_eq_error_iff, parse_eq_error_iff, hsame]

/-- The first end tag is right and the second is not; another source with the same section tags
fails in the same way. -/
theorem parse_second_close_wrong :
    brackets (sourceOf ["⟪#a⟫⟪^b⟫⟪/b⟫⟪/c⟫"]).toList
        = [.enter "a", .enter "b", .leave "b", .leave "c"] ∧
      Opens [.enter "a", .enter "b", .leave "b"] ["a"] ∧
      Template.parse (sourceOf ["⟪#a⟫⟪^b⟫⟪/b⟫⟪/c⟫"]) = .error (.mismatchedClose "a" "c") ∧
      Template.parse (sourceOf ["⟪# a⟫ x ⟪y⟫", "⟪#b⟫⟪/b⟫⟪/c⟫‹"])
        = .error (.mismatchedClose "a" "c") := by
  have hbs : brackets (sourceOf ["⟪#a⟫⟪^b⟫⟪/b⟫⟪/c⟫"]).toList
      = [.enter "a", .enter "b", .leave "b", .leave "c"] := by decide +kernel
  have hsame : brackets (sourceOf ["⟪# a⟫ x ⟪y⟫", "⟪#b⟫⟪/b⟫⟪/c⟫‹"]).toList
      = brackets (sourceOf ["⟪#a⟫⟪^b⟫⟪/b⟫⟪/c⟫"]).toList := by decide +kernel
  have hopens : Opens [.enter "a", .enter "b", .leave "b"] ["a"] :=
    Opens.enter (Opens.closed Balanced.nil) (Balanced.block Balanced.nil Balanced.nil)
  obtain ⟨_, _, _, hmismatch, _, _, halike⟩ :=
    parse_accepts_exactly_balanced (sourceOf ["⟪#a⟫⟪^b⟫⟪/b⟫⟪/c⟫"])
  have hfails := (hmismatch "a" "c").mpr ⟨_, [], [], hbs, hopens, by decide⟩
  exact ⟨hbs, hopens, hfails, ((halike _ hsame).2 _).mpr hfails⟩

end FlatFile.Template
