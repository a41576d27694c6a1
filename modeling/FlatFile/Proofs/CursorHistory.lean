import FlatFile.Proofs.Histories
import FlatFile.Proofs.LineGrammar

/-!
# Histories of the cursor

A cursor may be held against any tokens, also such as no line is cut into: then an index can carry a
sign.  It goes on past lines it refuses, and all it keeps of its past is one end.  That end is the
greatest of all accepted ones (`Follows.last_le`), because each accepted column starts at or behind
the end of the one before it and does not end before it starts.  So a start lies behind the cursor
exactly when it lies before the end of some accepted column (`Follows.isBehind_iff`).

A negative start is refused for one of two reasons, and the past decides which: once a column has
been accepted it lies before an end, and before that only its range is wrong.

The cursor fits a signed 64-bit word whose least value stands for an empty past (`Cursor.word`): an
accepted end is never negative, so the two are not confused, and one comparison serves both.
-/

namespace FlatFile.Schema
open History Text

/-- Tokens to be held against the cursor, with the number and the text of their line. -/
structure TokenLine where
  line : Nat
  raw : String
  tokens : List String
  deriving DecidableEq, Repr

/-! ### One check -/

theorem readInt64?_le {s : List Char} {i : Int} (h : readInt64? s = some i) : i ≤ int64Max := by
  rw [readInt64?, Option.filter_eq_some_iff] at h
  exact (of_decide_eq_true h.2).2

namespace Cursor

/-- Holds a tokenised line against the cursor; behind a refused line the cursor is used again. -/
def take (cursor : Cursor) (l : TokenLine) : Except SchemaError Placement × Cursor :=
  match cursor.check l.line l.raw l.tokens with
  | .error e => (.error e, cursor)
  | .ok (p, next) => (.ok p, next)

theorem keepsRefused_take : KeepsRefused take := by
  intro cursor l e h
  rw [take] at h ⊢
  cases hcheck : cursor.check l.line l.raw l.tokens with
  | error e' => rfl
  | ok accepted =>
    rw [hcheck] at h
    cases h

theorem take_eq_ok_iff_check {cursor next : Cursor} {l : TokenLine} {p : Placement} :
    cursor.take l = (.ok p, next) ↔ cursor.check l.line l.raw l.tokens = .ok (p, next) := by
  rw [take]
  rcases cursor.check l.line l.raw l.tokens with e | ⟨q, c⟩
  · simp
  · simp

/-- **Tokens that tell where a column is**: a label and two integers, of which neither is negative
and the first is not the greater one. -/
def Tells (tokens : List String) (p : Placement) : Prop :=
  ∃ label first last : String, tokens = [label, first, last] ∧
    readInt64? first.toList = some (p.first : Int) ∧
    readInt64? last.toList = some (p.last : Int) ∧
    p.label = String.ofList (trim label.toList) ∧ p.first ≤ p.last

theorem Tells.last_le {tokens : List String} {p : Placement} (h : Tells tokens p) :
    (p.last : Int) ≤ int64Max := by
  obtain ⟨_, _, _, _, _, hlast, _⟩ := h
  exact readInt64?_le hlast

/-- **What the cursor accepts**: tokens that tell where a column is, not behind it. -/
theorem take_eq_ok_iff {cursor next : Cursor} {l : TokenLine} {p : Placement} :
    cursor.take l = (.ok p, next) ↔
      Tells l.tokens p ∧ cursor.isBehind p.first = false ∧ next = ⟨some p.last⟩ := by
  rw [take_eq_ok_iff_check]
  constructor
  · intro h
    unfold check at h
    split at h
    · rename_i label first last htokens
      split at h
      · rename_i s e hs he
        split at h
        · cases h
        · rename_i hbehind
          split at h
          · cases h
          · rename_i hrange
            obtain ⟨rfl, rfl⟩ := Prod.mk.inj (Except.ok.inj h)
            have hs0 : ((s.toNat : Nat) : Int) = s := Int.toNat_of_nonneg (by omega)
            have he0 : ((e.toNat : Nat) : Int) = e := Int.toNat_of_nonneg (by omega)
            refine ⟨⟨label, first, last, htokens, ?_, ?_, rfl, ?_⟩, ?_, rfl⟩
            · rw [hs, hs0]
            · rw [he, he0]
            · show s.toNat ≤ e.toNat
              omega
            · rw [hs0]
              simpa using hbehind
      · cases h
    · cases h
  · rintro ⟨⟨label, first, last, htokens, hfirst, hlast, hlabel, hle⟩, hbehind, rfl⟩
    have hrange : ¬ ((p.last : Int) < p.first ∨ (p.first : Int) < 0 ∨ (p.last : Int) < 0) := by
      omega
    unfold check
    rw [htokens]
    simp only [hfirst, hlast, hbehind, hrange, Int.toNat_natCast, ← hlabel, if_false,
      Bool.false_eq_true]

/-- **How a negative start is refused.** -/
theorem reply_of_negative {cursor : Cursor} {l : TokenLine} {label first last : String} {s e : Int}
    (htokens : l.tokens = [label, first, last]) (hs : readInt64? first.toList = some s)
    (he : readInt64? last.toList = some e) (hneg : s < 0) :
    (take cursor l).1 =
      if cursor.previousEnd = none then .error (.invalidRange l.line l.raw)
      else .error (.invalidStart l.line l.raw) := by
  have hrange : e < s ∨ s < 0 ∨ e < 0 := Or.inr (Or.inl hneg)
  unfold take check
  rw [htokens]
  simp only [hs, he, if_pos hrange]
  cases hend : cursor.previousEnd with
  | none =>
    have hbehind : cursor.isBehind s = false := by rw [isBehind, hend]
    simp only [hbehind, Bool.false_eq_true, if_false, if_true]
  | some e' =>
    have hbehind : cursor.isBehind s = true := by
      rw [isBehind, hend]
      exact decide_eq_true (by omega)
    simp only [hbehind, if_true, reduceCtorEq, if_false]

/-! ### The past of a cursor -/

/-- **What a cursor knows of its past**: it stands at the end of the last accepted column.  The
accepted columns stand one behind the other, and their ends fit 64 bits with a sign. -/
structure Follows (given : List Placement) (cursor : Cursor) : Prop where
  stands : cursor.previousEnd = given.getLast?.map Placement.last
  ranges : ∀ p ∈ given, p.first ≤ p.last ∧ (p.last : Int) ≤ int64Max
  ordered : given.Pairwise fun p q => p.last ≤ q.first

theorem follows_start : Follows [] start := by
  constructor <;> simp [start]

section Past
variable {given : List Placement} {cursor : Cursor} (h : Follows given cursor)
include h

/-- The last accepted column ends last. -/
theorem Follows.last_le {p q : Placement} (hp : p ∈ given) (hq : given.getLast? = some q) :
    p.last ≤ q.last := by
  obtain ⟨front, rfl⟩ := List.getLast?_eq_some_iff.mp hq
  have hrange := (h.ranges q (by simp)).1
  rcases List.mem_append.mp hp with hp | hp
  · have hpq : p.last ≤ q.first := (List.pairwise_append.mp h.ordered).2.2 p hp q (by simp)
    omega
  · rw [List.mem_singleton.mp hp]

/-- **A start is behind the cursor exactly when an accepted column ends after it.** -/
theorem Follows.isBehind_iff (s : Int) :
    cursor.isBehind s = true ↔ ∃ p ∈ given, s < (p.last : Int) := by
  rw [isBehind, h.stands]
  cases hlast : given.getLast? with
  | none =>
    rw [List.getLast?_eq_none_iff.mp hlast]
    simp
  | some q =>
    simp only [Option.map_some, decide_eq_true_eq]
    constructor
    · intro hs
      exact ⟨q, List.mem_of_getLast? hlast, hs⟩
    · rintro ⟨p, hp, hs⟩
      have hle := h.last_le hp hlast
      omega

theorem Follows.previousEnd_eq_none_iff : cursor.previousEnd = none ↔ given = [] := by
  rw [h.stands, Option.map_eq_none_iff, List.getLast?_eq_none_iff]

/-- A column that is accepted follows all the others. -/
theorem Follows.concat {l : TokenLine} {p : Placement} {next : Cursor}
    (htake : cursor.take l = (.ok p, next)) : Follows (given ++ [p]) next := by
  obtain ⟨hplace, hbehind, rfl⟩ := take_eq_ok_iff.mp htake
  constructor
  · simp
  · intro q hq
    rcases List.mem_append.mp hq with hq | hq
    · exact h.ranges q hq
    · obtain rfl := List.mem_singleton.mp hq
      refine ⟨?_, hplace.last_le⟩
      obtain ⟨_, _, _, _, _, _, _, hle⟩ := hplace
      exact hle
  · refine List.pairwise_append.mpr ⟨h.ordered, List.pairwise_singleton _ _, ?_⟩
    intro q hq p' hp'
    obtain rfl := List.mem_singleton.mp hp'
    by_contra hlt
    have hbefore := (h.isBehind_iff p'.first).mpr ⟨q, hq, by omega⟩
    rw [hbehind] at hbefore
    cases hbefore

/-- **The reply to tokens is an acceptance exactly when they tell a place behind all others.** -/
theorem Follows.reply_eq_ok_iff (l : TokenLine) (p : Placement) :
    (take cursor l).1 = .ok p ↔ Tells l.tokens p ∧ ∀ q ∈ given, q.last ≤ p.first := by
  have hclear : cursor.isBehind p.first = false ↔ ∀ q ∈ given, q.last ≤ p.first := by
    rw [← Bool.not_eq_true, h.isBehind_iff]
    constructor
    · intro hnot q hq
      by_contra hlt
      exact hnot ⟨q, hq, by omega⟩
    · rintro hall ⟨q, hq, hlt⟩
      have hle := hall q hq
      omega
  rw [← hclear]
  constructor
  · intro hreply
    obtain ⟨hplace, hbehind, -⟩ := take_eq_ok_iff.mp (Prod.ext hreply rfl)
    exact ⟨hplace, hbehind⟩
  · rintro ⟨hplace, hbehind⟩
    rw [take_eq_ok_iff.mpr ⟨hplace, hbehind, rfl⟩]

end Past

/-- A cursor knows the columns of every history it has been through. -/
theorem follows_after (ls : List TokenLine) :
    Follows (granted (replies take start ls)) (stateAfter take start ls) :=
  granted_invariant keepsRefused_take follows_start (fun _ _ _ _ _ h htake => h.concat htake) ls

/-! ### The cursor in one word -/

/-- **The cursor as one number**: the least 64-bit integer before the first column. -/
def word (cursor : Cursor) : Int := (cursor.previousEnd.map Int.ofNat).getD int64Min

/-- **A word that fits the cursor**: it is a 64-bit integer, the least one only when there is no
end yet, and comparing a 64-bit start with it tells whether the start is behind. -/
structure WordFits (cursor : Cursor) : Prop where
  fits : int64Min ≤ cursor.word ∧ cursor.word ≤ int64Max
  least_iff : cursor.word = int64Min ↔ cursor.previousEnd = none
  compares : ∀ s : Int, int64Min ≤ s → (cursor.isBehind s = true ↔ s < cursor.word)

theorem Follows.wordFits {given : List Placement} {cursor : Cursor} (h : Follows given cursor) :
    WordFits cursor := by
  cases hend : cursor.previousEnd with
  | none =>
    have hword : cursor.word = int64Min := by rw [word, hend]; rfl
    refine ⟨by rw [hword]; decide, by simp [hword, hend], ?_⟩
    intro s hs
    rw [hword, isBehind, hend]
    simpa using hs
  | some e =>
    have hword : cursor.word = e := by rw [word, hend]; rfl
    obtain ⟨q, hq, rfl⟩ := Option.map_eq_some_iff.mp (h.stands.symm.trans hend)
    have hle := (h.ranges q (List.mem_of_getLast? hq)).2
    refine ⟨?_, ?_, ?_⟩
    · rw [hword]
      exact ⟨int64Min_le_natCast _, hle⟩
    · have hne : ((q.last : Int) ≠ int64Min) := by
        unfold int64Min
        omega
      simp [hword, hend, hne]
    · intro s _
      rw [hword, isBehind, hend]
      simp

/-- **Histories of the cursor.**  Hold any tokens against the cursor, one after the other, from the
start on.  Accepted columns do not end before they start, their ends fit a signed 64-bit integer,
and each starts at or behind the end of every earlier one.  The cursor has a previous end exactly
when a column has been accepted, and then it is the end of the last one; one 64-bit word holds it.
Tokens are accepted exactly when they are a label and two integers, neither negative and in order,
of which the first is not below the end of a column accepted before.  Tokens with a negative start
are refused for their range as long as nothing has been accepted, and for their start afterwards. -/
theorem replies_to_tokens (ls : List TokenLine) :
    (∀ p ∈ granted (replies take start ls),
      0 ≤ p.first ∧ p.first ≤ p.last ∧ (p.last : Int) ≤ 2 ^ 63 - 1) ∧
    (granted (replies take start ls)).Pairwise (fun p q => p.last ≤ q.first) ∧
    ((stateAfter take start ls).previousEnd = none ↔ granted (replies take start ls) = []) ∧
    (stateAfter take start ls).previousEnd
      = (granted (replies take start ls)).getLast?.map Placement.last ∧
    WordFits (stateAfter take start ls) ∧
    ∀ (before : List TokenLine) (l : TokenLine) (after : List TokenLine),
      ls = before ++ l :: after →
      ∃ r rest, replies take start ls = replies take start before ++ r :: rest ∧
        (∀ p, r = .ok p ↔ Tells l.tokens p ∧
          ∀ q ∈ granted (replies take start before), q.last ≤ p.first) ∧
        ∀ (label first last : String) (s e : Int), l.tokens = [label, first, last] →
          readInt64? first.toList = some s → readInt64? last.toList = some e → s < 0 →
          (granted (replies take start before) = [] → r = .error (.invalidRange l.line l.raw)) ∧
          (granted (replies take start before) ≠ [] → r = .error (.invalidStart l.line l.raw)) := by
  have hpast := follows_after ls
  refine ⟨?_, hpast.ordered, hpast.previousEnd_eq_none_iff, hpast.stands, hpast.wordFits, ?_⟩
  · intro p hp
    obtain ⟨hle, hmax⟩ := hpast.ranges p hp
    exact ⟨Nat.zero_le _, hle, hmax⟩
  · rintro before l after rfl
    have hbefore := follows_after before
    refine ⟨_, _, replies_middle take start before l after, hbefore.reply_eq_ok_iff l, ?_⟩
    intro label first last s e htokens hs he hneg
    rw [reply_of_negative htokens hs he hneg]
    constructor
    · intro hnone
      exact if_pos (hbefore.previousEnd_eq_none_iff.mpr hnone)
    · intro hsome
      exact if_neg (mt hbefore.previousEnd_eq_none_iff.mp hsome)

/-- The same negative start before and after a column is accepted; the sign of an end is read. -/
theorem replies_to_tokens_negative_start :
    let ls : List TokenLine :=
      [⟨1, "a", ["a", "-3", "1"]⟩, ⟨2, "b", ["b ", "2", "+5"]⟩, ⟨3, "c", ["c", "-3", "1"]⟩]
    granted (replies take start ls) = [⟨"b", 2, 5⟩] ∧
      (stateAfter take start ls).previousEnd = some 5 ∧
      (replies take start ls)[0]? = some (.error (.invalidRange 1 "a")) ∧
      (replies take start ls)[2]? = some (.error (.invalidStart 3 "c")) := by
  intro ls
  have hgranted : granted (replies take start ls) = [⟨"b", 2, 5⟩] := by decide +kernel
  obtain ⟨-, -, -, hend, -, hstep⟩ := replies_to_tokens ls
  obtain ⟨early, _, hearly, -, hrange⟩ := hstep [] _ _ rfl
  obtain ⟨late, _, hlate, -, hstart⟩ := hstep [ls[0], ls[1]] _ [] rfl
  have hfirst := (hrange "a" "-3" "1" (-3) 1 rfl (by decide) (by decide) (by decide)).1 rfl
  have hthird := (hstart "c" "-3" "1" (-3) 1 rfl (by decide) (by decide) (by decide)).2
    (by decide +kernel)
  refine ⟨hgranted, ?_, ?_, ?_⟩
  · rw [hend, hgranted]
    rfl
  · rw [hearly, hfirst]
    rfl
  · rw [hlate, hthird]
    rfl

end Cursor

end FlatFile.Schema
