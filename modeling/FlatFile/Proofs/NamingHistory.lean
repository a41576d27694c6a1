import FlatFile.Proofs.CompileRun
import FlatFile.Proofs.Histories

/-!
# Histories of names

The compiler stops at the first label it cannot name, but a `Naming` may be asked for names past a
refusal.  All it has to know for that are the names it has given (`Knows`): with them the answer to
a label is fixed (`Knows.reply_eq`), and no name is given twice.  A refusal leaves the names as they
were (`keepsRefused_ask`), so a refused label is as if never asked for.
The fallback is a name like any other here, so that at most one label ever gets it for want of an
identifier, and none once a label has been named so by its own identifier.
-/

namespace FlatFile.Schema
open History

/-- A label to be named, with the number and the text of its line. -/
structure LabelRequest where
  label : String
  line : Nat
  raw : String
  deriving DecidableEq, Repr

namespace Naming

/-- Asks for the name of a label. -/
def ask (names : Naming) (q : LabelRequest) : Except SchemaError Named × Naming :=
  (names.give q.label q.line q.raw).result

/-- **A label that is refused changes no names.** -/
theorem keepsRefused_ask : KeepsRefused ask := by
  intro names q e h
  simp only [ask, give] at h ⊢
  by_cases hres : names.reserved.contains (nameOf q.label) = true
  · rw [if_pos hres]
  · rw [if_neg hres] at h ⊢
    by_cases htaken : names.taken.contains (nameOf q.label) = true
    · rw [if_pos htaken]
    · rw [if_neg htaken] at h
      cases h

/-- The naming that has given no name yet. -/
def fresh (reserved : ReservedWords) : Naming := { reserved := reserved }

/-- **What a naming knows of its past**: the reserved words, and exactly the names it has given,
which are all different.  Names given for want of an identifier are the fallback. -/
structure Knows (reserved : ReservedWords) (given : List Named) (names : Naming) : Prop where
  reserved_eq : names.reserved = reserved
  mem_taken : ∀ name, name ∈ names.taken ↔ name ∈ given.map Named.name
  distinct : (given.map Named.name).Nodup
  fallback_name : ∀ x ∈ given, x.fallback = true → x.name = fallbackName

theorem knows_fresh (reserved : ReservedWords) : Knows reserved [] (fresh reserved) := by
  constructor <;> simp [fresh]

theorem nameOf_of_isNone {label : String} (h : (identifier? label).isNone = true) :
    nameOf label = fallbackName := by
  rw [nameOf, Option.isNone_iff_eq_none.mp h, Option.getD_none]

/-- A name that is given is new. -/
theorem Knows.concat {reserved : ReservedWords} {given : List Named} {names names' : Naming}
    {q : LabelRequest} {named : Named} (h : Knows reserved given names)
    (hask : names.ask q = (.ok named, names')) : Knows reserved (given ++ [named]) names' := by
  obtain ⟨-, hfree, rfl, rfl⟩ := (give_eq_ok_iff _ _ _ _ _ _).mp hask
  have hnew : nameOf q.label ∉ given.map Named.name := by
    rwa [← h.mem_taken]
  constructor
  · exact h.reserved_eq
  · intro name
    rw [List.mem_cons, List.map_append, List.mem_append, h.mem_taken, or_comm]
    simp
  · simpa using h.distinct.concat hnew
  · intro x hx
    rcases List.mem_append.mp hx with hx | hx
    · exact h.fallback_name x hx
    · obtain rfl := List.mem_singleton.mp hx
      exact nameOf_of_isNone

/-- A naming knows the names of every history it has been through. -/
theorem knows_after (reserved : ReservedWords) (qs : List LabelRequest) :
    Knows reserved (granted (replies ask (fresh reserved) qs))
      (stateAfter ask (fresh reserved) qs) :=
  granted_invariant keepsRefused_ask (knows_fresh reserved)
    (fun _ _ _ _ _ h hask => h.concat hask) qs

section Past
variable {reserved : ReservedWords} {given : List Named} {names : Naming}
  (h : Knows reserved given names)
include h

/-- **The reply to a label is fixed by the names given before.** -/
theorem Knows.reply_eq (q : LabelRequest) :
    (ask names q).1 =
      if reserved.contains (nameOf q.label) then .error (.reserved (nameOf q.label) q.line q.raw)
      else if nameOf q.label ∈ given.map Named.name then
        .error (.duplicate (nameOf q.label) q.line q.raw)
      else .ok ⟨nameOf q.label, (identifier? q.label).isNone⟩ := by
  have htaken : names.taken.contains (nameOf q.label) = true ↔
      nameOf q.label ∈ given.map Named.name := by
    rw [List.contains_iff_mem, h.mem_taken]
  simp only [ask, give, h.reserved_eq, htaken]
  split
  · rfl
  · split <;> rfl

/-- When each of the three replies is given. -/
theorem Knows.reply_iff (q : LabelRequest) :
    ((ask names q).1 = .error (.reserved (nameOf q.label) q.line q.raw) ↔
      reserved.contains (nameOf q.label) = true) ∧
    ((ask names q).1 = .error (.duplicate (nameOf q.label) q.line q.raw) ↔
      reserved.contains (nameOf q.label) = false ∧ nameOf q.label ∈ given.map Named.name) ∧
    ((ask names q).1 = .ok ⟨nameOf q.label, (identifier? q.label).isNone⟩ ↔
      reserved.contains (nameOf q.label) = false ∧ nameOf q.label ∉ given.map Named.name) := by
  rw [h.reply_eq]
  by_cases hres : reserved.contains (nameOf q.label) = true
  · simp [hres]
  · by_cases hgiven : nameOf q.label ∈ given.map Named.name
    · rw [if_neg hres, if_pos hgiven]
      simp [hres, hgiven]
    · rw [if_neg hres, if_neg hgiven]
      simp [hres, hgiven]

/-- Of names that are all different, one at most is the fallback. -/
theorem Knows.one_fallback : (given.filter Named.fallback).length ≤ 1 := by
  have hnames : (given.filter Named.fallback).map Named.name
      = List.replicate (given.filter Named.fallback).length fallbackName := by
    rw [List.eq_replicate_iff]
    refine ⟨List.length_map _, ?_⟩
    intro name hname
    obtain ⟨x, hx, rfl⟩ := List.mem_map.mp hname
    obtain ⟨hmem, hfallback⟩ := List.mem_filter.mp hx
    exact h.fallback_name x hmem hfallback
  have hdistinct : ((given.filter Named.fallback).map Named.name).Nodup :=
    h.distinct.sublist (List.filter_sublist.map Named.name)
  rw [hnames] at hdistinct
  exact List.nodup_replicate.mp hdistinct

end Past

/-- **Histories of names.**  Ask a fresh naming for the names of any labels, one after the other.  A
label is refused for a reserved word exactly when its identifier, or the fallback when it has none,
is one; it is refused as a duplicate exactly when that name is not reserved but was given before; and
otherwise it gets the name, with the mark of the fallback exactly when it has no identifier.  A
refused label could as well not have been asked for.  The names given are all different, and the
fallback is given at most once for want of an identifier. -/
theorem replies_to_labels (reserved : ReservedWords) (qs : List LabelRequest) :
    (∀ (before : List LabelRequest) (q : LabelRequest) (after : List LabelRequest),
      qs = before ++ q :: after →
      ∃ r rest, replies ask (fresh reserved) qs = replies ask (fresh reserved) before ++ r :: rest ∧
        let name := (identifier? q.label).getD "unknown"
        let earlier := (granted (replies ask (fresh reserved) before)).map Named.name
        (r = .error (.reserved name q.line q.raw) ↔ reserved.contains name = true) ∧
        (r = .error (.duplicate name q.line q.raw) ↔
          reserved.contains name = false ∧ name ∈ earlier) ∧
        (r = .ok ⟨name, decide (identifier? q.label = none)⟩ ↔
          reserved.contains name = false ∧ name ∉ earlier) ∧
        (∀ e, r = .error e →
          replies ask (fresh reserved) (before ++ after)
            = replies ask (fresh reserved) before ++ rest)) ∧
    ((granted (replies ask (fresh reserved) qs)).map Named.name).Nodup ∧
    ((granted (replies ask (fresh reserved) qs)).filter Named.fallback).length ≤ 1 := by
  have hknows := knows_after reserved qs
  refine ⟨?_, hknows.distinct, hknows.one_fallback⟩
  rintro before q after rfl
  refine ⟨_, _, replies_middle ask (fresh reserved) before q after, ?_⟩
  have hname : (identifier? q.label).getD "unknown" = nameOf q.label := rfl
  have hmark : decide (identifier? q.label = none) = (identifier? q.label).isNone := by
    cases identifier? q.label <;> rfl
  simp only [hname, hmark]
  obtain ⟨hreserved, hduplicate, hnamed⟩ := (knows_after reserved before).reply_iff q
  exact ⟨hreserved, hduplicate, hnamed, fun e he => replies_refused keepsRefused_ask he⟩

/-- A label named `unknown` comes after one that had to be called so, with a refusal between. -/
theorem replies_to_labels_fallback_taken :
    let qs : List LabelRequest :=
      [⟨"%%", 1, "%% 1 2"⟩, ⟨"Fun!", 2, "Fun! 3 4"⟩, ⟨"Unknown", 3, "Unknown 3 4"⟩]
    replies ask (fresh (.ofList ["fun"])) qs =
        [.ok ⟨"unknown", true⟩, .error (.reserved "fun" 2 "Fun! 3 4"),
          .error (.duplicate "unknown" 3 "Unknown 3 4")] ∧
      replies ask (fresh (.ofList ["fun"])) [⟨"%%", 1, "%% 1 2"⟩, ⟨"Unknown", 3, "Unknown 3 4"⟩] =
        [.ok ⟨"unknown", true⟩, .error (.duplicate "unknown" 3 "Unknown 3 4")] := by
  intro qs
  have hall : replies ask (fresh (.ofList ["fun"])) qs =
      [.ok ⟨"unknown", true⟩, .error (.reserved "fun" 2 "Fun! 3 4"),
        .error (.duplicate "unknown" 3 "Unknown 3 4")] := by decide +kernel
  have hfirst : replies ask (fresh (.ofList ["fun"])) [⟨"%%", 1, "%% 1 2"⟩] =
      [.ok ⟨"unknown", true⟩] := by decide +kernel
  obtain ⟨r, rest, hcut, -, -, -, hskip⟩ :=
    (replies_to_labels (.ofList ["fun"]) qs).1 [⟨"%%", 1, "%% 1 2"⟩] ⟨"Fun!", 2, "Fun! 3 4"⟩
      [⟨"Unknown", 3, "Unknown 3 4"⟩] rfl
  rw [hall, hfirst] at hcut
  obtain ⟨rfl, rfl⟩ := List.cons.inj (List.cons.inj hcut).2
  refine ⟨hall, (hskip _ rfl).trans ?_⟩
  rw [hfirst]
  rfl

end Naming

end FlatFile.Schema
