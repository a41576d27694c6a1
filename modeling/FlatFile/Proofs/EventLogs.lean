import FlatFile.Proofs.CompileRun
import FlatFile.Proofs.DataLines

/-!
# Event logs

What the compiler and the reader report agrees with what they return.

The compiler warns of a label before its name is checked, so that a line may leave a warning and be
refused all the same.  What one step reports is therefore said in two parts (`step_log`): a warning
when the line passed its check and its label has no identifier, and behind it the acceptance when
the line was taken in.  A run reports the parts of its steps one after the other, and nothing for
the lines it does not get to (`acceptFrom_log`).  Over the lines that a run covers the acceptances
are its columns (`Run.acceptances`) and the warnings its findings (`Run.warnings`).
-/

namespace FlatFile
open Schema

/-! ### Events -/

/-- The line that an event is about. -/
def Event.line? (e : Event) : Option Nat :=
  match e.fields.lookup "line" with
  | some (.number n) => some n
  | _ => none

/-- The events of one level, in order. -/
def atLevel (level : Level) (events : List Event) : List Event :=
  events.filter fun e => e.level = level

@[simp] theorem atLevel_append (level : Level) (before after : List Event) :
    atLevel level (before ++ after) = atLevel level before ++ atLevel level after :=
  List.filter_append ..

theorem atLevel_eq_self {level : Level} {events : List Event}
    (h : ∀ e ∈ events, e.level = level) : atLevel level events = events :=
  List.filter_eq_self.mpr fun e he => by simp [h e he]

theorem atLevel_eq_nil {level other : Level} {events : List Event} (hne : other ≠ level)
    (h : ∀ e ∈ events, e.level = other) : atLevel level events = [] :=
  List.filter_eq_nil_iff.mpr fun e he => by simp [h e he, hne]

/-- An event is logged once if there is one with a property, and else nothing is. -/
inductive Logged (P : Event → Prop) : List Event → Prop where
  | silent (absent : ∀ e, ¬ P e) : Logged P []
  | once {e : Event} (present : P e) : Logged P [e]

theorem Logged.of_mem {P : Event → Prop} {events : List Event} (h : Logged P events) {e : Event}
    (he : e ∈ events) : P e := by
  cases h with
  | silent absent => cases he
  | once present =>
    rw [List.mem_singleton.mp he]
    exact present

theorem Logged.congr {P Q : Event → Prop} {events : List Event} (h : Logged P events)
    (hiff : ∀ e, P e ↔ Q e) : Logged Q events := by
  cases h with
  | silent absent => exact .silent fun e he => absent e ((hiff e).mpr he)
  | once present => exact .once ((hiff _).mp present)

/-- Where at most one event has a property, that one is logged. -/
theorem Logged.eq_singleton {P : Event → Prop} {events : List Event} (h : Logged P events)
    {e : Event} (he : P e) (hunique : ∀ e', P e' → e' = e) : events = [e] := by
  cases h with
  | silent absent => exact absurd he (absent e)
  | once present => rw [hunique _ present]

theorem Logged.eq_nil {P : Event → Prop} {events : List Event} (h : Logged P events)
    (hnone : ∀ e, ¬ P e) : events = [] := by
  cases h with
  | silent _ => rfl
  | once present => exact absurd present (hnone _)

namespace Compilation

/-- **A warning**: the label of line `n` has no identifier. -/
structure Warning (n : Nat) (label : String) (e : Event) : Prop where
  level : e.level = .warn
  message : e.message = "'" ++ label ++ "' is not a valid variable name so it is renamed to '"
    ++ fallbackName ++ "'"
  fields : e.fields = [("line", .number n), ("label", .text label)]

/-- **An acceptance**: line `n` was taken in and gave a column. -/
structure Acceptance (n : Nat) (c : Column) (e : Event) : Prop where
  level : e.level = .debug
  message : e.message = "accepted column"
  fields : e.fields = [("line", .number n), ("name", .text c.name), ("start", .number c.first),
    ("end", .number c.last)]

theorem warning_iff (n : Nat) (label : String) (e : Event) :
    Warning n label e ↔ e = Naming.fallbackEvent label n := by
  constructor
  · rintro ⟨hlevel, hmessage, hfields⟩
    cases e
    simp_all [Naming.fallbackEvent]
  · rintro rfl
    exact ⟨rfl, rfl, rfl⟩

theorem acceptance_iff (n : Nat) (c : Column) (e : Event) :
    Acceptance n c e ↔ e = acceptedEvent n c := by
  constructor
  · rintro ⟨hlevel, hmessage, hfields⟩
    cases e
    simp_all [acceptedEvent]
  · rintro rfl
    exact ⟨rfl, rfl, rfl⟩

theorem Warning.line?_eq {n : Nat} {label : String} {e : Event} (h : Warning n label e) :
    e.line? = some n := by
  simp [Event.line?, h.fields]

theorem Acceptance.line?_eq {n : Nat} {c : Column} {e : Event} (h : Acceptance n c e) :
    e.line? = some n := by
  simp [Event.line?, h.fields]

/-! ### One step -/

/-- Line `n` passes its check at a state, its label has no identifier, and an event warns of
that. -/
def WarnsAt (s : Progress) (n : Nat) (raw : String) (e : Event) : Prop :=
  ∃ p cursor, s.cursor.check n raw (tokens raw) = .ok (p, cursor) ∧ identifier? p.label = none ∧
    Warning n p.label e

/-- Line `n` is taken in at a state, and an event tells its column. -/
def AcceptsAt (s : Progress) (n : Nat) (raw : String) (e : Event) : Prop :=
  ∃ a s', (step s n raw).result = .ok (a, s') ∧ Acceptance n a.column e

section Step
variable {s s' : Progress} {n : Nat} {raw : String} {a : Accepted} {e : Event}

theorem step_events_of_check_error {err : SchemaError}
    (h : s.cursor.check n raw (tokens raw) = .error err) : (step s n raw).events = [] := by
  unfold step
  rw [h]

theorem step_events_of_check_ok {p : Placement} {cursor : Cursor}
    (h : s.cursor.check n raw (tokens raw) = .ok (p, cursor)) :
    (step s n raw).events = (s.names.give p.label n raw).events ++
      match (step s n raw).result with
      | .error _ => []
      | .ok (a, _) => [acceptedEvent n a.column] := by
  unfold step
  rw [h]
  simp only [Traced.andThen_events, Traced.andThen_result]
  rcases (s.names.give p.label n raw).result with ⟨err | named, names⟩
  · rfl
  · rfl

theorem logged_acceptsAt (s : Progress) (n : Nat) (raw : String) :
    Logged (AcceptsAt s n raw) (match (step s n raw).result with
      | .error _ => []
      | .ok (a, _) => [acceptedEvent n a.column]) := by
  cases hstep : (step s n raw).result with
  | error err =>
    refine .silent ?_
    rintro e ⟨a, s', hok, -⟩
    rw [hstep] at hok
    cases hok
  | ok taken => exact .once ⟨taken.1, taken.2, hstep, (acceptance_iff _ _ _).mpr rfl⟩

theorem logged_warnsAt {p : Placement} {cursor : Cursor}
    (h : s.cursor.check n raw (tokens raw) = .ok (p, cursor)) :
    Logged (WarnsAt s n raw) (s.names.give p.label n raw).events := by
  have hevents : (s.names.give p.label n raw).events
      = if (identifier? p.label).isNone then [Naming.fallbackEvent p.label n] else [] := rfl
  rw [hevents]
  by_cases hnone : identifier? p.label = none
  · rw [if_pos (Option.isNone_iff_eq_none.mpr hnone)]
    exact .once ⟨p, cursor, h, hnone, (warning_iff _ _ _).mpr rfl⟩
  · rw [if_neg fun hisNone => hnone (Option.isNone_iff_eq_none.mp hisNone)]
    refine .silent ?_
    rintro e ⟨p', cursor', hcheck, hnone', -⟩
    obtain ⟨rfl, -⟩ := Prod.mk.inj (Except.ok.inj (h.symm.trans hcheck))
    exact hnone hnone'

/-- **What a step reports**: the warning of its line, if there is one, and behind it the acceptance,
if there is one. -/
theorem step_log (s : Progress) (n : Nat) (raw : String) :
    ∃ warns accepts, (step s n raw).events = warns ++ accepts ∧ Logged (WarnsAt s n raw) warns ∧
      Logged (AcceptsAt s n raw) accepts := by
  cases hcheck : s.cursor.check n raw (tokens raw) with
  | error err =>
    refine ⟨[], [], step_events_of_check_error hcheck, .silent ?_, .silent ?_⟩
    · rintro e ⟨p, cursor, hok, -⟩
      rw [hcheck] at hok
      cases hok
    · rintro e ⟨a, s', hok, -⟩
      rw [step_result, hcheck] at hok
      cases hok
  | ok checked =>
    exact ⟨_, _, step_events_of_check_ok hcheck, logged_warnsAt hcheck, logged_acceptsAt s n raw⟩

theorem level_of_warnsAt (h : WarnsAt s n raw e) : e.level = .warn := by
  obtain ⟨p, -, -, -, hwarning⟩ := h
  exact hwarning.level

theorem level_of_acceptsAt (h : AcceptsAt s n raw e) : e.level = .debug := by
  obtain ⟨a, -, -, hacceptance⟩ := h
  exact hacceptance.level

/-- The warnings are the first part of what a step reports, the acceptances the second. -/
theorem atLevel_of_logged {warns accepts : List Event} (hwarns : Logged (WarnsAt s n raw) warns)
    (haccepts : Logged (AcceptsAt s n raw) accepts) :
    atLevel .warn (warns ++ accepts) = warns ∧ atLevel .debug (warns ++ accepts) = accepts := by
  have hfirst : ∀ e ∈ warns, e.level = .warn := fun e he => level_of_warnsAt (hwarns.of_mem he)
  have hsecond : ∀ e ∈ accepts, e.level = .debug :=
    fun e he => level_of_acceptsAt (haccepts.of_mem he)
  constructor
  · rw [atLevel_append, atLevel_eq_self hfirst, atLevel_eq_nil (by decide) hsecond,
      List.append_nil]
  · rw [atLevel_append, atLevel_eq_nil (by decide) hfirst, atLevel_eq_self hsecond,
      List.nil_append]

theorem line?_of_mem_step (he : e ∈ (step s n raw).events) : e.line? = some n := by
  obtain ⟨warns, accepts, hevents, hwarns, haccepts⟩ := step_log s n raw
  rw [hevents] at he
  rcases List.mem_append.mp he with he | he
  · obtain ⟨p, -, -, -, hwarning⟩ := hwarns.of_mem he
    exact hwarning.line?_eq
  · obtain ⟨a, -, -, hacceptance⟩ := haccepts.of_mem he
    exact hacceptance.line?_eq

theorem acceptances_of_step_error {err : SchemaError} (h : (step s n raw).result = .error err) :
    atLevel .debug (step s n raw).events = [] := by
  obtain ⟨warns, accepts, hevents, hwarns, haccepts⟩ := step_log s n raw
  rw [hevents, (atLevel_of_logged hwarns haccepts).2]
  refine haccepts.eq_nil ?_
  rintro e ⟨a, s', hok, -⟩
  rw [h] at hok
  cases hok

theorem acceptances_of_step (h : (step s n raw).result = .ok (a, s')) :
    atLevel .debug (step s n raw).events = [acceptedEvent n a.column] := by
  obtain ⟨warns, accepts, hevents, hwarns, haccepts⟩ := step_log s n raw
  rw [hevents, (atLevel_of_logged hwarns haccepts).2]
  refine haccepts.eq_singleton ⟨a, s', h, (acceptance_iff _ _ _).mpr rfl⟩ ?_
  rintro e ⟨b, t, hok, hacceptance⟩
  obtain ⟨rfl, -⟩ := Prod.mk.inj (Except.ok.inj (h.symm.trans hok))
  exact (acceptance_iff _ _ _).mp hacceptance

/-- **A warning and a finding of the same line and label.** -/
def Echoes (e : Event) (d : Diagnostic) : Prop :=
  ∃ n label, Warning n label e ∧ d = Diagnostic.fallback n label fallbackName

theorem warnings_of_step (h : (step s n raw).result = .ok (a, s')) :
    List.Forall₂ Echoes (atLevel .warn (step s n raw).events) a.finding.toList := by
  obtain ⟨warns, accepts, hevents, hwarns, haccepts⟩ := step_log s n raw
  rw [hevents, (atLevel_of_logged hwarns haccepts).1]
  obtain ⟨p, cursor, hcheck, -, -, rfl, -⟩ := (step_eq_ok_iff _ _ _ _ _).mp h
  -- the label is made opaque, since its name cannot be computed
  generalize hlabel : p.label = label
  by_cases hnone : identifier? label = none
  · have hwarning : Warning n label (Naming.fallbackEvent label n) := (warning_iff _ _ _).mpr rfl
    have hone : warns = [Naming.fallbackEvent label n] := by
      refine hwarns.eq_singleton ⟨p, cursor, hcheck, hlabel ▸ hnone, hlabel ▸ hwarning⟩ ?_
      rintro e ⟨q, cursor', hcheck', -, hwarning'⟩
      obtain ⟨rfl, -⟩ := Prod.mk.inj (Except.ok.inj (hcheck.symm.trans hcheck'))
      exact hlabel ▸ (warning_iff _ _ _).mp hwarning'
    have hname : nameOf label = fallbackName := by rw [nameOf, hnone, Option.getD_none]
    simp only [hone, accept, hlabel, hnone, hname, Option.isNone_none, if_true, Option.toList_some]
    exact .cons ⟨n, label, hwarning, rfl⟩ .nil
  · have hnil : warns = [] := by
      refine hwarns.eq_nil ?_
      rintro e ⟨q, cursor', hcheck', hnone', -⟩
      obtain ⟨rfl, -⟩ := Prod.mk.inj (Except.ok.inj (hcheck.symm.trans hcheck'))
      exact hnone (hlabel ▸ hnone')
    have hsome : (identifier? label).isNone = false := by
      simpa [← Option.isNone_iff_eq_none] using hnone
    simp only [hnil, accept, hsome, Bool.false_eq_true, if_false, Option.toList_none]
    exact .nil

end Step

/-! ### Runs -/

/-- The compiler gets to the line at index `i` in state `t`: a run covers the lines before it. -/
def Reaches (s : Progress) (n : Nat) (raws : List String) (i : Nat) (t : Progress) : Prop :=
  ∃ as, Run s n (raws.take i) as t

/-- **What the line at index `i` leaves in the log**: a warning exactly when the line is reached and
passes its check and its label has no identifier, and behind it an acceptance exactly when the line
is reached and taken in. -/
def LineLog (s : Progress) (n : Nat) (raws : List String) (i : Nat) (raw : String)
    (events : List Event) : Prop :=
  ∃ warns accepts, events = warns ++ accepts ∧
    Logged (fun e => ∃ t, Reaches s n raws i t ∧ WarnsAt t (n + i) raw e) warns ∧
    Logged (fun e => ∃ t, Reaches s n raws i t ∧ AcceptsAt t (n + i) raw e) accepts

section Runs
variable {s s' t : Progress} {n i : Nat} {raw : String} {raws : List String} {a : Accepted}
  {as : List Accepted}

theorem reaches_zero_iff : Reaches s n raws 0 t ↔ t = s := by
  constructor
  · rintro ⟨as, hrun⟩
    cases hrun
    rfl
  · rintro rfl
    exact ⟨[], Run.nil t n⟩

theorem reaches_succ_iff (h : (step s n raw).result = .ok (a, s')) :
    Reaches s n (raw :: raws) (i + 1) t ↔ Reaches s' (n + 1) raws i t := by
  constructor
  · rintro ⟨as, hrun⟩
    cases hrun with
    | cons head tail =>
      obtain ⟨rfl, rfl⟩ := Prod.mk.inj (Except.ok.inj (h.symm.trans head))
      exact ⟨_, tail⟩
  · rintro ⟨as, hrun⟩
    exact ⟨a :: as, Run.cons h hrun⟩

theorem not_reaches_succ {err : SchemaError} (h : (step s n raw).result = .error err) :
    ¬ Reaches s n (raw :: raws) (i + 1) t := by
  rintro ⟨as, hrun⟩
  cases hrun with
  | cons head tail =>
    rw [h] at head
    cases head

/-- The first line is always reached, in the state the run starts from. -/
theorem lineLog_head (s : Progress) (n : Nat) (raw : String) (raws : List String) :
    LineLog s n (raw :: raws) 0 raw (step s n raw).events := by
  obtain ⟨warns, accepts, hevents, hwarns, haccepts⟩ := step_log s n raw
  refine ⟨warns, accepts, hevents, hwarns.congr fun e => ?_, haccepts.congr fun e => ?_⟩
  · simp only [reaches_zero_iff, exists_eq_left, Nat.add_zero]
  · simp only [reaches_zero_iff, exists_eq_left, Nat.add_zero]

theorem lineLog_tail {line : String} {events : List Event}
    (h : (step s n raw).result = .ok (a, s')) (hlog : LineLog s' (n + 1) raws i line events) :
    LineLog s n (raw :: raws) (i + 1) line events := by
  obtain ⟨warns, accepts, hevents, hwarns, haccepts⟩ := hlog
  have hnumber : n + (i + 1) = n + 1 + i := by omega
  refine ⟨warns, accepts, hevents, hwarns.congr fun e => ?_, haccepts.congr fun e => ?_⟩
  · simp only [reaches_succ_iff h, hnumber]
  · simp only [reaches_succ_iff h, hnumber]

/-- Behind a line that is refused nothing is reported. -/
theorem lineLog_behind_error {line : String} {err : SchemaError}
    (h : (step s n raw).result = .error err) : LineLog s n (raw :: raws) (i + 1) line [] := by
  refine ⟨[], [], rfl, .silent ?_, .silent ?_⟩
  · rintro e ⟨t, hreaches, -⟩
    exact not_reaches_succ h hreaches
  · rintro e ⟨t, hreaches, -⟩
    exact not_reaches_succ h hreaches

/-- The log of the first line goes before those of the others. -/
theorem lineLog_cons {groups : List (List Event)}
    (htail : ∀ (i : Nat) line group, raws[i]? = some line → groups[i]? = some group →
      LineLog s n (raw :: raws) (i + 1) line group) {i : Nat} {line : String} {group : List Event}
    (hline : (raw :: raws)[i]? = some line)
    (hgroup : ((step s n raw).events :: groups)[i]? = some group) :
    LineLog s n (raw :: raws) i line group := by
  cases i with
  | zero =>
    obtain rfl := Option.some.inj hline
    obtain rfl := Option.some.inj hgroup
    exact lineLog_head s n raw raws
  | succ i => exact htail i line group hline hgroup

theorem acceptFrom_cons_events (s : Progress) (n : Nat) (raw : String) (raws : List String) :
    (acceptFrom s n (raw :: raws)).events = (step s n raw).events ++
      match (step s n raw).result with
      | .error _ => []
      | .ok (_, s') => (acceptFrom s' (n + 1) raws).events := by
  rw [acceptFrom, Traced.andThen_events]
  cases (step s n raw).result with
  | error err => rfl
  | ok taken => rfl

/-- **The log of a compilation, line by line.** -/
theorem acceptFrom_log (s : Progress) (n : Nat) (raws : List String) :
    ∃ groups : List (List Event), groups.length = raws.length ∧
      (acceptFrom s n raws).events = groups.flatten ∧
      ∀ (i : Nat) raw group, raws[i]? = some raw → groups[i]? = some group →
        LineLog s n raws i raw group := by
  induction raws generalizing s n with
  | nil => exact ⟨[], rfl, rfl, fun i raw group hraw => by cases hraw⟩
  | cons raw raws ih =>
    rw [acceptFrom_cons_events]
    cases hstep : (step s n raw).result with
    | error err =>
      refine ⟨(step s n raw).events :: List.replicate raws.length [], by simp, by simp, ?_⟩
      refine fun _ _ _ => lineLog_cons fun i line group _ hgroup => ?_
      rw [List.getElem?_replicate] at hgroup
      obtain ⟨-, hnil⟩ := Option.ite_none_right_eq_some.mp hgroup
      obtain rfl := Option.some.inj hnil
      exact lineLog_behind_error hstep
    | ok taken =>
      obtain ⟨a, s'⟩ := taken
      obtain ⟨groups, hlength, hflatten, hlog⟩ := ih s' (n + 1)
      refine ⟨(step s n raw).events :: groups, by simp [hlength], by simp [hflatten], ?_⟩
      exact fun _ _ _ => lineLog_cons fun i line group hline hgroup =>
        lineLog_tail hstep (hlog i line group hline hgroup)

theorem line?_of_lineLog {events : List Event} (h : LineLog s n raws i raw events) {e : Event}
    (he : e ∈ events) : e.line? = some (n + i) := by
  obtain ⟨warns, accepts, rfl, hwarns, haccepts⟩ := h
  rcases List.mem_append.mp he with he | he
  · obtain ⟨t, -, p, -, -, -, hwarning⟩ := hwarns.of_mem he
    exact hwarning.line?_eq
  · obtain ⟨t, -, b, -, -, hacceptance⟩ := haccepts.of_mem he
    exact hacceptance.line?_eq

/-- Every event is about one of the lines. -/
theorem line?_of_mem_acceptFrom {e : Event} (he : e ∈ (acceptFrom s n raws).events) :
    ∃ m, e.line? = some m ∧ m < n + raws.length := by
  obtain ⟨groups, hlength, hflatten, hlog⟩ := acceptFrom_log s n raws
  rw [hflatten] at he
  obtain ⟨group, hgroup, he⟩ := List.mem_flatten.mp he
  obtain ⟨i, hi⟩ := List.mem_iff_getElem?.mp hgroup
  have hlt : i < raws.length := hlength ▸ (List.getElem?_eq_some_iff.mp hi).1
  exact ⟨n + i, line?_of_lineLog (hlog i _ group (List.getElem?_eq_getElem hlt) hi) he, by omega⟩

/-- A run reports first, and the lines behind it go on from the state it reaches. -/
theorem Run.events_append (h : Run s n raws as s') (rest : List String) :
    (acceptFrom s n (raws ++ rest)).events =
      (acceptFrom s n raws).events ++ (acceptFrom s' (n + raws.length) rest).events := by
  induction h with
  | nil s n => rfl
  | @cons s s₁ s'' n raw raws a as head tail ih =>
    rw [List.cons_append, acceptFrom_cons_events, acceptFrom_cons_events, head]
    simp only
    rw [ih, List.append_assoc, List.length_cons,
      show n + 1 + raws.length = n + (raws.length + 1) from by omega]

/-- **The acceptances of a run are its columns**, with the numbers of their lines. -/
theorem Run.acceptances (h : Run s n raws as s') :
    atLevel .debug (acceptFrom s n raws).events =
      ((as.map Accepted.column).zipIdx n).map fun q => acceptedEvent q.2 q.1 := by
  induction h with
  | nil s n => rfl
  | cons head tail ih =>
    rw [acceptFrom_cons_events, head]
    simp only
    rw [atLevel_append, acceptances_of_step head, ih]
    rfl

/-- **The warnings of a run are its findings.** -/
theorem Run.warnings (h : Run s n raws as s') :
    List.Forall₂ Echoes (atLevel .warn (acceptFrom s n raws).events)
      (as.filterMap Accepted.finding) := by
  induction h with
  | nil s n => exact .nil
  | @cons s s₁ s'' n raw raws a as head tail ih =>
    have hfindings : (a :: as).filterMap Accepted.finding
        = a.finding.toList ++ as.filterMap Accepted.finding := by
      cases hfinding : a.finding with
      | none => rw [List.filterMap_cons_none hfinding]; rfl
      | some d => rw [List.filterMap_cons_some hfinding]; rfl
    rw [acceptFrom_cons_events, head, hfindings]
    simp only
    rw [atLevel_append]
    exact List.rel_append (warnings_of_step head) ih

end Runs

/-! ### Whole compilations -/

section Whole
variable {reserved : ReservedWords} {raws : List String}

theorem ofLines_events (reserved : ReservedWords) (raws : List String) :
    (ofLines reserved raws).events = (acceptFrom (initial reserved) 1 raws).events := rfl

theorem ofLines_events_of_ok {c : Compilation} (h : (ofLines reserved raws).result = .ok c) :
    List.Forall₂ (fun (q : Column × Nat) e => Acceptance q.2 q.1 e) (c.layout.columns.zipIdx 1)
        (atLevel .debug (ofLines reserved raws).events) ∧
      List.Forall₂ Echoes (atLevel .warn (ofLines reserved raws).events) c.diagnostics.items := by
  obtain ⟨-, as, s, hrun, rfl⟩ := ofLines_eq_ok_iff.mp h
  rw [ofLines_events, hrun.acceptances]
  refine ⟨?_, hrun.warnings⟩
  exact List.forall₂_map_right_iff.mpr
    (List.forall₂_same.mpr fun q _ => (acceptance_iff _ _ _).mpr rfl)

theorem ofLines_events_of_error {err : SchemaError} {k : Nat}
    (h : (ofLines reserved raws).result = .error err) (hk : err.line? = some k) :
    (atLevel .debug (ofLines reserved raws).events).length = k - 1 ∧
      ∀ e ∈ (ofLines reserved raws).events, ∃ m, e.line? = some m ∧ m ≤ k := by
  obtain ⟨before, raw, after, as, s, rfl, rfl, -, hrun, herr⟩ := step_error_of_line h hk
  -- the log of the lines that were taken in, and then what the refused line left
  have hevents : (ofLines reserved (before ++ raw :: after)).events =
      (acceptFrom (initial reserved) 1 before).events ++
        (step s (1 + before.length) raw).events := by
    rw [ofLines_events, hrun.events_append, acceptFrom_cons_events, herr]
    simp only [List.append_nil]
  rw [hevents]
  constructor
  · rw [atLevel_append, acceptances_of_step_error herr, hrun.acceptances]
    simp [hrun.length_eq]
  · intro e he
    rcases List.mem_append.mp he with he | he
    · obtain ⟨m, hm, hlt⟩ := line?_of_mem_acceptFrom he
      exact ⟨m, hm, by omega⟩
    · exact ⟨1 + before.length, line?_of_mem_step he, by omega⟩

end Whole

end Compilation

/-- A skipped line is reported with the number and the message of its finding. -/
theorem Reading.events_match (l : Layout) (lines : List String) :
    List.Forall₂ (fun (e : Event) (d : Diagnostic) => e.line? = some d.line ∧ e.message = d.message)
      (atLevel .warn (Reading.ofLines l lines).events)
      ((Reading.ofLines l lines).result.diagnostics.items.filter
        fun d => d.code.code = "W002") := by
  have hwarn : atLevel .warn (reportsFrom l 1 lines) = reportsFrom l 1 lines := by
    refine atLevel_eq_self fun e he => ?_
    obtain ⟨q, -, rfl⟩ := List.mem_map.mp he
    rfl
  have hcode : (findingsFrom l 1 lines).filter (fun d => d.code.code = "W002")
      = findingsFrom l 1 lines := by
    refine List.filter_eq_self.mpr fun d hd => ?_
    obtain ⟨q, -, rfl⟩ := List.mem_map.mp hd
    rfl
  rw [ofLines_eq]
  simp only [hwarn, hcode]
  exact List.forall₂_map_left_iff.mpr
    (List.forall₂_map_right_iff.mpr (List.forall₂_same.mpr fun q _ => ⟨rfl, rfl⟩))

open Compilation

/-- **Events agree with results.**  A compilation reports its lines in order: a warning for a line
that is reached and passes its check while its label has no identifier, behind it an acceptance for
a line that is taken in, and nothing else.  When it succeeds, the acceptances are the columns of the
layout with the numbers of their lines, and the warnings are the findings.  When line `k` is
refused, there are `k - 1` acceptances and no event of a later line.  Reading a text warns of the
lines it skips, one warning a finding, in the same order and with the same line. -/
theorem events_agree_with_results (reserved : ReservedWords) (raws : List String) (l : Layout)
    (data : String) :
    (∃ groups : List (List Event), groups.length = raws.length ∧
      (ofLines reserved raws).events = groups.flatten ∧
      ∀ (i : Nat) raw group, raws[i]? = some raw → groups[i]? = some group →
        LineLog (initial reserved) 1 raws i raw group) ∧
    (∀ c, (ofLines reserved raws).result = .ok c →
      List.Forall₂ (fun (q : Column × Nat) e => Acceptance q.2 q.1 e) (c.layout.columns.zipIdx 1)
        (atLevel .debug (ofLines reserved raws).events) ∧
      List.Forall₂ Echoes (atLevel .warn (ofLines reserved raws).events) c.diagnostics.items) ∧
    (∀ err k, (ofLines reserved raws).result = .error err → err.line? = some k →
      (atLevel .debug (ofLines reserved raws).events).length = k - 1 ∧
      ∀ e ∈ (ofLines reserved raws).events, ∃ m, e.line? = some m ∧ m ≤ k) ∧
    List.Forall₂ (fun (e : Event) (d : Diagnostic) => e.line? = some d.line ∧ e.message = d.message)
      (atLevel .warn (Reading.ofText l data).events)
      ((Reading.ofText l data).result.diagnostics.items.filter fun d => d.code.code = "W002") :=
  ⟨acceptFrom_log (initial reserved) 1 raws, fun _ h => ofLines_events_of_ok h,
    fun _ _ h hk => ofLines_events_of_error h hk, Reading.events_match l (Text.lines data)⟩

/-- The label of the second line has no identifier and the name it would get is taken: the line is
warned of and refused.  The same label on a first line is warned of and taken in. -/
theorem events_agree_with_results_refused_warning :
    (ofLines .empty ["unknown 1 2", "## 3 4", "b 5 6"]).result
        = .error (.duplicate "unknown" 2 "## 3 4") ∧
      (ofLines .empty ["unknown 1 2", "## 3 4", "b 5 6"]).events
        = [acceptedEvent 1 ⟨"unknown", 1, 2⟩, Naming.fallbackEvent "##" 2] ∧
      (atLevel .debug (ofLines .empty ["unknown 1 2", "## 3 4", "b 5 6"]).events).length = 2 - 1 ∧
      (∃ e, atLevel .warn (ofLines .empty ["## 3 4"]).events = [e] ∧
        Echoes e (Diagnostic.fallback 1 "##" "unknown")) := by
  have herr : (ofLines .empty ["unknown 1 2", "## 3 4", "b 5 6"]).result
      = .error (.duplicate "unknown" 2 "## 3 4") := by decide +kernel
  have hevents : (ofLines .empty ["unknown 1 2", "## 3 4", "b 5 6"]).events
      = [acceptedEvent 1 ⟨"unknown", 1, 2⟩, Naming.fallbackEvent "##" 2] := by decide +kernel
  have hok : (ofLines .empty ["## 3 4"]).result
      = .ok ⟨⟨[⟨"unknown", 3, 4⟩]⟩, ⟨[Diagnostic.fallback 1 "##" "unknown"]⟩⟩ := by decide +kernel
  obtain ⟨-, -, hrefused, -⟩ :=
    events_agree_with_results .empty ["unknown 1 2", "## 3 4", "b 5 6"] ⟨[]⟩ ""
  obtain ⟨-, htaken, -, -⟩ := events_agree_with_results .empty ["## 3 4"] ⟨[]⟩ ""
  obtain ⟨e, rest, hecho, hrest, he⟩ := List.forall₂_cons_right_iff.mp (htaken _ hok).2
  cases hrest
  exact ⟨herr, hevents, (hrefused _ 2 herr rfl).1, e, he, hecho⟩

end FlatFile
