import FlatFile.Proofs.EncodedLines

/-!
# Either line end will do

A line may end in `\n` or in `\r\n`, and a text may mix the two.  `LongerEnds` says that some of the
line ends of a text were made longer, whichever they are.  As long as the text has no `\r` of its
own, it still has the same lines (`LongerEnds.cutLines_eq`), and with them it is the same schema and
the same data.

A `\r` of its own does matter: right before an end it is part of that end, until the end brings one
along.
-/

namespace FlatFile.Text

section LongerEnds
variable {α : Type} [DecidableEq α] {lf cr : α} {s s' : List α}

/-- **Some line ends were made longer**: in front of any of the `lf` of a sequence a `cr` was put,
and all else was kept. -/
inductive LongerEnds (lf cr : α) : List α → List α → Prop where
  | nil : LongerEnds lf cr [] []
  | kept (a : α) {s s' : List α} (tail : LongerEnds lf cr s s') :
      LongerEnds lf cr (a :: s) (a :: s')
  | longer {s s' : List α} (tail : LongerEnds lf cr s s') :
      LongerEnds lf cr (lf :: s) (cr :: lf :: s')

/-- **Longer ends leave the lines as they were.** -/
theorem LongerEnds.cutLines_eq (h : LongerEnds lf cr s s') (hends : lf ≠ cr) (hplain : cr ∉ s) :
    cutLines lf cr s' = cutLines lf cr s := by
  induction h with
  | nil => rfl
  | @kept a s s' tail ih =>
    obtain ⟨hcr, hplain⟩ := List.ne_and_not_mem_of_not_mem_cons hplain
    by_cases hlf : a = lf
    · rw [cutLines, if_pos hlf, cutLines, if_pos hlf, ih hplain]
    · -- an element that is no part of an end goes to the first line of what follows
      have hfirst := @cutLines_append_of_not_mem α _ lf cr [a] (by simp)
        (by simpa using Ne.symm hlf) (by simpa using hcr)
      simp only [List.singleton_append] at hfirst
      rw [hfirst s', hfirst s, ih hplain]
  | @longer s s' tail ih =>
    have hpair : cutLines lf cr (cr :: lf :: s') = cutLines lf cr (lf :: s') := by
      rw [cutLines, if_neg hends.symm, if_pos ⟨rfl, rfl⟩]
    rw [hpair, cutLines, if_pos rfl, cutLines, if_pos rfl, ih (List.not_mem_of_not_mem_cons hplain)]

end LongerEnds

theorem lines_of_longerEnds {t t' : String} (h : LongerEnds '\n' '\r' t.toList t'.toList)
    (hplain : '\r' ∉ t.toList) : lines t' = lines t := by
  rw [lines, lines, h.cutLines_eq (by decide) hplain]

end FlatFile.Text

namespace FlatFile
open Schema

/-- **Line ends do not matter.**  A text without `\r` and the same text with `\r\n` for some of its
line ends, whichever they are, compile to the same layout with the same findings, or fail with the
same error and the same raw line, under any reserved words; and any layout reads the same records
from them, with the same findings.  The reports on the way are the same too. -/
theorem ofText_longer_ends {t t' : String} (hplain : '\r' ∉ t.toList)
    (h : Text.LongerEnds '\n' '\r' t.toList t'.toList) :
    (∀ reserved : ReservedWords, Compilation.ofText reserved t' = Compilation.ofText reserved t) ∧
      ∀ layout : Layout, Reading.ofText layout t' = Reading.ofText layout t := by
  have hlines := Text.lines_of_longerEnds h hplain
  refine ⟨fun reserved => ?_, fun layout => ?_⟩
  · rw [Compilation.ofText, Compilation.ofText, hlines]
  · rw [Reading.ofText, Reading.ofText, hlines]

/-- Two lines, of which the first one got the longer end: as a schema its first line is refused as
it stands without the end, and as data it is the one that is skipped. -/
theorem ofText_longer_ends_first_line :
    Text.LongerEnds '\n' '\r' "a 1\nb 2 3\n".toList "a 1\r\nb 2 3\n".toList ∧
      (Compilation.ofText (.ofList []) "a 1\r\nb 2 3\n").result
        = .error (.invalidLine 1 "a 1") ∧
      (Reading.ofText ⟨[⟨"x", 1, 5⟩]⟩ "a 1\r\nb 2 3\n").result
        = ⟨[⟨[("x", "b 2 3")]⟩], ⟨[.malformed 1 "a 1"]⟩⟩ := by
  have h : Text.LongerEnds '\n' '\r' "a 1\nb 2 3\n".toList "a 1\r\nb 2 3\n".toList :=
    .kept _ <| .kept _ <| .kept _ <| .longer <| .kept _ <| .kept _ <| .kept _ <| .kept _ <|
      .kept _ <| .kept _ .nil
  obtain ⟨hcompile, hread⟩ := ofText_longer_ends (by decide) h
  refine ⟨h, ?_, ?_⟩
  · rw [hcompile]
    rfl
  · rw [hread]
    decide

end FlatFile
