import FlatFile.Proofs.EditScripts

/-!
# A line diff describes an edit

What a diff prints is read here without the search that found it.  The lines of a text are said
without cutting it (`Text.KeptLines`), and so is what a list of changes prints (`Printed`).  Then a
diff prints changes whose kept and removed lines are the lines of the old text, and whose kept and
added lines are those of the new one.

Two consequences need no more than this: a diff that prints nothing is of a text with itself, and a
diff from the empty text adds every line (`changes_nil_left`), since there is no old line that a
change could keep or remove.  That a text and itself have an empty diff is the one fact about the
search: the common start takes in everything, and a script without edits is tidy (`changes_self`).
-/

namespace FlatFile.Text

/-- **What ends a line** in front of `rest`: `\n`, `\r\n`, or a `\r` that no `\n` follows. -/
inductive LineEnd (rest : List Char) : List Char → Prop where
  | newline : LineEnd rest ['\n']
  | pair : LineEnd rest ['\r', '\n']
  | lone (alone : rest.head? ≠ some '\n') : LineEnd rest ['\r']

/-- **A text and its lines with their ends.**  Inside a line stands neither `\n` nor `\r`; what
follows the last line end is a line unless it is empty. -/
inductive KeptLines : List Char → List (List Char) → Prop where
  | nil : KeptLines [] []
  | last {line : List Char} (ne : line ≠ []) (plain : ∀ c ∈ line, c ≠ '\n' ∧ c ≠ '\r') :
      KeptLines line [line]
  | ended {line stop rest : List Char} {lines : List (List Char)}
      (plain : ∀ c ∈ line, c ≠ '\n' ∧ c ≠ '\r') (stops : LineEnd rest stop)
      (tail : KeptLines rest lines) : KeptLines (line ++ (stop ++ rest)) ((line ++ stop) :: lines)

/-- The lines are all of the text. -/
theorem KeptLines.flatten_eq {s : List Char} {lines : List (List Char)} (h : KeptLines s lines) :
    lines.flatten = s := by
  induction h with
  | nil => rfl
  | last => simp
  | ended _ _ _ ih => rw [List.flatten_cons, ih, List.append_assoc]

/-- A character that is no part of a line end goes to the first line. -/
theorem KeptLines.cons {s : List Char} {lines : List (List Char)} {c : Char}
    (hc : c ≠ '\n' ∧ c ≠ '\r') :
    KeptLines s lines → KeptLines (c :: s) (match lines with
      | [] => [[c]]
      | line :: rest => (c :: line) :: rest) := by
  intro h
  have hplain {line : List Char} (plain : ∀ d ∈ line, d ≠ '\n' ∧ d ≠ '\r') :
      ∀ d ∈ c :: line, d ≠ '\n' ∧ d ≠ '\r' := by
    intro d hd
    rcases List.mem_cons.mp hd with rfl | hd
    · exact hc
    · exact plain d hd
  cases h with
  | nil => exact .last (by simp) (hplain (by simp))
  | last ne plain => exact .last (by simp) (hplain plain)
  | @ended line stop rest lines plain stops tail =>
    exact @KeptLines.ended (c :: line) stop rest lines (hplain plain) stops tail

theorem keptLines_keepLines (s : List Char) : KeptLines s (keepLines s) := by
  -- a pair of `\r` and `\n` is taken in one step, so the induction is on the length
  induction hn : s.length using Nat.strong_induction_on generalizing s with
  | _ n ih =>
    match s with
    | [] => exact .nil
    | c :: s =>
      rw [List.length_cons] at hn
      rw [keepLines]
      by_cases hend : c = '\n' ∨ (c = '\r' ∧ s.head? ≠ some '\n')
      · rw [if_pos hend]
        have htail := ih s.length (by omega) s rfl
        rcases hend with rfl | ⟨rfl, halone⟩
        · exact @KeptLines.ended [] ['\n'] s _ (by simp) .newline htail
        · exact @KeptLines.ended [] ['\r'] s _ (by simp) (.lone halone) htail
      · rw [if_neg hend]
        rw [not_or, not_and_or, not_not] at hend
        obtain ⟨hlf, hcr | hpair⟩ := hend
        · have hrest := KeptLines.cons ⟨hlf, hcr⟩ (ih s.length (by omega) s rfl)
          cases hkeep : keepLines s <;> rw [hkeep] at hrest <;> exact hrest
        · obtain ⟨rest, rfl⟩ := List.head?_eq_some_iff.mp hpair
          rw [List.length_cons] at hn
          have htail := ih rest.length (by omega) rest rfl
          rw [keepLines, if_pos (Or.inl rfl)]
          by_cases hcr : c = '\r'
          · rw [hcr]
            exact @KeptLines.ended [] ['\r', '\n'] rest _ (by simp) .pair htail
          · exact @KeptLines.ended [c] ['\n'] rest _ (by simpa using ⟨hlf, hcr⟩) .newline htail

end FlatFile.Text

namespace FlatFile.Diff

/-! ### What is printed -/

/-- **A line as it is shown**: a newline is added exactly when the line does not end in one. -/
def Shown (line shown : List Char) : Prop :=
  ((∃ body, line = body ++ ['\n']) ∧ shown = line) ∨
    ((¬ ∃ body, line = body ++ ['\n']) ∧ shown = line ++ ['\n'])

/-- **What changes of lines print**: nothing for a line that is kept, `-` and the line for one that
is removed, `+` and the line for one that is added. -/
inductive Printed : List (Change (List Char)) → List Char → Prop where
  | nil : Printed [] []
  | keep {line text : List Char} {cs : List (Change (List Char))} (tail : Printed cs text) :
      Printed (.keep line :: cs) text
  | remove {line shown text : List Char} {cs : List (Change (List Char))}
      (shows : Shown line shown) (tail : Printed cs text) :
      Printed (.remove line :: cs) ('-' :: (shown ++ text))
  | add {line shown text : List Char} {cs : List (Change (List Char))}
      (shows : Shown line shown) (tail : Printed cs text) :
      Printed (.add line :: cs) ('+' :: (shown ++ text))

theorem signed_eq (sign : Char) (line : List Char) :
    ∃ shown, Shown line shown ∧ signed sign line = sign :: shown := by
  by_cases hend : line.getLast? = some '\n'
  · refine ⟨line, Or.inl ⟨List.getLast?_eq_some_iff.mp hend, rfl⟩, ?_⟩
    simp [signed, hend]
  · refine ⟨line ++ ['\n'], Or.inr ⟨fun h => hend (List.getLast?_eq_some_iff.mpr h), rfl⟩, ?_⟩
    simp [signed, hend]

theorem printed_flatMap (cs : List (Change (List Char))) :
    Printed cs (cs.flatMap Change.print) := by
  induction cs with
  | nil => exact .nil
  | cons c cs ih =>
    rw [List.flatMap_cons]
    cases c with
    | keep line => exact .keep ih
    | remove line =>
      obtain ⟨shown, hshown, hsigned⟩ := signed_eq '-' line
      rw [show (Change.remove line).print = '-' :: shown from hsigned, List.cons_append]
      exact .remove hshown ih
    | add line =>
      obtain ⟨shown, hshown, hsigned⟩ := signed_eq '+' line
      rw [show (Change.add line).print = '+' :: shown from hsigned, List.cons_append]
      exact .add hshown ih

theorem toList_lineDiff (old new : String) :
    (lineDiff old new).toList
      = (changes (Text.keepLines old.toList) (Text.keepLines new.toList)).flatMap Change.print :=
  String.toList_ofList

/-! ### Nothing to change, and nothing to start from -/

section Sequences
variable {α : Type} [DecidableEq α]

theorem commonStart_self (xs : List α) : commonStart xs xs = xs.length := by
  induction xs with
  | nil => rfl
  | cons x xs ih => simp [commonStart, ih]

theorem script_self (xs : List α) : script xs xs = keep xs := by
  have hends : ends xs xs = ⟨xs, [], [], []⟩ := by
    simp [ends, commonStart_self]
  rw [script_eq, hends]
  simp [between, keep]

/-- A sweep that selects none of the blocks leaves them as they are. -/
theorem sweepAux_of_none {moves : Block α → Bool} (fuel : Nat) (before after : List (Block α))
    (h : ∀ b ∈ after, moves b = false) :
    sweepAux moves fuel before after = before.reverse ++ after := by
  induction fuel generalizing before after with
  | zero => rfl
  | succ fuel ih =>
    cases after with
    | nil => rw [sweepAux, List.append_nil]
    | cons this after =>
      rw [sweepAux, if_neg (by simp [h this List.mem_cons_self]),
        ih _ _ (fun b hb => h b (List.mem_cons_of_mem this hb)), List.reverse_cons,
        List.append_assoc, List.singleton_append]

/-- A script without edits is tidy. -/
theorem compact_keep (xs : List α) : compact (keep xs) = keep xs := by
  have hkept : ∀ b ∈ keep xs, b = .equal xs := by
    intro b hb
    rw [keep] at hb
    split at hb
    · cases hb
    · exact List.mem_singleton.mp hb
  have hsweep : ∀ moves : Block α → Bool, moves (.equal xs) = false →
      sweep moves (keep xs) = keep xs := by
    intro moves hmoves
    exact sweepAux_of_none _ [] _ fun b hb => by rw [hkept b hb, hmoves]
  rw [compact, hsweep _ rfl, hsweep _ rfl]

/-- **From a sequence to itself everything is kept.** -/
theorem changes_self (xs : List α) : changes xs xs = xs.map .keep := by
  rw [changes, script_self, compact_keep, keep]
  by_cases hxs : xs.isEmpty = true
  · rw [if_pos hxs, List.isEmpty_iff.mp hxs]
    rfl
  · rw [if_neg hxs]
    simp [changesFrom]

/-- **From nothing everything is added**: there is no old element to keep or to remove. -/
theorem changes_nil_left (new : List α) : changes [] new = new.map .add := by
  have hadd : ∀ c ∈ changes [] new, c.old? = none := by
    simpa using changes_old [] new
  have hnew : ∀ c ∈ changes [] new, c.new?.map Change.add = some c := by
    intro c hc
    cases c with
    | add => rfl
    | keep | remove => cases hadd _ hc
  calc changes [] new
      = (changes [] new).filterMap (fun c => c.new?.map Change.add) := by
        rw [List.filterMap_congr hnew, List.filterMap_some]
    _ = ((changes [] new).filterMap Change.new?).map .add := by
        rw [List.map_filterMap]
    _ = new.map .add := by rw [changes_new]

end Sequences

theorem lineDiff_self (text : String) : lineDiff text text = "" := by
  have hnone : (((Text.keepLines text.toList).map Change.keep).flatMap Change.print) = [] := by
    simp [Change.print]
  rw [lineDiff, changes_self, hnone, String.ofList_nil]

/-- **A line diff describes an edit.**  There are changes, line by line, of which those that keep or
remove are the lines of the old text and those that keep or add are the lines of the new one, both
with nothing lost of the text; the diff prints the removed and the added lines in order, each with
its sign, and adds a newline only to a line that does not end in one.  The diff is empty exactly
when the texts are the same, and from the empty text it adds every line of the new one in order. -/
theorem lineDiff_describes_edit (old new : String) :
    (∃ cs : List (Change (List Char)),
      Text.KeptLines old.toList (cs.filterMap Change.old?) ∧
      (cs.filterMap Change.old?).flatten = old.toList ∧
      Text.KeptLines new.toList (cs.filterMap Change.new?) ∧
      (cs.filterMap Change.new?).flatten = new.toList ∧
      Printed cs (lineDiff old new).toList) ∧
    (lineDiff old new = "" ↔ old = new) ∧
    ∃ lines, Text.KeptLines new.toList lines ∧ lines.flatten = new.toList ∧
      Printed (lines.map .add) (lineDiff "" new).toList := by
  have hold := Text.keptLines_keepLines old.toList
  have hnew := Text.keptLines_keepLines new.toList
  refine ⟨⟨changes (Text.keepLines old.toList) (Text.keepLines new.toList), ?_⟩, ⟨?_, ?_⟩,
    ⟨Text.keepLines new.toList, hnew, hnew.flatten_eq, ?_⟩⟩
  · rw [changes_old, changes_new, toList_lineDiff]
    exact ⟨hold, hold.flatten_eq, hnew, hnew.flatten_eq, printed_flatMap _⟩
  · exact eq_of_lineDiff_eq_empty
  · rintro rfl
    exact lineDiff_self old
  · have hempty : Text.keepLines ("" : String).toList = [] := rfl
    rw [toList_lineDiff, hempty, changes_nil_left]
    exact printed_flatMap _

-- a line that a lone `\r` ends is shown with a newline behind it
example : lineDiff "a\rb" "b\n" = "-a\r\n-b\n+b\n" := by decide +kernel

end FlatFile.Diff
