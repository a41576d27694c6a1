import Mathlib

/-!
# Histories with refusals

A state is asked for something again and again.  A request is granted or refused, and either way the
next one meets the state that is left behind.  Where a refusal leaves the state as it was
(`KeepsRefused`), the next request is answered as if the refused one had not been made
(`replies_refused`).  What the state knows of the past is then a relation between it and the answers
granted so far, and such a relation holds along every history as soon as each granted request keeps
it (`granted_invariant`).
-/

namespace FlatFile.History

variable {State Request Refusal Answer : Type}

/-- The answers among replies, in order. -/
def granted (rs : List (Except Refusal Answer)) : List Answer := rs.filterMap Except.toOption

@[simp] theorem granted_append (rs rs' : List (Except Refusal Answer)) :
    granted (rs ++ rs') = granted rs ++ granted rs' :=
  List.filterMap_append

variable (step : State → Request → Except Refusal Answer × State)

/-- The replies to requests made one after the other. -/
def replies (s : State) : List Request → List (Except Refusal Answer)
  | [] => []
  | q :: qs => (step s q).1 :: replies (step s q).2 qs

/-- The state behind requests made one after the other. -/
def stateAfter (s : State) (qs : List Request) : State := qs.foldl (fun s q => (step s q).2) s

/-- **A refused request leaves the state as it was.** -/
def KeepsRefused : Prop := ∀ s q e, (step s q).1 = .error e → (step s q).2 = s

theorem stateAfter_append (s : State) (qs qs' : List Request) :
    stateAfter step s (qs ++ qs') = stateAfter step (stateAfter step s qs) qs' :=
  List.foldl_append

theorem replies_append (s : State) (qs qs' : List Request) :
    replies step s (qs ++ qs') = replies step s qs ++ replies step (stateAfter step s qs) qs' := by
  induction qs generalizing s with
  | nil => rfl
  | cons q qs ih =>
    rw [List.cons_append, replies, replies, ih, List.cons_append]
    rfl

/-- The reply to a request in the middle of a history. -/
theorem replies_middle (s : State) (before : List Request) (q : Request) (after : List Request) :
    replies step s (before ++ q :: after) =
      replies step s before ++ (step (stateAfter step s before) q).1 ::
        replies step (step (stateAfter step s before) q).2 after := by
  rw [replies_append, replies]

variable {step} (hkeep : KeepsRefused step)
include hkeep

/-- **A refused request changes no later reply.** -/
theorem replies_refused {s : State} {before after : List Request} {q : Request} {e : Refusal}
    (h : (step (stateAfter step s before) q).1 = .error e) :
    replies step s (before ++ after) = replies step s before ++
      replies step (step (stateAfter step s before) q).2 after := by
  rw [replies_append, hkeep _ _ _ h]

/-- **What granted requests keep holds along every history.**  The relation is between the answers
granted so far and the state. -/
theorem granted_invariant {Knows : List Answer → State → Prop} {s : State} (start : Knows [] s)
    (grant : ∀ given s q a s', Knows given s → step s q = (.ok a, s') → Knows (given ++ [a]) s')
    (qs : List Request) : Knows (granted (replies step s qs)) (stateAfter step s qs) := by
  -- the history grows at its end, where the invariant speaks of the last state
  induction qs using List.reverseRecOn with
  | nil => exact start
  | append_singleton qs q ih =>
    rw [replies_append, granted_append, stateAfter_append]
    change Knows (granted (replies step s qs) ++ granted [(step (stateAfter step s qs) q).1])
      (step (stateAfter step s qs) q).2
    cases hstep : (step (stateAfter step s qs) q).1 with
    | error e =>
      rw [hkeep _ _ _ hstep, show granted [Except.error e] = ([] : List Answer) from rfl,
        List.append_nil]
      exact ih
    | ok a => exact grant _ _ q a _ ih (Prod.ext hstep rfl)

end FlatFile.History
