import Mathlib.Logic.Basic

/-!
# Purge — systems whose actions answer, and what an observer sees of them

A system answers every action.  An observer sees a part of the state, given by a projection, and
the answers to the actions that concern it; which those are may depend on the state.  `purge` leaves
the other actions out.

The unwinding conditions (`Unwinding`) are about one step.  By `Unwinding.run` the run without the
other actions, started on the observer's part alone, ends in the observer's part of the state and
gives the same answers.
-/

namespace Reasoning

universe u v w

variable {σ : Type u} {α : Type v} {β : Type w} (step : σ → α → σ × β)

/-- The state after the actions, and their answers. -/
def answers (s : σ) : List α → σ × List β
  | [] => (s, [])
  | a :: as => ((answers (step s a).1 as).1, (step s a).2 :: (answers (step s a).1 as).2)

variable (concerns : σ → α → Prop) [∀ s a, Decidable (concerns s a)]

/-- The actions that concern the observer. -/
def purge (s : σ) : List α → List α
  | [] => []
  | a :: as => if concerns s a then a :: purge (step s a).1 as else purge (step s a).1 as

/-- The answers to them. -/
def observed (s : σ) : List α → List β
  | [] => []
  | a :: as =>
      if concerns s a then (step s a).2 :: observed (step s a).1 as else observed (step s a).1 as

/-- Every action that concerns the observer meets the condition when it is taken. -/
def Along (P : σ → α → Prop) (s : σ) : List α → Prop
  | [] => True
  | a :: as => (concerns s a → P s a) ∧ Along P (step s a).1 as

instance (P : σ → α → Prop) [∀ s a, Decidable (P s a)] (s : σ) (as : List α) :
    Decidable (Along step concerns P s as) :=
  decideAlong s as
where
  decideAlong (s : σ) : (as : List α) → Decidable (Along step concerns P s as)
    | [] => isTrue trivial
    | a :: as =>
        have := decideAlong (step s a).1 as
        inferInstanceAs (Decidable ((concerns s a → P s a) ∧ Along step concerns P (step s a).1 as))

/-- What one step has to do, where `I` holds: an action that does not concern the observer leaves
its part alone; one that does, and meets `P`, does to the part and answers as it does to the
whole. -/
structure Unwinding (view : σ → σ) (P : σ → α → Prop) (I : σ → Prop) : Prop where
  keep : ∀ s a, I s → I (step s a).1
  respects : ∀ s a, I s → ¬ concerns s a → view (step s a).1 = view s
  consistent : ∀ s a, I s → concerns s a → P s a →
    step (view s) a = (view (step s a).1, (step s a).2)

variable {step concerns} {view : σ → σ} {P : σ → α → Prop} {I : σ → Prop}

/-- The observer's part of a run is the run of the actions that concern it. -/
theorem Unwinding.run (h : Unwinding step concerns view P I) {s : σ} (hs : I s) {as : List α}
    (hall : Along step concerns P s as) :
    answers step (view s) (purge step concerns s as) =
      (view (answers step s as).1, observed step concerns s as) := by
  induction as generalizing s with
  | nil => rfl
  | cons a as ih =>
      have hrest := ih (h.keep s a hs) hall.2
      by_cases ha : concerns s a
      · rw [purge, if_pos ha, observed, if_pos ha, answers, h.consistent s a hs ha (hall.1 ha),
          hrest]
        rfl
      · rw [purge, if_neg ha, observed, if_neg ha, ← h.respects s a hs ha]
        exact hrest

end Reasoning
