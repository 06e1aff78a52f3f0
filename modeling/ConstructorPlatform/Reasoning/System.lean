import Mathlib.Data.List.Induction
import Mathlib.Logic.Basic
import Mathlib.Logic.Function.Basic

/-!
# System — runs of partial-step and of driven systems

A *partial-step system* is a function `step : σ → α → Option σ`: `none` says that the action is
not enabled.  `Reachable` collects the states of its runs, optionally restricted to the steps that
meet a condition `allowed`; `Reachable.invariant` is the induction every safety proof uses.

A *driven system* is a total function `step : ι → σ → σ` fed by an infinite sequence of inputs;
`trace` is its run.

States hold tables, functions to `Option`; `update_cases` says what an entry is after a change.
-/

namespace Reasoning

universe u v w

section Table

variable {ι : Type u} {α : Type v} [DecidableEq ι]

/-- An entry of a table after one entry has been changed. -/
theorem update_cases {table : ι → Option α} {i j : ι} {entry : Option α} {a : α}
    (h : Function.update table i entry j = some a) :
    (j = i ∧ entry = some a) ∨ (j ≠ i ∧ table j = some a) := by
  by_cases hj : j = i
  · rw [hj, Function.update_self] at h
    exact .inl ⟨hj, h⟩
  · rw [Function.update_of_ne hj] at h
    exact .inr ⟨hj, h⟩

end Table

section PartialStep

variable {σ : Type u} {α : Type v} (step : σ → α → Option σ)

/-- The state after a list of actions, `none` as soon as one of them is not enabled. -/
def runActions (s : σ) : List α → Option σ
  | [] => some s
  | a :: as => (step s a).bind fun s' => runActions s' as

theorem runActions_append (s : σ) (as bs : List α) :
    runActions step s (as ++ bs) = (runActions step s as).bind fun s' => runActions step s' bs := by
  induction as generalizing s with
  | nil => rfl
  | cons a as ih =>
      rw [List.cons_append, runActions, runActions, Option.bind_assoc]
      exact Option.bind_congr fun s' _ => ih s'

/-- The states of the runs from `init` whose every step meets `allowed`. -/
inductive Reachable (allowed : σ → α → Prop) (init : σ) : σ → Prop where
  | start : Reachable allowed init init
  | next {s s' : σ} {a : α} : Reachable allowed init s → allowed s a → step s a = some s' →
      Reachable allowed init s'

variable {step} {allowed : σ → α → Prop} {init : σ}

-- What each action of the list keeps, the run keeps.
theorem runActions_invariant {I : σ → Prop} {as : List α}
    (hstep : ∀ a ∈ as, ∀ s s', I s → step s a = some s' → I s') {s s' : σ} (hs : I s)
    (hrun : runActions step s as = some s') : I s' := by
  induction as generalizing s with
  | nil => cases hrun; exact hs
  | cons a as ih =>
      obtain ⟨t, hst, ht⟩ := Option.bind_eq_some_iff.mp hrun
      exact ih (fun b hb => hstep b (List.mem_cons_of_mem a hb))
        (hstep a List.mem_cons_self s t hs hst) ht

/-- What holds at the start and is kept by every allowed step holds in every reachable state.
The step may use that its source is reachable. -/
theorem Reachable.invariant {I : σ → Prop} {s : σ} (hr : Reachable step allowed init s)
    (hinit : I init)
    (hstep : ∀ s a s', Reachable step allowed init s → allowed s a → step s a = some s' →
      I s → I s') : I s := by
  induction hr with
  | start => exact hinit
  | next hs ha hst ih => exact hstep _ _ _ hs ha hst ih

theorem Reachable.trans {s s' : σ} (hr : Reachable step allowed init s)
    (hr' : Reachable step allowed s s') : Reachable step allowed init s' := by
  induction hr' with
  | start => exact hr
  | next _ ha hst ih => exact .next ih ha hst

theorem Reachable.mono {allowed' : σ → α → Prop} {s : σ} (hr : Reachable step allowed init s)
    (h : ∀ s a, allowed s a → allowed' s a) : Reachable step allowed' init s := by
  induction hr with
  | start => exact .start
  | next _ ha hst ih => exact .next ih (h _ _ ha) hst

-- A list of actions that runs to its end reaches a state, when its actions are always allowed.
theorem Reachable.of_run {s s' : σ} {as : List α} (hs : Reachable step allowed init s)
    (hall : ∀ a ∈ as, ∀ s, allowed s a) (hrun : runActions step s as = some s') :
    Reachable step allowed init s' := by
  induction as generalizing s with
  | nil => cases hrun; exact hs
  | cons a as ih =>
      obtain ⟨t, hst, ht⟩ := Option.bind_eq_some_iff.mp hrun
      exact ih (.next hs (hall a List.mem_cons_self s) hst)
        (fun b hb => hall b (List.mem_cons_of_mem a hb)) ht

-- Reachability along a map of states under which every step is matched by a step or by none.
theorem Reachable.map {τ : Type w} {β : Type v} {step' : τ → β → Option τ}
    {allowed' : τ → β → Prop} (f : σ → τ) {s : σ} (hr : Reachable step allowed init s)
    (hstep : ∀ s a s', allowed s a → step s a = some s' →
      f s' = f s ∨ ∃ b, allowed' (f s) b ∧ step' (f s) b = some (f s')) :
    Reachable step' allowed' (f init) (f s) := by
  induction hr with
  | start => exact .start
  | @next s s' a _ ha hst ih =>
      rcases hstep s a s' ha hst with heq | ⟨b, hb, hst'⟩
      · rw [heq]; exact ih
      · exact .next ih hb hst'

/-! Conditions that single out a run. -/

/-- Every action of the list is allowed in the state it is taken from. -/
def EachAllowed (step : σ → α → Option σ) (allowed : σ → α → Prop) (s : σ) : List α → Prop
  | [] => True
  | a :: as => allowed s a ∧ ∀ s', step s a = some s' → EachAllowed step allowed s' as

instance [∀ s a, Decidable (allowed s a)] (s : σ) (as : List α) :
    Decidable (EachAllowed step allowed s as) :=
  decideEachAllowed s as
where
  decideEachAllowed (s : σ) : (as : List α) → Decidable (EachAllowed step allowed s as)
    | [] => isTrue trivial
    | a :: as =>
        match h : step s a with
        | none => decidable_of_iff (allowed s a)
            ⟨fun ha => ⟨ha, fun _ hst => nomatch h.symm.trans hst⟩, fun hall => hall.1⟩
        | some t =>
            have := decideEachAllowed t as
            decidable_of_iff (allowed s a ∧ EachAllowed step allowed t as)
              ⟨fun hall => ⟨hall.1, fun _ hst => Option.some.inj (h.symm.trans hst) ▸ hall.2⟩,
                fun hall => ⟨hall.1, hall.2 t h⟩⟩

theorem Reachable.of_eachAllowed {s s' : σ} {as : List α} (hs : Reachable step allowed init s)
    (hall : EachAllowed step allowed s as) (hrun : runActions step s as = some s') :
    Reachable step allowed init s' := by
  induction as generalizing s with
  | nil => cases hrun; exact hs
  | cons a as ih =>
      obtain ⟨t, hst, ht⟩ := Option.bind_eq_some_iff.mp hrun
      exact ih (.next hs hall.1 hst) (hall.2 t hst) ht

theorem EachAllowed.of_forall (h : ∀ s a, allowed s a) (s : σ) (as : List α) :
    EachAllowed step allowed s as := by
  induction as generalizing s with
  | nil => trivial
  | cons a as ih => exact ⟨h s a, fun t _ => ih t⟩

/-- The invariant rule for runs on a list of actions; the invariant may speak of the number of
actions of a kind. -/
theorem runActions_count {I : Nat → σ → Prop} (counts : α → Bool) {as : List α}
    (hstep : ∀ a ∈ as, ∀ k s s', I k s → step s a = some s' →
      I (if counts a then k + 1 else k) s')
    {k : Nat} {s s' : σ} (hs : I k s) (hrun : runActions step s as = some s') :
    I (k + as.countP counts) s' := by
  induction as generalizing k s with
  | nil => cases hrun; exact hs
  | cons a as ih =>
      obtain ⟨t, hst, ht⟩ := Option.bind_eq_some_iff.mp hrun
      have hnext := ih (fun b hb => hstep b (List.mem_cons_of_mem a hb))
        (hstep a List.mem_cons_self k s t hs hst) ht
      have hcount : (if counts a then k + 1 else k) + as.countP counts =
          k + (a :: as).countP counts := by
        rw [List.countP_cons]
        split <;> omega
      rwa [hcount] at hnext

-- Two conditions that agree as long as the first has been met single out the same runs.
theorem eachAllowed_iff {I : σ → Prop} {allowed' : σ → α → Prop}
    (hkeep : ∀ s a s', I s → allowed s a → step s a = some s' → I s')
    (hiff : ∀ s a s', I s → step s a = some s' → (allowed s a ↔ allowed' s a)) {s s' : σ}
    {as : List α} (hs : I s) (hrun : runActions step s as = some s') :
    EachAllowed step allowed s as ↔ EachAllowed step allowed' s as := by
  induction as generalizing s with
  | nil => exact Iff.rfl
  | cons a as ih =>
      obtain ⟨t, hst, ht⟩ := Option.bind_eq_some_iff.mp hrun
      have hrest : allowed s a →
          (EachAllowed step allowed t as ↔ EachAllowed step allowed' t as) :=
        fun ha => ih (hkeep s a t hs ha hst) ht
      constructor
      · rintro ⟨ha, hall⟩
        refine ⟨(hiff s a t hs hst).mp ha, fun t' hst' => ?_⟩
        cases hst.symm.trans hst'
        exact (hrest ha).mp (hall t hst)
      · rintro ⟨ha, hall⟩
        have ha' := (hiff s a t hs hst).mpr ha
        refine ⟨ha', fun t' hst' => ?_⟩
        cases hst.symm.trans hst'
        exact (hrest ha').mpr (hall t hst)

section Exact

variable {given : σ → α → Prop} {J I P : σ → Prop}

-- What no step repairs, no run repairs.
theorem runActions_mono (hJ : ∀ s a s', J s → given s a → step s a = some s' → J s')
    (hmono : ∀ s a s', J s → given s a → step s a = some s' → P s' → P s) {s s' : σ} {as : List α}
    (hs : J s) (hgiven : EachAllowed step given s as) (hrun : runActions step s as = some s')
    (h : P s') : P s := by
  induction as generalizing s with
  | nil => cases hrun; exact h
  | cons a as ih =>
      obtain ⟨t, hst, ht⟩ := Option.bind_eq_some_iff.mp hrun
      exact hmono s a t hs hgiven.1 hst (ih (hJ s a t hs hgiven.1 hst) (hgiven.2 t hst) ht)

/-- A property that a step breaks exactly when it is not allowed, and that no step repairs, holds
after a run exactly when every step was allowed.  The steps are those of a given kind; `J` is kept
by all of them, `I` by the allowed ones. -/
theorem runActions_exact_given (hJ : ∀ s a s', J s → given s a → step s a = some s' → J s')
    (hmono : ∀ s a s', J s → given s a → step s a = some s' → P s' → P s)
    (hkeep : ∀ s a s', J s → I s → P s → given s a → allowed s a → step s a = some s' → I s')
    (hexact : ∀ s a s', J s → I s → P s → given s a → step s a = some s' →
      (P s' ↔ allowed s a))
    {s s' : σ} {as : List α} (hs : J s) (hI : I s) (hP : P s)
    (hgiven : EachAllowed step given s as) (hrun : runActions step s as = some s') :
    P s' ↔ EachAllowed step allowed s as := by
  induction as generalizing s with
  | nil => cases hrun; exact ⟨fun _ => trivial, fun _ => hP⟩
  | cons a as ih =>
      obtain ⟨t, hst, ht⟩ := Option.bind_eq_some_iff.mp hrun
      obtain ⟨hga, hgt⟩ := hgiven
      have hbreak := hexact s a t hs hI hP hga hst
      have hJt := hJ s a t hs hga hst
      by_cases ha : allowed s a
      · have hrest := ih hJt (hkeep s a t hs hI hP hga ha hst) (hbreak.mpr ha) (hgt t hst) ht
        constructor
        · intro h
          refine ⟨ha, fun t' hst' => ?_⟩
          cases hst.symm.trans hst'
          exact hrest.mp h
        · intro hall
          exact hrest.mpr (hall.2 t hst)
      · constructor
        · intro h
          exact absurd (hbreak.mp (runActions_mono hJ hmono hJt (hgt t hst) ht h)) ha
        · intro hall
          exact absurd hall.1 ha

-- The same for steps of any kind.
theorem runActions_exact (hJ : ∀ s a s', J s → step s a = some s' → J s')
    (hmono : ∀ s a s', J s → step s a = some s' → P s' → P s)
    (hkeep : ∀ s a s', J s → I s → P s → allowed s a → step s a = some s' → I s')
    (hexact : ∀ s a s', J s → I s → P s → step s a = some s' → (P s' ↔ allowed s a))
    {s s' : σ} {as : List α} (hs : J s) (hI : I s) (hP : P s)
    (hrun : runActions step s as = some s') : P s' ↔ EachAllowed step allowed s as := by
  have hgiven : EachAllowed step (fun _ _ => True) s as := .of_forall (fun _ _ => trivial) s as
  exact runActions_exact_given (fun s a s' hj _ => hJ s a s' hj)
    (fun s a s' hj _ => hmono s a s' hj) (fun s a s' hj hi hp _ => hkeep s a s' hj hi hp)
    (fun s a s' hj hi hp _ => hexact s a s' hj hi hp) hs hI hP hgiven hrun

end Exact

end PartialStep

section Driven

variable {σ : Type u} {ι : Type v} (step : ι → σ → σ)

/-- The state after `n` inputs. -/
def trace (init : σ) (inputs : Nat → ι) : Nat → σ
  | 0 => init
  | n + 1 => step (inputs n) (trace init inputs n)

variable {step} {init : σ} {inputs : Nat → ι}

@[simp] theorem trace_zero : trace step init inputs 0 = init := rfl

theorem trace_succ (n : Nat) :
    trace step init inputs (n + 1) = step (inputs n) (trace step init inputs n) := rfl

/-- The invariant rule of driven systems; the invariant may speak of the number of steps. -/
theorem trace_invariant {I : Nat → σ → Prop} (hinit : I 0 init)
    (hstep : ∀ n s, I n s → I (n + 1) (step (inputs n) s)) (n : Nat) :
    I n (trace step init inputs n) := by
  induction n with
  | zero => exact hinit
  | succ n ih => exact hstep n _ ih

-- A state that every input leaves alone is never left.
theorem trace_stable {n : Nat} (hfix : ∀ i, step i (trace step init inputs n) =
    trace step init inputs n) (k : Nat) :
    trace step init inputs (n + k) = trace step init inputs n := by
  induction k with
  | zero => rfl
  | succ k ih => rw [← Nat.add_assoc, trace_succ, ih, hfix]

-- A run depends on the inputs it has taken only.
theorem trace_congr {inputs' : Nat → ι} {n : Nat} (h : ∀ k < n, inputs k = inputs' k) :
    trace step init inputs n = trace step init inputs' n := by
  induction n with
  | zero => rfl
  | succ n ih =>
      rw [trace_succ, trace_succ, h n n.lt_succ_self, ih fun k hk => h k (Nat.lt_succ_of_lt hk)]

-- The run on the inputs of a list.
theorem trace_ofList (i : ι) (is : List ι) :
    trace step init (fun n => is.getD n i) is.length = is.foldl (fun s i => step i s) init := by
  induction is using List.reverseRecOn with
  | nil => rfl
  | append_singleton is j ih =>
      rw [List.length_append, List.length_singleton, trace_succ, List.foldl_append, ← ih]
      have hlast : (is ++ [j]).getD is.length i = j := by simp
      have hrest : ∀ k < is.length, (is ++ [j]).getD k i = is.getD k i := fun k hk => by
        simp [List.getElem?_append_left hk]
      rw [hlast, trace_congr hrest]
      rfl

end Driven

end Reasoning
