import Mathlib.Data.List.Basic
import Mathlib.Logic.Basic

/-!
# Flow — flowcharts over a state, their meaning and their annotations

A flowchart has labels.  At an exit label it is done; every other label has a node, which changes
the state and names the next label, or fails.  `Path` is a stretch of an execution, `Exec` a whole
one; both list the labels they visit.

The rules are those of annotated flowcharts: an annotation gives an assertion to every label, and
when each node keeps it (`Annotated`), what the exits and the failures are annotated with holds of
every execution.  A variant that every node lowers bounds every path.
-/

namespace Reasoning

universe u v w

/-- How a node is left. -/
inductive NodeEnd (L : Type u) (S : Type v) (E : Type w) where
  | goto (next : L) (s : S)
  | error (e : E) (s : S)

/-- How an execution ends. -/
inductive Ending (S : Type v) (E : Type w) where
  | done (s : S)
  | error (e : E) (s : S)

/-- A flowchart with labels `L`, states `S` and errors `E`; its nodes may be nondeterministic. -/
structure Flow (L : Type u) (S : Type v) (E : Type w) where
  exit : L → Prop
  node : L → S → NodeEnd L S E → Prop

variable {L : Type u} {S : Type v} {E : Type w}

namespace Flow

variable (F : Flow L S E)

/-! ## 1. Meaning -/

/-- From label `l` in state `s` through the labels `visits` to `l'` in `s'`. -/
inductive Path : L → S → List L → L → S → Prop where
  | nil (l : L) (s : S) : Path l s [] l s
  | snoc {l l' l'' : L} {s s' s'' : S} {visits : List L} : Path l s visits l' s' → ¬ F.exit l' →
      F.node l' s' (.goto l'' s'') → Path l s (visits ++ [l']) l'' s''

/-- From label `l` in state `s` through the labels `visits` to an end. -/
inductive Exec : L → S → List L → Ending S E → Prop where
  | exit {l : L} {s : S} : F.exit l → Exec l s [] (.done s)
  | error {l : L} {s s' : S} {e : E} : ¬ F.exit l → F.node l s (.error e s') →
      Exec l s [l] (.error e s')
  | step {l l' : L} {s s' : S} {visits : List L} {ending : Ending S E} : ¬ F.exit l →
      F.node l s (.goto l' s') → Exec l' s' visits ending → Exec l s (l :: visits) ending

variable {F} {l l' : L} {s s' : S} {visits visits' : List L} {ending : Ending S E}

-- A path followed by an execution.
theorem Path.exec (hpath : F.Path l s visits l' s') (hexec : F.Exec l' s' visits' ending) :
    F.Exec l s (visits ++ visits') ending := by
  induction hpath generalizing visits' with
  | nil => exact hexec
  | snoc _ hl hnode ih =>
      rw [List.append_assoc]
      exact ih (.step hl hnode hexec)

theorem Path.done (hpath : F.Path l s visits l' s') (hl : F.exit l') :
    F.Exec l s visits (.done s') := by
  have hexec := hpath.exec (.exit hl)
  rwa [List.append_nil] at hexec

theorem Path.error {e : E} {s'' : S} (hpath : F.Path l s visits l' s') (hl : ¬ F.exit l')
    (hnode : F.node l' s' (.error e s'')) : F.Exec l s (visits ++ [l']) (.error e s'') :=
  hpath.exec (.error hl hnode)

/-! ## 2. Annotations -/

/-- The assertions `A` at the labels, `Q` at the exits and `R` at the failures are inductive. -/
structure Annotated (F : Flow L S E) (A : L → S → Prop) (Q : S → Prop) (R : E → S → Prop) :
    Prop where
  exit : ∀ l s, F.exit l → A l s → Q s
  goto : ∀ l s l' s', ¬ F.exit l → A l s → F.node l s (.goto l' s') → A l' s'
  error : ∀ l s e s', ¬ F.exit l → A l s → F.node l s (.error e s') → R e s'

variable {A : L → S → Prop} {Q : S → Prop} {R : E → S → Prop}

/-- What an annotation says of an end. -/
def Ending.Meets (Q : S → Prop) (R : E → S → Prop) : Ending S E → Prop
  | .done s => Q s
  | .error e s => R e s

theorem Annotated.path (hA : F.Annotated A Q R) (hpath : F.Path l s visits l' s')
    (hs : A l s) : A l' s' := by
  induction hpath with
  | nil => exact hs
  | snoc _ hl hnode ih => exact hA.goto _ _ _ _ hl (ih hs) hnode

/-- Partial correctness. -/
theorem Annotated.exec (hA : F.Annotated A Q R) (hexec : F.Exec l s visits ending)
    (hs : A l s) : Ending.Meets Q R ending := by
  induction hexec with
  | exit hl => exact hA.exit _ _ hl hs
  | error hl hnode => exact hA.error _ _ _ _ hl hs hnode
  | step hl hnode _ ih => exact ih (hA.goto _ _ _ _ hl hs hnode)

/-! ## 3. Variants -/

/-- Every node lowers the variant, as long as the assertions hold. -/
def Lowers (F : Flow L S E) (A : L → S → Prop) (V : L → S → Nat) : Prop :=
  ∀ l s l' s', ¬ F.exit l → A l s → F.node l s (.goto l' s') → V l' s' < V l s

variable {V : L → S → Nat}

-- A path is no longer than the variant allows.
theorem Lowers.path (hV : F.Lowers A V) (hA : F.Annotated A Q R)
    (hpath : F.Path l s visits l' s') (hs : A l s) : V l' s' + visits.length ≤ V l s := by
  induction hpath with
  | nil => exact Nat.le_refl _
  | snoc hpath hl hnode ih =>
      have hlow := hV _ _ _ _ hl (hA.path hpath hs) hnode
      have hlen := ih hs
      rw [List.length_append, List.length_singleton]
      omega

end Flow

end Reasoning
