import Mathlib.Data.List.Basic
import Mathlib.Data.Option.Basic

/-!
# Fold — a fold whose items commute

A fallible fold gives the same result, up to a relation on the states, for every order of its items
when the step keeps the relation and any two of the items commute up to it.
-/

namespace Reasoning

variable {σ ι : Type*} {R : σ → σ → Prop} {step : σ → ι → Option σ} {Commute : ι → ι → Prop}

theorem optionRel_trans (htrans : ∀ s t u, R s t → R t u → R s u) {o o' o'' : Option σ}
    (h : Option.Rel R o o') (h' : Option.Rel R o' o'') : Option.Rel R o o'' := by
  cases h with
  | none => exact h'
  | some h =>
      cases h' with
      | some h' => exact .some (htrans _ _ _ h h')

theorem optionRel_bind {o o' : Option σ} {f g : σ → Option σ} (h : Option.Rel R o o')
    (hfg : ∀ s t, R s t → Option.Rel R (f s) (g t)) : Option.Rel R (o.bind f) (o'.bind g) := by
  cases h with
  | none => exact .none
  | some h => exact hfg _ _ h

-- The same items from related states.
theorem foldlM_rel (hstep : ∀ s t i, R s t → Option.Rel R (step s i) (step t i)) (items : List ι)
    {s t : σ} (hst : R s t) : Option.Rel R (items.foldlM step s) (items.foldlM step t) := by
  induction items generalizing s t with
  | nil => exact .some hst
  | cons i items ih =>
      rw [List.foldlM_cons, List.foldlM_cons]
      exact optionRel_bind (hstep s t i hst) fun _ _ h => ih h

theorem foldlM_perm (hrefl : ∀ s, R s s) (htrans : ∀ s t u, R s t → R t u → R s u)
    (hstep : ∀ s t i, R s t → Option.Rel R (step s i) (step t i))
    (hsymm : ∀ i i', Commute i i' → Commute i' i)
    (hcomm : ∀ i i', Commute i i' → ∀ s,
      Option.Rel R ((step s i).bind fun t => step t i') ((step s i').bind fun t => step t i))
    {items items' : List ι} (hperm : items.Perm items') (hpairs : items.Pairwise Commute) {s t : σ}
    (hst : R s t) : Option.Rel R (items.foldlM step s) (items'.foldlM step t) := by
  induction hperm generalizing s t with
  | nil => exact .some hst
  | cons i _ ih =>
      rw [List.foldlM_cons, List.foldlM_cons]
      exact optionRel_bind (hstep s t i hst) fun _ _ h => ih hpairs.of_cons h
  | @swap i i' items =>
      have hii' : Commute i' i := List.rel_of_pairwise_cons hpairs List.mem_cons_self
      have hswap := hcomm i' i hii' s
      simp only [List.foldlM_cons, Option.bind_eq_bind]
      rw [← Option.bind_assoc, ← Option.bind_assoc]
      refine optionRel_bind ?_ fun _ _ h => foldlM_rel hstep items h
      exact optionRel_trans htrans hswap
        (optionRel_bind (hstep s t i hst) fun _ _ h => hstep _ _ i' h)
  | trans hperm _ ih ih' =>
      have hpairs' := (hperm.pairwise_iff (fun {i i'} => hsymm i i')).mp hpairs
      exact optionRel_trans htrans (ih hpairs (hrefl s)) (ih' hpairs' hst)

end Reasoning
