import Mathlib.Data.List.Chain
import Mathlib.Data.List.Perm.Subperm
import Mathlib.Logic.Relation

/-!
# Walk — walks in a relation without cycles

A walk is a list whose neighbours are related (`List.IsChain`).  When no vertex that the walk can
reach lies on a cycle the walk repeats no vertex, so it is no longer than any list that holds its
vertices.
-/

namespace Reasoning

variable {α : Type*} {R : α → α → Prop}

/-- No vertex reachable from `a` lies on a cycle. -/
def AcyclicFrom (R : α → α → Prop) (a : α) : Prop :=
  ∀ b, Relation.ReflTransGen R a b → ¬ Relation.TransGen R b b

-- A rank that every edge lowers excludes cycles.
theorem acyclicFrom_of_rank (rank : α → Nat) (hrank : ∀ a b, R a b → rank b < rank a) (a : α) :
    AcyclicFrom R a := by
  have hlower : ∀ b c, Relation.TransGen R b c → rank c < rank b := by
    intro b c h
    induction h with
    | single h => exact hrank _ _ h
    | tail _ h ih => exact (hrank _ _ h).trans ih
  exact fun b _ hcycle => (hlower b b hcycle).false

theorem isChain_snoc {walk : List α} {b : α} (hwalk : walk.IsChain R)
    (hlast : ∀ a, walk.getLast? = some a → R a b) : (walk ++ [b]).IsChain R := by
  rw [List.isChain_append]
  refine ⟨hwalk, List.isChain_singleton b, ?_⟩
  intro a ha c hc
  cases hc
  exact hlast a ha

-- A walk reaches all its vertices from the first one.
theorem reflTransGen_of_isChain {a : α} {walk : List α} (hwalk : (a :: walk).IsChain R) :
    ∀ b ∈ a :: walk, Relation.ReflTransGen R a b := by
  induction walk generalizing a with
  | nil =>
      intro b hb
      rw [List.mem_singleton.mp hb]
  | cons c walk ih =>
      rw [List.isChain_cons_cons] at hwalk
      intro b hb
      rcases List.mem_cons.mp hb with rfl | hb
      · exact .refl
      · exact (ih hwalk.2 b hb).head hwalk.1

/-- When every vertex has one successor at most, a walk to a vertex that has none goes through all
that can be reached from its start. -/
theorem mem_walk_iff {a : α} {walk : List α} (hwalk : (a :: walk).IsChain R)
    (hone : ∀ b c d, R b c → R b d → c = d)
    (hend : ∀ b, (a :: walk).getLast? = some b → ∀ c, ¬ R b c) (b : α) :
    b ∈ a :: walk ↔ Relation.ReflTransGen R a b := by
  refine ⟨reflTransGen_of_isChain hwalk b, fun hreach => ?_⟩
  induction walk generalizing a with
  | nil =>
      rcases hreach.cases_head with rfl | ⟨c, hac, -⟩
      · exact List.mem_cons_self
      · exact absurd hac (hend a rfl c)
  | cons d walk ih =>
      rw [List.isChain_cons_cons] at hwalk
      rcases hreach.cases_head with rfl | ⟨c, hac, hcb⟩
      · exact List.mem_cons_self
      · obtain rfl := hone a c d hac hwalk.1
        exact List.mem_cons_of_mem _ (ih hwalk.2 (fun b hb => hend b (by simpa using hb)) hcb)

-- Earlier vertices of a walk reach the later ones.
theorem pairwise_transGen_of_isChain {walk : List α} (hwalk : walk.IsChain R) :
    walk.Pairwise (Relation.TransGen R) := by
  have hchain : walk.IsChain (Relation.TransGen R) := hwalk.imp fun _ _ h => .single h
  exact List.isChain_iff_pairwise.mp hchain

theorem nodup_of_isChain {a : α} {walk : List α} (hwalk : (a :: walk).IsChain R)
    (hacyclic : AcyclicFrom R a) : (a :: walk).Nodup := by
  apply (pairwise_transGen_of_isChain hwalk).imp_of_mem
  rintro b c hb - hbc rfl
  exact hacyclic b (reflTransGen_of_isChain hwalk b hb) hbc

/-- A walk without cycles is no longer than a list of its possible vertices. -/
theorem length_le_of_isChain {a : α} {walk vertices : List α} (hwalk : (a :: walk).IsChain R)
    (hacyclic : AcyclicFrom R a) (hsub : (a :: walk) ⊆ vertices) :
    (a :: walk).length ≤ vertices.length :=
  (List.subperm_of_subset (nodup_of_isChain hwalk hacyclic) hsub).length_le

end Reasoning
