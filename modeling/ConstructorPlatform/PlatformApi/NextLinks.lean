import ConstructorPlatform.PlatformApi.References

/-!
# NextLinks — which steps a completed run has executed

The executor does not go through the list of steps: it follows `next` from the first one.  A run of
a definition without conditions that is completed has executed the steps that these links lead to,
and no others: `completed_run_follows_next`.
-/

namespace ConstructorPlatform

variable {Ctx : Type} {m : ContextModel Ctx} {steps : List StepSchema}

/-- `next` of the one step is the id of the other. -/
def LinksTo (steps : List StepSchema) (s t : StepSchema) : Prop := t ∈ steps ∧ s.next = .id t.id

theorem LinksTo.unique (hacc : Accepted steps) {s t u : StepSchema} (ht : LinksTo steps s t)
    (hu : LinksTo steps s u) : t = u := by
  have hid : t.id = u.id := Next.id.inj (ht.2.symm.trans hu.2)
  exact List.inj_on_of_nodup_map hacc.nodup ht.1 hu.1 hid

theorem Refers.linksTo (hplain : ∀ s ∈ steps, s.type ≠ "condition") {s t : StepSchema}
    (h : Refers steps s t) : LinksTo steps s t := by
  cases h with
  | next _ ht _ hnext => exact ⟨ht, hnext⟩
  | branch hs _ htype => exact absurd htype (hplain s hs)

/-- What is read at the loop head is the `next` of the last step started, and the loop is left with
success only where that is empty. -/
def Run.AtNext (r : Run Ctx) : Prop :=
  match r.pc with
  | .loopHead current => ∀ last, r.started.getLast? = some last → current = last.next.toJson
  | .ended none => ∀ row, r.commits.getLast? = some row → row.status = .completed →
      ∀ last, r.started.getLast? = some last → last.next.toJson.truthy = false
  | _ => True

theorem Run.AtNext.complete {r : Run Ctx} {current : Json} (hpc : r.pc = .loopHead current)
    (h : r.AtNext) (hfalse : current.truthy = false) (i : Input) : (r.complete i).AtNext := by
  simp only [Run.AtNext, hpc] at h
  unfold Run.complete
  rcases Run.commit_cases i.commit _ _ _ with ⟨-, -, hc⟩ | ⟨-, e, -, hc⟩ | ⟨-, hc⟩ <;> rw [hc]
  · intro row _ _ last hlast
    rw [Run.goto_started, Run.publish_started] at hlast
    rw [← h last hlast]
    exact hfalse
  · trivial
  · trivial

-- The `except` blocks end with a failed row.
theorem Run.AtNext.fail (i : Input) (exc : PyExc) (r : Run Ctx) : (r.fail m i exc).AtNext := by
  unfold Run.fail
  rcases Run.commit_cases i.commit _ _ _ with ⟨-, -, hc⟩ | ⟨-, e, -, hc⟩ | ⟨-, hc⟩ <;> rw [hc]
  · intro row hrow hstatus
    rw [Run.goto_commits, Run.publish_commits] at hrow
    obtain rfl := Option.some.inj (List.getLast?_concat.symm.trans hrow)
    cases hstatus
  · trivial
  · trivial

theorem Run.AtNext.step (hplain : ∀ s ∈ steps, s.type ≠ "condition") (i : Input) (r : Run Ctx)
    (hprogress : r.Progress steps) (hat : r.AtDeclared steps) (h : r.AtNext) :
    (executeWorkflow m steps i r).AtNext := by
  obtain ⟨new, hmoves, hstarted⟩ := executeWorkflow_moves m steps i r
  cases hpc' : (executeWorkflow m steps i r).pc with
  | loopHead current =>
      rw [hpc'] at hmoves
      simp only [Run.AtNext, hpc']
      intro last hlast
      rcases hmoves.loopHead_cases with ⟨hpc, -⟩ | ⟨step, hpc, htype, -⟩ | ⟨step, hpc, rfl⟩
      · simp only [Run.Progress, hpc] at hprogress
        rw [hpc] at hmoves
        cases hmoves
        rw [hstarted, hprogress] at hlast
        cases hlast
      · exact absurd htype (hplain step (hat.body step hpc))
      · simp only [Run.Progress, hpc] at hprogress
        rw [hpc] at hmoves
        cases hmoves
        rw [hstarted, List.append_nil, hprogress] at hlast
        cases hlast
        rfl
  | ended exc =>
      cases exc with
      | some exc => simp only [Run.AtNext, hpc']
      | none =>
          -- The run was at the loop head with an empty reference, in a handler, or at its end.
          rw [hpc'] at hmoves
          generalize hpc : r.pc = pc at hmoves
          cases hmoves with
          | @complete current hfalse =>
              simp only [executeWorkflow, hpc, Run.loopHead, hfalse]
              exact Run.AtNext.complete hpc h hfalse i
          | @fail exc =>
              simp only [executeWorkflow, hpc]
              exact Run.AtNext.fail i exc r
          | stay => simpa only [executeWorkflow, hpc] using h
  | _ => simp only [Run.AtNext, hpc']

theorem atNext_of_run (m : ContextModel Ctx) (hacc : Accepted steps)
    (hplain : ∀ s ∈ steps, s.type ≠ "condition") (e : Execution Ctx) (inputs : Nat → Input)
    (n : Nat) : (runOf m steps e inputs n).AtNext := by
  induction n with
  | zero => trivial
  | succ n ih =>
      exact Run.AtNext.step hplain (inputs n) _ (progress_of_run m hacc e inputs n)
        (atDeclared_of_run m steps e inputs n) ih

/-- Accepted, and the first of its two steps names no next one. -/
def unlinkedDefinition : ProcessDefinition where
  steps := [⟨"first", "notify", [], .none, 60⟩, ⟨"second", "notify", [], .none, 60⟩]
  accepted := by decide

/-- The run is completed after the first step. -/
theorem completed_run_skips_second :
    ¬ ∀ (definition : ProcessDefinition), (∀ s ∈ definition.steps, s.type ≠ "condition") →
      ∀ (context : PyContext) (inputs : Nat → Input) (n : Nat) (row : Execution PyContext),
        row ∈ (runOf (contextModel identifierSearch) definition.steps (.create 1 7 context) inputs
          n).commits → row.status = .completed →
        ∀ s ∈ definition.steps, s ∈ (runOf (contextModel identifierSearch) definition.steps
          (.create 1 7 context) inputs n).started := by
  intro h
  have hstarted : (runOf (contextModel identifierSearch) unlinkedDefinition.steps
      (.create 1 7 (.ofDict [])) .steady 5).started =
      [⟨"first", "notify", [], .none, 60⟩] := rfl
  have hrow : (runOf (contextModel identifierSearch) unlinkedDefinition.steps
      (.create 1 7 (.ofDict [])) .steady 5).commits.getLast? = some
      (runOf (contextModel identifierSearch) unlinkedDefinition.steps
        (.create 1 7 (.ofDict [])) .steady 5).execution := rfl
  have hsecond := h unlinkedDefinition (by decide) (.ofDict []) .steady 5 _
    (List.mem_of_getLast? hrow) rfl ⟨"second", "notify", [], .none, 60⟩
    (List.mem_cons_of_mem _ List.mem_cons_self)
  rw [hstarted] at hsecond
  exact absurd (congrArg StepSchema.id (List.mem_singleton.mp hsecond)) (by decide)

/-- A run of a definition without conditions that commits the status `completed` has executed
exactly the steps that `next` leads to from the first one. -/
theorem completed_run_follows_next (m : ContextModel Ctx) (definition : ProcessDefinition)
    (hplain : ∀ s ∈ definition.steps, s.type ≠ "condition") (id tenantId : UUID) (context : Ctx)
    (inputs : Nat → Input) (n : Nat) (row : Execution Ctx)
    (hrow : row ∈ (runOf m definition.steps (.create id tenantId context) inputs n).commits)
    (hcompleted : row.status = .completed) :
    ∃ first, definition.steps.head? = some first ∧
      ∀ s, s ∈ (runOf m definition.steps (.create id tenantId context) inputs n).started ↔
        Relation.ReflTransGen (LinksTo definition.steps) first s := by
  have hphase := phase_of_run m definition.steps (.create id tenantId context) ⟨rfl, rfl⟩ inputs n
  have hprogress := progress_of_run m definition.spec (.create id tenantId context) inputs n
  have hwalks := walks_of_run m definition.spec (.create id tenantId context) inputs n
  have hnext := atNext_of_run m definition.spec hplain (.create id tenantId context) inputs n
  generalize runOf m definition.steps _ inputs n = r at *
  have hpc : r.pc = .ended none := hphase.ended_of_mem hrow (by rw [hcompleted]; decide)
  obtain ⟨before, last, hcommits, -, hrunning, -⟩ := hphase.ended hpc
  have hlastRow : r.commits.getLast? = some row := by
    rw [hcommits] at hrow ⊢
    rcases List.mem_append.mp hrow with hrow | hrow
    · exact absurd ((hrunning row hrow).1.symm.trans hcompleted) (by decide)
    · rw [List.mem_singleton.mp hrow, List.getLast?_concat]
  simp only [Run.AtNext, hpc] at hnext
  have hempty := hnext row hlastRow hcompleted
  have hchain := hwalks.chain.imp fun _ _ h => Refers.linksTo hplain h
  simp only [Run.Progress, hpc] at hprogress
  obtain ⟨first, rest, hstarted⟩ := List.exists_cons_of_ne_nil hprogress
  refine ⟨first, hwalks.head first (by rw [hstarted]; rfl), ?_⟩
  rw [hstarted] at hchain hempty ⊢
  refine Reasoning.mem_walk_iff hchain (fun _ _ _ => LinksTo.unique definition.spec) ?_
  rintro s hs t ⟨ht, hlink⟩
  -- A step whose `next` is an id would have gone on.
  have hfalse := hempty s hs
  rw [hlink] at hfalse
  exact definition.spec.ids t ht (by simpa [Next.toJson] using hfalse)

theorem completed_run_follows_next_notify :
    ∃ first, notifyDefinition.steps.head? = some first ∧
      ∀ s, s ∈ (runOf (contextModel identifierSearch) notifyDefinition.steps
          (.create 1 7 (.ofDict [])) .steady 8).started ↔
        Relation.ReflTransGen (LinksTo notifyDefinition.steps) first s :=
  completed_run_follows_next (contextModel identifierSearch) notifyDefinition (by decide) 1 7
    (.ofDict []) .steady 8
    (runOf (contextModel identifierSearch) notifyDefinition.steps (.create 1 7 (.ofDict []))
      .steady 8).execution (List.mem_of_getLast? rfl) rfl

end ConstructorPlatform
