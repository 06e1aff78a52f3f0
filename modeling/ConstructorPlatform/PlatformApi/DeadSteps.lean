import ConstructorPlatform.PlatformApi.References

/-!
# DeadSteps — steps that no reference leads to

The executor starts with the first step of the list and then looks steps up by their id, so neither
the order of the other steps nor a step that cannot be reached matters.  `run_without_dead_steps`:
two definitions with the same first step and the same reachable steps run in the same way on all
inputs.
-/

namespace ConstructorPlatform

variable {Ctx : Type} {m : ContextModel Ctx} {steps steps' : List StepSchema}

/-- The steps that the references lead to from the first step. -/
def ReachableStep (steps : List StepSchema) (s : StepSchema) : Prop :=
  ∃ first, steps.head? = some first ∧ Relation.ReflTransGen (Refers steps) first s

/-- Both definitions start with the same step, and what can be reached in one is declared in the
other. -/
structure SameReachable (steps steps' : List StepSchema) : Prop where
  head : steps'.head? = steps.head?
  declared : ∀ s, ReachableStep steps s → s ∈ steps'
  declares : ∀ s, ReachableStep steps' s → s ∈ steps

/-! ## 1. Lookups -/

-- With unique ids a lookup finds a step exactly when it is declared.
theorem lookupStep_id (hacc : Accepted steps) {s : StepSchema} (hs : s ∈ steps) :
    lookupStep steps (.str s.id) = .ok s := by
  obtain ⟨t, ht⟩ := lookupStep_of_declared (List.mem_map_of_mem hs)
  obtain ⟨hmem, hid⟩ := lookupStep_ok ht
  rw [ht, List.inj_on_of_nodup_map hacc.nodup hmem hs (Json.str.inj hid).symm]

-- The text of a failed lookup does not depend on the definition.
theorem lookupStep_error_unique {current : Json} {e e' : PyExc}
    (h : lookupStep steps current = .error e) (h' : lookupStep steps' current = .error e') :
    e = e' := by
  cases current with
  | str id =>
      simp only [lookupStep] at h h'
      split at h <;> cases h
      split at h' <;> cases h'
      rfl
  | _ => exact Except.error.inj (h.symm.trans h')

theorem lookupStep_ok_subset (hacc' : Accepted steps') {current : Json} {s : StepSchema}
    (h : lookupStep steps current = .ok s) (hs : s ∈ steps') :
    lookupStep steps' current = .ok s := by
  obtain ⟨-, rfl⟩ := lookupStep_ok h
  exact lookupStep_id hacc' hs

theorem firstRef_head (h : steps'.head? = steps.head?) : firstRef steps' = firstRef steps := by
  cases steps <;> cases steps' <;> simp_all [firstRef]

/-! ## 2. Runs -/

-- The step that a run starts next can be reached.
theorem reachable_of_run (m : ContextModel Ctx) (hacc : Accepted steps) (e : Execution Ctx)
    (inputs : Nat → Input) (n : Nat) {current : Json} {s : StepSchema}
    (hpc : (runOf m steps e inputs n).pc = .loopHead current)
    (hfound : lookupStep steps current = .ok s) : ReachableStep steps s := by
  obtain ⟨-, hchain, hhead⟩ := (walks_of_run m hacc e inputs n).snoc hacc
    (progress_of_run m hacc e inputs n) hpc hfound
  cases hwalk : (runOf m steps e inputs n).started ++ [s] with
  | nil => exact absurd hwalk (by simp)
  | cons first rest =>
      rw [hwalk] at hchain hhead
      refine ⟨first, hhead first rfl, Reasoning.reflTransGen_of_isChain hchain s ?_⟩
      rw [← hwalk]
      exact List.mem_append_right _ List.mem_cons_self

-- One step of the machine, in a state where both definitions find the same.
theorem executeWorkflow_congr (hacc : Accepted steps) (hacc' : Accepted steps')
    (hsame : SameReachable steps steps') (i : Input) (r : Run Ctx)
    (hreach : ∀ current s, r.pc = .loopHead current → lookupStep steps current = .ok s →
      ReachableStep steps s)
    (hreach' : ∀ current s, r.pc = .loopHead current → lookupStep steps' current = .ok s →
      ReachableStep steps' s) :
    executeWorkflow m steps' i r = executeWorkflow m steps i r := by
  unfold executeWorkflow
  split
  · rw [Run.begin, Run.begin, firstRef_head hsame.head]
  · rename_i current hpc
    unfold Run.loopHead
    split
    · cases hfound : lookupStep steps current with
      | ok s =>
          rw [lookupStep_ok_subset hacc' hfound (hsame.declared s (hreach current s hpc hfound))]
      | error e =>
          cases hfound' : lookupStep steps' current with
          | ok s =>
              have hs := hsame.declares s (hreach' current s hpc hfound')
              rw [lookupStep_ok_subset hacc hfound' hs] at hfound
              cases hfound
          | error e' => rw [lookupStep_error_unique hfound hfound']
    · rfl
  · rfl
  · rfl
  · rfl
  · rfl

/-- Two definitions with the same first step and the same steps that can be reached from it, in any
order and beside any others, run in the same way: the same rows are committed, the same events
published, the same steps started, on every input and after every number of steps. -/
theorem run_without_dead_steps (m : ContextModel Ctx) (definition definition' : ProcessDefinition)
    (hsame : SameReachable definition.steps definition'.steps) (e : Execution Ctx)
    (inputs : Nat → Input) (n : Nat) :
    runOf m definition'.steps e inputs n = runOf m definition.steps e inputs n := by
  induction n with
  | zero => rfl
  | succ n ih =>
      have hstep := executeWorkflow_congr (m := m) definition.spec definition'.spec hsame (inputs n)
        (runOf m definition.steps e inputs n)
        (fun current s => reachable_of_run m definition.spec e inputs n)
        (fun current s hpc => reachable_of_run m definition'.spec e inputs n (ih ▸ hpc))
      rw [runOf, Reasoning.trace_succ]
      rw [runOf] at ih
      rw [ih]
      exact hstep

/-! Two definitions that ask and then tell, each with a step that nothing leads to. -/

def askStep : StepSchema := ⟨"ask", "agent", [], .id "tell", 60⟩

def tellStep : StepSchema := ⟨"tell", "notify", [], .none, 60⟩

def unusedDefinition : ProcessDefinition where
  steps := [askStep, ⟨"unused", "wait", [], .id "ask", 60⟩, tellStep]
  accepted := by decide

def spareDefinition : ProcessDefinition where
  steps := [askStep, tellStep, ⟨"spare", "notify", [], .id "tell", 60⟩]
  accepted := by decide

-- Neither step has branches, so the references are the `next` ones.
theorem reachable_askTell (hacc : Accepted steps) (hhead : steps.head? = some askStep)
    (htell : tellStep ∈ steps) {s : StepSchema} (h : ReachableStep steps s) :
    s = askStep ∨ s = tellStep := by
  obtain ⟨first, hfirst, hreach⟩ := h
  obtain rfl := Option.some.inj (hhead.symm.trans hfirst)
  induction hreach with
  | refl => exact .inl rfl
  | @tail s t _ href ih =>
      have hs : s.type ≠ "condition" ∧ (s.next = .id "tell" ∨ s.next = .none) := by
        rcases ih with rfl | rfl
        · exact ⟨by decide, .inl rfl⟩
        · exact ⟨by decide, .inr rfl⟩
      cases href with
      | branch _ _ htype => exact absurd htype hs.1
      | next _ ht _ hnext =>
          rcases hs.2 with hid | hnone
          · exact .inr (List.inj_on_of_nodup_map hacc.nodup ht htell
              (Next.id.inj (hnext.symm.trans hid)))
          · rw [hnone] at hnext
            cases hnext

theorem unusedSpare_same : SameReachable unusedDefinition.steps spareDefinition.steps where
  head := rfl
  declared s hs := by
    have htell : tellStep ∈ unusedDefinition.steps := List.mem_of_getLast? rfl
    rcases reachable_askTell unusedDefinition.spec rfl htell hs with rfl | rfl
    · exact List.mem_cons_self
    · exact List.mem_cons_of_mem _ List.mem_cons_self
  declares s hs := by
    have htell : tellStep ∈ spareDefinition.steps := List.mem_cons_of_mem _ List.mem_cons_self
    rcases reachable_askTell spareDefinition.spec rfl htell hs with rfl | rfl
    · exact List.mem_cons_self
    · exact List.mem_of_getLast? rfl

/-- Both start two steps. -/
theorem run_without_dead_steps_notify :
    (runOf (contextModel identifierSearch) spareDefinition.steps (.create 1 7 (.ofDict []))
      .steady 9).started.length = 2 ∧
    runOf (contextModel identifierSearch) spareDefinition.steps (.create 1 7 (.ofDict []))
      .steady 9 =
    runOf (contextModel identifierSearch) unusedDefinition.steps (.create 1 7 (.ofDict []))
      .steady 9 :=
  ⟨by decide, run_without_dead_steps (contextModel identifierSearch) unusedDefinition
    spareDefinition unusedSpare_same (.create 1 7 (.ofDict [])) .steady 9⟩

end ConstructorPlatform
