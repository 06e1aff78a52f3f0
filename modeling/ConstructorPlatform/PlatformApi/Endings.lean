import ConstructorPlatform.PlatformApi.Backend

/-!
# Endings — which executions come to an end

`Backend.execution_ends`: while the process goes on, an execution of a workflow without cycles ends
when its task makes enough steps and is refused nothing, whatever the requests and the other tasks
do between them.  `Backend.abandoned_row`: an execution that has lost its task never does.
-/

namespace ConstructorPlatform

open Reasoning

variable {Ctx : Type}

/-! ## 1. Executions without a task -/

/-- The task will not write: it has not found its rows, or its session has refused a commit, or the
workflow has returned. -/
def BackgroundTask.Idle (t : BackgroundTask Ctx) : Prop :=
  match t.state with
  | .created => False
  | .running _ run _ => run.session = .inactive ∨ ∃ exc, run.pc = .ended exc
  | .gone => True

/-- No task works on the execution. -/
def Backend.Abandoned (p : Backend Ctx) (row : ExecutionRow) : Prop :=
  ∀ t ∈ p.tasks, t.executionId = row.id → t.Idle

section Abandoned

variable {d : Deployment} {rt : Runtime Ctx} {told : UUID → Prop} {p p' : Backend Ctx}
  {row : ExecutionRow}

theorem Run.attempt_idle {m : ContextModel Ctx} {steps : List StepSchema} {i : Input} {r : Run Ctx}
    (h : r.session = .inactive ∨ ∃ exc, r.pc = .ended exc) : r.attempt m steps i = none := by
  unfold Run.attempt
  rcases h with hsession | ⟨exc, hpc⟩
  · rw [hsession]
  · split
    · rfl
    · rw [hpc]

theorem executeWorkflow_idle {m : ContextModel Ctx} {steps : List StepSchema} {i : Input}
    {r : Run Ctx} (h : r.session = .inactive ∨ ∃ exc, r.pc = .ended exc) :
    (executeWorkflow m steps i r).session = .inactive ∨
      ∃ exc, (executeWorkflow m steps i r).pc = .ended exc := by
  rcases h with hsession | ⟨exc, hpc⟩
  · left
    cases hafter : (executeWorkflow m steps i r).session with
    | inactive => rfl
    | active =>
        have hactive := (Run.session_attempt m steps i r hafter).1
        rw [hsession] at hactive
        cases hactive
  · right
    exact ⟨exc, by simp only [executeWorkflow, hpc]⟩

-- What one action does to an execution that no task works on.
theorem Backend.Ok.abandoned_next {action : BackendAction} (h : p.Ok rt told)
    (hstep : p.step d rt action = some p') (hrow : row ∈ p.db.executions)
    (habandoned : p.Abandoned row) :
    row ∈ p'.db.executions ∧ p'.Abandoned row := by
  rcases Backend.step_cases hstep with ⟨request, rfl, rfl⟩ |
    ⟨n, lookups, t, -, hn, hcreated, rfl⟩ |
    ⟨n, i, _, t, steps, run, flushed, f, -, hn, hrunning, -, hwrites, rfl⟩ | ⟨-, rfl⟩
  · -- The new tasks are for executions with new ids.
    simp only [Backend.request]
    refine ⟨?_, fun t ht hid => ?_⟩
    · rw [(handle_executions d p.db request).1]
      exact List.mem_append_left _ hrow
    · rcases List.mem_append.mp ht with ht | ht
      · exact habandoned t ht hid
      · obtain ⟨new, hnew, rfl⟩ := List.mem_map.mp ht
        exact absurd (List.mem_map.mpr ⟨row, hrow, hid.symm⟩)
          ((newExecutions_fresh d p.db request).2 new (List.mem_of_mem_filter hnew))
  · refine ⟨hrow, fun u hu hid => ?_⟩
    rcases BackgroundTask.set_cases h.owners hn hu with rfl | ⟨hu, -⟩
    · rw [BackgroundTask.load_executionId] at hid
      have hidle := habandoned t (List.mem_of_getElem? hn) hid
      simp only [BackgroundTask.Idle, hcreated] at hidle
    · exact habandoned u hu hid
  · obtain ⟨c, -, hcId, -, -, own, hown, horigin, hrunId, -⟩ := h.running hn hrunning
    have hownId : own.id = t.executionId := (ExecutionRow.id_of_origin horigin).trans hcId
    by_cases hid : t.executionId = row.id
    · have hidle := habandoned t (List.mem_of_getElem? hn) hid
      simp only [BackgroundTask.Idle, hrunning] at hidle
      refine ⟨?_, fun u hu huId => ?_⟩
      · have hsame := (hwrites row).same (Run.attempt_idle hidle)
        have hmem := Database.mem_updateExecution_of_id (f := f) hrow
          (hid.symm.trans (hownId.symm.trans hrunId.symm))
        rwa [hsame] at hmem
      · rcases BackgroundTask.set_cases h.owners hn hu with rfl | ⟨hu, -⟩
        · exact executeWorkflow_idle hidle
        · exact habandoned u hu huId
    · refine ⟨Database.mem_updateExecution_of_ne hrow fun hsame => hid ?_, fun u hu huId => ?_⟩
      · rw [hsame, hrunId, hownId]
      · rcases BackgroundTask.set_cases h.owners hn hu with rfl | ⟨hu, -⟩
        · exact absurd huId hid
        · exact habandoned u hu huId
  · exact ⟨hrow, List.forall_mem_nil _⟩

/-- Nothing takes up an execution that has lost its task, in a restart, at a lookup that failed or
at a commit that was refused: its row stays as it is for ever, also when it says `running`. -/
theorem Backend.abandoned_row {users : List UserRow} (hp : (Backend.start users).Leads d rt p)
    (hp' : p.Leads d rt p') (hrow : row ∈ p.db.executions) (habandoned : p.Abandoned row) :
    row ∈ p'.db.executions := by
  have hok := hp.ok (Backend.start_ok rt _ users)
  have hinv : p'.Ok rt (fun _ => False) ∧ row ∈ p'.db.executions ∧ p'.Abandoned row := by
    refine hp'.invariant
      (I := fun p' => p'.Ok rt (fun _ => False) ∧ row ∈ p'.db.executions ∧ p'.Abandoned row)
      ⟨hok, hrow, habandoned⟩ ?_
    rintro q action q' - - hstep ⟨hok, hrow, habandoned⟩
    exact ⟨hok.next nofun hstep, hok.abandoned_next hstep hrow habandoned⟩
  exact hinv.2.1

end Abandoned

/-! ## 2. Executions with a task -/

/-- The process goes on, and task `n` is refused nothing. -/
def BackendAction.Spares (n : Nat) : BackendAction → Prop
  | .request _ => True
  | .load k lookups => k = n → lookups = .ok ()
  | .step k input _ => k = n → input.commit = .ok ()
  | .restart => False

def BackendAction.isStepOf (n : Nat) : BackendAction → Bool
  | .step k _ _ => decide (k = n)
  | _ => false

/-- The row holds the status that the run has committed last. -/
def Run.Recorded (row : ExecutionRow) (r : Run Ctx) : Prop :=
  row.status = Status.text ((r.commits.getLast?.map Execution.status).getD .pending)

/-- A run after `k` steps that was refused nothing. -/
structure Run.Proceeds (steps : List StepSchema) (k : Nat) (row : ExecutionRow) (r : Run Ctx) :
    Prop where
  paced : r.Paced k
  walks : r.Walks steps
  progress : r.Progress steps
  declared : r.AtDeclared steps
  healthy : Healthy r
  recorded : r.Recorded row

section Proceeds

variable {rt : Runtime Ctx} {steps : List StepSchema} {row row' : ExecutionRow} {r : Run Ctx}
  {flushed : Ctx} {i : Input} {k : Nat}

theorem Run.Recorded.step (h : r.Recorded row) (hcommit : i.commit = .ok ())
    (hwrites : r.Writes rt steps i flushed row row') :
    (executeWorkflow rt.model steps i r).Recorded row' := by
  have hcommits := Run.commits_attempt rt.model steps i r
  rw [hcommit] at hcommits
  rw [Run.Recorded, hcommits]
  cases hattempt : r.attempt rt.model steps i with
  | none =>
      rw [hwrites.same hattempt]
      simpa [Except.isOk, Except.toBool, Run.Recorded] using h
  | some e =>
      rw [hwrites.sent hattempt hcommit]
      simp [Except.isOk, Except.toBool]

theorem Run.Proceeds.step (hacc : Accepted steps) (h : r.Proceeds steps k row)
    (hcommit : i.commit = .ok ()) (hwrites : r.Writes rt steps i flushed row row') :
    (executeWorkflow rt.model steps i r).Proceeds steps (k + 1) row' where
  paced := h.paced.step i k r
  walks := h.walks.step hacc i r h.progress h.declared
  progress := h.progress.step hacc i r
  declared := h.declared.step i r
  healthy := h.healthy.step hcommit
  recorded := h.recorded.step hcommit hwrites

theorem Run.proceeds_start (rt : Runtime Ctx) (steps : List StepSchema)
    (hpending : row.status = Status.text .pending) :
    (Run.start (row.load rt)).Proceeds steps 0 row :=
  ⟨rfl, ⟨nofun, .nil, nofun, nofun⟩, rfl, ⟨nofun, nofun⟩, ⟨rfl, nofun⟩, hpending⟩

/-- After enough steps the row holds the end of the program. -/
theorem Run.Proceeds.ended {m : ContextModel Ctx} {ref : Json} {c : Ctx}
    (h : r.Proceeds steps k row) (hfollows : r.Follows m steps ref c) (hacyclic : Acyclic steps)
    (hk : 3 * steps.length + 3 ≤ k) :
    row.status = Status.text .completed ∨ row.status = Status.text .failed := by
  have hlength := h.walks.started_length_le hacyclic
  obtain ⟨exc, hpc⟩ := h.paced.ended (by omega)
  cases exc with
  | some exc => exact absurd hpc (h.healthy.noException exc)
  | none =>
      simp only [Run.Follows, hpc] at hfollows
      obtain ⟨visits, ending, -, -, last, hlast, hstored⟩ := hfollows
      have hrecorded : row.status = Status.text last.status := by
        have hrecorded := h.recorded
        rwa [Run.Recorded, hlast] at hrecorded
      have hlastStatus := congrArg Prod.fst hstored
      cases ending with
      | done c' => exact .inl (hrecorded.trans (congrArg Status.text hlastStatus.symm))
      | error text c' => exact .inr (hrecorded.trans (congrArg Status.text hlastStatus.symm))

end Proceeds

/-- Task `n` works on the execution `id`, and has made `k` steps. -/
def Backend.Works (n : Nat) (id : UUID) (definition : ProcessDefinitionRow) (k : Nat)
    (p : Backend Ctx) : Prop :=
  definition ∈ p.db.definitions ∧ ∃ t, p.tasks[n]? = some t ∧ t.executionId = id ∧
    t.processId = definition.id ∧
    match t.state with
    | .created => k = 0
    | .running steps run _ => steps = definition.steps ∧
        ∃ row ∈ p.db.executions, row.id = id ∧ run.Proceeds steps k row
    | .gone => False

section Works

variable {d : Deployment} {rt : Runtime Ctx} {told : UUID → Prop} {p p' : Backend Ctx} {n k : Nat}
  {id : UUID} {definition : ProcessDefinitionRow}

-- What does not concern the task leaves it as it was.
theorem Backend.Works.mono (h : p.Works n id definition k)
    (hdefinitions : p.db.definitions ⊆ p'.db.definitions)
    (hrow : ∀ row ∈ p.db.executions, row.id = id → row ∈ p'.db.executions)
    (htask : ∀ t, p.tasks[n]? = some t → p'.tasks[n]? = some t) : p'.Works n id definition k := by
  obtain ⟨hdefinition, t, hn, hid, hprocess, hstate⟩ := h
  refine ⟨hdefinitions hdefinition, t, htask t hn, hid, hprocess, ?_⟩
  cases hs : t.state with
  | created =>
      rw [hs] at hstate
      exact hstate
  | running steps run flushed =>
      rw [hs] at hstate
      obtain ⟨hsteps, row, hmem, hrowId, hproceeds⟩ := hstate
      exact ⟨hsteps, row, hrow row hmem hrowId, hrowId, hproceeds⟩
  | gone =>
      rw [hs] at hstate
      exact hstate.elim

theorem find?_of_unique {α : Type} {found : α → Bool} {a : α} {as : List α} (ha : a ∈ as)
    (hfound : found a = true) (hunique : ∀ b ∈ as, found b = true → b = a) :
    as.find? found = some a := by
  cases hfind : as.find? found with
  | none => exact absurd hfound (List.find?_eq_none.mp hfind a ha)
  | some b =>
      exact congrArg some (hunique b (List.mem_of_find?_eq_some hfind) (List.find?_some hfind))

-- The lookups of a task that is refused nothing find its rows.
theorem Backend.Works.load (h : p.Works n id definition k) (hok : p.Ok rt told)
    {t : BackgroundTask Ctx} (hn : p.tasks[n]? = some t) (hcreated : t.state = .created) :
    Backend.Works n id definition k
      { p with tasks := p.tasks.set n (t.load rt p.db (.ok ())) } := by
  obtain ⟨hdefinition, u, hu, hid, hprocess, hstate⟩ := h
  cases hn.symm.trans hu
  rw [hcreated] at hstate
  subst hstate
  obtain ⟨c, hc, hcId, -, hmem⟩ := hok.tasks t (List.mem_of_getElem? hn)
  rw [hcreated] at hmem
  have hrow : getExecution p.db t.executionId = some c :=
    find?_of_unique hmem (decide_eq_true hcId) fun row hrow hrowId =>
      hok.row_unique hrow hmem ((of_decide_eq_true hrowId).trans hcId.symm)
  have hprocess' : getProcess p.db t.processId = some definition :=
    find?_of_unique hdefinition (decide_eq_true hprocess.symm) fun found hfound hfoundId =>
      hok.sound.keyed.definition_unique hfound hdefinition
        ((of_decide_eq_true hfoundId).trans hprocess)
  have hload : t.load rt p.db (.ok ()) =
      { t with
        state := .running definition.steps (Run.start (c.load rt)) (rt.load c.context) } := by
    simp only [BackgroundTask.load, hrow, hprocess']
  rw [hload]
  have hlength := (List.getElem?_eq_some_iff.mp hn).1
  refine ⟨hdefinition, _, List.getElem?_set_self hlength, hid, hprocess, rfl, c, hmem,
    hcId.trans hid, ?_⟩
  exact Run.proceeds_start rt definition.steps (hok.pending c hc)

-- A step of the task, whose commit succeeds if it makes one.
theorem Backend.Works.step (h : p.Works n id definition k) (hok : p.Ok rt told)
    {t : BackgroundTask Ctx} {steps : List StepSchema} {run : Run Ctx} {flushed : Ctx} {i : Input}
    {f : ExecutionRow → ExecutionRow} (hn : p.tasks[n]? = some t)
    (hrunning : t.state = .running steps run flushed) (hcommit : i.commit = .ok ())
    (horigin : ∀ row, (f row).origin = row.origin)
    (hwrites : ∀ row, run.Writes rt steps i flushed row (f row)) :
    Backend.Works n id definition (k + 1)
      { p with
        db := p.db.updateExecution run.execution.id f
        tasks := p.tasks.set n
          { t with
            state := .running steps (executeWorkflow rt.model steps i run)
              (run.flush rt.model steps i flushed) } } := by
  obtain ⟨hdefinition, u, hu, hid, hprocess, hstate⟩ := h
  cases hn.symm.trans hu
  rw [hrunning] at hstate
  obtain ⟨rfl, row, hrow, hrowId, hproceeds⟩ := hstate
  obtain ⟨c, -, hcId, -, -, own, -, hown, hrunId, -⟩ := hok.running hn hrunning
  have hsame : row.id = run.execution.id := by
    rw [hrowId, hrunId, ExecutionRow.id_of_origin hown, hcId, hid]
  refine ⟨hdefinition, _, List.getElem?_set_self (List.getElem?_eq_some_iff.mp hn).1, hid, hprocess,
    rfl, f row, Database.mem_updateExecution_of_id hrow hsame, ?_, ?_⟩
  · exact (ExecutionRow.id_of_origin (horigin row)).trans hrowId
  · exact hproceeds.step (hok.accepted definition hdefinition) hcommit (hwrites row)

theorem Backend.Works.next {action : BackendAction} (h : p.Works n id definition k)
    (hok : p.Ok rt told) (hspares : action.Spares n) (hstep : p.step d rt action = some p') :
    p'.Works n id definition (if action.isStepOf n then k + 1 else k) := by
  have hworks := h
  obtain ⟨-, own, hown, hownId, -, -⟩ := h
  rcases Backend.step_cases hstep with ⟨request, rfl, rfl⟩ |
    ⟨m, lookups, t, rfl, hm, hcreated, rfl⟩ |
    ⟨m, i, _, t, steps, run, flushed, f, rfl, hm, hrunning, horigin, hwrites, rfl⟩ | ⟨rfl, rfl⟩
  · obtain ⟨hexecutions, hdefinitions, -⟩ := handle_executions d p.db request
    refine hworks.mono hdefinitions (fun row hrow _ => ?_) fun t ht => ?_
    · simp only [Backend.request]
      rw [hexecutions]
      exact List.mem_append_left _ hrow
    · exact (List.getElem?_append_left (List.getElem?_eq_some_iff.mp ht).1).trans ht
  · by_cases hmn : m = n
    · subst hmn
      obtain rfl := hspares rfl
      exact hworks.load hok hm hcreated
    · refine hworks.mono (List.Subset.refl _) (fun _ hrow _ => hrow) fun t ht => ?_
      exact (List.getElem?_set_ne hmn).trans ht
  · by_cases hmn : m = n
    · subst hmn
      simp only [BackendAction.isStepOf, decide_true, if_true]
      exact hworks.step hok hm hrunning (hspares rfl) horigin hwrites
    · simp only [BackendAction.isStepOf, decide_eq_true_eq, if_neg hmn]
      refine hworks.mono (List.Subset.refl _) (fun row hrow hrowId => ?_) fun u hu => ?_
      · obtain ⟨c, -, hcId, -, -, other, -, hother, hrunId, -⟩ := hok.running hm hrunning
        refine Database.mem_updateExecution_of_ne hrow fun hsame => ?_
        refine BackgroundTask.other hok.owners hm hown hmn ?_
        rw [hownId, ← hrowId, hsame, hrunId, ExecutionRow.id_of_origin hother, hcId]
      · exact (List.getElem?_set_ne hmn).trans hu
  · exact hspares.elim

/-- While the process goes on, an execution of a workflow without cycles ends: once its task has
made three steps for each step of the workflow and three more, refused no lookup and no commit, the
row is completed or failed, whatever the requests and the other tasks have done between them. -/
theorem Backend.execution_ends {users : List UserRow} (hp : (Backend.start users).Leads d rt p)
    {actions : List BackendAction}
    (hrun : runActions (Backend.step d rt) p actions = some p')
    {t : BackgroundTask Ctx} (hn : p.tasks[n]? = some t) (hcreated : t.state = .created)
    (hdefinition : definition ∈ p.db.definitions) (hid : definition.id = t.processId)
    (hacyclic : Acyclic definition.steps) (hspares : ∀ action ∈ actions, action.Spares n)
    (hsteps : 3 * definition.steps.length + 3 ≤ actions.countP (BackendAction.isStepOf n)) :
    ∃ row ∈ p'.db.executions, row.id = t.executionId ∧
      (row.status = Status.text .completed ∨ row.status = Status.text .failed) := by
  have hok := hp.ok (Backend.start_ok rt _ users)
  have hworks : p.Works n t.executionId definition 0 := by
    refine ⟨hdefinition, t, hn, rfl, hid.symm, ?_⟩
    rw [hcreated]
  have hnext : ∀ action ∈ actions, ∀ k q q', Backend.Ok rt (fun _ => False) q ∧
      q.Works n t.executionId definition k → q.step d rt action = some q' →
      q'.Ok rt (fun _ => False) ∧ q'.Works n t.executionId definition
        (if action.isStepOf n then k + 1 else k) :=
    fun action haction _ _ _ h hstep =>
      ⟨h.1.next nofun hstep, h.2.next h.1 (hspares action haction) hstep⟩
  have hinv := runActions_count
    (I := fun k p => p.Ok rt (fun _ => False) ∧ p.Works n t.executionId definition k)
    (BackendAction.isStepOf n) hnext ⟨hok, hworks⟩ hrun
  rw [Nat.zero_add] at hinv
  obtain ⟨hok', -, u, hu, huId, huProcess, hstate⟩ := hinv
  cases hs : u.state with
  | created =>
      rw [hs] at hstate
      omega
  | running steps run flushed =>
      rw [hs] at hstate
      obtain ⟨rfl, row, hrow, hrowId, hproceeds⟩ := hstate
      obtain ⟨c, -, -, -, -, own, -, -, -, hserves⟩ := hok'.running hu hs
      exact ⟨row, hrow, hrowId, hproceeds.ended hserves.follows hacyclic hsteps⟩
  | gone =>
      rw [hs] at hstate
      exact hstate.elim

end Works

/-! The execution of the first tenant again. -/

/-- A restart while the workflow runs, and an execution that is triggered after it. -/
def orphanedNightly : Backend PyContext :=
  pendingNightly.after [.load 0 (.ok ()), .step 0 (.steady 9) false, .restart]

def laterNightly : Backend PyContext :=
  orphanedNightly.after (trigger 201 100 [] :: .load 0 (.ok ()) ::
    List.replicate 5 (.step 0 (.steady 9) false))

theorem abandoned_row_nightly :
    orphanedNightly.db.executions.map ExecutionRow.status = [Status.text .running] ∧
      laterNightly.db.executions.map ExecutionRow.status =
        [Status.text .running, Status.text .completed] ∧
      ∀ row ∈ orphanedNightly.db.executions, row ∈ laterNightly.db.executions := by
  have horphaned : pendingNightly.Leads plainDeployment (pyRuntime identifierSearch)
      orphanedNightly :=
    Backend.after_leads (by decide +kernel)
  have hlater : orphanedNightly.Leads plainDeployment (pyRuntime identifierSearch) laterNightly :=
    Backend.after_leads (by decide +kernel)
  have hnone : orphanedNightly.tasks = [] := rfl
  refine ⟨by decide +kernel, by decide +kernel, fun row hrow => ?_⟩
  refine Backend.abandoned_row (pendingNightly_leads.trans horphaned) hlater hrow ?_
  rw [Backend.Abandoned, hnone]
  exact List.forall_mem_nil _

theorem acyclic_singleton {step : StepSchema} (htype : step.type ≠ "condition")
    (hnext : step.next = .none) : Acyclic [step] := by
  intro first _
  refine acyclicFrom_of_rank (fun _ => 0) ?_ first
  intro s t href
  cases href with
  | next hs _ _ hid =>
      rw [List.mem_singleton.mp hs, hnext] at hid
      cases hid
  | branch hs _ hcondition =>
      rw [List.mem_singleton.mp hs] at hcondition
      exact absurd hcondition htype

theorem interleavedActions_spare : ∀ action ∈ interleavedActions, action.Spares 0 := by
  simp [interleavedActions, trigger, BackendAction.Spares, Input.steady]

theorem execution_ends_nightly :
    ∃ p', runActions (Backend.step plainDeployment (pyRuntime identifierSearch)) pendingNightly
      interleavedActions = some p' ∧ ∃ row ∈ p'.db.executions, row.id = 200 ∧
        (row.status = Status.text .completed ∨ row.status = Status.text .failed) := by
  obtain ⟨d, hdefinitions, hid, hsteps⟩ : ∃ d, pendingNightly.db.definitions = [d] ∧ d.id = 100 ∧
      d.steps = [⟨"tell", "notify", [], .none, 60⟩] := ⟨_, rfl, rfl, rfl⟩
  obtain ⟨p', hrun⟩ := Option.isSome_iff_exists.mp (show (runActions
    (Backend.step plainDeployment (pyRuntime identifierSearch)) pendingNightly
      interleavedActions).isSome = true by decide +kernel)
  have hn : pendingNightly.tasks[0]? = some ⟨200, 100, 1, .created⟩ := rfl
  refine ⟨p', hrun, Backend.execution_ends pendingNightly_leads hrun hn rfl
    (hdefinitions ▸ List.mem_singleton_self d) hid ?_ interleavedActions_spare ?_⟩
  · rw [hsteps]
    exact acyclic_singleton (by decide) rfl
  · rw [hsteps]
    decide

end ConstructorPlatform
