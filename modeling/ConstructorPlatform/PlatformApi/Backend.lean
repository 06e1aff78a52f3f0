import ConstructorPlatform.PlatformApi.CallOrder
import ConstructorPlatform.PlatformApi.Flush
import ConstructorPlatform.PlatformApi.Meaning
import ConstructorPlatform.PlatformApi.TenantRows

/-!
# Backend — the requests and the executors on one database

A request that stores an execution starts a background task (`_run_workflow`), which runs
`execute_workflow` on the row.  Requests and the steps of all tasks interleave, a commit whose reply
is lost may have been carried out, and a restart of the process ends every task.

`Backend.row_progress`: the status of a row only moves forwards, and a row that has ended is never
written again.  `Backend.ended_row`: an execution that has ended holds the outcome of an execution
of the program of its definition, on the context that it was triggered with; its context does if
every step of it has told what it has made of the context (`Run.Tells`).
-/

namespace ConstructorPlatform

open Reasoning

variable {Ctx : Type}

/-! ## 1. Rows and contexts -/

def Status.name : Status → String
  | .pending => "pending"
  | .running => "running"
  | .completed => "completed"
  | .failed => "failed"

theorem Status.name_storable (s : Status) : Storable 30 s.name := by
  cases s <;> decide

/-- The text of the column `status`. -/
def Status.text (s : Status) : VarChar 30 := ⟨s.name, s.name_storable⟩

theorem Status.text_inj {s t : Status} (h : s.text = t.text) : s = t := by
  revert h
  cases s <;> cases t <;> decide

/-- `db.get(ProcessExecution, execution_id)`; `execute_workflow` does not read the status. -/
def ExecutionRow.load (rt : Runtime Ctx) (row : ExecutionRow) : Execution Ctx where
  id := row.id
  tenantId := row.tenantId
  status := .pending
  context := rt.load row.context
  currentStepId := row.currentStepId
  startedAt := row.startedAt
  completedAt := row.completedAt

/-- The `UPDATE` of a commit. -/
def ExecutionRow.store (e : Execution Ctx) (context : Option Dict) (row : ExecutionRow) :
    ExecutionRow :=
  { row with
    status := e.status.text
    currentStepId := e.currentStepId
    context := context.getD row.context
    startedAt := e.startedAt
    completedAt := e.completedAt }

/-! ## 2. The system -/

inductive TaskState (Ctx : Type) where
  -- `_run_workflow` has not read the rows yet.
  | created
  -- `flushed` is the context at the last flush.
  | running (steps : List StepSchema) (run : Run Ctx) (flushed : Ctx)
  | gone

/-- `asyncio.create_task(_run_workflow(...))`. -/
structure BackgroundTask (Ctx : Type) where
  executionId : UUID
  processId : UUID
  tenantId : UUID
  state : TaskState Ctx

structure Backend (Ctx : Type) where
  db : Database
  tasks : List (BackgroundTask Ctx)
  -- History: the executions as they were stored.
  stored : List ExecutionRow

def Backend.start (users : List UserRow) : Backend Ctx := ⟨(Api.start users).db, [], []⟩

inductive BackendAction where
  | request (request : Request)
  -- The lines of task `n` up to the lookups; each of them may raise.
  | load (n : Nat) (lookups : Except PyExc Unit)
  -- A step of `execute_workflow` in task `n`.  A commit that raises may have been carried out.
  | step (n : Nat) (input : Input) (carriedOut : Bool)
  | restart

/-- The execution that an answer names, for which `create_execution` has made a task. -/
def startedExecution : Response → Option UUID
  | .ok (.execution read) => some read.id
  | .ok (.triggered executionId _) => some executionId
  | .ok (.internal read) => some read.executionId
  | _ => none

def Database.updateExecution (id : UUID) (f : ExecutionRow → ExecutionRow) (db : Database) :
    Database :=
  { db with executions := db.executions.map fun row => if row.id = id then f row else row }

/-- The rows that a request has added to `process_executions`. -/
def newExecutions (db db' : Database) : List ExecutionRow :=
  db'.executions.drop db.executions.length

def Backend.request (d : Deployment) (p : Backend Ctx) (request : Request) : Backend Ctx :=
  let handled := handle d p.db request
  let new := newExecutions p.db handled.db
  { db := handled.db
    tasks := p.tasks ++ (new.filter fun row => startedExecution handled.response = some row.id).map
      fun row => ⟨row.id, row.processDefinitionId, row.tenantId, .created⟩
    stored := p.stored ++ new }

/-- `_run_workflow` up to the loop of `execute_workflow`. -/
def BackgroundTask.load (rt : Runtime Ctx) (db : Database) (lookups : Except PyExc Unit)
    (t : BackgroundTask Ctx) : BackgroundTask Ctx :=
  match lookups, getExecution db t.executionId, getProcess db t.processId with
  | .ok (), some row, some definition =>
      { t with
        state := .running definition.steps (Run.start (row.load rt)) (rt.load row.context) }
  | _, _, _ => { t with state := .gone }

/-- The database after the commit of a step; what is sent for the context has to be encoded. -/
def Backend.commit (rt : Runtime Ctx) (p : Backend Ctx) (steps : List StepSchema) (input : Input)
    (carriedOut : Bool) (flushed : Ctx) (run : Run Ctx) : Option Database :=
  match run.attempt rt.model steps input with
  | none => some p.db
  | some e =>
      if input.commit.isOk || carriedOut then
        match rt.column flushed e.context with
        | .ok context => some (p.db.updateExecution e.id (ExecutionRow.store e context))
        | .error _ => none
      else some p.db

def Backend.step (d : Deployment) (rt : Runtime Ctx) (p : Backend Ctx) :
    BackendAction → Option (Backend Ctx)
  | .request request => some (p.request d request)
  | .load n lookups =>
      match p.tasks[n]? with
      | some t =>
          match t.state with
          | .created => some { p with tasks := p.tasks.set n (t.load rt p.db lookups) }
          | _ => none
      | none => none
  | .step n input carriedOut =>
      match p.tasks[n]? with
      | some t =>
          match t.state with
          | .running steps run flushed =>
              (p.commit rt steps input carriedOut flushed run).map fun db =>
                { p with
                  db := db
                  tasks := p.tasks.set n
                    { t with
                      state := .running steps (executeWorkflow rt.model steps input run)
                        (run.flush rt.model steps input flushed) } }
          | _ => none
      | none => none
  | .restart => some { p with tasks := [] }

/-- The states of the system that follow a state. -/
abbrev Backend.Leads (d : Deployment) (rt : Runtime Ctx) : Backend Ctx → Backend Ctx → Prop :=
  Reachable (Backend.step d rt) fun _ _ => True

/-- A step in the task of the execution `id` tells what it has made of the context. -/
def Backend.Tells (rt : Runtime Ctx) (id : UUID) (p : Backend Ctx) : BackendAction → Prop
  | .step n input _ => ∀ t, p.tasks[n]? = some t → t.executionId = id →
      match t.state with
      | .running _ run flushed => ∀ row ∈ p.db.executions, row.id = id →
          run.Tells rt input flushed row.context
      | _ => True
  | _ => True

/-- A run in which every step of the execution `id` has told. -/
abbrev Backend.LeadsTelling (d : Deployment) (rt : Runtime Ctx) (id : UUID) :
    Backend Ctx → Backend Ctx → Prop :=
  Reachable (Backend.step d rt) (Backend.Tells rt id)

/-! ## 3. A task and its row -/

section Serves

-- `told`: every step of the task so far has told.
variable {rt : Runtime Ctx} {told : Prop} {steps : List StepSchema} {c row row' : ExecutionRow}
  {r : Run Ctx} {flushed : Ctx}

/-- What the row of the execution holds at each program point. -/
def Run.Holds (row : ExecutionRow) (r : Run Ctx) : Prop :=
  match r.pc with
  | .begin => r.session = .active ∧ row.status = Status.text .pending
  | .handler _ => r.session = .active →
      row.status = Status.text .running ∧ r.execution.status = .running
  | .ended _ => True
  | _ => r.session = .active ∧ row.status = Status.text .running ∧ r.execution.status = .running

/-- A run of the program on the context that the execution was stored with. -/
structure Run.Serves (rt : Runtime Ctx) (told : Prop) (steps : List StepSchema)
    (c row : ExecutionRow) (flushed : Ctx) (r : Run Ctx) : Prop where
  id : r.execution.id = row.id
  follows : r.Follows rt.model steps (firstRef steps) (rt.load c.context)
  holds : r.Holds row
  column : told → r.Column rt flushed row.context

/-- The end of an execution of the program. -/
def Outcome (rt : Runtime Ctx) (steps : List StepSchema) (c : ExecutionRow) (status : Status)
    (context : Ctx) : Prop :=
  ∃ visits ending, (workflow rt.model steps).Exec (firstRef steps) (rt.load c.context) visits
    ending ∧ storedAt rt.model ending = (status, context)

theorem Outcome.ne_pending {status : Status} {context : Ctx}
    (h : Outcome rt steps c status context) : status ≠ .pending := by
  obtain ⟨visits, ending, -, hstored⟩ := h
  rintro rfl
  cases ending <;> cases hstored

/-- What a task sends to the database: a running row, or the outcome, and never after it has sent an
outcome. -/
theorem Run.Serves.attempt {i : Input} {e : Execution Ctx}
    (h : r.Serves rt told steps c row flushed) (hattempt : r.attempt rt.model steps i = some e) :
    r.session = .active ∧
      (row.status = Status.text .pending ∨ row.status = Status.text .running) ∧
      (e.status = .running ∨ Outcome rt steps c e.status e.context) := by
  have hstatus := h.holds
  have hfollows := h.follows
  unfold Run.Holds at hstatus
  unfold Run.attempt at hattempt
  cases hsession : r.session with
  | inactive => simp only [hsession] at hattempt; cases hattempt
  | active =>
      simp only [hsession] at hattempt
      cases hpc : r.pc with
      | begin =>
          simp only [hpc] at hattempt hstatus
          cases hattempt
          exact ⟨rfl, .inl hstatus.2, .inl rfl⟩
      | loopHead current =>
          simp only [hpc] at hattempt hstatus
          simp only [Run.Follows, hpc] at hfollows
          obtain ⟨visits, -, hpath⟩ := hfollows
          split at hattempt
          · split at hattempt
            · cases hattempt
              exact ⟨rfl, .inr hstatus.2.1, .inl hstatus.2.2⟩
            · cases hattempt
          · rename_i hfalse
            cases hattempt
            refine ⟨rfl, .inr hstatus.2.1, .inr ⟨visits, _, hpath.done ?_, rfl⟩⟩
            simpa [workflow] using hfalse
      | body step => simp only [hpc] at hattempt; cases hattempt
      | advance step =>
          simp only [hpc] at hattempt hstatus
          cases hattempt
          exact ⟨rfl, .inr hstatus.2.1, .inl hstatus.2.2⟩
      | handler exc =>
          simp only [hpc] at hattempt hstatus
          simp only [Run.Follows, hpc] at hfollows
          obtain ⟨visits, -, hexec⟩ := hfollows hsession
          cases hattempt
          exact ⟨rfl, .inr (hstatus hsession).1, .inr ⟨visits, _, hexec, rfl⟩⟩
      | ended exc => simp only [hpc] at hattempt; cases hattempt

/-- The row after a step: what the step has sent, or the row as it was, which a commit that is
answered excludes. -/
def Run.Writes (rt : Runtime Ctx) (steps : List StepSchema) (i : Input) (flushed : Ctx)
    (r : Run Ctx) (row row' : ExecutionRow) : Prop :=
  (∃ e context, r.attempt rt.model steps i = some e ∧ rt.column flushed e.context = .ok context ∧
    row' = row.store e context) ∨
  (row' = row ∧ (i.commit.isOk = true → r.attempt rt.model steps i = none))

theorem Run.Writes.id {i : Input} (h : r.Writes rt steps i flushed row row') :
    row'.id = row.id := by
  rcases h with ⟨e, context, -, -, rfl⟩ | ⟨rfl, -⟩ <;> rfl

-- After a commit that is answered the row is what was sent.
theorem Run.Writes.sent {i : Input} (h : r.Writes rt steps i flushed row row')
    {e : Execution Ctx} (hattempt : r.attempt rt.model steps i = some e)
    (hcommit : i.commit = .ok ()) :
    row'.status = e.status.text := by
  rcases h with ⟨e', context, hattempt', -, rfl⟩ | ⟨-, hnone⟩
  · cases hattempt.symm.trans hattempt'
    rfl
  · rw [hnone (by rw [hcommit]; rfl)] at hattempt
    cases hattempt

theorem Run.Writes.same {i : Input} (h : r.Writes rt steps i flushed row row')
    (hattempt : r.attempt rt.model steps i = none) : row' = row := by
  rcases h with ⟨e, context, hattempt', -, -⟩ | ⟨rfl, -⟩
  · rw [hattempt] at hattempt'
    cases hattempt'
  · rfl

theorem Run.Writes.setsColumn {i : Input} (h : r.Writes rt steps i flushed row row') :
    r.SetsColumn rt steps i flushed row.context row'.context := by
  rcases h with ⟨e, context, hattempt, hcolumn, rfl⟩ | ⟨rfl, hnone⟩
  · exact .inl ⟨e, context, hattempt, hcolumn, rfl⟩
  · exact .inr ⟨rfl, hnone⟩

-- A commit that has been refused: the handler cannot write the row.
theorem Run.Holds.refused {r : Run Ctx} (exc : PyExc) (h : r.session = .inactive) :
    (r.goto (.handler exc)).Holds row := by
  intro hactive
  rw [Run.goto_session, h] at hactive
  cases hactive

theorem Run.Holds.begin {i : Input} (hpc : r.pc = .begin)
    (h : r.Holds row) (hwrites : r.Writes rt steps i flushed row row') :
    (r.begin steps i).Holds row' := by
  simp only [Run.Holds, hpc] at h
  have hattempt : r.attempt rt.model steps i = some (r.execution.setRunning i.now) := by
    simp only [Run.attempt, h.1, hpc]
  unfold Run.begin
  rcases Run.commit_cases i.commit _ _ _ with ⟨-, hc, heq⟩ | ⟨-, e, -, heq⟩ | ⟨-, heq⟩ <;> rw [heq]
  · simp only [Run.Holds, Run.goto_pc, Run.goto_session, Run.publish_session, Run.goto_execution,
      Run.publish_execution]
    exact ⟨h.1, hwrites.sent hattempt hc, rfl⟩
  · trivial
  · trivial

theorem Run.Holds.loopHead {i : Input} {current : Json}
    (hpc : r.pc = .loopHead current) (h : r.Holds row)
    (hwrites : r.Writes rt steps i flushed row row') :
    (r.loopHead steps i current).Holds row' := by
  simp only [Run.Holds, hpc] at h
  obtain ⟨hsession, hrow, hrun⟩ := h
  unfold Run.loopHead
  split
  · rename_i htrue
    split
    · rename_i step hfound
      have hattempt : r.attempt rt.model steps i = some (r.execution.setStep step.id) := by
        simp only [Run.attempt, hsession, hpc, htrue, if_true, hfound]
      unfold Run.startStep
      rcases Run.commit_cases i.commit _ _ _ with ⟨-, hc, heq⟩ | ⟨-, e, -, heq⟩ | ⟨hs, heq⟩ <;>
        rw [heq]
      · simp only [Run.Holds, Run.goto_pc, Run.goto_session, Run.publish_session,
          Run.goto_execution, Run.publish_execution]
        exact ⟨hsession, (hwrites.sent hattempt hc).trans (congrArg Status.text hrun), hrun⟩
      · exact .refused e rfl
      · exact .refused _ hs
    · rename_i e hunknown
      have hattempt : r.attempt rt.model steps i = none := by
        simp only [Run.attempt, hsession, hpc, htrue, if_true, hunknown]
      rw [hwrites.same hattempt]
      exact fun _ => ⟨hrow, hrun⟩
  · unfold Run.complete
    rcases Run.commit_cases i.commit _ _ _ with ⟨-, -, heq⟩ | ⟨-, e, -, heq⟩ | ⟨hs, heq⟩ <;>
      rw [heq]
    · simp only [Run.Holds, Run.goto_pc]
    · exact .refused e rfl
    · exact .refused _ hs

theorem Run.Holds.body {i : Input} {step : StepSchema}
    (hpc : r.pc = .body step) (h : r.Holds row) (hwrites : r.Writes rt steps i flushed row row') :
    (r.body rt.model i step).Holds row' := by
  simp only [Run.Holds, hpc] at h
  have hattempt : r.attempt rt.model steps i = none := by
    simp only [Run.attempt, h.1, hpc]
  rw [hwrites.same hattempt]
  unfold Run.body
  split
  · split
    · exact h
    · exact fun _ => h.2
  · split
    · exact h
    · exact fun _ => h.2
  · split
    · exact h
    · exact fun _ => h.2
  · exact h

theorem Run.Holds.advance {i : Input} {step : StepSchema}
    (hpc : r.pc = .advance step) (h : r.Holds row)
    (hwrites : r.Writes rt steps i flushed row row') :
    (r.advance i step).Holds row' := by
  simp only [Run.Holds, hpc] at h
  obtain ⟨hsession, -, hrun⟩ := h
  have hattempt : r.attempt rt.model steps i = some r.execution := by
    simp only [Run.attempt, hsession, hpc]
  unfold Run.advance
  rcases Run.commit_cases i.commit _ _ _ with ⟨-, hc, heq⟩ | ⟨-, e, -, heq⟩ | ⟨hs, heq⟩ <;> rw [heq]
  · exact ⟨hsession, (hwrites.sent hattempt hc).trans (congrArg Status.text hrun), hrun⟩
  · exact .refused e rfl
  · exact .refused _ hs

theorem Run.Holds.fail {m : ContextModel Ctx} (i : Input) (exc : PyExc) :
    (r.fail m i exc).Holds row := by
  unfold Run.fail
  rcases Run.commit_cases i.commit _ _ _ with ⟨-, -, heq⟩ | ⟨-, e, -, heq⟩ | ⟨-, heq⟩ <;> rw [heq]
  · simp only [Run.Holds, Run.goto_pc]
  · trivial
  · trivial

theorem Run.Holds.step {i : Input} (h : r.Holds row)
    (hwrites : r.Writes rt steps i flushed row row') :
    (executeWorkflow rt.model steps i r).Holds row' := by
  unfold executeWorkflow
  split <;> rename_i hpc
  · exact h.begin hpc hwrites
  · exact h.loopHead hpc hwrites
  · exact h.body hpc hwrites
  · exact h.advance hpc hwrites
  · exact .fail i _
  · simp only [Run.Holds, hpc]

theorem Run.Serves.step {i : Input} (h : r.Serves rt told steps c row flushed)
    (hwrites : r.Writes rt steps i flushed row row')
    (htells : told → r.Tells rt i flushed row.context) :
    (executeWorkflow rt.model steps i r).Serves rt told steps c row'
      (r.flush rt.model steps i flushed) where
  id := by
    rw [hwrites.id, ← h.id]
    exact executeWorkflow_id rt.model steps i r
  follows := h.follows.step i
  holds := h.holds.step hwrites
  column := fun hold => (h.column hold).step (htells hold) hwrites.setsColumn

end Serves

/-! ## 4. What a request adds -/

/-- What a request does to the definitions and to the executions. -/
inductive Grows (db db' : Database) : Prop where
  | nothing (definitions : db'.definitions = db.definitions)
      (executions : db'.executions = db.executions)
  | definition (row : ProcessDefinitionRow) (accepted : Accepted row.steps)
      (definitions : db'.definitions = db.definitions ++ [row])
      (executions : db'.executions = db.executions)
  | execution (row : ExecutionRow) (pending : row.status = Status.text .pending)
      (fresh : row.id ∉ db.executions.map ExecutionRow.id)
      (definitions : db'.definitions = db.definitions)
      (executions : db'.executions = db.executions ++ [row])

theorem Grows.refl (db : Database) : Grows db db := .nothing rfl rfl

theorem createExecution_grows (env : CreateEnv) (data : ExecutionCreate) (tenantId : UUID)
    (triggeredBy : Option UUID) (triggerType : String) (db : Database) :
    Grows db (createExecution env data tenantId triggeredBy triggerType db).2 := by
  cases hfound : db.definitions.find? fun d =>
      d.id = data.processDefinitionId ∧ d.tenantId = tenantId with
  | none =>
      unfold createExecution
      split
      · exact .refl db
      · simp only [hfound]
        exact .refl db
  | some definition =>
      rcases createExecution_cases env triggeredBy triggerType hfound with
        ⟨hstores, hdb⟩ | ⟨-, exc, hdb⟩
      · rw [hdb]
        exact .execution _ rfl (CreateEnv.stores_fresh hstores) rfl rfl
      · rw [hdb]
        exact .refl db

theorem createWorkflowRoute_grows (session : SessionEnv) (env : ProcessCreateEnv)
    (credentials : Credentials) (body : ProcessDefinitionCreate) (db : Database) :
    Grows db (createWorkflowRoute session env credentials body db).2 := by
  unfold createWorkflowRoute
  split
  · exact .refl db
  · rename_i user _
    have hinsert : Grows db (db.insertDefinition (newProcess env body user.tenantId)) :=
      .definition _ body.spec rfl rfl
    dsimp only
    split
    · exact .refl db
    · split
      · exact .refl db
      · split
        · exact hinsert
        · exact .refl db
      · exact hinsert

theorem triggerExecutionRoute_grows (session : SessionEnv) (env : CreateEnv)
    (credentials : Credentials) (body : ExecutionCreate) (db : Database) :
    Grows db (triggerExecutionRoute session env credentials body db).2 := by
  unfold triggerExecutionRoute
  split
  · exact .refl db
  · rename_i user _
    have hcreated := createExecution_grows env body user.tenantId (some user.id) "manual" db
    dsimp only
    split <;> exact hcreated

theorem triggerWebhookRoute_grows (lib : WebhookLibraries) (env : TriggerEnv) (call : WebhookCall)
    (db : Database) : Grows db (triggerWebhookRoute lib env call db).2 := by
  rw [triggerWebhookRoute_database]
  rcases triggerCreates_cases lib env call db with ⟨e, hreached⟩ | ⟨_, _, -, -, -, hreached⟩
  · rw [hreached]
    exact .refl db
  · rw [hreached]
    exact createExecution_grows ..

theorem internalTrigger_grows (internalSecret : String) (env : TriggerEnv)
    (header : Option String) (body : ExecutionCreate) (db : Database) :
    Grows db (internalTrigger internalSecret env header body db).2 := by
  unfold internalTrigger
  split
  · exact .refl db
  · exact .refl db
  · split
    · exact .refl db
    · exact .refl db
    · exact createExecution_grows ..

-- The requests that manage webhooks do not touch the other tables.
theorem Handled.ofWrite_grows (db : Database) (handled : Response × Option WebhookWrite) :
    Grows db (Handled.ofWrite db handled).db := by
  obtain ⟨response, write⟩ := handled
  cases write with
  | none => exact .refl db
  | some write => cases write <;> exact .nothing rfl rfl

theorem handle_grows (d : Deployment) (db : Database) (request : Request) :
    Grows db (handle d db request).db := by
  cases request with
  | createWorkflow session env credentials body =>
      exact createWorkflowRoute_grows session env credentials body db
  | triggerExecution session env credentials body =>
      exact triggerExecutionRoute_grows session env credentials body db
  | createWebhook session env credentials body => exact Handled.ofWrite_grows db _
  | deleteWebhook session env credentials webhookId => exact Handled.ofWrite_grows db _
  | rotateWebhook session env credentials webhookId => exact Handled.ofWrite_grows db _
  | triggerWebhook env call => exact triggerWebhookRoute_grows d.lib env call db
  | internalTrigger env header body =>
      exact internalTrigger_grows d.internalSecret env header body db

/-- The new rows are pending, and everything that was there stays. -/
theorem handle_executions (d : Deployment) (db : Database) (request : Request) :
    (handle d db request).db.executions =
      db.executions ++ newExecutions db (handle d db request).db ∧
    db.definitions ⊆ (handle d db request).db.definitions ∧
    ∀ row ∈ newExecutions db (handle d db request).db, row.status = Status.text .pending := by
  unfold newExecutions
  cases handle_grows d db request with
  | nothing hdefinitions hexecutions =>
      rw [hdefinitions, hexecutions, List.drop_length, List.append_nil]
      exact ⟨rfl, List.Subset.refl _, List.forall_mem_nil _⟩
  | definition row accepted hdefinitions hexecutions =>
      rw [hdefinitions, hexecutions, List.drop_length, List.append_nil]
      exact ⟨rfl, List.subset_append_left _ _, List.forall_mem_nil _⟩
  | execution row pending _ hdefinitions hexecutions =>
      rw [hdefinitions, hexecutions, List.drop_left]
      refine ⟨rfl, List.Subset.refl _, fun new hnew => ?_⟩
      rw [List.mem_singleton.mp hnew]
      exact pending

/-- The new rows have ids that were free. -/
theorem newExecutions_fresh (d : Deployment) (db : Database) (request : Request) :
    ((newExecutions db (handle d db request).db).map ExecutionRow.id).Nodup ∧
      ∀ row ∈ newExecutions db (handle d db request).db,
        row.id ∉ db.executions.map ExecutionRow.id := by
  unfold newExecutions
  cases handle_grows d db request with
  | nothing _ hexecutions =>
      rw [hexecutions, List.drop_length]
      exact ⟨List.nodup_nil, List.forall_mem_nil _⟩
  | definition _ _ _ hexecutions =>
      rw [hexecutions, List.drop_length]
      exact ⟨List.nodup_nil, List.forall_mem_nil _⟩
  | execution row _ fresh _ hexecutions =>
      rw [hexecutions, List.drop_left]
      exact ⟨List.nodup_singleton _, List.forall_mem_singleton.mpr fresh⟩

/-! ## 5. The invariant -/

/-- The columns of an execution that are never written again. -/
structure Origin where
  id : UUID
  tenantId : UUID
  processDefinitionId : UUID
  triggeredBy : Option UUID
  triggerType : String
  createdAt : Nat

def ExecutionRow.origin (row : ExecutionRow) : Origin :=
  ⟨row.id, row.tenantId, row.processDefinitionId, row.triggeredBy, row.triggerType, row.createdAt⟩

@[simp] theorem ExecutionRow.store_origin (e : Execution Ctx) (context : Option Dict)
    (row : ExecutionRow) : (row.store e context).origin = row.origin := rfl

theorem ExecutionRow.id_of_origin {row row' : ExecutionRow} (h : row.origin = row'.origin) :
    row.id = row'.id :=
  congrArg Origin.id h

/-- The row holds what an execution of the program of its definition ends with. -/
def ExecutionRow.Finished (rt : Runtime Ctx) (told : Prop) (db : Database)
    (row c : ExecutionRow) : Prop :=
  ∃ definition ∈ db.definitions, definition.id = row.processDefinitionId ∧
    ∃ status context, row.status = Status.text status ∧
      Outcome rt definition.steps c status context ∧ (told → rt.Shows row.context context)

/-- What a task works on. -/
def BackgroundTask.Ok (rt : Runtime Ctx) (told : UUID → Prop) (p : Backend Ctx)
    (t : BackgroundTask Ctx) : Prop :=
  ∃ c ∈ p.stored, c.id = t.executionId ∧ c.processDefinitionId = t.processId ∧
    match t.state with
    | .created => c ∈ p.db.executions
    | .running steps run flushed =>
        (∃ definition ∈ p.db.definitions, definition.id = t.processId ∧
          definition.steps = steps) ∧
        ∃ row ∈ p.db.executions, row.id = c.id ∧ run.Serves rt (told c.id) steps c row flushed
    | .gone => True

/-- The invariant; `told` are executions whose steps have all told. -/
structure Backend.Ok (rt : Runtime Ctx) (told : UUID → Prop) (p : Backend Ctx) : Prop where
  sound : p.db.Sound
  accepted : ∀ definition ∈ p.db.definitions, Accepted definition.steps
  ids : (p.db.executions.map ExecutionRow.id).Nodup
  origins : p.db.executions.map ExecutionRow.origin = p.stored.map ExecutionRow.origin
  pending : ∀ c ∈ p.stored, c.status = Status.text .pending
  rows : ∀ row ∈ p.db.executions, ∀ c ∈ p.stored, c.id = row.id →
    row = c ∨ row.status = Status.text .running ∨ row.Finished rt (told row.id) p.db c
  -- An execution has one task at most.
  owners : (p.tasks.map BackgroundTask.executionId).Nodup
  tasks : ∀ t ∈ p.tasks, t.Ok rt told p

section Invariant

variable {d : Deployment} {rt : Runtime Ctx} {told : UUID → Prop} {p : Backend Ctx}

theorem Backend.Ok.row_unique (h : p.Ok rt told) {row row' : ExecutionRow}
    (hrow : row ∈ p.db.executions) (hrow' : row' ∈ p.db.executions) (hid : row.id = row'.id) :
    row = row' :=
  List.inj_on_of_nodup_map h.ids hrow hrow' hid

theorem Backend.Ok.stored_ids (h : p.Ok rt told) :
    p.stored.map ExecutionRow.id = p.db.executions.map ExecutionRow.id := by
  have horigins := congrArg (List.map Origin.id) h.origins
  rw [List.map_map, List.map_map] at horigins
  exact horigins.symm

theorem Backend.Ok.stored_unique (h : p.Ok rt told) {c c' : ExecutionRow} (hc : c ∈ p.stored)
    (hc' : c' ∈ p.stored) (hid : c.id = c'.id) : c = c' :=
  List.inj_on_of_nodup_map (h.stored_ids ▸ h.ids) hc hc' hid

-- The row as it was stored.
theorem Backend.Ok.stored_of_row (h : p.Ok rt told) {row : ExecutionRow}
    (hrow : row ∈ p.db.executions) : ∃ c ∈ p.stored, c.origin = row.origin :=
  List.mem_map.mp (h.origins ▸ List.mem_map_of_mem hrow)

theorem Backend.Ok.origin_of_id (h : p.Ok rt told) {c row : ExecutionRow} (hc : c ∈ p.stored)
    (hrow : row ∈ p.db.executions) (hid : c.id = row.id) : c.origin = row.origin := by
  obtain ⟨c', hc', horigin⟩ := h.stored_of_row hrow
  rw [h.stored_unique hc hc' (hid.trans (ExecutionRow.id_of_origin horigin).symm)]
  exact horigin

theorem ExecutionRow.Finished.mono {told : Prop} {db db' : Database} {row c : ExecutionRow}
    (hgrow : db.definitions ⊆ db'.definitions) (h : row.Finished rt told db c) :
    row.Finished rt told db' c := by
  obtain ⟨definition, hdefinition, hrest⟩ := h
  exact ⟨definition, hgrow hdefinition, hrest⟩

theorem BackgroundTask.Ok.mono {p' : Backend Ctx} {t : BackgroundTask Ctx}
    (hstored : p.stored ⊆ p'.stored) (hdefinitions : p.db.definitions ⊆ p'.db.definitions)
    (hrow : ∀ row ∈ p.db.executions, row.id = t.executionId → row ∈ p'.db.executions)
    (h : t.Ok rt told p) : t.Ok rt told p' := by
  obtain ⟨c, hc, hid, hprocess, hstate⟩ := h
  refine ⟨c, hstored hc, hid, hprocess, ?_⟩
  cases hs : t.state with
  | created =>
      rw [hs] at hstate
      exact hrow c hstate hid
  | running steps run flushed =>
      rw [hs] at hstate
      obtain ⟨⟨definition, hdefinition, hsame⟩, row, hmem, hrowId, hserves⟩ := hstate
      exact ⟨⟨definition, hdefinitions hdefinition, hsame⟩, row, hrow row hmem (hrowId.trans hid),
        hrowId, hserves⟩
  | gone => trivial

theorem Backend.start_ok (rt : Runtime Ctx) (told : UUID → Prop) (users : List UserRow) :
    (Backend.start users : Backend Ctx).Ok rt told where
  sound := Api.start_sound users
  accepted := List.forall_mem_nil _
  ids := List.nodup_nil
  origins := rfl
  pending := List.forall_mem_nil _
  rows := List.forall_mem_nil _
  owners := List.nodup_nil
  tasks := List.forall_mem_nil _

/-! Requests. -/

theorem handle_accepted (d : Deployment) {db : Database} (request : Request)
    (h : ∀ definition ∈ db.definitions, Accepted definition.steps) :
    ∀ definition ∈ (handle d db request).db.definitions, Accepted definition.steps := by
  cases handle_grows d db request with
  | nothing hdefinitions _ => exact hdefinitions ▸ h
  | execution _ _ _ hdefinitions _ => exact hdefinitions ▸ h
  | definition row accepted hdefinitions _ =>
      rw [hdefinitions, List.forall_mem_append]
      exact ⟨h, List.forall_mem_singleton.mpr accepted⟩

theorem Backend.Ok.request (h : p.Ok rt told) (request : Request) :
    (p.request d request).Ok rt told := by
  obtain ⟨hexecutions, hdefinitions, hpending⟩ := handle_executions d p.db request
  obtain ⟨hnew, hfresh⟩ := newExecutions_fresh d p.db request
  simp only [Backend.request]
  generalize newExecutions p.db (handle d p.db request).db = new at *
  have hnotStored : ∀ row ∈ new, row.id ∉ p.stored.map ExecutionRow.id := by
    rw [h.stored_ids]
    exact hfresh
  have hrows : p.db.executions ⊆ (handle d p.db request).db.executions := by
    rw [hexecutions]
    exact List.subset_append_left _ _
  constructor
  case sound => exact h.sound.change (handle_change d p.db request)
  case accepted => exact handle_accepted d request h.accepted
  case ids =>
    dsimp only
    rw [hexecutions, List.map_append, List.nodup_append]
    refine ⟨h.ids, hnew, ?_⟩
    rintro id hid _ hrow rfl
    obtain ⟨row, hmem, rfl⟩ := List.mem_map.mp hrow
    exact hfresh row hmem hid
  case origins =>
    dsimp only
    rw [hexecutions, List.map_append, List.map_append, h.origins]
  case pending =>
    rw [List.forall_mem_append]
    exact ⟨h.pending, hpending⟩
  case rows =>
    intro row hrow c hc hid
    dsimp only at hrow hc ⊢
    rw [hexecutions, List.mem_append] at hrow
    rw [List.mem_append] at hc
    rcases hrow with hrow | hrow <;> rcases hc with hc | hc
    · rcases h.rows row hrow c hc hid with heq | hrunning | hfinished
      · exact .inl heq
      · exact .inr (.inl hrunning)
      · exact .inr (.inr (hfinished.mono hdefinitions))
    · exact absurd (List.mem_map.mpr ⟨row, hrow, hid.symm⟩) (hfresh c hc)
    · exact absurd (List.mem_map.mpr ⟨c, hc, hid⟩) (hnotStored row hrow)
    · exact .inl (List.inj_on_of_nodup_map hnew hrow hc hid.symm)
  case owners =>
    dsimp only
    rw [List.map_append, List.map_map, List.nodup_append]
    refine ⟨h.owners, (hnew.sublist ((List.filter_sublist).map _)), ?_⟩
    rintro id hid _ hrow rfl
    obtain ⟨row, hmem, rfl⟩ := List.mem_map.mp hrow
    obtain ⟨t, ht, hsame⟩ := List.mem_map.mp hid
    obtain ⟨c, hc, hcid, -⟩ := h.tasks t ht
    refine hnotStored row (List.mem_of_mem_filter hmem) (List.mem_map.mpr ⟨c, hc, ?_⟩)
    exact hcid.trans hsame
  case tasks =>
    rw [List.forall_mem_append]
    constructor
    · intro t ht
      exact (h.tasks t ht).mono (List.subset_append_left _ _) hdefinitions
        fun row hrow _ => hrows hrow
    · intro t ht
      obtain ⟨row, hmem, rfl⟩ := List.mem_map.mp ht
      have hrow := List.mem_of_mem_filter hmem
      refine ⟨row, List.mem_append_right _ hrow, rfl, rfl, ?_⟩
      dsimp only
      rw [hexecutions]
      exact List.mem_append_right _ hrow

/-! Tasks. -/

-- An execution has one task at most.
theorem BackgroundTask.other {tasks : List (BackgroundTask Ctx)} {n k : Nat}
    {t u : BackgroundTask Ctx} (howners : (tasks.map BackgroundTask.executionId).Nodup)
    (hn : tasks[n]? = some t) (hk : tasks[k]? = some u) (hne : n ≠ k) :
    u.executionId ≠ t.executionId := by
  intro hsame
  have hlength : n < (tasks.map BackgroundTask.executionId).length := by
    rw [List.length_map]
    exact (List.getElem?_eq_some_iff.mp hn).1
  refine hne ((List.getElem?_inj hlength howners).mp ?_)
  rw [List.getElem?_map, List.getElem?_map, hn, hk]
  exact congrArg some hsame.symm

-- The tasks after one of them has been replaced: the others belong to other executions.
theorem BackgroundTask.set_cases {tasks : List (BackgroundTask Ctx)} {n : Nat}
    {t t' u : BackgroundTask Ctx} (howners : (tasks.map BackgroundTask.executionId).Nodup)
    (hn : tasks[n]? = some t) (hu : u ∈ tasks.set n t') :
    u = t' ∨ (u ∈ tasks ∧ u.executionId ≠ t.executionId) := by
  obtain ⟨k, hk⟩ := List.mem_iff_getElem?.mp hu
  rw [List.getElem?_set] at hk
  split at hk
  · split at hk
    · cases hk
      exact .inl rfl
    · cases hk
  · rename_i hne
    exact .inr ⟨List.mem_of_getElem? hk, BackgroundTask.other howners hn hk hne⟩

theorem BackgroundTask.set_owners {tasks : List (BackgroundTask Ctx)} {n : Nat}
    {t t' : BackgroundTask Ctx} (hn : tasks[n]? = some t) (hid : t'.executionId = t.executionId) :
    (tasks.set n t').map BackgroundTask.executionId = tasks.map BackgroundTask.executionId := by
  rw [List.map_set, hid]
  apply List.ext_getElem?
  intro k
  rw [List.getElem?_set]
  split
  · rename_i hk
    subst hk
    rw [List.length_map, if_pos (List.getElem?_eq_some_iff.mp hn).1, List.getElem?_map, hn]
    rfl
  · rfl

theorem Run.serves_start (rt : Runtime Ctx) (told : Prop) (steps : List StepSchema)
    {row : ExecutionRow} (hpending : row.status = Status.text .pending) :
    (Run.start (row.load rt)).Serves rt told steps row row (rt.load row.context) where
  id := rfl
  follows := ⟨rfl, rfl, rfl⟩
  holds := ⟨rfl, hpending⟩
  column := fun _ => Run.column_start rt _ rfl

theorem BackgroundTask.Ok.load (h : p.Ok rt told) {t : BackgroundTask Ctx}
    (lookups : Except PyExc Unit) (hcreated : t.state = .created) (ht : t.Ok rt told p) :
    (t.load rt p.db lookups).Ok rt told p := by
  obtain ⟨c, hc, hid, hprocess, hstate⟩ := ht
  rw [hcreated] at hstate
  unfold BackgroundTask.load
  split
  · rename_i row definition hrow hdefinition
    have hmem := List.mem_of_find?_eq_some hrow
    have hrowId : row.id = t.executionId := by simpa using List.find?_some hrow
    obtain rfl := h.row_unique hmem hstate (hrowId.trans hid.symm)
    obtain ⟨hdefinition, hdefinitionId⟩ := getProcess_some hdefinition
    exact ⟨row, hc, hid, hprocess, ⟨definition, hdefinition, hdefinitionId, rfl⟩, row, hstate, rfl,
      Run.serves_start rt _ _ (h.pending row hc)⟩
  · exact ⟨c, hc, hid, hprocess, trivial⟩

theorem BackgroundTask.load_executionId (db : Database) (lookups : Except PyExc Unit)
    (t : BackgroundTask Ctx) : (t.load rt db lookups).executionId = t.executionId := by
  unfold BackgroundTask.load
  split <;> rfl

theorem Backend.Ok.load (h : p.Ok rt told) {n : Nat} {t : BackgroundTask Ctx}
    (lookups : Except PyExc Unit) (hn : p.tasks[n]? = some t) (hcreated : t.state = .created) :
    Backend.Ok rt told { p with tasks := p.tasks.set n (t.load rt p.db lookups) } := by
  refine { h with owners := ?_, tasks := ?_ }
  · dsimp only
    rw [BackgroundTask.set_owners hn (t.load_executionId p.db lookups)]
    exact h.owners
  · intro u hu
    rcases BackgroundTask.set_cases h.owners hn hu with rfl | ⟨hu, -⟩
    · exact (h.tasks t (List.mem_of_getElem? hn)).load h lookups hcreated
    · exact h.tasks u hu

theorem Database.updateExecution_self (id : UUID) (db : Database) :
    db.updateExecution id (fun row => row) = db := by
  simp [Database.updateExecution]

/-- A step writes the row of its execution and nothing else. -/
theorem Backend.commit_some {steps : List StepSchema} {i : Input} {carriedOut : Bool}
    {flushed : Ctx} {run : Run Ctx} {db : Database}
    (h : p.commit rt steps i carriedOut flushed run = some db) :
    ∃ f : ExecutionRow → ExecutionRow, db = p.db.updateExecution run.execution.id f ∧
      (∀ row, (f row).origin = row.origin) ∧
      ∀ row, run.Writes rt steps i flushed row (f row) := by
  unfold Backend.commit at h
  split at h
  · rename_i hattempt
    cases h
    exact ⟨fun row => row, (Database.updateExecution_self _ _).symm, fun _ => rfl,
      fun row => .inr ⟨rfl, fun _ => hattempt⟩⟩
  · rename_i e hattempt
    split at h
    · split at h
      · rename_i context hcolumn
        cases h
        rw [Run.attempt_id hattempt]
        exact ⟨ExecutionRow.store e context, rfl, fun _ => rfl,
          fun row => .inl ⟨e, context, hattempt, hcolumn, rfl⟩⟩
      · cases h
    · rename_i hlost
      cases h
      refine ⟨fun row => row, (Database.updateExecution_self _ _).symm, fun _ => rfl,
        fun row => .inr ⟨rfl, fun hok => absurd ?_ hlost⟩⟩
      rw [hok]
      rfl

theorem Database.mem_updateExecution {db : Database} {id : UUID}
    {f : ExecutionRow → ExecutionRow} {row' : ExecutionRow}
    (h : row' ∈ (db.updateExecution id f).executions) :
    ∃ row ∈ db.executions, (row.id = id ∧ row' = f row) ∨ (row.id ≠ id ∧ row' = row) := by
  obtain ⟨row, hrow, rfl⟩ := List.mem_map.mp h
  refine ⟨row, hrow, ?_⟩
  by_cases hid : row.id = id
  · exact .inl ⟨hid, if_pos hid⟩
  · exact .inr ⟨hid, if_neg hid⟩

theorem Database.updateExecution_map {β : Type} {g : ExecutionRow → β} {id : UUID}
    {f : ExecutionRow → ExecutionRow} (hf : ∀ row, g (f row) = g row) (db : Database) :
    (db.updateExecution id f).executions.map g = db.executions.map g := by
  rw [Database.updateExecution, List.map_map]
  apply List.map_congr_left
  intro row _
  rw [Function.comp]
  split
  · exact hf row
  · rfl

theorem Database.mem_updateExecution_of_ne {db : Database} {id : UUID}
    {f : ExecutionRow → ExecutionRow} {row : ExecutionRow} (hrow : row ∈ db.executions)
    (hne : row.id ≠ id) : row ∈ (db.updateExecution id f).executions :=
  List.mem_map.mpr ⟨row, hrow, if_neg hne⟩

theorem Database.mem_updateExecution_of_id {db : Database} {id : UUID}
    {f : ExecutionRow → ExecutionRow} {row : ExecutionRow} (hrow : row ∈ db.executions)
    (hid : row.id = id) : f row ∈ (db.updateExecution id f).executions :=
  List.mem_map.mpr ⟨row, hrow, if_pos hid⟩

theorem Database.Sound.updateExecution {db : Database} {id : UUID}
    {f : ExecutionRow → ExecutionRow} (h : db.Sound) (hf : ∀ row, (f row).origin = row.origin) :
    (db.updateExecution id f).Sound where
  keyed := ⟨h.keyed.definitions, h.keyed.ofWebhook⟩
  executions := by
    intro row' hrow'
    have hadmits : ∀ row, (f row).tenantId = row.tenantId ∧
        (f row).processDefinitionId = row.processDefinitionId ∧
        (f row).triggeredBy = row.triggeredBy := fun row =>
      ⟨congrArg Origin.tenantId (hf row), congrArg Origin.processDefinitionId (hf row),
        congrArg Origin.triggeredBy (hf row)⟩
    obtain ⟨row, hrow, ⟨-, rfl⟩ | ⟨-, rfl⟩⟩ := Database.mem_updateExecution hrow'
    · obtain ⟨htenant, hdefinition, huser⟩ := hadmits row
      obtain ⟨hdefinition', huser'⟩ := h.executions row hrow
      exact ⟨by rw [htenant, hdefinition]; exact hdefinition', by
        rw [htenant, huser]; exact huser'⟩
    · exact ⟨(h.executions row' hrow).definition, (h.executions row' hrow).user⟩

/-- What a step writes into the row of its task. -/
theorem Run.Serves.written {told : Prop} {steps : List StepSchema} {i : Input}
    {c row row' : ExecutionRow} {flushed : Ctx} {r : Run Ctx}
    (h : r.Serves rt told steps c row flushed)
    (hwrites : r.Writes rt steps i flushed row row') :
    row' = row ∨ (row.status = Status.text .pending ∨ row.status = Status.text .running) ∧
      (row'.status = Status.text .running ∨ ∃ status context, row'.status = Status.text status ∧
        status ≠ .pending ∧ Outcome rt steps c status context ∧
        (told → rt.Shows row'.context context)) := by
  rcases hwrites with ⟨e, column, hattempt, hcolumn, rfl⟩ | ⟨rfl, -⟩
  · obtain ⟨-, hbefore, hafter⟩ := h.attempt hattempt
    refine .inr ⟨hbefore, ?_⟩
    rcases hafter with hrunning | houtcome
    · exact .inl (congrArg Status.text hrunning)
    · exact .inr ⟨e.status, e.context, rfl, houtcome.ne_pending, houtcome,
        fun hold => ((h.column hold).attempt hattempt).shows hcolumn⟩
  · exact .inl rfl

-- What a task knows of its execution while it runs.
theorem Backend.Ok.running (h : p.Ok rt told) {n : Nat} {t : BackgroundTask Ctx}
    {steps : List StepSchema} {run : Run Ctx} {flushed : Ctx} (hn : p.tasks[n]? = some t)
    (hrunning : t.state = .running steps run flushed) :
    ∃ c ∈ p.stored, c.id = t.executionId ∧ c.processDefinitionId = t.processId ∧
      (∃ definition ∈ p.db.definitions, definition.id = t.processId ∧ definition.steps = steps) ∧
      ∃ row ∈ p.db.executions, row.origin = c.origin ∧ run.execution.id = row.id ∧
        run.Serves rt (told t.executionId) steps c row flushed := by
  obtain ⟨c, hc, hid, hprocess, hstate⟩ := h.tasks t (List.mem_of_getElem? hn)
  rw [hrunning] at hstate
  obtain ⟨hdefinition, row, hrow, hrowId, hserves⟩ := hstate
  exact ⟨c, hc, hid, hprocess, hdefinition, row, hrow,
    (h.origin_of_id hc hrow hrowId.symm).symm, hserves.id, hid ▸ hserves⟩

-- The row of a task after a step of it.
theorem Backend.Ok.row_step (h : p.Ok rt told) {c row row' : ExecutionRow} {steps : List StepSchema}
    {run : Run Ctx} {flushed : Ctx} {i : Input} (hc : c ∈ p.stored)
    (hrow : row ∈ p.db.executions) (hsame : row.origin = c.origin)
    (hsame' : row'.origin = row.origin)
    (hdefinition : ∃ definition ∈ p.db.definitions,
      definition.id = c.processDefinitionId ∧ definition.steps = steps)
    (hserves : run.Serves rt (told c.id) steps c row flushed)
    (hwrites : run.Writes rt steps i flushed row row') :
    row' = c ∨ row'.status = Status.text .running ∨
      row'.Finished rt (told row'.id) p.db c := by
  have hid : row'.id = c.id := ExecutionRow.id_of_origin (hsame'.trans hsame)
  rcases hserves.written hwrites with
    rfl | ⟨-, hrunning | ⟨status, context, hstatus, -, houtcome, hshows⟩⟩
  · exact h.rows row' hrow c hc hid.symm
  · exact .inr (.inl hrunning)
  · obtain ⟨definition, hmem, hdefinitionId, rfl⟩ := hdefinition
    refine .inr (.inr ⟨definition, hmem, ?_, status, context, hstatus, houtcome, hid ▸ hshows⟩)
    rw [hdefinitionId]
    exact congrArg Origin.processDefinitionId (hsame'.trans hsame).symm

theorem Backend.Ok.step (h : p.Ok rt told) {n : Nat} {t : BackgroundTask Ctx}
    {steps : List StepSchema} {run : Run Ctx} {flushed : Ctx} {i : Input}
    {f : ExecutionRow → ExecutionRow} (hn : p.tasks[n]? = some t)
    (hrunning : t.state = .running steps run flushed)
    (horigin : ∀ row, (f row).origin = row.origin)
    (hwrites : ∀ row, run.Writes rt steps i flushed row (f row))
    (htells : told t.executionId → ∀ row ∈ p.db.executions, row.id = t.executionId →
      run.Tells rt i flushed row.context) :
    Backend.Ok rt told
      { p with
        db := p.db.updateExecution run.execution.id f
        tasks := p.tasks.set n
          { t with
            state := .running steps (executeWorkflow rt.model steps i run)
              (run.flush rt.model steps i flushed) } } := by
  obtain ⟨c, hc, hid, hprocess, ⟨definition, hdefinition, hdefinitionId, hsteps⟩, row, hrow,
    hsame, hrunId, hserves⟩ := h.running hn hrunning
  have hcRow : c.id = row.id := ExecutionRow.id_of_origin hsame.symm
  constructor
  case sound => exact h.sound.updateExecution horigin
  case accepted => exact h.accepted
  case ids =>
    dsimp only
    rw [Database.updateExecution_map fun row => ExecutionRow.id_of_origin (horigin row)]
    exact h.ids
  case origins =>
    dsimp only
    rw [Database.updateExecution_map horigin]
    exact h.origins
  case pending => exact h.pending
  case rows =>
    intro row' hrow' c' hc' hid'
    dsimp only at hrow' hc' ⊢
    obtain ⟨old, hold, ⟨holdId, rfl⟩ | ⟨-, rfl⟩⟩ := Database.mem_updateExecution hrow'
    · obtain rfl := h.row_unique hold hrow (holdId.trans hrunId)
      have hc'Id : c'.id = old.id := hid'.trans (ExecutionRow.id_of_origin (horigin old))
      obtain rfl := h.stored_unique hc' hc (hc'Id.trans hcRow.symm)
      exact h.row_step hc' hold hsame (horigin old)
        ⟨definition, hdefinition, hdefinitionId.trans hprocess.symm, hsteps⟩ (hid ▸ hserves)
        (hwrites old)
    · exact h.rows row' hold c' hc' hid'
  case owners =>
    dsimp only
    rw [BackgroundTask.set_owners hn (by rfl)]
    exact h.owners
  case tasks =>
    intro u hu
    rcases BackgroundTask.set_cases h.owners hn hu with rfl | ⟨hu, hother⟩
    · refine ⟨c, hc, hid, hprocess, ⟨definition, hdefinition, hdefinitionId, hsteps⟩, f row, ?_,
        ?_, ?_⟩
      · exact Database.mem_updateExecution_of_id hrow hrunId.symm
      · exact (ExecutionRow.id_of_origin (horigin row)).trans hcRow.symm
      · rw [hid]
        exact hserves.step (hwrites row) fun hold => htells hold row hrow (hcRow.symm.trans hid)
    · refine BackgroundTask.Ok.mono (p := p) (fun _ hc => hc) (fun _ hd => hd)
        (fun row' hrow' huId => ?_) (h.tasks u hu)
      refine Database.mem_updateExecution_of_ne hrow' fun hsameId => hother ?_
      rw [← huId, hsameId, hrunId, ← hcRow, hid]

/-! Every action. -/

/-- What an action of the system does: it is a request, it changes one task or it ends all. -/
theorem Backend.step_cases {p' : Backend Ctx} {action : BackendAction}
    (h : p.step d rt action = some p') :
    (∃ request, action = .request request ∧ p' = p.request d request) ∨
    (∃ n lookups t, action = .load n lookups ∧ p.tasks[n]? = some t ∧ t.state = .created ∧
      p' = { p with tasks := p.tasks.set n (t.load rt p.db lookups) }) ∨
    (∃ n i carriedOut t steps run flushed f, action = .step n i carriedOut ∧
      p.tasks[n]? = some t ∧ t.state = .running steps run flushed ∧
      (∀ row : ExecutionRow, (f row).origin = row.origin) ∧
      (∀ row, run.Writes rt steps i flushed row (f row)) ∧
      p' = { p with
        db := p.db.updateExecution run.execution.id f
        tasks := p.tasks.set n
          { t with
            state := .running steps (executeWorkflow rt.model steps i run)
              (run.flush rt.model steps i flushed) } }) ∨
    (action = .restart ∧ p' = { p with tasks := [] }) := by
  unfold Backend.step at h
  cases action with
  | request request =>
      cases h
      exact .inl ⟨request, rfl, rfl⟩
  | load n lookups =>
      simp only at h
      split at h
      · rename_i t hn
        split at h
        · rename_i hcreated
          cases h
          exact .inr (.inl ⟨n, lookups, t, rfl, hn, hcreated, rfl⟩)
        · cases h
      · cases h
  | step n i carriedOut =>
      simp only at h
      split at h
      · rename_i t hn
        split at h
        · rename_i steps run flushed hrunning
          obtain ⟨db, hcommit, rfl⟩ := Option.map_eq_some_iff.mp h
          obtain ⟨f, rfl, horigin, hwrites⟩ := Backend.commit_some hcommit
          exact .inr (.inr (.inl ⟨n, i, carriedOut, t, steps, run, flushed, f, rfl, hn, hrunning,
            horigin, hwrites, rfl⟩))
        · cases h
      · cases h
  | restart =>
      cases h
      exact .inr (.inr (.inr ⟨rfl, rfl⟩))

theorem Backend.Ok.next {p' : Backend Ctx} {action : BackendAction} (h : p.Ok rt told)
    (htells : ∀ id, told id → p.Tells rt id action) (hstep : p.step d rt action = some p') :
    p'.Ok rt told := by
  rcases Backend.step_cases hstep with ⟨request, rfl, rfl⟩ |
    ⟨n, lookups, t, rfl, hn, hcreated, rfl⟩ |
    ⟨n, i, _, t, steps, run, flushed, f, rfl, hn, hrunning, horigin, hwrites, rfl⟩ | ⟨rfl, rfl⟩
  · exact h.request request
  · exact h.load lookups hn hcreated
  · refine h.step hn hrunning horigin hwrites fun hold => ?_
    have hstepTells := htells t.executionId hold t hn rfl
    rwa [hrunning] at hstepTells
  · exact { h with owners := List.nodup_nil, tasks := List.forall_mem_nil _ }

-- In any run, with no word about the columns `context`.
theorem Backend.Leads.ok {p' : Backend Ctx} (hr : p.Leads d rt p') (h : p.Ok rt fun _ => False) :
    p'.Ok rt fun _ => False :=
  hr.invariant h fun _ _ _ _ _ hstep hok => hok.next nofun hstep

theorem Backend.LeadsTelling.ok {p' : Backend Ctx} {id : UUID} (hr : p.LeadsTelling d rt id p')
    (h : p.Ok rt (· = id)) : p'.Ok rt (· = id) := by
  refine hr.invariant h fun _ _ _ _ htells hstep hok => hok.next ?_ hstep
  rintro _ rfl
  exact htells

end Invariant

/-! ## 6. The rows of a run -/

/-- How a row can change: from pending to running or to an end, and from running to an end. -/
def ExecutionRow.Before (row row' : ExecutionRow) : Prop :=
  row'.origin = row.origin ∧
    (row' = row ∨ (row.status = Status.text .pending ∨ row.status = Status.text .running) ∧
      ∃ status, status ≠ .pending ∧ row'.status = Status.text status)

theorem ExecutionRow.Before.refl (row : ExecutionRow) : row.Before row := ⟨rfl, .inl rfl⟩

theorem ExecutionRow.Before.trans {row row' row'' : ExecutionRow} (h : row.Before row')
    (h' : row'.Before row'') : row.Before row'' := by
  obtain ⟨horigin, hchange⟩ := h
  obtain ⟨horigin', hchange'⟩ := h'
  refine ⟨horigin'.trans horigin, ?_⟩
  rcases hchange' with rfl | ⟨hbefore', hafter⟩
  · exact hchange
  · rcases hchange with rfl | ⟨hbefore, -⟩
    · exact .inr ⟨hbefore', hafter⟩
    · exact .inr ⟨hbefore, hafter⟩

section Rows

variable {d : Deployment} {rt : Runtime Ctx} {told : UUID → Prop} {p p' : Backend Ctx}

-- What one action does to the rows.
theorem Backend.Ok.rows_next {action : BackendAction} (h : p.Ok rt told)
    (hstep : p.step d rt action = some p') {row : ExecutionRow} (hrow : row ∈ p.db.executions) :
    ∃ row' ∈ p'.db.executions, row.Before row' := by
  rcases Backend.step_cases hstep with ⟨request, -, rfl⟩ | ⟨n, lookups, t, -, -, -, rfl⟩ |
    ⟨n, i, _, t, steps, run, flushed, f, -, hn, hrunning, horigin, hwrites, rfl⟩ | ⟨-, rfl⟩
  · refine ⟨row, ?_, .refl row⟩
    simp only [Backend.request]
    rw [(handle_executions d p.db request).1]
    exact List.mem_append_left _ hrow
  · exact ⟨row, hrow, .refl row⟩
  · by_cases hid : row.id = run.execution.id
    · refine ⟨f row, Database.mem_updateExecution_of_id hrow hid, horigin row, ?_⟩
      obtain ⟨c, -, -, -, -, own, hown, -, hrunId, hserves⟩ := h.running hn hrunning
      obtain rfl := h.row_unique hrow hown (hid.trans hrunId)
      rcases hserves.written (hwrites row) with
        heq | ⟨hbefore, hrunning | ⟨status, _, hstatus, hne, -, -⟩⟩
      · exact .inl heq
      · exact .inr ⟨hbefore, .running, by decide, hrunning⟩
      · exact .inr ⟨hbefore, status, hne, hstatus⟩
    · exact ⟨row, Database.mem_updateExecution_of_ne hrow hid, .refl row⟩
  · exact ⟨row, hrow, .refl row⟩

/-- The status of an execution only moves forwards, whatever the requests, the other tasks, lost
replies and restarts do; a row that has ended is never written again. -/
theorem Backend.row_progress {users : List UserRow} (hp : (Backend.start users).Leads d rt p)
    (hp' : p.Leads d rt p') {row : ExecutionRow} (hrow : row ∈ p.db.executions) :
    ∃ row' ∈ p'.db.executions, row.Before row' := by
  have hok := hp.ok (Backend.start_ok rt _ users)
  induction hp' with
  | start => exact ⟨row, hrow, .refl row⟩
  | next hreached _ hstep ih =>
      obtain ⟨row', hrow', hbefore⟩ := ih
      obtain ⟨row'', hrow'', hbefore'⟩ := (Leads.ok hreached hok).rows_next hstep hrow'
      exact ⟨row'', hrow'', hbefore.trans hbefore'⟩

theorem Backend.Ok.ended (h : p.Ok rt told) {row : ExecutionRow} (hrow : row ∈ p.db.executions)
    {status : Status} (hstatus : row.status = Status.text status)
    (hended : status = .completed ∨ status = .failed) :
    ∃ c ∈ p.stored, c.origin = row.origin ∧ ∃ definition ∈ p.db.definitions,
      definition.id = row.processDefinitionId ∧ definition.tenantId = row.tenantId ∧
      Accepted definition.steps ∧ ∃ context, Outcome rt definition.steps c status context ∧
        (told row.id → rt.Shows row.context context) := by
  obtain ⟨c, hc, horigin⟩ := h.stored_of_row hrow
  refine ⟨c, hc, horigin, ?_⟩
  rcases h.rows row hrow c hc (ExecutionRow.id_of_origin horigin) with
    rfl | hrunning | ⟨definition, hdefinition, hid, status', context, hstatus', houtcome, hshows⟩
  · obtain rfl := Status.text_inj (hstatus.symm.trans (h.pending row hc))
    rcases hended with hended | hended <;> cases hended
  · obtain rfl := Status.text_inj (hstatus.symm.trans hrunning)
    rcases hended with hended | hended <;> cases hended
  · obtain rfl := Status.text_inj (hstatus.symm.trans hstatus')
    have htenant := (h.sound.tenants row hrow).2.1 definition hdefinition hid
    exact ⟨definition, hdefinition, hid, htenant, h.accepted definition hdefinition, context,
      houtcome, hshows⟩

end Rows

/-! A check for single steps that a run can be put through. -/

/-- A step of `execute_workflow` leaves a context that the next flush sends. -/
def Backend.Sends (rt : Runtime Ctx) (p : Backend Ctx) : BackendAction → Prop
  | .step n input _ =>
      match p.tasks[n]?.map BackgroundTask.state with
      | some (.running _ run flushed) => run.Sends rt input flushed
      | _ => True
  | _ => True

instance Backend.decidableSends (rt : Runtime Ctx) (p : Backend Ctx) : (action : BackendAction) →
    Decidable (p.Sends rt action)
  | .step n input _ =>
      match h : p.tasks[n]?.map BackgroundTask.state with
      | some (.running _ run flushed) =>
          decidable_of_iff (run.Sends rt input flushed) (by simp only [Backend.Sends, h])
      | some .created => .isTrue (by simp only [Backend.Sends, h])
      | some .gone => .isTrue (by simp only [Backend.Sends, h])
      | none => .isTrue (by simp only [Backend.Sends, h])
  | .request _ => .isTrue trivial
  | .load _ _ => .isTrue trivial
  | .restart => .isTrue trivial

theorem Backend.Sends.tells {rt : Runtime Ctx} {p : Backend Ctx} {action : BackendAction}
    (h : p.Sends rt action) (id : UUID) : p.Tells rt id action := by
  cases action with
  | step n input carriedOut =>
      intro t hn _
      rw [Backend.Sends, hn, Option.map_some] at h
      split
      · rename_i steps run flushed hrunning
        simp only [hrunning] at h
        exact fun row _ _ => h.tells
      · trivial
  | request request => trivial
  | load n lookups => trivial
  | restart => trivial

/-! Two workflows of the first tenant, and their executions. -/

def Backend.after (p : Backend PyContext) (actions : List BackendAction) :
    Backend PyContext :=
  (runActions (Backend.step plainDeployment (pyRuntime identifierSearch)) p actions).getD p

theorem Backend.after_eq {p : Backend PyContext} {actions : List BackendAction}
    (hrun : (runActions (Backend.step plainDeployment (pyRuntime identifierSearch)) p
      actions).isSome = true) :
    runActions (Backend.step plainDeployment (pyRuntime identifierSearch)) p actions =
      some (p.after actions) := by
  obtain ⟨p', hp'⟩ := Option.isSome_iff_exists.mp hrun
  rw [Backend.after, hp']
  rfl

theorem Backend.after_leads {p : Backend PyContext} {actions : List BackendAction}
    (hrun : (runActions (Backend.step plainDeployment (pyRuntime identifierSearch)) p
      actions).isSome = true) :
    p.Leads plainDeployment (pyRuntime identifierSearch) (p.after actions) :=
  .of_run .start (fun _ _ _ => trivial) (Backend.after_eq hrun)

/-- The user of the first tenant triggers a workflow. -/
def trigger (executionId processDefinitionId : UUID) (context : Dict) : BackendAction :=
  .request (.triggerExecution healthySession (healthyCreate executionId) (developerOf 11 1)
    ⟨processDefinitionId, context⟩)

def pendingNightly : Backend PyContext :=
  (Backend.start twoTenants).after [.request createNightly, trigger 200 100 []]

/-- The task makes its steps, and another execution is triggered and begun between them. -/
def interleavedActions : List BackendAction :=
  [.load 0 (.ok ()), .step 0 (.steady 9) false, .step 0 (.steady 9) false, trigger 201 100 [],
    .step 0 (.steady 9) false, .load 1 (.ok ()), .step 1 (.steady 9) false,
    .step 0 (.steady 9) false, .step 0 (.steady 9) false, .step 0 (.steady 9) false]

theorem pendingNightly_leads : (Backend.start twoTenants).Leads plainDeployment
    (pyRuntime identifierSearch) pendingNightly :=
  Backend.after_leads (by decide +kernel)

theorem row_progress_nightly :
    (pendingNightly.after interleavedActions).db.executions.map ExecutionRow.status =
        [Status.text .completed, Status.text .running] ∧
      ∀ row ∈ pendingNightly.db.executions,
        ∃ row' ∈ (pendingNightly.after interleavedActions).db.executions, row.Before row' :=
  ⟨by decide +kernel, fun _ hrow => Backend.row_progress pendingNightly_leads
    (Backend.after_leads (by decide +kernel)) hrow⟩

end ConstructorPlatform
