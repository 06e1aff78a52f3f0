import ConstructorPlatform.Reasoning.System
import ConstructorPlatform.PlatformApi.Webhooks

/-!
# Requests — the endpoints that write, one request after the other

`POST /workflows`, `POST /executions`, the three requests that manage webhooks, the trigger of a
webhook and the internal trigger.  `Change` says once what a request can do to the database; the
invariants of the runs come from it.
-/

namespace ConstructorPlatform

open Reasoning

/-! ## 1. `POST /workflows` and `POST /executions` -/

/-- `VALID_ON_ERROR`. -/
def validOnError : List String := ["stop", "skip", "retry", "fallback"]

/-- A `ProcessDefinitionCreate` that has passed its validators. -/
structure ProcessDefinitionCreate extends ProcessDefinition where
  name : String
  trigger : Dict
  onError : String
  validOnError : onError ∈ validOnError

/-- What the environment decides while a definition is stored. -/
structure ProcessCreateEnv where
  definitionId : UUID
  createdAt : Nat
  -- The flush and the refresh in `create_process`.
  flush : Except PyExc Unit
  commit : Reply

/-- The row that `create_process` adds. -/
def newProcess (env : ProcessCreateEnv) (data : ProcessDefinitionCreate) (tenantId : UUID) :
    ProcessDefinitionRow where
  id := env.definitionId
  tenantId := tenantId
  name := data.name
  triggerConfig := data.trigger
  steps := data.steps
  onError := data.onError
  version := 1
  createdAt := env.createdAt

def Database.insertDefinition (row : ProcessDefinitionRow) (db : Database) : Database :=
  { db with definitions := db.definitions ++ [row] }

/-- `create` of `src/workflows/router.py`. -/
def createWorkflowRoute (session : SessionEnv) (env : ProcessCreateEnv) (credentials : Credentials)
    (body : ProcessDefinitionCreate) (db : Database) : Response × Database :=
  match authorize .workflowCreate session db.users credentials with
  | .error e => (.error e, db)
  | .ok user =>
      let process := newProcess env body user.tenantId
      -- The primary key refuses an id that is taken.
      if process.id ∈ db.definitions.map ProcessDefinitionRow.id then
        (.error internalServerError, db)
      else
        match env.flush, env.commit with
        | .error _, _ => (.error internalServerError, db)
        | .ok (), .raised _ carriedOut =>
            (.error internalServerError, if carriedOut then db.insertDefinition process else db)
        | .ok (), .ok => (.ok (.workflow process), db.insertDefinition process)

/-- `trigger` of `src/executions/router.py`. -/
def triggerExecutionRoute (session : SessionEnv) (env : CreateEnv) (credentials : Credentials)
    (body : ExecutionCreate) (db : Database) : Response × Database :=
  match authorize .workflowTrigger session db.users credentials with
  | .error e => (.error e, db)
  | .ok user =>
      let (created, db) := createExecution env body user.tenantId (some user.id) "manual" db
      match created with
      | .error _ => (.error internalServerError, db)
      | .ok none => (.error ⟨404, "ProcessDefinition not found"⟩, db)
      | .ok (some execution) => (.ok (.execution execution.read), db)

/-! ## 2. Requests -/

/-- A request with what the environment decides while it is handled. -/
inductive Request where
  | createWorkflow (session : SessionEnv) (env : ProcessCreateEnv) (credentials : Credentials)
      (body : ProcessDefinitionCreate)
  | triggerExecution (session : SessionEnv) (env : CreateEnv) (credentials : Credentials)
      (body : ExecutionCreate)
  | createWebhook (session : SessionEnv) (env : WebhookEnv) (credentials : Credentials)
      (body : WebhookConfigCreate)
  | deleteWebhook (session : SessionEnv) (env : WebhookEnv) (credentials : Credentials)
      (webhookId : UUID)
  | rotateWebhook (session : SessionEnv) (env : WebhookEnv) (credentials : Credentials)
      (webhookId : UUID)
  | triggerWebhook (env : TriggerEnv) (call : WebhookCall)
  | internalTrigger (env : TriggerEnv) (header : Option String) (body : ExecutionCreate)

/-- The packages and the setting `internal_secret`. -/
structure Deployment where
  lib : WebhookLibraries
  internalSecret : String

/-- The answer to a request, what it has committed to `webhook_configs`, and the database. -/
structure Handled where
  response : Response
  written : Option WebhookWrite
  db : Database

def Handled.ofWrite (db : Database) (handled : Response × Option WebhookWrite) : Handled :=
  ⟨handled.1, handled.2, handled.2.elim db fun write => db.writeWebhook write⟩

def Handled.ofDatabase (handled : Response × Database) : Handled :=
  ⟨handled.1, none, handled.2⟩

/-- The handler of a request. -/
def handle (d : Deployment) (db : Database) : Request → Handled
  | .createWorkflow session env credentials body =>
      .ofDatabase (createWorkflowRoute session env credentials body db)
  | .triggerExecution session env credentials body =>
      .ofDatabase (triggerExecutionRoute session env credentials body db)
  | .createWebhook session env credentials body =>
      .ofWrite db (createWebhookRoute session env credentials body db)
  | .deleteWebhook session env credentials webhookId =>
      .ofWrite db (deleteWebhookRoute session env credentials webhookId db)
  | .rotateWebhook session env credentials webhookId =>
      .ofWrite db (rotateWebhookRoute session env credentials webhookId db)
  | .triggerWebhook env call => .ofDatabase (triggerWebhookRoute d.lib env call db)
  | .internalTrigger env header body =>
      let (response, db) := ConstructorPlatform.internalTrigger d.internalSecret env header body db
      .ofDatabase (response.map .internal, db)

/-- A request that has been answered. -/
structure Served where
  request : Request
  response : Response
  written : Option WebhookWrite

structure Api where
  db : Database
  -- History: the requests, oldest first.
  served : List Served

/-- The tables are empty but for the users. -/
def Api.start (users : List UserRow) : Api := ⟨⟨users, [], [], []⟩, []⟩

def Api.serve (d : Deployment) (s : Api) (request : Request) : Option Api :=
  let handled := handle d s.db request
  some ⟨handled.db, s.served ++ [⟨request, handled.response, handled.written⟩]⟩

/-- The states that sequences of requests lead to. -/
abbrev Api.Reached (d : Deployment) (users : List UserRow) : Api → Prop :=
  Reachable (Api.serve d) (fun _ _ => True) (Api.start users)

/-! ## 3. What a request can change -/

/-- What `create_execution` needs of a row before it stores it. -/
structure Database.AdmitsExecution (db : Database) (row : ExecutionRow) : Prop where
  definition : ∃ d ∈ db.definitions, d.id = row.processDefinitionId ∧ d.tenantId = row.tenantId
  user : ∀ userId, row.triggeredBy = some userId →
    ∃ u ∈ db.users, u.id = userId ∧ u.tenantId = row.tenantId

/-- The change that a request makes. -/
inductive Change (db : Database) : Option WebhookWrite → Database → Prop where
  | nothing : Change db none db
  | definition (row : ProcessDefinitionRow)
      (fresh : row.id ∉ db.definitions.map ProcessDefinitionRow.id) :
      Change db none (db.insertDefinition row)
  | execution (row : ExecutionRow) (admits : db.AdmitsExecution row) :
      Change db none (db.insertExecution row)
  | webhook (row : WebhookConfigRow) (admits : db.admitsWebhook row = true)
      (active : row.isActive = true) :
      Change db (some (.insert row)) (db.writeWebhook (.insert row))
  | secret (row : WebhookConfigRow) (found : row ∈ db.webhooks) (secret : String) :
      Change db (some (.secret row.id secret)) (db.writeWebhook (.secret row.id secret))
  | inactive (row : WebhookConfigRow) (found : row ∈ db.webhooks) :
      Change db (some (.inactive row.id)) (db.writeWebhook (.inactive row.id))

theorem createWorkflowRoute_change (session : SessionEnv) (env : ProcessCreateEnv)
    (credentials : Credentials) (body : ProcessDefinitionCreate) (db : Database) :
    Change db none (createWorkflowRoute session env credentials body db).2 := by
  unfold createWorkflowRoute
  split
  · exact .nothing
  · rename_i user _
    by_cases htaken : (newProcess env body user.tenantId).id ∈
        db.definitions.map ProcessDefinitionRow.id
    · simp only [if_pos htaken]
      exact .nothing
    · have hinsert := Change.definition (newProcess env body user.tenantId) htaken
      simp only [if_neg htaken]
      split
      · exact .nothing
      · dsimp only
        split
        · exact hinsert
        · exact .nothing
      · exact hinsert

-- `create_execution` stores a row of a definition that it has found in the tenant.
theorem createExecution_change {env : CreateEnv} {data : ExecutionCreate} {tenantId : UUID}
    {triggeredBy : Option UUID} {triggerType : String} {db : Database}
    (huser : ∀ userId, triggeredBy = some userId →
      ∃ u ∈ db.users, u.id = userId ∧ u.tenantId = tenantId) :
    Change db none (createExecution env data tenantId triggeredBy triggerType db).2 := by
  cases hfound : db.definitions.find? fun d =>
      d.id = data.processDefinitionId ∧ d.tenantId = tenantId with
  | none =>
      have hsame : (createExecution env data tenantId triggeredBy triggerType db).2 = db := by
        unfold createExecution
        split
        · rfl
        · rw [hfound]
      rw [hsame]
      exact .nothing
  | some definition =>
      have hdefinition := List.find?_some hfound
      simp only [decide_eq_true_eq] at hdefinition
      rcases createExecution_cases env triggeredBy triggerType hfound with
        ⟨-, hdb⟩ | ⟨-, exc, hdb⟩
      · rw [hdb]
        refine .execution _ ⟨⟨definition, List.mem_of_find?_eq_some hfound, hdefinition⟩, huser⟩
      · rw [hdb]
        exact .nothing

theorem triggerExecutionRoute_change (session : SessionEnv) (env : CreateEnv)
    (credentials : Credentials) (body : ExecutionCreate) (db : Database) :
    Change db none (triggerExecutionRoute session env credentials body db).2 := by
  unfold triggerExecutionRoute
  split
  · exact .nothing
  · rename_i user huser
    have hchange : Change db none
        (createExecution env body user.tenantId (some user.id) "manual" db).2 := by
      refine createExecution_change fun userId hid => ?_
      cases hid
      exact getCurrentUser_mem (authorize_ok huser).1
    generalize createExecution env body user.tenantId (some user.id) "manual" db = created
      at hchange ⊢
    obtain ⟨created, db'⟩ := created
    dsimp only
    split <;> exact hchange

theorem triggerWebhookRoute_change (lib : WebhookLibraries) (env : TriggerEnv) (call : WebhookCall)
    (db : Database) : Change db none (triggerWebhookRoute lib env call db).2 := by
  rw [triggerWebhookRoute_database]
  rcases triggerCreates_cases lib env call db with ⟨e, hreached⟩ | ⟨_, _, -, -, -, hreached⟩
  · rw [hreached]
    exact .nothing
  · rw [hreached]
    exact createExecution_change fun _ h => nomatch h

theorem internalTrigger_change (internalSecret : String) (env : TriggerEnv)
    (header : Option String) (body : ExecutionCreate) (db : Database) :
    Change db none (internalTrigger internalSecret env header body db).2 := by
  unfold internalTrigger
  split
  · exact .nothing
  · exact .nothing
  · split
    · exact .nothing
    · exact .nothing
    · exact createExecution_change fun _ h => nomatch h

/-- What a request does to the database. -/
theorem handle_change (d : Deployment) (db : Database) (request : Request) :
    Change db (handle d db request).written (handle d db request).db := by
  cases request with
  | createWorkflow session env credentials body =>
      exact createWorkflowRoute_change session env credentials body db
  | triggerExecution session env credentials body =>
      exact triggerExecutionRoute_change session env credentials body db
  | createWebhook session env credentials body =>
      simp only [handle, Handled.ofWrite]
      cases hwrite : (createWebhookRoute session env credentials body db).2 with
      | none => exact .nothing
      | some write =>
          obtain ⟨user, -, hadmits, -, rfl⟩ := createWebhookRoute_write hwrite
          exact .webhook _ hadmits rfl
  | deleteWebhook session env credentials webhookId =>
      simp only [handle, Handled.ofWrite]
      cases hwrite : (deleteWebhookRoute session env credentials webhookId db).2 with
      | none => exact .nothing
      | some write =>
          obtain ⟨user, row, -, hrow, rfl, -, rfl⟩ := deleteWebhookRoute_write hwrite
          exact .inactive row hrow
  | rotateWebhook session env credentials webhookId =>
      simp only [handle, Handled.ofWrite]
      cases hwrite : (rotateWebhookRoute session env credentials webhookId db).2 with
      | none => exact .nothing
      | some write =>
          obtain ⟨user, row, -, hrow, rfl, -, rfl⟩ := rotateWebhookRoute_write hwrite
          exact .secret row hrow env.secret
  | triggerWebhook env call => exact triggerWebhookRoute_change d.lib env call db
  | internalTrigger env header body =>
      exact internalTrigger_change d.internalSecret env header body db

theorem Api.serve_change {d : Deployment} {s s' : Api} {request : Request}
    (h : s.serve d request = some s') :
    ∃ response written, s'.served = s.served ++ [⟨request, response, written⟩] ∧
      response = (handle d s.db request).response ∧
      written = (handle d s.db request).written ∧ Change s.db written s'.db := by
  cases h
  exact ⟨_, _, rfl, rfl, rfl, handle_change d s.db request⟩

end ConstructorPlatform
