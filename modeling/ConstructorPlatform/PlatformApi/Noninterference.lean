import ConstructorPlatform.PlatformApi.WebhookAuthority
import ConstructorPlatform.Reasoning.Purge

/-!
# Noninterference — what a tenant sees of the others

The requests of a tenant are those with a token of the tenant, the calls of its webhooks and the
internal triggers of its definitions.  `tenant_noninterference`: as long as they stay in the tenant,
leaving out the requests of all other tenants, and the rows of the other tenants, changes neither an
answer nor a row of the tenant.  A request that does not stay in the tenant reads the rows of all
tenants, names a workflow of another tenant, or draws an id that a row of another tenant has.
-/

namespace ConstructorPlatform

open Reasoning

/-! ## 1. Calls -/

/-- A request to an endpoint that writes or to one that reads. -/
inductive ApiCall where
  | write (request : Request)
  | read (request : ReadRequest)

inductive Answer where
  | write (response : Response)
  | read (response : Except HttpError ReadBody)

/-- The database after a call, and the answer. -/
def serveCall (d : Deployment) (encodes : Int → Bool) (db : Database) : ApiCall → Database × Answer
  | .write request => ((handle d db request).db, .write (handle d db request).response)
  | .read request => (db, .read (respond encodes db request))

/-- The tenant of the token. -/
def tokenTenant : Credentials → Option UUID
  | some (.ok claims) => some claims.tenantId
  | _ => none

/-- The tenant that a request acts for. -/
def Request.tenant (db : Database) : Request → Option UUID
  | .createWorkflow _ _ credentials _ => tokenTenant credentials
  | .triggerExecution _ _ credentials _ => tokenTenant credentials
  | .createWebhook _ _ credentials _ => tokenTenant credentials
  | .deleteWebhook _ _ credentials _ => tokenTenant credentials
  | .rotateWebhook _ _ credentials _ => tokenTenant credentials
  | .triggerWebhook _ call => (getWebhook db call.webhookId).map WebhookConfigRow.tenantId
  | .internalTrigger _ _ body =>
      (getProcess db body.processDefinitionId).map ProcessDefinitionRow.tenantId

def ApiCall.tenant (db : Database) : ApiCall → Option UUID
  | .write request => request.tenant db
  | .read request => tokenTenant request.credentials

/-- The call concerns the tenant. -/
def ApiCall.Concerns (tenant : UUID) (db : Database) (call : ApiCall) : Prop :=
  call.tenant db = some tenant

instance (tenant : UUID) (db : Database) (call : ApiCall) :
    Decidable (call.Concerns tenant db) := by
  unfold ApiCall.Concerns; infer_instance

/-- No row of another tenant has the id of the new execution. -/
def CreateEnv.DrawsIn (tenant : UUID) (db : Database) (env : CreateEnv) : Prop :=
  ∀ row ∈ db.executions, row.id = env.executionId → row.tenantId = tenant

instance (tenant : UUID) (db : Database) (env : CreateEnv) : Decidable (env.DrawsIn tenant db) :=
  inferInstanceAs (Decidable
    (∀ row ∈ db.executions, row.id = env.executionId → row.tenantId = tenant))

/-- A row that is stored has no id of another tenant's row and names no definition of another
tenant; what is read is filtered by tenant. -/
def ApiCall.StaysInTenant (encodes : Int → Bool) (tenant : UUID) (db : Database) : ApiCall → Prop
  | .write (.createWorkflow _ env _ _) =>
      ∀ row ∈ db.definitions, row.id = env.definitionId → row.tenantId = tenant
  | .write (.createWebhook _ env _ body) =>
      (∀ row ∈ db.webhooks, row.id = env.webhookId → row.tenantId = tenant) ∧
        ∀ row ∈ db.definitions, row.id = body.workflowId → row.tenantId = tenant
  | .write (.triggerExecution _ env _ _) => env.DrawsIn tenant db
  | .write (.triggerWebhook env _) => env.create.DrawsIn tenant db
  | .write (.internalTrigger env _ _) => env.create.DrawsIn tenant db
  | .write (.deleteWebhook _ _ _ _) => True
  | .write (.rotateWebhook _ _ _ _) => True
  | .read request => ¬ request.Exposed encodes

instance (encodes : Int → Bool) : (endpoint : Endpoint) → Decidable (endpoint.Exposed encodes)
  | .listExecutions status _ limit offset =>
      inferInstanceAs (Decidable (0 < limit ∧ limit ≤ 200 ∧ 0 ≤ offset ∧ encodes limit = true ∧
        encodes offset = true ∧ Storable 30 (status.getD "")))
  | .getExecution _ => isTrue trivial
  | .getWorkflow _ => isTrue trivial
  | .listWorkflows => isFalse id
  | .listWebhooks => isFalse id

instance (encodes : Int → Bool) : (request : ReadRequest) → Decidable (request.Exposed encodes)
  | ⟨some (.ok claims), endpoint⟩ =>
      decidable_of_iff (endpoint.Exposed encodes ∧
          hasPermission claims.roles .workflowRead = true)
        ⟨fun h => ⟨h.1, claims, rfl, h.2⟩, fun ⟨h, _, hclaims, hperm⟩ => by
          cases hclaims
          exact ⟨h, hperm⟩⟩
  | ⟨some (.error _), _⟩ => isFalse fun ⟨_, _, hclaims, _⟩ => by cases hclaims
  | ⟨none, _⟩ => isFalse fun ⟨_, _, hclaims, _⟩ => by cases hclaims

instance (encodes : Int → Bool) (tenant : UUID) (db : Database) :
    (call : ApiCall) → Decidable (call.StaysInTenant encodes tenant db)
  | .write (.createWorkflow _ env _ _) =>
      inferInstanceAs (Decidable
        (∀ row ∈ db.definitions, row.id = env.definitionId → row.tenantId = tenant))
  | .write (.createWebhook _ env _ body) =>
      inferInstanceAs (Decidable
        ((∀ row ∈ db.webhooks, row.id = env.webhookId → row.tenantId = tenant) ∧
          ∀ row ∈ db.definitions, row.id = body.workflowId → row.tenantId = tenant))
  | .write (.triggerExecution _ env _ _) => inferInstanceAs (Decidable (env.DrawsIn tenant db))
  | .write (.triggerWebhook env _) => inferInstanceAs (Decidable (env.create.DrawsIn tenant db))
  | .write (.internalTrigger env _ _) => inferInstanceAs (Decidable (env.create.DrawsIn tenant db))
  | .write (.deleteWebhook _ _ _ _) => isTrue trivial
  | .write (.rotateWebhook _ _ _ _) => isTrue trivial
  | .read request => inferInstanceAs (Decidable (¬ request.Exposed encodes))

/-! ## 2. The rows of a tenant -/

section Rows

variable {tenant : UUID} {db : Database}

-- What is found first and belongs to the part is found first in the part.
theorem find?_filter_eq {α : Type} {p q : α → Bool} {xs : List α} {a : α}
    (h : xs.find? q = some a) (ha : p a = true) : (xs.filter p).find? q = some a := by
  rw [List.find?_filter]
  rw [List.find?_eq_some_iff_append] at h ⊢
  obtain ⟨hq, before, after, heq, hbefore⟩ := h
  refine ⟨by simp [ha, hq], before, after, heq, fun b hb => ?_⟩
  simp only [Bool.not_eq_true', decide_eq_false_iff_not]
  exact fun hpq => by simpa [hpq.2] using hbefore b hb

-- An id that no row outside the part has is free in the part exactly when it is free.
theorem mem_ids_filter {α : Type} {f : α → UUID} {p : α → Bool} {xs : List α} {id : UUID}
    (h : ∀ a ∈ xs, f a = id → p a = true) : id ∈ (xs.filter p).map f ↔ id ∈ xs.map f := by
  simp only [List.mem_map, List.mem_filter]
  constructor
  · rintro ⟨a, ha, hid⟩
    exact ⟨a, ha.1, hid⟩
  · rintro ⟨a, ha, hid⟩
    exact ⟨a, ⟨ha, h a ha hid⟩, hid⟩

theorem rowsOf_insertDefinition (row : ProcessDefinitionRow) :
    (db.insertDefinition row).rowsOf tenant =
      if row.tenantId = tenant then (db.rowsOf tenant).insertDefinition row
      else db.rowsOf tenant := by
  simp only [Database.rowsOf, Database.insertDefinition, List.filter_append]
  split <;> rename_i h <;> simp [h]

theorem rowsOf_insertExecution (row : ExecutionRow) :
    (db.insertExecution row).rowsOf tenant =
      if row.tenantId = tenant then (db.rowsOf tenant).insertExecution row
      else db.rowsOf tenant := by
  simp only [Database.rowsOf, Database.insertExecution, List.filter_append]
  split <;> rename_i h <;> simp [h]

theorem rowsOf_insertWebhook (row : WebhookConfigRow) :
    (db.writeWebhook (.insert row)).rowsOf tenant =
      if row.tenantId = tenant then (db.rowsOf tenant).writeWebhook (.insert row)
      else db.rowsOf tenant := by
  simp only [Database.rowsOf, Database.writeWebhook, List.filter_append]
  split <;> rename_i h <;> simp [h]

-- A change of a row keeps its tenant.
theorem rowsOf_changeWebhook (webhookId : UUID) {f : WebhookConfigRow → WebhookConfigRow}
    (hf : ∀ row, (f row).tenantId = row.tenantId) :
    (db.changeWebhook webhookId f).rowsOf tenant =
      (db.rowsOf tenant).changeWebhook webhookId f := by
  have htenant : ∀ row : WebhookConfigRow, (row.change webhookId f).tenantId = row.tenantId := by
    intro row
    unfold WebhookConfigRow.change
    split
    · exact hf row
    · rfl
  simp only [Database.rowsOf, Database.changeWebhook, List.filter_map, Function.comp_def, htenant]

theorem rowsOf_changeWebhook_other (webhookId : UUID) {f : WebhookConfigRow → WebhookConfigRow}
    (hf : ∀ row, (f row).tenantId = row.tenantId)
    (hother : ∀ row ∈ db.webhooks, row.id = webhookId → row.tenantId ≠ tenant) :
    (db.changeWebhook webhookId f).rowsOf tenant = db.rowsOf tenant := by
  rw [rowsOf_changeWebhook webhookId hf]
  have hsame : (db.rowsOf tenant).webhooks.map (WebhookConfigRow.change webhookId f) =
      (db.rowsOf tenant).webhooks := by
    refine (List.map_congr_left fun row hrow => ?_).trans (List.map_id _)
    obtain ⟨hrow, htenant⟩ := List.mem_filter.mp hrow
    exact if_neg fun hid => hother row hrow hid (of_decide_eq_true htenant)
  rw [Database.changeWebhook, hsame]

end Rows

/-! ## 3. A user of the tenant and a user of another one -/

section Users

variable {tenant : UUID} {db : Database} {credentials : Credentials} {user : CurrentUser}
  {permission : Permission} {session : SessionEnv}

theorem tokenTenant_eq_some {claims : Claims} (hclaims : credentials = some (.ok claims))
    (h : tokenTenant credentials = some tenant) : claims.tenantId = tenant := by
  rw [hclaims] at h
  exact Option.some.inj h

-- A user that is let in is of the tenant of the token.
theorem authorize_tenant (h : authorize permission session db.users credentials = .ok user) :
    tokenTenant credentials = some user.tenantId := by
  obtain ⟨claims, rfl, htenant, -⟩ := getCurrentUser_ok (authorize_ok h).1
  rw [htenant]
  rfl

-- The users of other tenants do not matter to who is let in.
theorem authorize_rowsOf (h : tokenTenant credentials = some tenant) :
    authorize permission session (db.rowsOf tenant).users credentials =
      authorize permission session db.users credentials := by
  have huser : getCurrentUser (db.rowsOf tenant).users credentials =
      getCurrentUser db.users credentials :=
    getCurrentUser_filter db.users fun claims hclaims => tokenTenant_eq_some hclaims h
  unfold authorize
  rw [huser]

end Users

/-! ## 4. `create_execution` -/

section Executions

variable {tenant tenantId : UUID} {db : Database} {env : CreateEnv} {data : ExecutionCreate}
  {triggeredBy : Option UUID} {triggerType : String}

theorem find_rowsOf_definition (id : UUID) :
    ((db.rowsOf tenant).definitions.find? fun d => d.id = id ∧ d.tenantId = tenant) =
      db.definitions.find? fun d => d.id = id ∧ d.tenantId = tenant := by
  rw [Database.rowsOf, List.find?_filter]
  congr 1
  funext d
  simp only [decide_eq_true_eq, decide_eq_decide]
  tauto

theorem createExecution_own (hid : env.DrawsIn tenant db) :
    createExecution env data tenant triggeredBy triggerType (db.rowsOf tenant) =
      ((createExecution env data tenant triggeredBy triggerType db).1,
        (createExecution env data tenant triggeredBy triggerType db).2.rowsOf tenant) := by
  have hinsert : (db.insertExecution (newExecution env data tenant triggeredBy
      triggerType)).rowsOf tenant = (db.rowsOf tenant).insertExecution (newExecution env data tenant
      triggeredBy triggerType) :=
    (rowsOf_insertExecution _).trans (if_pos rfl)
  have htaken : env.executionId ∈ (db.rowsOf tenant).executions.map ExecutionRow.id ↔
      env.executionId ∈ db.executions.map ExecutionRow.id :=
    mem_ids_filter fun row hrow hsame => decide_eq_true (hid row hrow hsame)
  have hrow : (newExecution env data tenant triggeredBy triggerType).id = env.executionId := rfl
  unfold createExecution
  rw [find_rowsOf_definition]
  cases env.lookup with
  | error exc => rfl
  | ok u =>
      cases db.definitions.find? fun d => d.id = data.processDefinitionId ∧ d.tenantId = tenant with
      | none => rfl
      | some d =>
          by_cases hid : env.executionId ∈ db.executions.map ExecutionRow.id
          · simp only [hrow, if_pos hid, if_pos (htaken.mpr hid)]
          · simp only [hrow, if_neg hid, if_neg (mt htaken.mp hid)]
            cases env.commit with
            | ok => cases env.refresh <;> simp only [Reply.carriedOut_ok, if_true, hinsert]
            | raised exc carriedOut =>
                cases carriedOut <;> simp [hinsert]

theorem createExecution_other (hne : tenantId ≠ tenant) :
    (createExecution env data tenantId triggeredBy triggerType db).2.rowsOf tenant =
      db.rowsOf tenant := by
  have hinsert : (db.insertExecution (newExecution env data tenantId triggeredBy
      triggerType)).rowsOf tenant = db.rowsOf tenant :=
    (rowsOf_insertExecution _).trans (if_neg hne)
  cases hfound : db.definitions.find? fun d =>
      d.id = data.processDefinitionId ∧ d.tenantId = tenantId with
  | none =>
      unfold createExecution
      rw [hfound]
      cases env.lookup <;> rfl
  | some d =>
      rcases createExecution_cases env triggeredBy triggerType hfound with
        ⟨-, hdb⟩ | ⟨-, exc, hdb⟩
      · rw [hdb, hinsert]
      · rw [hdb]

end Executions

/-! ## 5. The requests of the tenant -/

section Own

variable {tenant : UUID} {db : Database} {credentials : Credentials} {session : SessionEnv}

theorem createWorkflowRoute_own {env : ProcessCreateEnv} {body : ProcessDefinitionCreate}
    (h : tokenTenant credentials = some tenant)
    (hid : ∀ row ∈ db.definitions, row.id = env.definitionId → row.tenantId = tenant) :
    createWorkflowRoute session env credentials body (db.rowsOf tenant) =
      ((createWorkflowRoute session env credentials body db).1,
        (createWorkflowRoute session env credentials body db).2.rowsOf tenant) := by
  unfold createWorkflowRoute
  rw [authorize_rowsOf h]
  cases huser : authorize .workflowCreate session db.users credentials with
  | error e => rfl
  | ok user =>
      have hown : user.tenantId = tenant := Option.some.inj ((authorize_tenant huser).symm.trans h)
      have htaken : env.definitionId ∈ (db.rowsOf tenant).definitions.map ProcessDefinitionRow.id ↔
          env.definitionId ∈ db.definitions.map ProcessDefinitionRow.id :=
        mem_ids_filter fun row hrow hsame => decide_eq_true (hid row hrow hsame)
      have hinsert : (db.insertDefinition (newProcess env body user.tenantId)).rowsOf tenant =
          (db.rowsOf tenant).insertDefinition (newProcess env body user.tenantId) :=
        (rowsOf_insertDefinition _).trans (if_pos hown)
      have hrow : (newProcess env body user.tenantId).id = env.definitionId := rfl
      by_cases hid : env.definitionId ∈ db.definitions.map ProcessDefinitionRow.id
      · have hid' := htaken.mpr hid
        simp only [hrow, if_pos hid, if_pos hid']
      · have hid' := mt htaken.mp hid
        simp only [hrow, if_neg hid, if_neg hid']
        cases env.flush with
        | error exc => rfl
        | ok u =>
            cases env.commit with
            | ok => simp only [hinsert]
            | raised exc carriedOut => cases carriedOut <;> simp [hinsert]

theorem triggerExecutionRoute_own {env : CreateEnv} {body : ExecutionCreate}
    (h : tokenTenant credentials = some tenant) (hid : env.DrawsIn tenant db) :
    triggerExecutionRoute session env credentials body (db.rowsOf tenant) =
      ((triggerExecutionRoute session env credentials body db).1,
        (triggerExecutionRoute session env credentials body db).2.rowsOf tenant) := by
  unfold triggerExecutionRoute
  rw [authorize_rowsOf h]
  cases huser : authorize .workflowTrigger session db.users credentials with
  | error e => rfl
  | ok user =>
      have hown : user.tenantId = tenant := Option.some.inj ((authorize_tenant huser).symm.trans h)
      simp only [hown, createExecution_own hid]
      cases (createExecution env body tenant (some user.id) "manual" db).1 with
      | error exc => rfl
      | ok created => cases created <;> rfl

theorem admitsWebhook_rowsOf {row : WebhookConfigRow}
    (hid : ∀ w ∈ db.webhooks, w.id = row.id → w.tenantId = tenant)
    (hworkflow : ∀ d ∈ db.definitions, d.id = row.workflowId → d.tenantId = tenant) :
    (db.rowsOf tenant).admitsWebhook row = db.admitsWebhook row := by
  have htaken : row.id ∉ (db.rowsOf tenant).webhooks.map WebhookConfigRow.id ↔
      row.id ∉ db.webhooks.map WebhookConfigRow.id :=
    not_congr (mem_ids_filter fun w hw hsame => decide_eq_true (hid w hw hsame))
  have hfound : (getProcess (db.rowsOf tenant) row.workflowId).isSome =
      (getProcess db row.workflowId).isSome := by
    unfold getProcess
    rw [Bool.eq_iff_iff, List.find?_isSome, List.find?_isSome]
    simp only [Database.rowsOf, List.mem_filter, decide_eq_true_eq]
    constructor
    · rintro ⟨d, hd, heq⟩
      exact ⟨d, hd.1, heq⟩
    · rintro ⟨d, hd, heq⟩
      exact ⟨d, ⟨hd, hworkflow d hd heq⟩, heq⟩
  unfold Database.admitsWebhook
  rw [hfound, decide_eq_decide.mpr htaken]

theorem createWebhookRoute_own {env : WebhookEnv} {body : WebhookConfigCreate}
    (h : tokenTenant credentials = some tenant)
    (hid : ∀ row ∈ db.webhooks, row.id = env.webhookId → row.tenantId = tenant)
    (hworkflow : ∀ row ∈ db.definitions, row.id = body.workflowId → row.tenantId = tenant) :
    createWebhookRoute session env credentials body (db.rowsOf tenant) =
      createWebhookRoute session env credentials body db := by
  unfold createWebhookRoute createWebhook
  rw [authorize_rowsOf h]
  cases authorize .workflowCreate session db.users credentials with
  | error e => rfl
  | ok user =>
      have hadmits : (db.rowsOf tenant).admitsWebhook (newWebhook env body user.tenantId) =
          db.admitsWebhook (newWebhook env body user.tenantId) :=
        admitsWebhook_rowsOf hid hworkflow
      simp only [hadmits]

theorem findOwnWebhook_rowsOf (webhookId : UUID) :
    findOwnWebhook (db.rowsOf tenant) webhookId tenant = findOwnWebhook db webhookId tenant := by
  unfold findOwnWebhook
  rw [Database.rowsOf, List.find?_filter]
  congr 1
  funext w
  simp only [decide_eq_true_eq, decide_eq_decide]
  tauto

-- The query for a webhook of the caller's tenant.
theorem findOwnWebhook_own (h : tokenTenant credentials = some tenant) {user : CurrentUser}
    (huser : authorize .workflowCreate session db.users credentials = .ok user)
    (webhookId : UUID) : findOwnWebhook (db.rowsOf tenant) webhookId user.tenantId =
      findOwnWebhook db webhookId user.tenantId := by
  have hown : user.tenantId = tenant := Option.some.inj ((authorize_tenant huser).symm.trans h)
  rw [hown, findOwnWebhook_rowsOf]

theorem deleteWebhookRoute_own {env : WebhookEnv} {webhookId : UUID}
    (h : tokenTenant credentials = some tenant) :
    deleteWebhookRoute session env credentials webhookId (db.rowsOf tenant) =
      deleteWebhookRoute session env credentials webhookId db := by
  unfold deleteWebhookRoute deactivateWebhook
  rw [authorize_rowsOf h]
  split
  · rfl
  · rename_i user huser
    rw [findOwnWebhook_own h huser]

theorem rotateWebhookRoute_own {env : WebhookEnv} {webhookId : UUID}
    (h : tokenTenant credentials = some tenant) :
    rotateWebhookRoute session env credentials webhookId (db.rowsOf tenant) =
      rotateWebhookRoute session env credentials webhookId db := by
  unfold rotateWebhookRoute rotateSecret
  rw [authorize_rowsOf h]
  split
  · rfl
  · rename_i user huser
    rw [findOwnWebhook_own h huser]

theorem triggerWebhookRoute_own {lib : WebhookLibraries} {env : TriggerEnv} {call : WebhookCall}
    {webhook : WebhookConfigRow} (hfound : getWebhook db call.webhookId = some webhook)
    (hown : webhook.tenantId = tenant) (hid : env.create.DrawsIn tenant db) :
    triggerWebhookRoute lib env call (db.rowsOf tenant) =
      ((triggerWebhookRoute lib env call db).1,
        (triggerWebhookRoute lib env call db).2.rowsOf tenant) := by
  have hfound' : getWebhook (db.rowsOf tenant) call.webhookId = some webhook :=
    find?_filter_eq hfound (decide_eq_true hown)
  have hcreates : triggerCreates lib env call (db.rowsOf tenant) =
      ((triggerCreates lib env call db).1, (triggerCreates lib env call db).2.rowsOf tenant) := by
    unfold triggerCreates
    rw [hfound, hfound']
    cases env.query with
    | error exc => rfl
    | ok u =>
        cases hchecked : checkWebhook lib call (some webhook) with
        | error e => rfl
        | ok checked =>
            obtain ⟨hsame, -, -⟩ := checkWebhook_ok hchecked
            cases hsame
            cases hcontext : webhookContext lib call.body webhook.payloadMapping with
            | error exc => simp only [hcontext]
            | ok context =>
                simp only [hcontext]
                cases env.setConfig with
                | error exc => rfl
                | ok u => simp only [hown, createExecution_own hid]
  unfold triggerWebhookRoute
  rw [hcreates]
  obtain ⟨reached, db'⟩ := triggerCreates lib env call db
  cases reached with
  | error e => rfl
  | ok reached =>
      cases reached with
      | error exc => rfl
      | ok created => cases created <;> rfl

theorem internalTrigger_own {internalSecret : String} {env : TriggerEnv} {header : Option String}
    {body : ExecutionCreate} {workflow : ProcessDefinitionRow}
    (hfound : getProcess db body.processDefinitionId = some workflow)
    (hown : workflow.tenantId = tenant) (hid : env.create.DrawsIn tenant db) :
    internalTrigger internalSecret env header body (db.rowsOf tenant) =
      ((internalTrigger internalSecret env header body db).1,
        (internalTrigger internalSecret env header body db).2.rowsOf tenant) := by
  have hfound' : getProcess (db.rowsOf tenant) body.processDefinitionId = some workflow :=
    find?_filter_eq hfound (decide_eq_true hown)
  unfold internalTrigger
  rw [hfound, hfound']
  cases checkSecret internalSecret header with
  | error e => rfl
  | ok u =>
      cases env.query with
      | error exc => rfl
      | ok u =>
          cases env.setConfig with
          | error exc => rfl
          | ok u => simp only [hown, createExecution_own hid]

/-- A request that concerns the tenant and stays in it does to the rows of the tenant what it does
to the database, with the same answer. -/
theorem handle_own {d : Deployment} {encodes : Int → Bool} {request : Request}
    (h : request.tenant db = some tenant)
    (hstays : (ApiCall.write request).StaysInTenant encodes tenant db) :
    (handle d (db.rowsOf tenant) request).response = (handle d db request).response ∧
      (handle d (db.rowsOf tenant) request).db = (handle d db request).db.rowsOf tenant := by
  cases request with
  | createWorkflow session env credentials body =>
      simp only [handle, Handled.ofDatabase, createWorkflowRoute_own h hstays, and_self]
  | triggerExecution session env credentials body =>
      simp only [handle, Handled.ofDatabase, triggerExecutionRoute_own h hstays, and_self]
  | createWebhook session env credentials body =>
      simp only [handle, Handled.ofWrite, createWebhookRoute_own h hstays.1 hstays.2, true_and]
      cases hwrite : (createWebhookRoute session env credentials body db).2 with
      | none => rfl
      | some write =>
          obtain ⟨user, huser, -, -, rfl⟩ := createWebhookRoute_write hwrite
          have hown : user.tenantId = tenant :=
            Option.some.inj ((authorize_tenant huser).symm.trans h)
          exact ((rowsOf_insertWebhook _).trans (if_pos hown)).symm
  | deleteWebhook session env credentials webhookId =>
      simp only [handle, Handled.ofWrite, deleteWebhookRoute_own h, true_and]
      cases hwrite : (deleteWebhookRoute session env credentials webhookId db).2 with
      | none => rfl
      | some write =>
          obtain ⟨user, row, -, -, -, -, rfl⟩ := deleteWebhookRoute_write hwrite
          refine (rowsOf_changeWebhook webhookId ?_).symm
          exact fun _ => rfl
  | rotateWebhook session env credentials webhookId =>
      simp only [handle, Handled.ofWrite, rotateWebhookRoute_own h, true_and]
      cases hwrite : (rotateWebhookRoute session env credentials webhookId db).2 with
      | none => rfl
      | some write =>
          obtain ⟨user, row, -, -, -, -, rfl⟩ := rotateWebhookRoute_write hwrite
          refine (rowsOf_changeWebhook webhookId ?_).symm
          exact fun _ => rfl
  | triggerWebhook env call =>
      obtain ⟨webhook, hfound, hown⟩ := Option.map_eq_some_iff.mp h
      simp only [handle, Handled.ofDatabase, triggerWebhookRoute_own hfound hown hstays,
        and_self]
  | internalTrigger env header body =>
      obtain ⟨workflow, hfound, hown⟩ := Option.map_eq_some_iff.mp h
      simp only [handle, Handled.ofDatabase, internalTrigger_own hfound hown hstays, and_self]

end Own

/-! ## 6. The requests of the others -/

section Others

variable {tenant : UUID} {db : Database} {credentials : Credentials} {session : SessionEnv}
  {user : CurrentUser} {permission : Permission}

theorem user_other (huser : authorize permission session db.users credentials = .ok user)
    (h : tokenTenant credentials ≠ some tenant) : user.tenantId ≠ tenant := by
  rintro rfl
  exact h (authorize_tenant huser)

theorem createWorkflowRoute_other {env : ProcessCreateEnv} {body : ProcessDefinitionCreate}
    (h : tokenTenant credentials ≠ some tenant) :
    (createWorkflowRoute session env credentials body db).2.rowsOf tenant = db.rowsOf tenant := by
  unfold createWorkflowRoute
  cases huser : authorize .workflowCreate session db.users credentials with
  | error e => rfl
  | ok user =>
      have hinsert : (db.insertDefinition (newProcess env body user.tenantId)).rowsOf tenant =
          db.rowsOf tenant := (rowsOf_insertDefinition _).trans (if_neg (user_other huser h))
      dsimp only
      split
      · rfl
      · split
        · rfl
        · dsimp only
          split
          · exact hinsert
          · rfl
        · exact hinsert

theorem triggerExecutionRoute_other {env : CreateEnv} {body : ExecutionCreate}
    (h : tokenTenant credentials ≠ some tenant) :
    (triggerExecutionRoute session env credentials body db).2.rowsOf tenant =
      db.rowsOf tenant := by
  unfold triggerExecutionRoute
  cases huser : authorize .workflowTrigger session db.users credentials with
  | error e => rfl
  | ok user =>
      have hcreate : (createExecution env body user.tenantId (some user.id) "manual" db).2.rowsOf
          tenant = db.rowsOf tenant := createExecution_other (user_other huser h)
      obtain ⟨created, db'⟩ := createExecution env body user.tenantId (some user.id) "manual" db
      dsimp only at hcreate ⊢
      split <;> exact hcreate

-- Ids are unique, so the row that is changed is the one that was found.
theorem changeWebhook_other {webhookId : UUID} {row : WebhookConfigRow}
    {f : WebhookConfigRow → WebhookConfigRow} (hf : ∀ row, (f row).tenantId = row.tenantId)
    (hids : (db.webhooks.map WebhookConfigRow.id).Nodup) (hrow : row ∈ db.webhooks)
    (hid : row.id = webhookId) (hother : row.tenantId ≠ tenant) :
    (db.changeWebhook webhookId f).rowsOf tenant = db.rowsOf tenant := by
  refine rowsOf_changeWebhook_other webhookId hf fun w hw hwid => ?_
  rw [List.inj_on_of_nodup_map hids hw hrow (hwid.trans hid.symm)]
  exact hother

/-- A request that does not concern the tenant leaves its rows as they are. -/
theorem handle_other {d : Deployment} {request : Request}
    (hids : (db.webhooks.map WebhookConfigRow.id).Nodup)
    (h : request.tenant db ≠ some tenant) :
    (handle d db request).db.rowsOf tenant = db.rowsOf tenant := by
  cases request with
  | createWorkflow session env credentials body => exact createWorkflowRoute_other h
  | triggerExecution session env credentials body => exact triggerExecutionRoute_other h
  | createWebhook session env credentials body =>
      simp only [handle, Handled.ofWrite]
      cases hwrite : (createWebhookRoute session env credentials body db).2 with
      | none => rfl
      | some write =>
          obtain ⟨user, huser, -, -, rfl⟩ := createWebhookRoute_write hwrite
          exact (rowsOf_insertWebhook _).trans (if_neg (user_other huser h))
  | deleteWebhook session env credentials webhookId =>
      simp only [handle, Handled.ofWrite]
      cases hwrite : (deleteWebhookRoute session env credentials webhookId db).2 with
      | none => rfl
      | some write =>
          obtain ⟨user, row, huser, hrow, hid, htenant, rfl⟩ := deleteWebhookRoute_write hwrite
          refine changeWebhook_other ?_ hids hrow hid (htenant ▸ user_other huser h)
          exact fun _ => rfl
  | rotateWebhook session env credentials webhookId =>
      simp only [handle, Handled.ofWrite]
      cases hwrite : (rotateWebhookRoute session env credentials webhookId db).2 with
      | none => rfl
      | some write =>
          obtain ⟨user, row, huser, hrow, hid, htenant, rfl⟩ := rotateWebhookRoute_write hwrite
          refine changeWebhook_other ?_ hids hrow hid (htenant ▸ user_other huser h)
          exact fun _ => rfl
  | triggerWebhook env call =>
      simp only [handle, Handled.ofDatabase]
      rw [triggerWebhookRoute_database]
      rcases triggerCreates_cases d.lib env call db with
        ⟨e, hreached⟩ | ⟨webhook, context, hfound, -, -, hreached⟩
      · rw [hreached]
      · rw [hreached]
        refine createExecution_other fun hown => h ?_
        rw [Request.tenant, hfound, ← hown]
        rfl
  | internalTrigger env header body =>
      simp only [handle, Handled.ofDatabase]
      unfold internalTrigger
      cases checkSecret d.internalSecret header with
      | error e => rfl
      | ok u =>
          cases env.query with
          | error exc => rfl
          | ok u =>
              cases hfound : getProcess db body.processDefinitionId with
              | none => rfl
              | some workflow =>
                  cases env.setConfig with
                  | error exc => rfl
                  | ok u =>
                      refine createExecution_other fun hown => h ?_
                      rw [Request.tenant, hfound, ← hown]
                      rfl

end Others

/-! ## 7. Runs -/

-- No two webhooks have the same id.
theorem Change.webhookIds {db db' : Database} {written : Option WebhookWrite}
    (h : Change db written db') (hids : (db.webhooks.map WebhookConfigRow.id).Nodup) :
    (db'.webhooks.map WebhookConfigRow.id).Nodup := by
  have hchange : ∀ (webhookId : UUID) (f : WebhookConfigRow → WebhookConfigRow),
      (∀ row, (f row).id = row.id) →
      ((db.changeWebhook webhookId f).webhooks.map WebhookConfigRow.id).Nodup := by
    intro webhookId f hf
    rw [changeWebhook_ids webhookId hf]
    exact hids
  cases h with
  | nothing => exact hids
  | definition row fresh => exact hids
  | execution row admits => exact hids
  | webhook row admits active =>
      simp only [Database.admitsWebhook, Bool.and_eq_true, decide_eq_true_eq] at admits
      rw [Database.writeWebhook, List.map_append, List.map_singleton, List.nodup_append]
      refine ⟨hids, List.nodup_singleton _, ?_⟩
      rintro id hid _ hrow rfl
      rw [List.mem_singleton] at hrow
      exact admits.1 (hrow ▸ hid)
  | secret row found secret => exact hchange row.id _ fun _ => rfl
  | inactive row found => exact hchange row.id _ fun _ => rfl

theorem serveCall_unwinding (d : Deployment) (encodes : Int → Bool) (tenant : UUID) :
    Unwinding (serveCall d encodes) (fun db call => call.Concerns tenant db)
      (Database.rowsOf tenant) (fun db call => call.StaysInTenant encodes tenant db)
      (fun db => (db.webhooks.map WebhookConfigRow.id).Nodup) where
  keep db call hids := by
    cases call with
    | write request => exact (handle_change d db request).webhookIds hids
    | read request => exact hids
  respects db call hids h := by
    cases call with
    | write request => exact handle_other hids h
    | read request => rfl
  consistent db call _ h hstays := by
    cases call with
    | write request =>
        obtain ⟨hresponse, hdb⟩ := handle_own (d := d) h hstays
        simp only [serveCall, hresponse, hdb]
    | read request =>
        have hrespond := respond_rowsOf (fun claims hclaims => tokenTenant_eq_some hclaims h)
          hstays db
        simp only [serveCall, hrespond]

/-- Whatever the other tenants do, a tenant whose own calls stay in it gets the answers, and has the
rows, that it would have if the others did not exist: without their calls and without their
users. -/
theorem tenant_noninterference (d : Deployment) (encodes : Int → Bool) (tenant : UUID)
    (users : List UserRow) (calls : List ApiCall)
    (hstays : Along (serveCall d encodes) (fun db call => call.Concerns tenant db)
      (fun db call => call.StaysInTenant encodes tenant db) (Api.start users).db calls) :
    answers (serveCall d encodes) (Api.start (users.filter fun u => u.tenantId = tenant)).db
        (purge (serveCall d encodes) (fun db call => call.Concerns tenant db) (Api.start users).db
          calls) =
      ((answers (serveCall d encodes) (Api.start users).db calls).1.rowsOf tenant,
        observed (serveCall d encodes) (fun db call => call.Concerns tenant db)
          (Api.start users).db calls) := by
  have hids : ((Api.start users).db.webhooks.map WebhookConfigRow.id).Nodup := List.nodup_nil
  exact (serveCall_unwinding d encodes tenant).run hids hstays

/-! Both tenants work in turn, each with a workflow of its own. -/

theorem tell_accepted : validateSteps [⟨"tell", "notify", [], .none, 60⟩] = [] := by decide

theorem stop_validOnError : "stop" ∈ validOnError := by decide

/-- `POST /workflows` by the user of the second tenant. -/
def createDaily : Request :=
  .createWorkflow healthySession ⟨101, 0, .ok (), .ok⟩ (developerOf 22 2)
    { steps := [⟨"tell", "notify", [], .none, 60⟩], accepted := tell_accepted, name := "daily",
      trigger := [("type", .str "webhook")], onError := "stop",
      validOnError := stop_validOnError }

def mixedCalls : List ApiCall :=
  [.write createDaily, .write createNightly,
    .write (.triggerExecution healthySession (healthyCreate 400) (developerOf 22 2) ⟨101, []⟩),
    .write (createNightlyWebhook 11 1),
    .write (.triggerWebhook ⟨.ok (), .ok (), healthyCreate 201⟩ signedCall),
    .write (.deleteWebhook healthySession (healthyWebhook 0 "") (developerOf 22 2) 300),
    .read ⟨developerOf 11 1, .listWebhooks⟩]

/-- The first tenant has its workflow, its webhook and its execution, with or without the second. -/
theorem tenant_noninterference_mixedCalls :
    (answers (serveCall plainDeployment encodesInt4)
        (Api.start (twoTenants.filter fun u => u.tenantId = 1)).db
        (purge (serveCall plainDeployment encodesInt4) (fun db call => call.Concerns 1 db)
          (Api.start twoTenants).db mixedCalls) =
      ((answers (serveCall plainDeployment encodesInt4) (Api.start twoTenants).db
          mixedCalls).1.rowsOf 1,
        observed (serveCall plainDeployment encodesInt4) (fun db call => call.Concerns 1 db)
          (Api.start twoTenants).db mixedCalls)) ∧
    (observed (serveCall plainDeployment encodesInt4) (fun db call => call.Concerns 1 db)
      (Api.start twoTenants).db mixedCalls).length = 4 :=
  ⟨tenant_noninterference plainDeployment encodesInt4 1 twoTenants mixedCalls (by decide +kernel),
    by decide +kernel⟩

end ConstructorPlatform
