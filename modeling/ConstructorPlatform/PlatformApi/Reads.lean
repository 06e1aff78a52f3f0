import Mathlib.Data.List.Sort
import ConstructorPlatform.PlatformApi.Access
import ConstructorPlatform.PlatformApi.Validator

/-!
# Reads — the five endpoints that read a tenant's data

`GET /executions`, `GET /executions/{id}`, `GET /workflows`, `GET /workflows/{id}` and
`GET /webhooks`.  All five run on the session of `get_scoped_db`.  The database role is the
superuser of `docker-compose.yml`, whom row-level security does not concern, so a query returns the
rows of every tenant unless it filters by tenant itself.
-/

namespace ConstructorPlatform

/-! ## 1. The tables -/

/-- What a column `VARCHAR(n)` can hold. -/
def Storable (n : Nat) (s : String) : Prop := s.length ≤ n ∧ Char.ofNat 0 ∉ s.toList

instance (n : Nat) (s : String) : Decidable (Storable n s) := by
  unfold Storable; infer_instance

abbrev VarChar (n : Nat) := { s : String // Storable n s }

structure ExecutionRow where
  id : UUID
  tenantId : UUID
  processDefinitionId : UUID
  status : VarChar 30
  currentStepId : Option String
  context : Dict
  triggeredBy : Option UUID
  triggerType : String
  startedAt : Option Nat
  completedAt : Option Nat
  createdAt : Nat

structure ProcessDefinitionRow where
  id : UUID
  tenantId : UUID
  name : String
  triggerConfig : Dict
  steps : List StepSchema
  onError : String
  version : Int
  createdAt : Nat

structure WebhookConfigRow where
  id : UUID
  tenantId : UUID
  workflowId : UUID
  name : String
  secret : String
  payloadMapping : Dict
  isActive : Bool
  createdAt : Nat

/-- The rows in the order in which a query without `ORDER BY` returns them. -/
structure Database where
  users : List UserRow
  definitions : List ProcessDefinitionRow
  executions : List ExecutionRow
  webhooks : List WebhookConfigRow

/-- The rows of one tenant. -/
def Database.rowsOf (tenant : UUID) (db : Database) : Database where
  users := db.users.filter fun u => u.tenantId = tenant
  definitions := db.definitions.filter fun d => d.tenantId = tenant
  executions := db.executions.filter fun e => e.tenantId = tenant
  webhooks := db.webhooks.filter fun w => w.tenantId = tenant

/-- Primary keys are unique, foreign keys refer to rows, and what belongs to a definition belongs to
the tenant of the definition. -/
structure Database.WellFormed (db : Database) : Prop where
  users : (db.users.map UserRow.id).Nodup
  definitions : (db.definitions.map ProcessDefinitionRow.id).Nodup
  executions : (db.executions.map ExecutionRow.id).Nodup
  webhooks : (db.webhooks.map WebhookConfigRow.id).Nodup
  ofExecution : ∀ e ∈ db.executions, ∃ d ∈ db.definitions,
    d.id = e.processDefinitionId ∧ d.tenantId = e.tenantId
  ofWebhook : ∀ w ∈ db.webhooks, ∃ d ∈ db.definitions,
    d.id = w.workflowId ∧ d.tenantId = w.tenantId

/-! ## 2. The queries -/

/-- `order_by(created_at.desc())`. -/
def newestFirst {Row : Type} (createdAt : Row → Nat) (rows : List Row) : List Row :=
  rows.insertionSort fun a b => createdAt b ≤ createdAt a

/-- `get_execution`. -/
def getExecution (db : Database) (executionId : UUID) : Option ExecutionRow :=
  db.executions.find? fun e => e.id = executionId

/-- `list_processes`. -/
def listProcesses (db : Database) (tenantId : UUID) : List ProcessDefinitionRow :=
  db.definitions.filter fun d => d.tenantId = tenantId

/-- `get_process`. -/
def getProcess (db : Database) (processId : UUID) : Option ProcessDefinitionRow :=
  db.definitions.find? fun d => d.id = processId

/-- `list_webhooks`. -/
def listWebhooks (db : Database) (tenantId : UUID) : List WebhookConfigRow :=
  newestFirst WebhookConfigRow.createdAt (db.webhooks.filter fun w => w.tenantId = tenantId)

/-- The rows that the two `where` clauses of `list_executions` leave; an empty status is none. -/
def filterExecutions (status : Option String) (definitionId : Option UUID)
    (rows : List ExecutionRow) : List ExecutionRow :=
  let rows := match status with
    | none => rows
    | some status => if status = "" then rows else rows.filter fun e => e.status.val = status
  match definitionId with
  | none => rows
  | some definitionId => rows.filter fun e => e.processDefinitionId = definitionId

/-- `list_executions`.  `encodes` are the integers that the driver can send; PostgreSQL refuses
negative numbers and strings that hold a zero character. -/
def listExecutions (encodes : Int → Bool) (db : Database) (status : Option String)
    (definitionId : Option UUID) (limit offset : Int) : Except HttpError (List ExecutionRow) :=
  if !encodes limit ∨ !encodes offset ∨ limit < 0 ∨ offset < 0 ∨
      Char.ofNat 0 ∈ (status.getD "").toList then
    .error internalServerError
  else
    .ok (((newestFirst ExecutionRow.createdAt (filterExecutions status definitionId
      db.executions)).drop offset.toNat).take limit.toNat)

/-! ## 3. The responses -/

structure ExecutionRead where
  id : UUID
  tenantId : UUID
  processDefinitionId : UUID
  status : String
  currentStepId : Option String
  context : Dict
  triggeredBy : Option UUID
  triggerType : String
  startedAt : Option Nat
  completedAt : Option Nat
  createdAt : Nat

def ExecutionRow.read (e : ExecutionRow) : ExecutionRead where
  id := e.id
  tenantId := e.tenantId
  processDefinitionId := e.processDefinitionId
  status := e.status.val
  currentStepId := e.currentStepId
  context := e.context
  triggeredBy := e.triggeredBy
  triggerType := e.triggerType
  startedAt := e.startedAt
  completedAt := e.completedAt
  createdAt := e.createdAt

/-- `WebhookConfigRead`: no secret. -/
structure WebhookConfigRead where
  id : UUID
  tenantId : UUID
  workflowId : UUID
  name : String
  payloadMapping : Dict
  isActive : Bool
  createdAt : Nat

def WebhookConfigRow.read (w : WebhookConfigRow) : WebhookConfigRead where
  id := w.id
  tenantId := w.tenantId
  workflowId := w.workflowId
  name := w.name
  payloadMapping := w.payloadMapping
  isActive := w.isActive
  createdAt := w.createdAt

/-- The body of a response; `ProcessDefinitionRead` has the fields of the row. -/
inductive ReadBody where
  | executions (rows : List ExecutionRead)
  | execution (row : ExecutionRead)
  | workflows (rows : List ProcessDefinitionRow)
  | workflow (row : ProcessDefinitionRow)
  | webhooks (rows : List WebhookConfigRead)

inductive Endpoint where
  -- `GET /executions`, with the defaults filled in.
  | listExecutions (status : Option String) (definitionId : Option UUID) (limit offset : Int)
  -- `GET /executions/{id}`.
  | getExecution (executionId : UUID)
  -- `GET /workflows`.
  | listWorkflows
  -- `GET /workflows/{id}`.
  | getWorkflow (workflowId : UUID)
  -- `GET /webhooks`.
  | listWebhooks

/-- The handler of an endpoint, with the bound that `Query` sets on `limit`. -/
def Endpoint.handle (encodes : Int → Bool) (db : Database) (user : CurrentUser) :
    Endpoint → Except HttpError ReadBody
  | .listExecutions status definitionId limit offset =>
      if 200 < limit then .error ⟨422, "Input should be less than or equal to 200"⟩
      else (ConstructorPlatform.listExecutions encodes db status definitionId limit offset).map
        fun rows => .executions (rows.map ExecutionRow.read)
  | .getExecution executionId =>
      match ConstructorPlatform.getExecution db executionId with
      | none => .error ⟨404, "Execution not found"⟩
      | some row => .ok (.execution row.read)
  | .listWorkflows => .ok (.workflows (listProcesses db user.tenantId))
  | .getWorkflow workflowId =>
      match getProcess db workflowId with
      | none => .error ⟨404, "Workflow not found"⟩
      | some row => .ok (.workflow row)
  | .listWebhooks =>
      .ok (.webhooks ((ConstructorPlatform.listWebhooks db user.tenantId).map
        WebhookConfigRow.read))

structure ReadRequest where
  credentials : Credentials
  endpoint : Endpoint

/-- The response to a request; each endpoint requires `workflow:read`. -/
def respond (encodes : Int → Bool) (db : Database) (request : ReadRequest) :
    Except HttpError ReadBody :=
  match getCurrentUser db.users request.credentials with
  | .error e => .error e
  | .ok user =>
      match requirePermission .workflowRead user with
      | .error e => .error e
      | .ok user => request.endpoint.handle encodes db user

/-! ## 4. Which responses depend on other tenants -/

/-- The query is carried out and does not filter by tenant. -/
def Endpoint.Exposed (encodes : Int → Bool) : Endpoint → Prop
  | .listExecutions status _ limit offset =>
      0 < limit ∧ limit ≤ 200 ∧ 0 ≤ offset ∧ encodes limit = true ∧ encodes offset = true ∧
        Storable 30 (status.getD "")
  | .getExecution _ => True
  | .getWorkflow _ => True
  | .listWorkflows => False
  | .listWebhooks => False

/-- The request is let through to such a query. -/
def ReadRequest.Exposed (encodes : Int → Bool) (request : ReadRequest) : Prop :=
  request.endpoint.Exposed encodes ∧ ∃ claims, request.credentials = some (.ok claims) ∧
    hasPermission claims.roles .workflowRead = true

theorem filter_eq_nil_of_not_storable {status : String} (hlong : ¬ status.length ≤ 30)
    (definitionId : Option UUID) (rows : List ExecutionRow) :
    filterExecutions (some status) definitionId rows = [] := by
  have hne : status ≠ "" := by
    intro h
    subst h
    exact hlong (by decide)
  have hnone : (rows.filter fun e => e.status.val = status) = [] := by
    rw [List.filter_eq_nil_iff]
    intro e _ he
    exact hlong (of_decide_eq_true he ▸ e.status.property.1)
  unfold filterExecutions
  simp only [if_neg hne, hnone]
  cases definitionId <;> rfl

-- A list query that is refused, asks for nothing or asks for a status no row can have.
theorem listExecutions_of_not_exposed {encodes : Int → Bool} {status : Option String}
    {definitionId : Option UUID} {limit offset : Int} (hlimit : limit ≤ 200)
    (h : ¬ Endpoint.Exposed encodes (.listExecutions status definitionId limit offset))
    (db db' : Database) :
    listExecutions encodes db status definitionId limit offset =
      listExecutions encodes db' status definitionId limit offset := by
  unfold listExecutions
  split
  · rfl
  · rename_i hsent
    simp only [Bool.not_eq_true', not_or, Bool.not_eq_false, Int.not_lt] at hsent
    obtain ⟨hl, ho, hl0, ho0, hzero⟩ := hsent
    by_cases hpos : 0 < limit
    · have hlong : ¬ (status.getD "").length ≤ 30 :=
        fun hle => h ⟨hpos, hlimit, ho0, hl, ho, hle, hzero⟩
      cases status with
      | none => exact absurd (by decide) hlong
      | some status =>
          have hlong' : ¬ status.length ≤ 30 := hlong
          rw [filter_eq_nil_of_not_storable hlong', filter_eq_nil_of_not_storable hlong']
    · have h0 : limit.toNat = 0 := by omega
      rw [h0, List.take_zero, List.take_zero]

theorem Endpoint.handle_rowsOf {encodes : Int → Bool} {user : CurrentUser} {endpoint : Endpoint}
    (h : ¬ endpoint.Exposed encodes) (db : Database) :
    endpoint.handle encodes (db.rowsOf user.tenantId) user = endpoint.handle encodes db user := by
  cases endpoint with
  | listExecutions status definitionId limit offset =>
      simp only [Endpoint.handle]
      split
      · rfl
      · rename_i hlimit
        rw [listExecutions_of_not_exposed (by omega) h (db.rowsOf user.tenantId) db]
  | getExecution executionId => exact absurd trivial h
  | getWorkflow workflowId => exact absurd trivial h
  | listWorkflows =>
      simp only [Endpoint.handle, listProcesses, Database.rowsOf, List.filter_filter,
        Bool.and_self]
  | listWebhooks =>
      simp only [Endpoint.handle, ConstructorPlatform.listWebhooks, Database.rowsOf,
        List.filter_filter, Bool.and_self]

/-- A response that is not exposed is computed from the rows of the tenant. -/
theorem respond_rowsOf {encodes : Int → Bool} {tenant : UUID} {request : ReadRequest}
    (htenant : ∀ claims, request.credentials = some (.ok claims) → claims.tenantId = tenant)
    (h : ¬ request.Exposed encodes) (db : Database) :
    respond encodes (db.rowsOf tenant) request = respond encodes db request := by
  unfold respond
  rw [show (db.rowsOf tenant).users = db.users.filter fun u => u.tenantId = tenant from rfl,
    getCurrentUser_filter db.users htenant]
  cases huser : getCurrentUser db.users request.credentials with
  | error e => rfl
  | ok user =>
      obtain ⟨claims, hclaims, htenantId, hroles⟩ := getCurrentUser_ok huser
      have hown : user.tenantId = tenant := htenantId.trans (htenant claims hclaims)
      by_cases hperm : hasPermission user.roles .workflowRead = true
      · have hendpoint : ¬ request.endpoint.Exposed encodes :=
          fun hexp => h ⟨hexp, claims, hclaims, hroles ▸ hperm⟩
        simp only [requirePermission_eq hperm]
        rw [← hown]
        exact Endpoint.handle_rowsOf hendpoint db
      · simp only [requirePermission, if_neg hperm]

/-! ## 5. Two states that a response tells apart -/

/-- The tenant of a token has nothing but the user. -/
def homeOnly (claims : Claims) : Database where
  users := [⟨claims.userId, claims.tenantId, "user@example.com", true⟩]
  definitions := []
  executions := []
  webhooks := []

def foreignDefinition (tenant id : UUID) : ProcessDefinitionRow where
  id := id
  tenantId := tenant
  name := "foreign"
  triggerConfig := []
  steps := []
  onError := "stop"
  version := 1
  createdAt := 0

def foreignExecution (tenant definitionId : UUID) (status : VarChar 30) (id : UUID) :
    ExecutionRow where
  id := id
  tenantId := tenant
  processDefinitionId := definitionId
  status := status
  currentStepId := none
  context := []
  triggeredBy := none
  triggerType := "manual"
  startedAt := none
  completedAt := none
  createdAt := 0

/-- Another tenant has a definition, and executions of it with the given ids. -/
def withForeign (claims : Claims) (definitionId : UUID) (status : VarChar 30) (ids : List UUID) :
    Database :=
  { homeOnly claims with
    definitions := [foreignDefinition (claims.tenantId + 1) definitionId]
    executions := ids.map (foreignExecution (claims.tenantId + 1) definitionId status) }

theorem homeOnly_wellFormed (claims : Claims) : (homeOnly claims).WellFormed := by
  refine ⟨List.nodup_singleton _, List.nodup_nil, List.nodup_nil, List.nodup_nil, ?_, ?_⟩
  · intro e he
    cases he
  · intro w hw
    cases hw

theorem withForeign_wellFormed (claims : Claims) (definitionId : UUID) (status : VarChar 30)
    {ids : List UUID} (hids : ids.Nodup) :
    (withForeign claims definitionId status ids).WellFormed := by
  refine ⟨List.nodup_singleton _, List.nodup_singleton _, ?_, List.nodup_nil, ?_, ?_⟩
  · have hmap : (withForeign claims definitionId status ids).executions.map ExecutionRow.id =
        ids := by
      simp [withForeign, foreignExecution, Function.comp_def]
    rw [hmap]
    exact hids
  · intro e he
    obtain ⟨id, -, rfl⟩ := List.mem_map.mp he
    exact ⟨_, List.mem_singleton.mpr rfl, rfl, rfl⟩
  · intro w hw
    cases hw

theorem withForeign_rowsOf (claims : Claims) (definitionId : UUID) (status : VarChar 30)
    (ids : List UUID) :
    (withForeign claims definitionId status ids).rowsOf claims.tenantId =
      (homeOnly claims).rowsOf claims.tenantId := by
  have hne : claims.tenantId + 1 ≠ claims.tenantId := Nat.succ_ne_self _
  have hexecutions : ((withForeign claims definitionId status ids).executions.filter
      fun e => e.tenantId = claims.tenantId) = [] := by
    rw [List.filter_eq_nil_iff]
    intro e he htenant
    obtain ⟨id, -, rfl⟩ := List.mem_map.mp he
    exact hne (of_decide_eq_true htenant)
  unfold Database.rowsOf
  rw [hexecutions]
  simp [withForeign, homeOnly, foreignDefinition]

-- Rows that both clauses accept.
theorem filterExecutions_eq_self {status : Option String} {definitionId : Option UUID}
    {rows : List ExecutionRow}
    (hrows : ∀ e ∈ rows, e.status.val = status.getD "" ∧
      e.processDefinitionId = definitionId.getD 0) :
    filterExecutions status definitionId rows = rows := by
  have hdefinition : ∀ d, definitionId = some d →
      rows.filter (fun e => e.processDefinitionId = d) = rows := by
    intro d hd
    subst hd
    rw [List.filter_eq_self]
    exact fun e he => decide_eq_true (hrows e he).2
  have hstatus : ∀ s, status = some s → rows.filter (fun e => e.status.val = s) = rows := by
    intro s hs
    subst hs
    rw [List.filter_eq_self]
    exact fun e he => decide_eq_true (hrows e he).1
  unfold filterExecutions
  cases status with
  | none =>
      cases definitionId with
      | none => rfl
      | some d => exact hdefinition d rfl
  | some s =>
      simp only [hstatus s rfl, ite_self]
      cases definitionId with
      | none => rfl
      | some d => exact hdefinition d rfl

-- A page of another tenant's executions, however far down it starts.
theorem listExecutions_withForeign_ne_nil (claims : Claims) {encodes : Int → Bool}
    {status : Option String} {definitionId : Option UUID} {limit offset : Int}
    (h : Endpoint.Exposed encodes (.listExecutions status definitionId limit offset)) :
    ∃ row rows, listExecutions encodes
      (withForeign claims (definitionId.getD 0) ⟨status.getD "", h.2.2.2.2.2⟩
        (List.range (offset.toNat + 1))) status definitionId limit offset = .ok (row :: rows) := by
  obtain ⟨hlimit, -, hoffset, hl, ho, hstore⟩ := h
  generalize hrows : (withForeign claims (definitionId.getD 0) ⟨status.getD "", hstore⟩
    (List.range (offset.toNat + 1))).executions = rows
  have hlength : rows.length = offset.toNat + 1 := by
    rw [← hrows]
    simp [withForeign]
  have hfilter : filterExecutions status definitionId rows = rows := by
    apply filterExecutions_eq_self
    intro e he
    rw [← hrows] at he
    obtain ⟨id, -, rfl⟩ := List.mem_map.mp he
    exact ⟨rfl, rfl⟩
  have hpage : (((newestFirst ExecutionRow.createdAt rows).drop offset.toNat).take
      limit.toNat).length ≠ 0 := by
    rw [List.length_take, List.length_drop, newestFirst, List.length_insertionSort, hlength]
    omega
  have hsent : ¬ (!encodes limit ∨ !encodes offset ∨ limit < 0 ∨ offset < 0 ∨
      Char.ofNat 0 ∈ (status.getD "").toList) := by
    simp only [hl, ho, Bool.not_true, Bool.false_eq_true, false_or, not_or, Int.not_lt]
    exact ⟨by omega, hoffset, hstore.2⟩
  unfold listExecutions
  rw [if_neg hsent, hrows, hfilter]
  obtain ⟨row, rest, hcons⟩ := List.exists_cons_of_ne_nil (List.ne_nil_of_length_pos
    (Nat.pos_of_ne_zero hpage))
  exact ⟨row, rest, by rw [hcons]⟩

theorem listExecutions_homeOnly {encodes : Int → Bool} {claims : Claims} {status : Option String}
    {definitionId : Option UUID} {limit offset : Int} {rows : List ExecutionRow}
    (h : listExecutions encodes (homeOnly claims) status definitionId limit offset = .ok rows) :
    rows = [] := by
  unfold listExecutions at h
  split at h
  · cases h
  · have hnone : filterExecutions status definitionId [] = [] := by
      unfold filterExecutions
      cases status <;> cases definitionId <;> simp
    rw [show (homeOnly claims).executions = [] from rfl, hnone] at h
    cases h
    simp [newestFirst]

-- A request that is let through goes to the handler.
theorem respond_eq_handle (db : Database) {encodes : Int → Bool} {claims : Claims}
    (hperm : hasPermission claims.roles .workflowRead = true)
    (hdb : db.users = (homeOnly claims).users) (endpoint : Endpoint) :
    respond encodes db ⟨some (.ok claims), endpoint⟩ =
      endpoint.handle encodes db
        ⟨claims.userId, "user@example.com", claims.tenantId, claims.roles⟩ := by
  have huser : getCurrentUser db.users (some (.ok claims)) =
      .ok ⟨claims.userId, "user@example.com", claims.tenantId, claims.roles⟩ := by
    rw [hdb]
    simp [getCurrentUser, homeOnly]
  unfold respond
  simp only [huser]
  rw [requirePermission_eq hperm]

theorem Endpoint.Exposed.distinguishes {encodes : Int → Bool} {endpoint : Endpoint}
    (h : endpoint.Exposed encodes) (claims : Claims) (user : CurrentUser) :
    ∃ definitionId status ids, ids.Nodup ∧
      endpoint.handle encodes (homeOnly claims) user ≠
        endpoint.handle encodes (withForeign claims definitionId status ids) user := by
  cases endpoint with
  | listExecutions status definitionId limit offset =>
      refine ⟨definitionId.getD 0, ⟨status.getD "", h.2.2.2.2.2⟩,
        List.range (offset.toNat + 1), List.nodup_range, fun heq => ?_⟩
      obtain ⟨row, rest, hrows⟩ := listExecutions_withForeign_ne_nil claims h
      have hlimit : ¬ 200 < limit := Int.not_lt.mpr h.2.1
      simp only [Endpoint.handle, if_neg hlimit, hrows] at heq
      cases hhome : ConstructorPlatform.listExecutions encodes (homeOnly claims) status
          definitionId limit offset with
      | error e =>
          rw [hhome] at heq
          cases heq
      | ok rows =>
          rw [hhome, listExecutions_homeOnly hhome] at heq
          cases heq
  | getExecution executionId =>
      refine ⟨0, ⟨"pending", by decide⟩, [executionId], List.nodup_singleton _, ?_⟩
      simp [Endpoint.handle, ConstructorPlatform.getExecution, homeOnly, withForeign,
        foreignExecution]
  | getWorkflow workflowId =>
      refine ⟨workflowId, ⟨"pending", by decide⟩, [], List.nodup_nil, ?_⟩
      simp [Endpoint.handle, getProcess, homeOnly, withForeign, foreignDefinition]
  | listWorkflows => exact h.elim
  | listWebhooks => exact h.elim

/-- A request by a user of a tenant gets the same response in all states that agree on the rows of
the tenant, unless it is let through to a query without a filter by tenant; then there are two
well-formed states that it tells apart. -/
theorem reads_isolated_iff (encodes : Int → Bool) (tenant : UUID) (request : ReadRequest)
    (htenant : ∀ claims, request.credentials = some (.ok claims) → claims.tenantId = tenant) :
    (¬ request.Exposed encodes → ∀ db db' : Database, db.rowsOf tenant = db'.rowsOf tenant →
      respond encodes db request = respond encodes db' request) ∧
    (request.Exposed encodes → ∃ db db' : Database, db.WellFormed ∧ db'.WellFormed ∧
      db.rowsOf tenant = db'.rowsOf tenant ∧
      respond encodes db request ≠ respond encodes db' request) := by
  constructor
  · intro h db db' hagree
    rw [← respond_rowsOf htenant h db, hagree, respond_rowsOf htenant h db']
  · intro h
    obtain ⟨hendpoint, claims, hclaims, hperm⟩ := h
    obtain ⟨credentials, endpoint⟩ := request
    simp only at hendpoint hclaims htenant
    subst hclaims
    obtain ⟨definitionId, status, ids, hids, hne⟩ := hendpoint.distinguishes claims
      ⟨claims.userId, "user@example.com", claims.tenantId, claims.roles⟩
    refine ⟨homeOnly claims, withForeign claims definitionId status ids,
      homeOnly_wellFormed claims, withForeign_wellFormed claims definitionId status hids, ?_, ?_⟩
    · rw [← htenant claims rfl]
      exact (withForeign_rowsOf claims definitionId status ids).symm
    · rw [respond_eq_handle (homeOnly claims) hperm rfl,
        respond_eq_handle (withForeign claims definitionId status ids) hperm rfl]
      exact hne

/-! A user of tenant 1 with the least of the roles, beside a failed execution of tenant 2. -/

def viewer : Claims := ⟨7, 1, ["viewer"]⟩

def failedStatus : VarChar 30 := ⟨"failed", by decide⟩

/-- The integers of four bytes. -/
def encodesInt4 (i : Int) : Bool := decide (-2147483648 ≤ i ∧ i < 2147483648)

theorem reads_isolated_iff_workflows :
    respond encodesInt4 (homeOnly viewer) ⟨some (.ok viewer), .listWorkflows⟩ =
      respond encodesInt4 (withForeign viewer 3 failedStatus [5])
        ⟨some (.ok viewer), .listWorkflows⟩ := by
  refine (reads_isolated_iff encodesInt4 1 ⟨some (.ok viewer), .listWorkflows⟩ ?_).1
    (fun h => h.1) (homeOnly viewer) (withForeign viewer 3 failedStatus [5])
    (withForeign_rowsOf viewer 3 failedStatus [5]).symm
  intro claims hclaims
  cases hclaims
  rfl

/-- The other three endpoints show it what tenant 2 has. -/
theorem other_tenant_shown :
    (homeOnly viewer).WellFormed ∧ (withForeign viewer 3 failedStatus [5]).WellFormed ∧
    (withForeign viewer 3 failedStatus [5]).rowsOf 1 = (homeOnly viewer).rowsOf 1 ∧
    (∀ endpoint ∈ [Endpoint.listExecutions none none 50 0, .getExecution 5, .getWorkflow 3],
      respond encodesInt4 (homeOnly viewer) ⟨some (.ok viewer), endpoint⟩ ≠
        respond encodesInt4 (withForeign viewer 3 failedStatus [5])
          ⟨some (.ok viewer), endpoint⟩) := by
  refine ⟨homeOnly_wellFormed viewer,
    withForeign_wellFormed viewer 3 failedStatus (List.nodup_singleton 5),
    withForeign_rowsOf viewer 3 failedStatus [5], ?_⟩
  have hlist : respond encodesInt4 (homeOnly viewer)
      ⟨some (.ok viewer), .listExecutions none none 50 0⟩ = .ok (.executions []) := rfl
  have hlist' : respond encodesInt4 (withForeign viewer 3 failedStatus [5])
      ⟨some (.ok viewer), .listExecutions none none 50 0⟩ =
      .ok (.executions [(foreignExecution 2 3 failedStatus 5).read]) := rfl
  have hexecution : respond encodesInt4 (homeOnly viewer)
      ⟨some (.ok viewer), .getExecution 5⟩ = .error ⟨404, "Execution not found"⟩ := rfl
  have hexecution' : respond encodesInt4 (withForeign viewer 3 failedStatus [5])
      ⟨some (.ok viewer), .getExecution 5⟩ =
      .ok (.execution (foreignExecution 2 3 failedStatus 5).read) := rfl
  have hworkflow : respond encodesInt4 (homeOnly viewer)
      ⟨some (.ok viewer), .getWorkflow 3⟩ = .error ⟨404, "Workflow not found"⟩ := rfl
  have hworkflow' : respond encodesInt4 (withForeign viewer 3 failedStatus [5])
      ⟨some (.ok viewer), .getWorkflow 3⟩ = .ok (.workflow (foreignDefinition 2 3)) := rfl
  simp only [List.forall_mem_cons]
  refine ⟨?_, ?_, ?_, fun _ h => nomatch h⟩
  · rw [hlist, hlist']
    exact nofun
  · rw [hexecution, hexecution']
    exact nofun
  · rw [hworkflow, hworkflow']
    exact nofun

end ConstructorPlatform
