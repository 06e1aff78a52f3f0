import ConstructorPlatform.PlatformApi.Reads

/-!
# InternalTrigger — `src/internal/router.py` and `create_execution`

The endpoint that the scheduler calls.  A request stores one execution at most, and it may store one
although the answer is an error: the reply to the commit may be lost, and the row is read again
after the commit.
-/

namespace ConstructorPlatform

/-! ## 1. `create_execution` -/

/-- `ExecutionCreate`; the fields of `InternalExecutionCreate` are the same. -/
structure ExecutionCreate where
  processDefinitionId : UUID
  context : Dict

/-- What the environment decides while `create_execution` runs. -/
structure CreateEnv where
  lookup : Except PyExc Unit
  commit : Reply
  refresh : Except PyExc Unit
  executionId : UUID
  createdAt : Nat

/-- `ProcessExecution(...)`, with the defaults of the columns. -/
def newExecution (env : CreateEnv) (data : ExecutionCreate) (tenantId : UUID)
    (triggeredBy : Option UUID) (triggerType : String) : ExecutionRow where
  id := env.executionId
  tenantId := tenantId
  processDefinitionId := data.processDefinitionId
  status := ⟨"pending", by decide⟩
  currentStepId := none
  context := data.context
  triggeredBy := triggeredBy
  triggerType := triggerType
  startedAt := none
  completedAt := none
  createdAt := env.createdAt

def Database.insertExecution (row : ExecutionRow) (db : Database) : Database :=
  { db with executions := db.executions ++ [row] }

/-- `IntegrityError`; no handler looks at its text. -/
def integrityError : PyExc := ⟨.database, "IntegrityError"⟩

/-- `create_execution`: how it ends, and the database. -/
def createExecution (env : CreateEnv) (data : ExecutionCreate) (tenantId : UUID)
    (triggeredBy : Option UUID) (triggerType : String) (db : Database) :
    Except PyExc (Option ExecutionRow) × Database :=
  match env.lookup with
  | .error exc => (.error exc, db)
  | .ok () =>
      match db.definitions.find? fun d =>
        d.id = data.processDefinitionId ∧ d.tenantId = tenantId with
      | none => (.ok none, db)
      | some _ =>
          let row := newExecution env data tenantId triggeredBy triggerType
          -- The primary key refuses an id that is taken.
          if row.id ∈ db.executions.map ExecutionRow.id then (.error integrityError, db)
          else
            let db := if env.commit.carriedOut then db.insertExecution row else db
            match env.commit, env.refresh with
            | .raised exc _, _ => (.error exc, db)
            | .ok, .error exc => (.error exc, db)
            | .ok, .ok () => (.ok (some row), db)

/-! ## 2. `internal_trigger` -/

/-- `hmac.compare_digest` on strings. -/
def compareDigest (a b : String) : Except PyExc Bool :=
  if (a.toList ++ b.toList).all fun c => c.toNat < 128 then .ok (decide (a = b))
  else .error ⟨.typeError, "comparing strings with non-ASCII characters is not supported"⟩

/-- The check of the header `X-Internal-Secret`. -/
def checkSecret (internalSecret : String) (header : Option String) : Except HttpError Unit :=
  let value := header.getD ""
  if value = "" then .error ⟨401, "Unauthorized"⟩
  else
    match compareDigest value internalSecret with
    | .ok true => .ok ()
    | .ok false => .error ⟨401, "Unauthorized"⟩
    | .error _ => .error internalServerError

structure TriggerEnv where
  query : Except PyExc Unit
  setConfig : Except PyExc Unit
  create : CreateEnv

/-- The body of the answer. -/
structure TriggerRead where
  executionId : UUID
  status : String
  triggerType : String

/-- The `return` statement; without an execution it reads the id of `None`. -/
def triggerRead : Except PyExc (Option ExecutionRow) → Except HttpError TriggerRead
  | .ok (some row) => .ok ⟨row.id, row.status.val, row.triggerType⟩
  | _ => .error internalServerError

/-- `internal_trigger`. -/
def internalTrigger (internalSecret : String) (env : TriggerEnv) (header : Option String)
    (body : ExecutionCreate) (db : Database) : Except HttpError TriggerRead × Database :=
  match checkSecret internalSecret header, env.query with
  | .error e, _ => (.error e, db)
  | .ok (), .error _ => (.error internalServerError, db)
  | .ok (), .ok () =>
      match getProcess db body.processDefinitionId, env.setConfig with
      | none, _ => (.error ⟨404, "Workflow not found"⟩, db)
      | some _, .error _ => (.error internalServerError, db)
      | some workflow, .ok () =>
          let created := createExecution env.create body workflow.tenantId none "schedule" db
          (triggerRead created.1, created.2)

/-! ## 3. What a request stores -/

/-- `create_execution` gets as far as a commit that is carried out. -/
def CreateEnv.stores (env : CreateEnv) (db : Database) : Bool :=
  env.lookup.isOk && env.commit.carriedOut &&
    decide (env.executionId ∉ db.executions.map ExecutionRow.id)

/-- The request gets as far as a commit that is carried out. -/
def TriggerEnv.stores (env : TriggerEnv) (internalSecret : String) (header : Option String)
    (body : ExecutionCreate) (db : Database) : Bool :=
  (checkSecret internalSecret header).isOk && env.query.isOk &&
    (getProcess db body.processDefinitionId).isSome && env.setConfig.isOk &&
    env.create.stores db

-- `create_execution` finds a definition that is there in the tenant.
theorem find_definition_of_mem {db : Database} {id tenantId : UUID}
    (h : ∃ d ∈ db.definitions, d.id = id ∧ d.tenantId = tenantId) :
    ∃ d, (db.definitions.find? fun d => d.id = id ∧ d.tenantId = tenantId) = some d := by
  obtain ⟨d, hd, hid, htenant⟩ := h
  apply Option.isSome_iff_exists.mp
  rw [List.find?_isSome]
  exact ⟨d, hd, decide_eq_true ⟨hid, htenant⟩⟩

-- The definition that `internal_trigger` has found is found again by `create_execution`.
theorem find_definition {db : Database} {id : UUID} {workflow : ProcessDefinitionRow}
    (h : getProcess db id = some workflow) :
    ∃ d, (db.definitions.find? fun d => d.id = id ∧ d.tenantId = workflow.tenantId) = some d := by
  have hid := List.find?_some h
  have hmem := List.mem_of_find?_eq_some h
  exact find_definition_of_mem ⟨workflow, hmem, of_decide_eq_true hid, rfl⟩

-- The row is stored exactly when its commit is carried out; otherwise `create_execution` raises.
theorem createExecution_cases (env : CreateEnv) (triggeredBy : Option UUID) (triggerType : String)
    {data : ExecutionCreate} {tenantId : UUID} {db : Database} {d : ProcessDefinitionRow}
    (hfound : (db.definitions.find? fun d =>
      d.id = data.processDefinitionId ∧ d.tenantId = tenantId) = some d) :
    (env.stores db = true ∧
      (createExecution env data tenantId triggeredBy triggerType db).2 =
        db.insertExecution (newExecution env data tenantId triggeredBy triggerType)) ∨
    (env.stores db = false ∧
      ∃ exc, createExecution env data tenantId triggeredBy triggerType db = (.error exc, db)) := by
  unfold CreateEnv.stores
  cases hlookup : env.lookup with
  | error exc => exact .inr ⟨rfl, exc, by simp only [createExecution, hlookup]⟩
  | ok u =>
      have hrow : (newExecution env data tenantId triggeredBy triggerType).id = env.executionId :=
        rfl
      simp only [createExecution, hlookup, hfound, hrow]
      -- The primary key decides first.
      by_cases htaken : env.executionId ∈ db.executions.map ExecutionRow.id
      · exact .inr ⟨by simp only [htaken, not_true, decide_false, Bool.and_false], integrityError,
          by rw [if_pos htaken]⟩
      · rw [if_neg htaken, decide_eq_true htaken, Bool.and_true]
        cases hcommit : env.commit with
        | ok => exact .inl ⟨rfl, by split <;> rfl⟩
        | raised exc carriedOut =>
            cases carriedOut with
            | true => exact .inl ⟨rfl, rfl⟩
            | false => exact .inr ⟨rfl, exc, rfl⟩

theorem CreateEnv.stores_fresh {env : CreateEnv} {db : Database} (h : env.stores db = true) :
    env.executionId ∉ db.executions.map ExecutionRow.id := by
  simp only [CreateEnv.stores, Bool.and_eq_true, decide_eq_true_eq] at h
  exact h.2

/-- A request stores an execution of the workflow, or leaves the database as it is. -/
theorem internalTrigger_database (internalSecret : String) (env : TriggerEnv)
    (header : Option String) (body : ExecutionCreate) (db : Database) :
    (env.stores internalSecret header body db = true ∧
      ∃ row, row.processDefinitionId = body.processDefinitionId ∧
        row.id = env.create.executionId ∧
        (internalTrigger internalSecret env header body db).2 = db.insertExecution row) ∨
    (env.stores internalSecret header body db = false ∧
      (internalTrigger internalSecret env header body db).2 = db ∧
      (internalTrigger internalSecret env header body db).1.isOk = false) := by
  -- Every error before the commit leaves the database alone.
  have hrefused : ∀ e : HttpError, internalTrigger internalSecret env header body db =
      (.error e, db) → (internalTrigger internalSecret env header body db).2 = db ∧
        (internalTrigger internalSecret env header body db).1.isOk = false := by
    intro e h
    rw [h]
    exact ⟨rfl, rfl⟩
  unfold TriggerEnv.stores
  cases hsecret : checkSecret internalSecret header with
  | error e => exact .inr ⟨rfl, hrefused e (by simp only [internalTrigger, hsecret])⟩
  | ok u =>
      cases hquery : env.query with
      | error exc =>
          exact .inr ⟨rfl, hrefused _ (by simp only [internalTrigger, hsecret, hquery]; rfl)⟩
      | ok u =>
          cases hworkflow : getProcess db body.processDefinitionId with
          | none =>
              exact .inr ⟨rfl,
                hrefused _ (by simp only [internalTrigger, hsecret, hquery, hworkflow]; rfl)⟩
          | some workflow =>
              cases hconfig : env.setConfig with
              | error exc =>
                  exact .inr ⟨rfl,
                    hrefused internalServerError
                      (by simp only [internalTrigger, hsecret, hquery, hworkflow, hconfig])⟩
              | ok u =>
                  obtain ⟨d, hfound⟩ := find_definition hworkflow
                  have htrigger : internalTrigger internalSecret env header body db =
                      (triggerRead (createExecution env.create body workflow.tenantId none
                        "schedule" db).1, (createExecution env.create body workflow.tenantId none
                        "schedule" db).2) := by
                    simp only [internalTrigger, hsecret, hquery, hworkflow, hconfig]
                  rcases createExecution_cases env.create none "schedule" hfound with
                    ⟨hstores, hdb⟩ | ⟨hstores, exc, hdb⟩
                  · exact .inl ⟨hstores, _, rfl, rfl, by rw [htrigger]; exact hdb⟩
                  · exact .inr ⟨hstores, hrefused _ (htrigger.trans (by rw [hdb]; rfl))⟩

end ConstructorPlatform
