import ConstructorPlatform.PlatformApi.InternalTrigger

/-!
# Webhooks — `src/webhooks/service.py` and `src/webhooks/router.py`

A webhook is created, rotated and deleted by users of a tenant; anyone may call its trigger, which
asks for a signature of the body under the webhook's secret.  A request commits one change to
`webhook_configs` at most.
-/

namespace ConstructorPlatform

/-! ## 1. `verify_signature` and `apply_payload_mapping` -/

/-- What the trigger uses of `hmac`, `json` and `jmespath`. -/
structure WebhookLibraries where
  -- `hmac.new(secret.encode(), body, hashlib.sha256).hexdigest()`
  hexdigest : String → List UInt8 → String
  loads : List UInt8 → Except PyExc Json
  search : Json → Json → Except PyExc Json

def expectedSignature (lib : WebhookLibraries) (secret : String) (body : List UInt8) : String :=
  "sha256=" ++ lib.hexdigest secret body

/-- `verify_signature`. -/
def verifySignature (lib : WebhookLibraries) (secret : String) (body : List UInt8)
    (signature : String) : Except PyExc Bool :=
  compareDigest (expectedSignature lib secret body) signature

/-- The loop of `apply_payload_mapping`. -/
def mapPayload (lib : WebhookLibraries) (body : Json) : Dict → Dict → Except PyExc Dict
  | [], context => .ok context
  | (key, expression) :: rest, context =>
      match lib.search expression body with
      | .error exc => .error exc
      | .ok .null => mapPayload lib body rest context
      | .ok value => mapPayload lib body rest (dictSet key value context)

/-- `apply_payload_mapping`. -/
def applyPayloadMapping (lib : WebhookLibraries) (body : Json) (mapping : Dict) :
    Except PyExc Dict :=
  mapPayload lib body mapping []

theorem compareDigest_true {a b : String} (h : compareDigest a b = .ok true) : a = b := by
  unfold compareDigest at h
  split at h
  · exact of_decide_eq_true (Except.ok.inj h)
  · cases h

/-! ## 2. The changes to `webhook_configs` -/

/-- A change that is committed. -/
inductive WebhookWrite where
  | insert (row : WebhookConfigRow)
  | secret (webhookId : UUID) (secret : String)
  | inactive (webhookId : UUID)

/-- The row after a change of the row with this id. -/
def WebhookConfigRow.change (webhookId : UUID) (f : WebhookConfigRow → WebhookConfigRow)
    (row : WebhookConfigRow) : WebhookConfigRow :=
  if row.id = webhookId then f row else row

def Database.changeWebhook (webhookId : UUID) (f : WebhookConfigRow → WebhookConfigRow)
    (db : Database) : Database :=
  { db with webhooks := db.webhooks.map (WebhookConfigRow.change webhookId f) }

def Database.writeWebhook : WebhookWrite → Database → Database
  | .insert row, db => { db with webhooks := db.webhooks ++ [row] }
  | .secret webhookId secret, db =>
      db.changeWebhook webhookId fun row => { row with secret := secret }
  | .inactive webhookId, db =>
      db.changeWebhook webhookId fun row => { row with isActive := false }

/-! ## 3. The service -/

structure WebhookConfigCreate where
  workflowId : UUID
  name : String
  payloadMapping : Dict

/-- What the environment decides while a webhook is created, rotated or deactivated. -/
structure WebhookEnv where
  lookup : Except PyExc Unit
  webhookId : UUID
  createdAt : Nat
  -- `_generate_secret()`
  secret : String
  commit : Reply
  refresh : Except PyExc Unit

/-- The commit and the refresh that follow a change. -/
def WebhookEnv.commitAndRefresh {α : Type} (env : WebhookEnv) (value : α) : Except PyExc α :=
  match env.commit, env.refresh with
  | .raised exc _, _ => .error exc
  | .ok, .error exc => .error exc
  | .ok, .ok () => .ok value

def WebhookEnv.committed (env : WebhookEnv) (write : WebhookWrite) : Option WebhookWrite :=
  if env.commit.carriedOut then some write else none

/-- `WebhookConfig(...)`, with the defaults of the columns. -/
def newWebhook (env : WebhookEnv) (data : WebhookConfigCreate) (tenantId : UUID) :
    WebhookConfigRow where
  id := env.webhookId
  tenantId := tenantId
  workflowId := data.workflowId
  name := data.name
  secret := env.secret
  payloadMapping := data.payloadMapping
  isActive := true
  createdAt := env.createdAt

/-- The primary key and the foreign key to `process_definitions` let the row in. -/
def Database.admitsWebhook (db : Database) (row : WebhookConfigRow) : Bool :=
  decide (row.id ∉ db.webhooks.map WebhookConfigRow.id) && (getProcess db row.workflowId).isSome

/-- `create_webhook`: how it ends, and what it commits. -/
def createWebhook (env : WebhookEnv) (data : WebhookConfigCreate) (tenantId : UUID)
    (db : Database) : Except PyExc (WebhookConfigRow × String) × Option WebhookWrite :=
  let plainSecret := env.secret
  let webhook := newWebhook env data tenantId
  if db.admitsWebhook webhook then
    (env.commitAndRefresh (webhook, plainSecret), env.committed (.insert webhook))
  else (.error integrityError, none)

/-- `get_webhook`. -/
def getWebhook (db : Database) (webhookId : UUID) : Option WebhookConfigRow :=
  db.webhooks.find? fun w => w.id = webhookId

/-- The query of `deactivate_webhook` and of `rotate_secret`. -/
def findOwnWebhook (db : Database) (webhookId tenantId : UUID) : Option WebhookConfigRow :=
  db.webhooks.find? fun w => w.id = webhookId ∧ w.tenantId = tenantId

/-- `deactivate_webhook`. -/
def deactivateWebhook (env : WebhookEnv) (webhookId tenantId : UUID) (db : Database) :
    Except PyExc Bool × Option WebhookWrite :=
  match env.lookup with
  | .error exc => (.error exc, none)
  | .ok () =>
      match findOwnWebhook db webhookId tenantId with
      | none => (.ok false, none)
      | some webhook =>
          match env.commit with
          | .raised exc _ => (.error exc, env.committed (.inactive webhook.id))
          | .ok => (.ok true, env.committed (.inactive webhook.id))

/-- `rotate_secret`. -/
def rotateSecret (env : WebhookEnv) (webhookId tenantId : UUID) (db : Database) :
    Except PyExc (Option (WebhookConfigRow × String)) × Option WebhookWrite :=
  match env.lookup with
  | .error exc => (.error exc, none)
  | .ok () =>
      match findOwnWebhook db webhookId tenantId with
      | none => (.ok none, none)
      | some webhook =>
          let plainSecret := env.secret
          let webhook := { webhook with secret := plainSecret }
          (env.commitAndRefresh (some (webhook, plainSecret)),
            env.committed (.secret webhook.id plainSecret))

/-! ## 4. The router -/

/-- The body of a response. -/
inductive ResponseBody where
  | workflow (row : ProcessDefinitionRow)
  | execution (read : ExecutionRead)
  -- `WebhookConfigPublic`
  | webhook (read : WebhookConfigRead) (secret : String)
  | noContent
  | triggered (executionId : UUID) (status : String)
  | internal (read : TriggerRead)

abbrev Response := Except HttpError ResponseBody

def webhookNotFound : HttpError := ⟨404, "Webhook not found"⟩

/-- `create`. -/
def createWebhookRoute (session : SessionEnv) (env : WebhookEnv) (credentials : Credentials)
    (body : WebhookConfigCreate) (db : Database) : Response × Option WebhookWrite :=
  match authorize .workflowCreate session db.users credentials with
  | .error e => (.error e, none)
  | .ok user =>
      let (ended, write) := createWebhook env body user.tenantId db
      match ended with
      | .error _ => (.error internalServerError, write)
      | .ok (webhook, plainSecret) => (.ok (.webhook webhook.read plainSecret), write)

/-- `delete`. -/
def deleteWebhookRoute (session : SessionEnv) (env : WebhookEnv) (credentials : Credentials)
    (webhookId : UUID) (db : Database) : Response × Option WebhookWrite :=
  match authorize .workflowCreate session db.users credentials with
  | .error e => (.error e, none)
  | .ok user =>
      let (ended, write) := deactivateWebhook env webhookId user.tenantId db
      match ended with
      | .error _ => (.error internalServerError, write)
      | .ok false => (.error webhookNotFound, write)
      | .ok true => (.ok .noContent, write)

/-- `rotate`. -/
def rotateWebhookRoute (session : SessionEnv) (env : WebhookEnv) (credentials : Credentials)
    (webhookId : UUID) (db : Database) : Response × Option WebhookWrite :=
  match authorize .workflowCreate session db.users credentials with
  | .error e => (.error e, none)
  | .ok user =>
      let (ended, write) := rotateSecret env webhookId user.tenantId db
      match ended with
      | .error _ => (.error internalServerError, write)
      | .ok none => (.error webhookNotFound, write)
      | .ok (some (webhook, plainSecret)) => (.ok (.webhook webhook.read plainSecret), write)

/-- What a caller sends to the trigger. -/
structure WebhookCall where
  webhookId : UUID
  -- The header `X-Constructor-Signature`.
  signature : Option String
  body : List UInt8

/-- The checks of `trigger` on a webhook that the query has returned. -/
def checkWebhook (lib : WebhookLibraries) (call : WebhookCall) :
    Option WebhookConfigRow → Except HttpError WebhookConfigRow
  | none => .error webhookNotFound
  | some webhook =>
      if webhook.isActive = false then .error webhookNotFound
      else
        match verifySignature lib webhook.secret call.body (call.signature.getD "") with
        | .error _ => .error internalServerError
        | .ok false => .error ⟨401, "Invalid signature"⟩
        | .ok true => .ok webhook

/-- The context that the body gives; an empty body counts as an empty object. -/
def webhookContext (lib : WebhookLibraries) (body : List UInt8) (mapping : Dict) :
    Except PyExc Dict := do
  let value ← if body.isEmpty then .ok (.obj []) else lib.loads body
  applyPayloadMapping lib value mapping

/-- `trigger` up to the call of `create_execution`: what the call returns or raises. -/
def triggerCreates (lib : WebhookLibraries) (env : TriggerEnv) (call : WebhookCall)
    (db : Database) : Except HttpError (Except PyExc (Option ExecutionRow)) × Database :=
  match env.query with
  | .error _ => (.error internalServerError, db)
  | .ok () =>
      match checkWebhook lib call (getWebhook db call.webhookId) with
      | .error e => (.error e, db)
      | .ok webhook =>
          match webhookContext lib call.body webhook.payloadMapping, env.setConfig with
          | .error _, _ => (.error internalServerError, db)
          | .ok _, .error _ => (.error internalServerError, db)
          | .ok context, .ok () =>
              let created := createExecution env.create ⟨webhook.workflowId, context⟩
                webhook.tenantId none "webhook" db
              (.ok created.1, created.2)

/-- `trigger`.  Without an execution it reads the id of `None`. -/
def triggerWebhookRoute (lib : WebhookLibraries) (env : TriggerEnv) (call : WebhookCall)
    (db : Database) : Response × Database :=
  let (reached, db) := triggerCreates lib env call db
  match reached with
  | .error e => (.error e, db)
  | .ok (.ok (some execution)) => (.ok (.triggered execution.id execution.status.val), db)
  | .ok (.ok none) => (.error internalServerError, db)
  | .ok (.error _) => (.error internalServerError, db)

/-! ## 5. What a webhook request commits -/

theorem WebhookEnv.committed_eq_some {env : WebhookEnv} {write write' : WebhookWrite}
    (h : env.committed write = some write') : write = write' ∧ env.commit.carriedOut = true := by
  unfold committed at h
  split at h
  · rename_i hcarried
    exact ⟨Option.some.inj h, hcarried⟩
  · cases h

-- What was answered was committed.
theorem WebhookEnv.commitAndRefresh_ok {α : Type} {env : WebhookEnv} {value value' : α}
    (h : env.commitAndRefresh value = .ok value') (write : WebhookWrite) :
    value = value' ∧ env.committed write = some write := by
  unfold commitAndRefresh at h
  split at h
  · cases h
  · cases h
  · rename_i hcommit _
    refine ⟨Except.ok.inj h, ?_⟩
    rw [committed, hcommit]
    rfl

theorem findOwnWebhook_some {db : Database} {webhookId tenantId : UUID} {row : WebhookConfigRow}
    (h : findOwnWebhook db webhookId tenantId = some row) :
    row ∈ db.webhooks ∧ row.id = webhookId ∧ row.tenantId = tenantId := by
  have hfound := List.find?_some h
  simp only [decide_eq_true_eq] at hfound
  exact ⟨List.mem_of_find?_eq_some h, hfound⟩

/-- A create commits a row that the keys admit, of the tenant of the caller. -/
theorem createWebhookRoute_write {session : SessionEnv} {env : WebhookEnv}
    {credentials : Credentials} {body : WebhookConfigCreate} {db : Database} {write : WebhookWrite}
    (h : (createWebhookRoute session env credentials body db).2 = some write) :
    ∃ user, authorize .workflowCreate session db.users credentials = .ok user ∧
      db.admitsWebhook (newWebhook env body user.tenantId) = true ∧
      env.commit.carriedOut = true ∧ write = .insert (newWebhook env body user.tenantId) := by
  unfold createWebhookRoute createWebhook at h
  split at h
  · cases h
  · rename_i user huser
    by_cases hadmits : db.admitsWebhook (newWebhook env body user.tenantId) = true
    · simp only [if_pos hadmits] at h
      have hwrite : env.committed (.insert (newWebhook env body user.tenantId)) = some write := by
        split at h <;> exact h
      obtain ⟨rfl, hcarried⟩ := WebhookEnv.committed_eq_some hwrite
      exact ⟨user, huser, hadmits, hcarried, rfl⟩
    · simp only [if_neg hadmits] at h
      cases h

/-- What a request writes that changes a webhook of the caller's tenant. -/
def ownWrite (session : SessionEnv) (env : WebhookEnv) (credentials : Credentials)
    (webhookId : UUID) (db : Database) (change : UUID → WebhookWrite) : Option WebhookWrite :=
  match authorize .workflowCreate session db.users credentials, env.lookup with
  | .ok user, .ok () =>
      (findOwnWebhook db webhookId user.tenantId).bind fun row => env.committed (change row.id)
  | _, _ => none

section OwnWrite

variable {session : SessionEnv} {env : WebhookEnv} {credentials : Credentials} {webhookId : UUID}
  {db : Database} {write : WebhookWrite}

theorem deleteWebhookRoute_snd : (deleteWebhookRoute session env credentials webhookId db).2 =
    ownWrite session env credentials webhookId db .inactive := by
  unfold deleteWebhookRoute deactivateWebhook ownWrite
  cases authorize .workflowCreate session db.users credentials with
  | error e => rfl
  | ok user =>
      cases env.lookup with
      | error exc => rfl
      | ok u =>
          simp only
          cases findOwnWebhook db webhookId user.tenantId with
          | none => rfl
          | some row => cases env.commit <;> rfl

theorem rotateWebhookRoute_snd : (rotateWebhookRoute session env credentials webhookId db).2 =
    ownWrite session env credentials webhookId db (.secret · env.secret) := by
  unfold rotateWebhookRoute rotateSecret ownWrite
  cases authorize .workflowCreate session db.users credentials with
  | error e => rfl
  | ok user =>
      cases env.lookup with
      | error exc => rfl
      | ok u =>
          simp only
          cases findOwnWebhook db webhookId user.tenantId with
          | none => rfl
          | some row =>
              simp only
              split <;> rfl

theorem ownWrite_eq_some {change : UUID → WebhookWrite}
    (h : ownWrite session env credentials webhookId db change = some write) :
    ∃ user row, authorize .workflowCreate session db.users credentials = .ok user ∧
      row ∈ db.webhooks ∧ row.id = webhookId ∧ row.tenantId = user.tenantId ∧
      write = change webhookId := by
  unfold ownWrite at h
  split at h
  · rename_i user huser _
    obtain ⟨row, hfound, hwrite⟩ := Option.bind_eq_some_iff.mp h
    obtain ⟨hrow, hid, htenant⟩ := findOwnWebhook_some hfound
    obtain ⟨rfl, -⟩ := WebhookEnv.committed_eq_some hwrite
    exact ⟨user, row, huser, hrow, hid, htenant, by rw [hid]⟩
  · cases h

/-- A delete commits the deactivation of a webhook of the caller's tenant. -/
theorem deleteWebhookRoute_write
    (h : (deleteWebhookRoute session env credentials webhookId db).2 = some write) :
    ∃ user row, authorize .workflowCreate session db.users credentials = .ok user ∧
      row ∈ db.webhooks ∧ row.id = webhookId ∧ row.tenantId = user.tenantId ∧
      write = .inactive webhookId :=
  ownWrite_eq_some (deleteWebhookRoute_snd.symm.trans h)

/-- A rotate commits the new secret of a webhook of the caller's tenant. -/
theorem rotateWebhookRoute_write
    (h : (rotateWebhookRoute session env credentials webhookId db).2 = some write) :
    ∃ user row, authorize .workflowCreate session db.users credentials = .ok user ∧
      row ∈ db.webhooks ∧ row.id = webhookId ∧ row.tenantId = user.tenantId ∧
      write = .secret webhookId env.secret :=
  ownWrite_eq_some (rotateWebhookRoute_snd.symm.trans h)

end OwnWrite

/-! ## 6. What a trigger stores -/

theorem checkWebhook_ok {lib : WebhookLibraries} {call : WebhookCall}
    {found : Option WebhookConfigRow} {webhook : WebhookConfigRow}
    (h : checkWebhook lib call found = .ok webhook) :
    found = some webhook ∧ webhook.isActive = true ∧
      call.signature.getD "" = expectedSignature lib webhook.secret call.body := by
  unfold checkWebhook at h
  split at h
  · cases h
  · split at h
    · cases h
    · rename_i row hactive
      split at h
      · cases h
      · cases h
      · rename_i hverified
        cases h
        exact ⟨rfl, by simpa using hactive, (compareDigest_true hverified).symm⟩

/-- A trigger reaches `create_execution` with a webhook that is active and whose secret has signed
the body. -/
theorem triggerCreates_cases (lib : WebhookLibraries) (env : TriggerEnv) (call : WebhookCall)
    (db : Database) :
    (∃ e, triggerCreates lib env call db = (.error e, db)) ∨
    ∃ webhook context, getWebhook db call.webhookId = some webhook ∧ webhook.isActive = true ∧
      call.signature.getD "" = expectedSignature lib webhook.secret call.body ∧
      triggerCreates lib env call db =
        (.ok (createExecution env.create ⟨webhook.workflowId, context⟩ webhook.tenantId none
            "webhook" db).1,
          (createExecution env.create ⟨webhook.workflowId, context⟩ webhook.tenantId none
            "webhook" db).2) := by
  unfold triggerCreates
  split
  · exact .inl ⟨_, rfl⟩
  · split
    · exact .inl ⟨_, rfl⟩
    · rename_i webhook hchecked
      obtain ⟨hfound, hactive, hsigned⟩ := checkWebhook_ok hchecked
      split
      · exact .inl ⟨_, rfl⟩
      · exact .inl ⟨_, rfl⟩
      · rename_i context _ _
        exact .inr ⟨webhook, context, hfound, hactive, hsigned, rfl⟩

theorem triggerWebhookRoute_database (lib : WebhookLibraries) (env : TriggerEnv)
    (call : WebhookCall) (db : Database) :
    (triggerWebhookRoute lib env call db).2 = (triggerCreates lib env call db).2 := by
  unfold triggerWebhookRoute
  generalize triggerCreates lib env call db = reached
  obtain ⟨reached, db'⟩ := reached
  dsimp only
  split <;> rfl

end ConstructorPlatform
