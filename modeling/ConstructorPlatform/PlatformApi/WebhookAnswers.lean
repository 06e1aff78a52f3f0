import ConstructorPlatform.PlatformApi.Webhooks

/-!
# WebhookAnswers — what a call of the trigger is answered

Anyone may call the trigger of a webhook, with any header and any body.  `trigger` has an answer for
an unknown webhook, for a wrong signature and for a body that it can map; a header that is not
ASCII, a body that is not JSON and an expression that fails on the body end in an exception.
`triggerWebhookRoute_answered_iff` says when a call is answered as it should be.
-/

namespace ConstructorPlatform

/-! ## 1. The answers -/

/-- `hexdigest()` returns hexadecimal digits: `0` to `9` and `a` to `f`. -/
def WebhookLibraries.HexDigits (lib : WebhookLibraries) : Prop :=
  ∀ secret body, ∀ c ∈ (lib.hexdigest secret body).toList,
    48 ≤ c.toNat ∧ c.toNat ≤ 57 ∨ 97 ≤ c.toNat ∧ c.toNat ≤ 102

/-- `json.loads(body_bytes) if body_bytes else {}`. -/
def bodyValue (lib : WebhookLibraries) (body : List UInt8) : Except PyExc Json :=
  if body.isEmpty then .ok (.obj []) else lib.loads body

/-- 404 without an active webhook, 401 without its signature, and else 202 with a new execution, or
a client error if the body is not JSON. -/
def WebhookCall.Answered (lib : WebhookLibraries) (call : WebhookCall) (db : Database)
    (answer : Response × Database) : Prop :=
  match getWebhook db call.webhookId with
  | none => answer = (.error webhookNotFound, db)
  | some webhook =>
      if webhook.isActive = false then answer = (.error webhookNotFound, db)
      else if call.signature.getD "" ≠ expectedSignature lib webhook.secret call.body then
        ∃ detail, answer = (.error ⟨401, detail⟩, db)
      else
        (∃ execution : ExecutionRow, execution.tenantId = webhook.tenantId ∧
          execution.processDefinitionId = webhook.workflowId ∧
          answer = (.ok (.triggered execution.id "pending"), db.insertExecution execution)) ∨
        ((∃ exc, bodyValue lib call.body = .error exc) ∧
          ∃ status detail, 400 ≤ status ∧ status < 500 ∧ answer = (.error ⟨status, detail⟩, db))

/-- The new row can be committed: its id is free, and the commit succeeds. -/
def CreateEnv.Commits (env : CreateEnv) (db : Database) : Prop :=
  env.executionId ∉ db.executions.map ExecutionRow.id ∧ env.commit = .ok

/-- The header is ASCII, and under a right signature the body is JSON, every expression of the
mapping can be searched in it, and the new row can be committed. -/
def WebhookCall.Answerable (lib : WebhookLibraries) (env : TriggerEnv) (call : WebhookCall)
    (db : Database) : Prop :=
  ∀ webhook, getWebhook db call.webhookId = some webhook → webhook.isActive = true →
    (∀ c ∈ (call.signature.getD "").toList, c.toNat < 128) ∧
    (call.signature.getD "" = expectedSignature lib webhook.secret call.body →
      ∃ value, bodyValue lib call.body = .ok value ∧
        (∀ item ∈ webhook.payloadMapping, ∃ found, lib.search item.2 value = .ok found) ∧
        env.create.Commits db)

/-! ## 2. The steps of `trigger` -/

section Steps

variable {lib : WebhookLibraries}

theorem expectedSignature_ascii (hhex : lib.HexDigits) (secret : String) (body : List UInt8) :
    ∀ c ∈ (expectedSignature lib secret body).toList, c.toNat < 128 := by
  have halgorithm : ∀ c ∈ "sha256=".toList, c.toNat < 128 := by simp
  intro c hc
  rw [expectedSignature, String.toList_append] at hc
  rcases List.mem_append.mp hc with hc | hc
  · exact halgorithm c hc
  · have := hhex secret body c hc
    omega

-- `hmac.compare_digest` with the expected signature.
theorem verifySignature_cases (hhex : lib.HexDigits) (secret : String) (body : List UInt8)
    (signature : String) :
    ((∀ c ∈ signature.toList, c.toNat < 128) ∧
      verifySignature lib secret body signature =
        .ok (decide (expectedSignature lib secret body = signature))) ∨
    ((¬ ∀ c ∈ signature.toList, c.toNat < 128) ∧
      ∃ exc, verifySignature lib secret body signature = .error exc) := by
  have hexpected := expectedSignature_ascii hhex secret body
  unfold verifySignature compareDigest
  by_cases hascii : ∀ c ∈ signature.toList, c.toNat < 128
  · refine .inl ⟨hascii, if_pos ?_⟩
    rw [List.all_eq_true]
    intro c hc
    exact decide_eq_true ((List.mem_append.mp hc).elim (hexpected c) (hascii c))
  · refine .inr ⟨hascii, _, if_neg fun hall => hascii fun c hc => ?_⟩
    exact of_decide_eq_true (List.all_eq_true.mp hall c (List.mem_append_right _ hc))

-- The mapping succeeds exactly when each search does.
theorem mapPayload_isOk_iff (lib : WebhookLibraries) (value : Json) (mapping context : Dict) :
    (∃ mapped, mapPayload lib value mapping context = .ok mapped) ↔
      ∀ item ∈ mapping, ∃ found, lib.search item.2 value = .ok found := by
  induction mapping generalizing context with
  | nil => exact iff_of_true ⟨context, rfl⟩ nofun
  | cons item rest ih =>
      obtain ⟨key, expression⟩ := item
      rw [List.forall_mem_cons]
      cases hfound : lib.search expression value with
      | error exc => simp [mapPayload, hfound]
      | ok found =>
          have hrest : ∃ context', mapPayload lib value ((key, expression) :: rest) context =
              mapPayload lib value rest context' := by
            simp only [mapPayload, hfound]
            cases found <;> exact ⟨_, rfl⟩
          obtain ⟨context', hrest⟩ := hrest
          rw [hrest, ih]
          simp

theorem webhookContext_eq (lib : WebhookLibraries) (body : List UInt8) (mapping : Dict) :
    webhookContext lib body mapping =
      (bodyValue lib body).bind fun value => applyPayloadMapping lib value mapping := by
  unfold webhookContext bodyValue
  cases body.isEmpty <;> rfl

-- The route after the lookup of an active webhook.
theorem triggerWebhookRoute_active {env : TriggerEnv} {call : WebhookCall} {db : Database}
    {webhook : WebhookConfigRow} (hquery : env.query = .ok ()) (hconfig : env.setConfig = .ok ())
    (hfound : getWebhook db call.webhookId = some webhook) (hactive : webhook.isActive = true) :
    triggerWebhookRoute lib env call db =
      match verifySignature lib webhook.secret call.body (call.signature.getD "") with
      | .error _ => (.error internalServerError, db)
      | .ok false => (.error ⟨401, "Invalid signature"⟩, db)
      | .ok true =>
          match webhookContext lib call.body webhook.payloadMapping with
          | .error _ => (.error internalServerError, db)
          | .ok context =>
              match createExecution env.create ⟨webhook.workflowId, context⟩ webhook.tenantId none
                "webhook" db with
              | (.ok (some execution), db) =>
                  (.ok (.triggered execution.id execution.status.val), db)
              | (_, db) => (.error internalServerError, db) := by
  unfold triggerWebhookRoute triggerCreates
  simp only [hquery, hconfig, hfound, checkWebhook, hactive, Bool.true_eq_false, if_false]
  cases verifySignature lib webhook.secret call.body (call.signature.getD "") with
  | error exc => rfl
  | ok verified =>
      cases verified with
      | false => rfl
      | true =>
          dsimp only
          cases webhookContext lib call.body webhook.payloadMapping with
          | error exc => rfl
          | ok context =>
              dsimp only
              generalize createExecution env.create _ _ _ _ db = created
              obtain ⟨ended, db'⟩ := created
              cases ended with
              | error exc => rfl
              | ok execution => cases execution <;> rfl

-- The primary key and the commit decide how the creation ends.
theorem createExecution_of_commit {env : CreateEnv} (data : ExecutionCreate) {tenantId : UUID}
    {db : Database} {d : ProcessDefinitionRow} (hlookup : env.lookup = .ok ())
    (hrefresh : env.refresh = .ok ())
    (hfound : (db.definitions.find? fun d =>
      d.id = data.processDefinitionId ∧ d.tenantId = tenantId) = some d)
    (triggeredBy : Option UUID) (triggerType : String) :
    (env.Commits db ∧ createExecution env data tenantId triggeredBy triggerType db =
      (.ok (some (newExecution env data tenantId triggeredBy triggerType)),
        db.insertExecution (newExecution env data tenantId triggeredBy triggerType))) ∨
    (¬ env.Commits db ∧ ∃ exc db', createExecution env data tenantId triggeredBy triggerType db =
      (.error exc, db')) := by
  have hrow : (newExecution env data tenantId triggeredBy triggerType).id = env.executionId := rfl
  simp only [createExecution, hlookup, hfound, hrow]
  by_cases htaken : env.executionId ∈ db.executions.map ExecutionRow.id
  · exact .inr ⟨fun h => h.1 htaken, integrityError, db, if_pos htaken⟩
  · rw [if_neg htaken]
    cases hcommit : env.commit with
    | ok => exact .inl ⟨⟨htaken, hcommit⟩, by simp only [hrefresh]; rfl⟩
    | raised exc carriedOut =>
        refine .inr ⟨fun h => ?_, exc, _, rfl⟩
        rw [CreateEnv.Commits, hcommit] at h
        cases h.2

end Steps

/-! ## 3. Which calls are answered -/

section Answered

variable {lib : WebhookLibraries} {env : TriggerEnv} {call : WebhookCall} {db : Database}

-- An exception is no answer to a call of an active webhook.
theorem not_answered_internalServerError {webhook : WebhookConfigRow}
    (hfound : getWebhook db call.webhookId = some webhook) (hactive : webhook.isActive = true)
    (db' : Database) : ¬ call.Answered lib db (.error internalServerError, db') := by
  intro h
  unfold WebhookCall.Answered at h
  simp only [hfound, hactive, Bool.true_eq_false, if_false] at h
  split at h
  · obtain ⟨detail, heq⟩ := h
    cases heq
  · rcases h with ⟨execution, -, -, heq⟩ | ⟨-, status, detail, -, hlt, heq⟩
    · cases heq
    · cases heq
      exact absurd hlt (by decide)

theorem answered_active {webhook : WebhookConfigRow}
    (hfound : getWebhook db call.webhookId = some webhook) (hactive : webhook.isActive = true)
    (answer : Response × Database) :
    call.Answered lib db answer ↔
      if call.signature.getD "" ≠ expectedSignature lib webhook.secret call.body then
        ∃ detail, answer = (.error ⟨401, detail⟩, db)
      else
        (∃ execution : ExecutionRow, execution.tenantId = webhook.tenantId ∧
          execution.processDefinitionId = webhook.workflowId ∧
          answer = (.ok (.triggered execution.id "pending"), db.insertExecution execution)) ∨
        ((∃ exc, bodyValue lib call.body = .error exc) ∧
          ∃ status detail, 400 ≤ status ∧ status < 500 ∧
            answer = (.error ⟨status, detail⟩, db)) := by
  unfold WebhookCall.Answered
  simp only [hfound, hactive, Bool.true_eq_false, if_false]

-- Under a right signature: the body, the mapping and the commit decide.
theorem answered_signed (hconfig : env.setConfig = .ok ()) (hquery : env.query = .ok ())
    (hlookup : env.create.lookup = .ok ()) (hrefresh : env.create.refresh = .ok ())
    {webhook : WebhookConfigRow} (hfound : getWebhook db call.webhookId = some webhook)
    (hactive : webhook.isActive = true)
    (hworkflow : ∃ d ∈ db.definitions, d.id = webhook.workflowId ∧ d.tenantId = webhook.tenantId)
    (hsigned : call.signature.getD "" = expectedSignature lib webhook.secret call.body)
    (hverified : verifySignature lib webhook.secret call.body (call.signature.getD "") =
      .ok true) :
    call.Answered lib db (triggerWebhookRoute lib env call db) ↔
      ∃ value, bodyValue lib call.body = .ok value ∧
        (∀ item ∈ webhook.payloadMapping, ∃ found, lib.search item.2 value = .ok found) ∧
        env.create.Commits db := by
  rw [triggerWebhookRoute_active hquery hconfig hfound hactive, hverified]
  dsimp only
  have hraised : ∀ db', ¬ call.Answered lib db (.error internalServerError, db') :=
    not_answered_internalServerError hfound hactive
  cases hvalue : bodyValue lib call.body with
  | error exc =>
      rw [webhookContext_eq, hvalue]
      exact iff_of_false (hraised db) fun ⟨_, h, _⟩ => nomatch h
  | ok value =>
      have hcontext : webhookContext lib call.body webhook.payloadMapping =
          mapPayload lib value webhook.payloadMapping [] := by
        rw [webhookContext_eq, hvalue]
        rfl
      have hmapping := mapPayload_isOk_iff lib value webhook.payloadMapping []
      rw [hcontext]
      cases hmapped : mapPayload lib value webhook.payloadMapping [] with
      | error exc =>
          rw [hmapped] at hmapping
          refine iff_of_false (hraised db) ?_
          rintro ⟨value', hvalue', hsearch, -⟩
          cases hvalue'
          obtain ⟨mapped, h⟩ := hmapping.mpr hsearch
          cases h
      | ok context =>
          obtain ⟨d, hd⟩ := find_definition_of_mem hworkflow
          rcases createExecution_of_commit ⟨webhook.workflowId, context⟩ hlookup hrefresh hd none
            "webhook" with ⟨hcommit, hcreated⟩ | ⟨hcommit, exc, db', hcreated⟩
          · dsimp only
            rw [hcreated]
            refine iff_of_true ?_ ⟨value, rfl, hmapping.mp ⟨context, hmapped⟩, hcommit⟩
            rw [answered_active hfound hactive, if_neg (not_not.mpr hsigned)]
            exact .inl ⟨newExecution env.create ⟨webhook.workflowId, context⟩ webhook.tenantId none
              "webhook", rfl, rfl, rfl⟩
          · dsimp only
            rw [hcreated]
            exact iff_of_false (hraised db') fun ⟨_, _, _, h⟩ => hcommit h

end Answered

/-! A webhook of tenant 1 with the mapping of the tests. -/

def policyWebhook : WebhookConfigRow where
  id := 9
  tenantId := 1
  workflowId := 3
  name := "Trigger WH"
  secret := "whsec"
  payloadMapping := [("policy_id", .str "data.id")]
  isActive := true
  createdAt := 0

def policyDatabase : Database where
  users := []
  definitions := [foreignDefinition 1 3]
  executions := []
  webhooks := [policyWebhook]

def answeringDatabase : TriggerEnv where
  query := .ok ()
  setConfig := .ok ()
  create := ⟨.ok (), .ok, .ok (), 77, 0⟩

/-- The digest of an empty object under the secret. -/
def emptyObjectDigest : List Char :=
  ['a', 'e', '6', '3', '4', '1', 'e', 'a', '7', 'f', '4', '0', 'a', '4', '3', '5',
   'd', 'b', '5', '7', 'd', '9', '0', '3', 'd', '0', '2', 'c', 'b', 'a', '1', '9',
   '0', '8', '5', 'e', 'f', 'b', '8', 'a', '9', '1', '3', 'f', '8', 'c', 'f', 'b',
   'd', '8', 'c', 'f', 'f', '3', 'd', '7', 'd', 'f', '0', 'c', '7', 'a', '2', 'd']

/-- What the libraries return for an empty object as the body. -/
def emptyObjectLibraries : WebhookLibraries where
  hexdigest _ _ := String.ofList emptyObjectDigest
  loads _ := .ok (.obj [])
  search _ _ := .ok .null

theorem emptyObjectLibraries_hexDigits : emptyObjectLibraries.HexDigits := by
  have hall : emptyObjectDigest.all (fun c =>
      decide (48 ≤ c.toNat ∧ c.toNat ≤ 57 ∨ 97 ≤ c.toNat ∧ c.toNat ≤ 102)) = true := by
    decide +kernel
  intro secret body c hc
  have hmem : c ∈ (String.ofList emptyObjectDigest).toList := hc
  rw [String.toList_ofList] at hmem
  exact of_decide_eq_true (List.all_eq_true.mp hall c hmem)

/-- A header with an accent ends in an exception, where another wrong one is answered with 401. -/
theorem accented_header_not_answered :
    triggerWebhookRoute emptyObjectLibraries answeringDatabase ⟨9, some "\u00e9", [123, 125]⟩
        policyDatabase = (.error internalServerError, policyDatabase) ∧
      ¬ WebhookCall.Answered emptyObjectLibraries ⟨9, some "\u00e9", [123, 125]⟩ policyDatabase
        (triggerWebhookRoute emptyObjectLibraries answeringDatabase
          ⟨9, some "\u00e9", [123, 125]⟩ policyDatabase) := by
  have hanswer : triggerWebhookRoute emptyObjectLibraries answeringDatabase
      ⟨9, some "\u00e9", [123, 125]⟩ policyDatabase =
        (.error internalServerError, policyDatabase) := rfl
  refine ⟨hanswer, ?_⟩
  rw [hanswer]
  have hfound : getWebhook policyDatabase 9 = some policyWebhook := rfl
  exact not_answered_internalServerError hfound rfl policyDatabase

/-- While the database answers, a call of a webhook whose workflow belongs to its tenant is answered
as it should be exactly when it is answerable. -/
theorem triggerWebhookRoute_answered_iff (lib : WebhookLibraries) (hhex : lib.HexDigits)
    (env : TriggerEnv) (hquery : env.query = .ok ()) (hconfig : env.setConfig = .ok ())
    (hlookup : env.create.lookup = .ok ()) (hrefresh : env.create.refresh = .ok ())
    (call : WebhookCall) (db : Database)
    (hworkflow : ∀ webhook, getWebhook db call.webhookId = some webhook →
      ∃ d ∈ db.definitions, d.id = webhook.workflowId ∧ d.tenantId = webhook.tenantId) :
    call.Answered lib db (triggerWebhookRoute lib env call db) ↔ call.Answerable lib env db := by
  cases hfound : getWebhook db call.webhookId with
  | none =>
      refine iff_of_true ?_ (fun _ h => by rw [hfound] at h; cases h)
      simp only [WebhookCall.Answered, triggerWebhookRoute, triggerCreates, checkWebhook, hquery,
        hfound]
  | some webhook =>
      cases hactive : webhook.isActive with
      | false =>
          refine iff_of_true ?_ (fun w h hw => ?_)
          · simp only [WebhookCall.Answered, triggerWebhookRoute, triggerCreates, checkWebhook,
              hquery, hfound, hactive, if_true]
          · obtain rfl := Option.some.inj (hfound.symm.trans h)
            rw [hactive] at hw
            cases hw
      | true =>
          have hanswerable : call.Answerable lib env db ↔
              (∀ c ∈ (call.signature.getD "").toList, c.toNat < 128) ∧
              (call.signature.getD "" = expectedSignature lib webhook.secret call.body →
                ∃ value, bodyValue lib call.body = .ok value ∧
                  (∀ item ∈ webhook.payloadMapping, ∃ found,
                    lib.search item.2 value = .ok found) ∧ env.create.Commits db) := by
            refine ⟨fun h => h webhook hfound hactive, fun h w hw _ => ?_⟩
            obtain rfl := Option.some.inj (hfound.symm.trans hw)
            exact h
          rw [hanswerable]
          rcases verifySignature_cases hhex webhook.secret call.body (call.signature.getD "") with
            ⟨hascii, hverified⟩ | ⟨hascii, exc, hverified⟩
          · by_cases hsigned : call.signature.getD "" =
                expectedSignature lib webhook.secret call.body
            · rw [hsigned, decide_eq_true rfl] at hverified
              rw [answered_signed hconfig hquery hlookup hrefresh hfound hactive
                (hworkflow webhook hfound) hsigned (hsigned ▸ hverified)]
              exact ⟨fun h => ⟨hascii, fun _ => h⟩, fun h => h.2 hsigned⟩
            · rw [decide_eq_false (Ne.symm hsigned)] at hverified
              refine iff_of_true ?_ ⟨hascii, fun h => absurd h hsigned⟩
              rw [answered_active hfound hactive, if_pos hsigned,
                triggerWebhookRoute_active hquery hconfig hfound hactive, hverified]
              exact ⟨_, rfl⟩
          · refine iff_of_false ?_ fun h => hascii h.1
            rw [triggerWebhookRoute_active hquery hconfig hfound hactive, hverified]
            exact not_answered_internalServerError hfound hactive db

-- The empty object under its signature.
theorem triggerWebhookRoute_answered_emptyObject :
    WebhookCall.Answered emptyObjectLibraries
      ⟨9, some (expectedSignature emptyObjectLibraries "whsec" [123, 125]), [123, 125]⟩
      policyDatabase
      (triggerWebhookRoute emptyObjectLibraries answeringDatabase
        ⟨9, some (expectedSignature emptyObjectLibraries "whsec" [123, 125]), [123, 125]⟩
        policyDatabase) := by
  refine (triggerWebhookRoute_answered_iff emptyObjectLibraries emptyObjectLibraries_hexDigits
    answeringDatabase rfl rfl rfl rfl _ policyDatabase fun webhook hfound => ?_).mpr ?_
  · cases hfound
    exact ⟨_, List.mem_singleton_self _, rfl, rfl⟩
  · intro webhook hfound _
    cases hfound
    exact ⟨expectedSignature_ascii emptyObjectLibraries_hexDigits _ _,
      fun _ => ⟨.obj [], rfl, fun _ _ => ⟨.null, rfl⟩, List.not_mem_nil, rfl⟩⟩

end ConstructorPlatform
