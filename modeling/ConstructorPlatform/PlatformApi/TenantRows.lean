import ConstructorPlatform.PlatformApi.Requests

/-!
# TenantRows — executions and webhooks point to definitions

Every row of `process_executions` belongs to the tenant of its definition, however the request that
stored it found the tenant: `Api.Reached.executionsInTenant`.  For `webhook_configs` the same needs
that nobody names a workflow of another tenant when creating a webhook, since `create_webhook` does
not look: `Api.run_webhooksInTenant_iff`.
-/

namespace ConstructorPlatform

open Reasoning

/-! ## 1. The keys -/

/-- Definitions have distinct ids, and the workflow of a webhook exists. -/
structure Database.Keyed (db : Database) : Prop where
  definitions : (db.definitions.map ProcessDefinitionRow.id).Nodup
  ofWebhook : ∀ w ∈ db.webhooks, ∃ d ∈ db.definitions, d.id = w.workflowId

theorem Database.Keyed.definition_unique {db : Database} (h : db.Keyed)
    {d d' : ProcessDefinitionRow} (hd : d ∈ db.definitions) (hd' : d' ∈ db.definitions)
    (hid : d.id = d'.id) : d = d' :=
  List.inj_on_of_nodup_map h.definitions hd hd' hid

theorem getProcess_some {db : Database} {id : UUID} {d : ProcessDefinitionRow}
    (h : getProcess db id = some d) : d ∈ db.definitions ∧ d.id = id := by
  have hid := List.find?_some h
  exact ⟨List.mem_of_find?_eq_some h, by simpa using hid⟩

/-- The two columns of a webhook that are never written again. -/
def WebhookConfigRow.target (w : WebhookConfigRow) : UUID × UUID := (w.workflowId, w.tenantId)

theorem changeWebhook_targets {f : WebhookConfigRow → WebhookConfigRow}
    (hf : ∀ w, (f w).target = w.target) (webhookId : UUID) (db : Database) :
    (db.changeWebhook webhookId f).webhooks.map WebhookConfigRow.target =
      db.webhooks.map WebhookConfigRow.target := by
  rw [Database.changeWebhook, List.map_map]
  apply List.map_congr_left
  intro w _
  rw [Function.comp, WebhookConfigRow.change]
  split
  · exact hf w
  · rfl

/-- The tables only grow, and a webhook's target stays. -/
theorem Change.targets {db db' : Database} {written : Option WebhookWrite}
    (h : Change db written db') :
    db.definitions ⊆ db'.definitions ∧ db'.users = db.users ∧
      (db'.webhooks.map WebhookConfigRow.target =
          db.webhooks.map WebhookConfigRow.target ++
            (match written with
              | some (.insert row) => [row.target]
              | _ => [])) := by
  cases h with
  | nothing => exact ⟨List.Subset.refl _, rfl, (List.append_nil _).symm⟩
  | definition row fresh =>
      exact ⟨List.subset_append_left _ _, rfl, (List.append_nil _).symm⟩
  | execution row admits => exact ⟨List.Subset.refl _, rfl, (List.append_nil _).symm⟩
  | webhook row admits active => exact ⟨List.Subset.refl _, rfl, List.map_append⟩
  | secret row found secret =>
      refine ⟨List.Subset.refl _, rfl, ?_⟩
      rw [List.append_nil]
      refine changeWebhook_targets ?_ row.id db
      exact fun _ => rfl
  | inactive row found =>
      refine ⟨List.Subset.refl _, rfl, ?_⟩
      rw [List.append_nil]
      refine changeWebhook_targets ?_ row.id db
      exact fun _ => rfl

/-! ## 2. The invariants of the runs -/

theorem Database.Keyed.change {db db' : Database} {written : Option WebhookWrite}
    (h : Change db written db') (hkeyed : db.Keyed) : db'.Keyed := by
  refine ⟨?_, fun w hw => ?_⟩
  · cases h with
    | definition row fresh =>
        rw [Database.insertDefinition, List.map_append, List.map_singleton, List.nodup_append]
        refine ⟨hkeyed.definitions, List.nodup_singleton _, ?_⟩
        rintro id hid _ hrow rfl
        rw [List.mem_singleton] at hrow
        exact fresh (hrow ▸ hid)
    | nothing => exact hkeyed.definitions
    | execution row admits => exact hkeyed.definitions
    | webhook row admits active => exact hkeyed.definitions
    | secret row found secret => exact hkeyed.definitions
    | inactive row found => exact hkeyed.definitions
  · obtain ⟨hgrow, -, htargets⟩ := h.targets
    have hmem : w.target ∈ db'.webhooks.map WebhookConfigRow.target := List.mem_map_of_mem hw
    rw [htargets, List.mem_append] at hmem
    rcases hmem with hold | hnew
    · obtain ⟨w₀, hw₀, hsame⟩ := List.mem_map.mp hold
      obtain ⟨d, hd, hid⟩ := hkeyed.ofWebhook w₀ hw₀
      exact ⟨d, hgrow hd, hid.trans (congrArg Prod.fst hsame)⟩
    · cases h with
      | webhook row admits active =>
          rw [List.mem_singleton] at hnew
          simp only [Database.admitsWebhook, Bool.and_eq_true] at admits
          obtain ⟨d, hfound⟩ := Option.isSome_iff_exists.mp admits.2
          obtain ⟨hd, hid⟩ := getProcess_some hfound
          exact ⟨d, hgrow hd, hid.trans (congrArg Prod.fst hnew).symm⟩
      | nothing => cases hnew
      | definition row fresh => cases hnew
      | execution row admits => cases hnew
      | secret row found secret => cases hnew
      | inactive row found => cases hnew

theorem Database.AdmitsExecution.change {db db' : Database} {written : Option WebhookWrite}
    {row : ExecutionRow} (h : Change db written db') (hrow : db.AdmitsExecution row) :
    db'.AdmitsExecution row := by
  obtain ⟨hgrow, husers, -⟩ := h.targets
  obtain ⟨d, hd, hsame⟩ := hrow.definition
  exact ⟨⟨d, hgrow hd, hsame⟩, husers ▸ hrow.user⟩

/-- The keys hold, and every execution was admitted. -/
structure Database.Sound (db : Database) : Prop where
  keyed : db.Keyed
  executions : ∀ e ∈ db.executions, db.AdmitsExecution e

theorem Database.Sound.change {db db' : Database} {written : Option WebhookWrite}
    (h : Change db written db') (hsound : db.Sound) : db'.Sound := by
  refine ⟨hsound.keyed.change h, fun e he => ?_⟩
  have hold : e ∈ db.executions → db'.AdmitsExecution e :=
    fun he => (hsound.executions e he).change h
  cases h with
  | execution row admits =>
      rcases List.mem_append.mp he with he | he
      · exact hold he
      · rw [List.mem_singleton] at he
        subst he
        exact admits.change (.execution e admits)
  | nothing => exact hold he
  | definition row fresh => exact hold he
  | webhook row admits active => exact hold he
  | secret row found secret => exact hold he
  | inactive row found => exact hold he

theorem Api.start_sound (users : List UserRow) : (Api.start users).db.Sound where
  keyed := ⟨List.nodup_nil, fun _ h => nomatch h⟩
  executions := fun _ h => nomatch h

/-! ## 3. Executions -/

/-- Every execution belongs to the tenant of the definition that it points to, and was triggered by
a user of that tenant, if by one. -/
def Database.ExecutionsInTenant (db : Database) : Prop :=
  ∀ e ∈ db.executions,
    (∃ d ∈ db.definitions, d.id = e.processDefinitionId) ∧
    (∀ d ∈ db.definitions, d.id = e.processDefinitionId → d.tenantId = e.tenantId) ∧
    ∀ userId, e.triggeredBy = some userId → ∃ u ∈ db.users, u.id = userId ∧ u.tenantId = e.tenantId

theorem Database.Sound.tenants {db : Database} (h : db.Sound) :
    db.ExecutionsInTenant := by
  intro e he
  obtain ⟨⟨d, hd, hid, htenant⟩, huser⟩ := h.executions e he
  refine ⟨⟨d, hd, hid⟩, fun d' hd' hid' => ?_, huser⟩
  have hsame := h.keyed.definition_unique hd' hd (hid'.trans hid.symm)
  exact hsame ▸ htenant

/-- Executions stay inside a tenant, in every state that requests lead to. -/
theorem Api.Reached.executionsInTenant {d : Deployment} {users : List UserRow} {s : Api}
    (h : Api.Reached d users s) : s.db.users = users ∧ s.db.ExecutionsInTenant := by
  have hinv : s.db.users = users ∧ s.db.Sound := by
    refine h.invariant (I := fun s => s.db.users = users ∧ s.db.Sound)
      ⟨rfl, Api.start_sound users⟩ ?_
    rintro s request s' - - hserve ⟨husers, hsound⟩
    obtain ⟨_, _, -, -, -, hchange⟩ := Api.serve_change hserve
    exact ⟨hchange.targets.2.1.trans husers, hsound.change hchange⟩
  exact ⟨hinv.1, hinv.2.tenants⟩

/-! Users of two tenants, a workflow of the first, and what they do with it. -/

def firstDigest : String := "c650f0e8ff80574585d58cb93d98410aaf72101d351ea7b350adee06f6589917"

def secondDigest : String := "817064e9d7aab122989da689e22ea343c7f5d75742f7c0f17330fb5e664debc7"

/-- Packages that give the digests of the empty body under two secrets and find nothing in any
body. -/
def plainLibraries : WebhookLibraries where
  hexdigest secret _ := if secret = "0dd5ec" then secondDigest else firstDigest
  loads _ := .ok (.obj [])
  search _ _ := .ok .null

def plainDeployment : Deployment := ⟨plainLibraries, "internal"⟩

def twoTenants : List UserRow :=
  [⟨11, 1, "ana@first.example", true⟩, ⟨22, 2, "bo@second.example", true⟩]

def developerOf (userId tenantId : UUID) : Credentials :=
  some (.ok ⟨userId, tenantId, ["developer"]⟩)

def healthySession : SessionEnv := ⟨.ok (), .ok ()⟩

def healthyCreate (executionId : UUID) : CreateEnv := ⟨.ok (), .ok, .ok (), executionId, 0⟩

def healthyWebhook (webhookId : UUID) (secret : String) : WebhookEnv :=
  ⟨.ok (), webhookId, 0, secret, .ok, .ok ()⟩

/-- `POST /workflows` by the user of the first tenant. -/
def createNightly : Request :=
  .createWorkflow healthySession ⟨100, 0, .ok (), .ok⟩ (developerOf 11 1)
    { steps := [⟨"tell", "notify", [], .none, 60⟩], accepted := by decide, name := "nightly",
      trigger := [("type", .str "webhook")], onError := "stop", validOnError := by decide }

/-- `POST /webhooks` by a user, for the workflow of the first tenant. -/
def createNightlyWebhook (userId tenantId : UUID) : Request :=
  .createWebhook healthySession (healthyWebhook 300 "5ec7e7") (developerOf userId tenantId)
    ⟨100, "nightly", []⟩

def signedCall : WebhookCall := ⟨300, some ("sha256=" ++ firstDigest), []⟩

def ownRequests : List Request :=
  [createNightly, .triggerExecution healthySession (healthyCreate 200) (developerOf 11 1) ⟨100, []⟩,
    createNightlyWebhook 11 1, .triggerWebhook ⟨.ok (), .ok (), healthyCreate 201⟩ signedCall]

theorem executionsInTenant_ownRequests :
    ∃ s, runActions (Api.serve plainDeployment) (Api.start twoTenants) ownRequests = some s ∧
      s.db.executions.map ExecutionRow.id = [200, 201] ∧ s.db.ExecutionsInTenant := by
  obtain ⟨s, hrun, hids⟩ : ∃ s,
      runActions (Api.serve plainDeployment) (Api.start twoTenants) ownRequests = some s ∧
        s.db.executions.map ExecutionRow.id = [200, 201] := ⟨_, rfl, by decide +kernel⟩
  exact ⟨s, hrun, hids,
    (Api.Reached.executionsInTenant (.of_run .start (fun _ _ _ => trivial) hrun)).2⟩

/-! ## 4. Webhooks -/

/-- Every webhook points to a definition of its own tenant. -/
def Database.WebhooksInTenant (db : Database) : Prop :=
  ∀ w ∈ db.webhooks, ∃ definition ∈ db.definitions,
    definition.id = w.workflowId ∧ definition.tenantId = w.tenantId

/-- The webhooks do, and the trigger handler never reads the id of `None`. -/
structure Api.WebhooksInTenant (d : Deployment) (s : Api) : Prop where
  rows : s.db.WebhooksInTenant
  reads : ∀ env call, (triggerCreates d.lib env call s.db).1 ≠ .ok (.ok none)

def foreignRequests : List Request := [createNightly, createNightlyWebhook 22 2]

theorem not_webhooksInTenant_foreignRequests :
    ∃ s, runActions (Api.serve plainDeployment) (Api.start twoTenants) foreignRequests = some s ∧
      ¬ s.WebhooksInTenant plainDeployment := by
  refine ⟨_, rfl, fun h => ?_⟩
  exact h.reads ⟨.ok (), .ok (), healthyCreate 200⟩ signedCall (by rfl)

-- `create_execution` finds the workflow of a webhook in the tenant of the webhook.
theorem triggerCreates_ne_none {lib : WebhookLibraries} {env : TriggerEnv} {call : WebhookCall}
    {db : Database} (h : db.WebhooksInTenant) :
    (triggerCreates lib env call db).1 ≠ .ok (.ok none) := by
  rcases triggerCreates_cases lib env call db with
    ⟨e, hreached⟩ | ⟨webhook, context, hfound, -, -, hreached⟩
  · rw [hreached]
    exact fun h => nomatch h
  · rw [hreached]
    have hworkflow := h webhook (List.mem_of_find?_eq_some hfound)
    obtain ⟨found, hfound⟩ := find_definition_of_mem hworkflow
    unfold createExecution
    simp only [hfound]
    split
    · exact fun h => nomatch h
    · split
      · exact fun h => nomatch h
      · split <;> exact fun h => nomatch h

/-- A `POST /webhooks` that is stored names a workflow of the caller's tenant. -/
def Api.NamesOwnWorkflow (s : Api) : Request → Prop
  | .createWebhook session env credentials body =>
      ∀ user, authorize .workflowCreate session s.db.users credentials = .ok user →
        s.db.admitsWebhook (newWebhook env body user.tenantId) = true →
        env.commit.carriedOut = true →
        ∀ definition, getProcess s.db body.workflowId = some definition →
          definition.tenantId = user.tenantId
  | _ => True

theorem createWebhookRoute_stores {session : SessionEnv} {env : WebhookEnv}
    {credentials : Credentials} {body : WebhookConfigCreate} {db : Database} {user : CurrentUser}
    (huser : authorize .workflowCreate session db.users credentials = .ok user)
    (hadmits : db.admitsWebhook (newWebhook env body user.tenantId) = true)
    (hcommit : env.commit.carriedOut = true) :
    (createWebhookRoute session env credentials body db).2 =
      some (.insert (newWebhook env body user.tenantId)) := by
  unfold createWebhookRoute createWebhook
  simp only [huser, if_pos hadmits, WebhookEnv.committed, if_pos hcommit]
  split <;> rfl

theorem handle_insert {d : Deployment} {db : Database} {request : Request} {row : WebhookConfigRow}
    (h : (handle d db request).written = some (.insert row)) :
    ∃ session env credentials body user,
      request = .createWebhook session env credentials body ∧
      authorize .workflowCreate session db.users credentials = .ok user ∧
      db.admitsWebhook (newWebhook env body user.tenantId) = true ∧
      env.commit.carriedOut = true ∧ row = newWebhook env body user.tenantId := by
  cases request with
  | createWebhook session env credentials body =>
      obtain ⟨user, huser, hadmits, hcommit, hwrite⟩ := createWebhookRoute_write h
      cases hwrite
      exact ⟨session, env, credentials, body, user, rfl, huser, hadmits, hcommit, rfl⟩
  | deleteWebhook session env credentials webhookId =>
      obtain ⟨_, _, -, -, -, -, hwrite⟩ := deleteWebhookRoute_write h
      cases hwrite
  | rotateWebhook session env credentials webhookId =>
      obtain ⟨_, _, -, -, -, -, hwrite⟩ := rotateWebhookRoute_write h
      cases hwrite
  | createWorkflow session env credentials body => cases h
  | triggerExecution session env credentials body => cases h
  | triggerWebhook env call => cases h
  | internalTrigger env header body => cases h

-- The condition is about the row that the request stores.
theorem Api.namesOwnWorkflow_iff (d : Deployment) {s : Api} (hkeyed : s.db.Keyed)
    (request : Request) :
    s.NamesOwnWorkflow request ↔ ∀ row, (handle d s.db request).written = some (.insert row) →
      ∃ definition ∈ s.db.definitions,
        definition.id = row.workflowId ∧ definition.tenantId = row.tenantId := by
  constructor
  · intro h row hwritten
    obtain ⟨session, env, credentials, body, user, rfl, huser, hadmits, hcommit, rfl⟩ :=
      handle_insert hwritten
    have hfound := hadmits
    simp only [Database.admitsWebhook, Bool.and_eq_true] at hfound
    obtain ⟨definition, hfound⟩ := Option.isSome_iff_exists.mp hfound.2
    obtain ⟨hdefinition, hid⟩ := getProcess_some hfound
    exact ⟨definition, hdefinition, hid, h user huser hadmits hcommit definition hfound⟩
  · intro h
    cases request with
    | createWebhook session env credentials body =>
        intro user huser hadmits hcommit definition hfound
        obtain ⟨hdefinition, hid⟩ := getProcess_some hfound
        obtain ⟨own, hown, hownId, htenant⟩ :=
          h _ (createWebhookRoute_stores huser hadmits hcommit)
        rw [hkeyed.definition_unique hdefinition hown (hid.trans hownId.symm)]
        exact htenant
    | deleteWebhook session env credentials webhookId => trivial
    | rotateWebhook session env credentials webhookId => trivial
    | createWorkflow session env credentials body => trivial
    | triggerExecution session env credentials body => trivial
    | triggerWebhook env call => trivial
    | internalTrigger env header body => trivial

theorem Database.webhooksInTenant_iff (db : Database) :
    db.WebhooksInTenant ↔ ∀ target ∈ db.webhooks.map WebhookConfigRow.target,
      ∃ definition ∈ db.definitions, definition.id = target.1 ∧ definition.tenantId = target.2 := by
  rw [List.forall_mem_map]
  exact Iff.rfl

-- Rows that are there already are not repaired: the definition they point to stays the same.
theorem Change.webhooksInTenant {db db' : Database} {written : Option WebhookWrite}
    (h : Change db written db') (hkeyed : db.Keyed) (hown : db'.WebhooksInTenant) :
    db.WebhooksInTenant := by
  obtain ⟨hgrow, -, htargets⟩ := h.targets
  intro w hw
  obtain ⟨definition, hdefinition, hid⟩ := hkeyed.ofWebhook w hw
  have hmem : w.target ∈ db'.webhooks.map WebhookConfigRow.target := by
    rw [htargets]
    exact List.mem_append_left _ (List.mem_map_of_mem hw)
  obtain ⟨own, howned, hownId, htenant⟩ := (db'.webhooksInTenant_iff).mp hown _ hmem
  have hsame := (hkeyed.change h).definition_unique (hgrow hdefinition) howned
    (hid.trans hownId.symm)
  exact ⟨definition, hdefinition, hid, hsame ▸ htenant⟩

/-- A change leaves the webhooks in their tenants when the row that it inserts is in its own. -/
theorem Change.webhooksInTenant_iff {db db' : Database} {written : Option WebhookWrite}
    (h : Change db written db') (hown : db.WebhooksInTenant) :
    db'.WebhooksInTenant ↔ ∀ row, written = some (.insert row) →
      ∃ definition ∈ db.definitions,
        definition.id = row.workflowId ∧ definition.tenantId = row.tenantId := by
  obtain ⟨hgrow, -, htargets⟩ := h.targets
  have hkept : ∀ target ∈ db.webhooks.map WebhookConfigRow.target,
      ∃ definition ∈ db'.definitions,
        definition.id = target.1 ∧ definition.tenantId = target.2 := by
    intro target htarget
    obtain ⟨definition, hdefinition, hsame⟩ := (db.webhooksInTenant_iff).mp hown target htarget
    exact ⟨definition, hgrow hdefinition, hsame⟩
  rw [db'.webhooksInTenant_iff, htargets, List.forall_mem_append]
  cases h with
  | webhook row admits active =>
      simp only [List.mem_singleton, forall_eq, Option.some.injEq, WebhookWrite.insert.injEq,
        forall_eq']
      exact ⟨fun h => h.2, fun h => ⟨hkept, h⟩⟩
  | nothing => exact iff_of_true ⟨hkept, fun _ h => nomatch h⟩ fun _ h => nomatch h
  | definition row fresh => exact iff_of_true ⟨hkept, fun _ h => nomatch h⟩ fun _ h => nomatch h
  | execution row admits => exact iff_of_true ⟨hkept, fun _ h => nomatch h⟩ fun _ h => nomatch h
  | secret row found secret =>
      exact iff_of_true ⟨hkept, fun _ h => nomatch h⟩ fun _ h => nomatch h
  | inactive row found => exact iff_of_true ⟨hkept, fun _ h => nomatch h⟩ fun _ h => nomatch h

/-- Webhooks stay in their tenants exactly when every webhook that is stored names a workflow of
its creator's tenant. -/
theorem Api.run_webhooksInTenant_iff {d : Deployment} {users : List UserRow}
    {requests : List Request} {s : Api}
    (hrun : runActions (Api.serve d) (Api.start users) requests = some s) :
    s.WebhooksInTenant d ↔
      EachAllowed (Api.serve d) Api.NamesOwnWorkflow (Api.start users) requests := by
  have hrows : s.WebhooksInTenant d ↔ s.db.WebhooksInTenant :=
    ⟨fun h => h.rows, fun h => ⟨h, fun _ _ => triggerCreates_ne_none h⟩⟩
  rw [hrows]
  refine runActions_exact (J := fun s => s.db.Keyed) (I := fun _ => True)
    (P := fun s => s.db.WebhooksInTenant) ?_ ?_ ?_ ?_ (Api.start_sound users).keyed trivial
    (fun _ h => nomatch h) hrun
  · intro s request s' hkeyed hserve
    obtain ⟨_, _, -, -, -, hchange⟩ := Api.serve_change hserve
    exact hkeyed.change hchange
  · intro s request s' hkeyed hserve hown
    obtain ⟨_, _, -, -, -, hchange⟩ := Api.serve_change hserve
    exact hchange.webhooksInTenant hkeyed hown
  · exact fun _ _ _ _ _ _ _ _ => trivial
  · intro s request s' hkeyed _ hown hserve
    obtain ⟨_, _, -, -, rfl, hchange⟩ := Api.serve_change hserve
    rw [hchange.webhooksInTenant_iff hown, Api.namesOwnWorkflow_iff d hkeyed]

theorem run_webhooksInTenant_ownRequests :
    ∃ s, runActions (Api.serve plainDeployment) (Api.start twoTenants) ownRequests = some s ∧
      (s.WebhooksInTenant plainDeployment ↔
        EachAllowed (Api.serve plainDeployment) Api.NamesOwnWorkflow (Api.start twoTenants)
          ownRequests) ∧
      (s.db.webhooks.map WebhookConfigRow.workflowId = [100]) :=
  ⟨_, rfl, Api.run_webhooksInTenant_iff rfl, by decide +kernel⟩

end ConstructorPlatform
