import ConstructorPlatform.PlatformApi.TenantRows

/-!
# WebhookAuthority — who can start an execution through a webhook

The row of a webhook holds the secret of the last create or rotate that was committed for it, and is
active until a delete is committed: `Api.Linked` ties the rows to the requests that were served.  A
trigger stores an execution only for an active webhook and a signature under that secret.
-/

namespace ConstructorPlatform

open Reasoning

/-! ## 1. What the served requests say of a webhook -/

/-- The secret that a change gives a webhook. -/
def WebhookWrite.secretFor (webhookId : UUID) : WebhookWrite → Option String
  | .insert row => if row.id = webhookId then some row.secret else none
  | .secret id newSecret => if id = webhookId then some newSecret else none
  | .inactive _ => none

/-- The secret that a create or rotate has given a webhook. -/
def Served.secretFor (webhookId : UUID) (x : Served) : Option String :=
  x.written.bind (WebhookWrite.secretFor webhookId)

/-- A delete of the webhook that was committed. -/
def Served.Deactivates (webhookId : UUID) (x : Served) : Prop :=
  x.written = some (.inactive webhookId)

/-- The secret of a webhook that the answer to a create or rotate shows. -/
def Served.returned (webhookId : UUID) (x : Served) : Option String :=
  match x.response with
  | .ok (.webhook read secret) => if read.id = webhookId then some secret else none
  | _ => none

/-- The secrets that a webhook has been given, oldest first. -/
def Api.secrets (webhookId : UUID) (s : Api) : List String :=
  s.served.filterMap (Served.secretFor webhookId)

/-! ## 2. The rows and the requests -/

theorem change_id (webhookId : UUID) {f : WebhookConfigRow → WebhookConfigRow}
    (hf : ∀ w, (f w).id = w.id) (w : WebhookConfigRow) : (w.change webhookId f).id = w.id := by
  rw [WebhookConfigRow.change]
  split
  · exact hf w
  · rfl

theorem changeWebhook_ids (webhookId : UUID) {f : WebhookConfigRow → WebhookConfigRow}
    (hf : ∀ w, (f w).id = w.id) (db : Database) :
    (db.changeWebhook webhookId f).webhooks.map WebhookConfigRow.id =
      db.webhooks.map WebhookConfigRow.id := by
  rw [Database.changeWebhook, List.map_map]
  exact List.map_congr_left fun w _ => change_id webhookId hf w

-- A row after a change of one row.
theorem mem_changeWebhook {webhookId : UUID} {f : WebhookConfigRow → WebhookConfigRow}
    {db : Database} {row : WebhookConfigRow}
    (h : row ∈ (db.changeWebhook webhookId f).webhooks) :
    (∃ old ∈ db.webhooks, old.id = webhookId ∧ row = f old) ∨
      (row ∈ db.webhooks ∧ row.id ≠ webhookId) := by
  obtain ⟨old, hold, rfl⟩ := List.mem_map.mp h
  by_cases hid : old.id = webhookId
  · exact .inl ⟨old, hold, hid, if_pos hid⟩
  · have hsame : old.change webhookId f = old := if_neg hid
    rw [hsame]
    exact .inr ⟨hold, hid⟩

/-- Every row holds the last secret that its webhook was given, and a webhook that was deactivated
is there and not active. -/
structure Api.Linked (s : Api) : Prop where
  distinct : (s.db.webhooks.map WebhookConfigRow.id).Nodup
  secret : ∀ row ∈ s.db.webhooks, (s.secrets row.id).getLast? = some row.secret
  active : ∀ row ∈ s.db.webhooks, row.isActive = true → ∀ x ∈ s.served, ¬ x.Deactivates row.id
  known : ∀ x ∈ s.served, ∀ webhookId, x.Deactivates webhookId →
    webhookId ∈ s.db.webhooks.map WebhookConfigRow.id

theorem secrets_append (webhookId : UUID) (served : List Served) (x : Served) :
    (served ++ [x]).filterMap (Served.secretFor webhookId) =
      served.filterMap (Served.secretFor webhookId) ++ (x.secretFor webhookId).toList := by
  rw [List.filterMap_append]
  congr 1

-- A request that changes no row of a webhook.
theorem Api.Linked.unwritten {s s' : Api} {x : Served} (h : s.Linked)
    (hserved : s'.served = s.served ++ [x]) (hwritten : x.written = none)
    (hrows : s'.db.webhooks = s.db.webhooks) : s'.Linked := by
  have hsecret : ∀ webhookId, x.secretFor webhookId = none := by
    intro webhookId
    rw [Served.secretFor, hwritten]
    rfl
  have hnot : ∀ webhookId, ¬ x.Deactivates webhookId := by
    intro webhookId hx
    exact nomatch hwritten.symm.trans hx
  refine ⟨?_, fun row hrow => ?_, fun row hrow hactive y hy => ?_, fun y hy webhookId hw => ?_⟩
  · rw [hrows]
    exact h.distinct
  · rw [hrows] at hrow
    rw [Api.secrets, hserved, secrets_append, hsecret, Option.toList_none, List.append_nil]
    exact h.secret row hrow
  · rw [hrows] at hrow
    rw [hserved] at hy
    rcases List.mem_append.mp hy with hy | hy
    · exact h.active row hrow hactive y hy
    · exact List.mem_singleton.mp hy ▸ hnot row.id
  · rw [hserved] at hy
    rw [hrows]
    rcases List.mem_append.mp hy with hy | hy
    · exact h.known y hy webhookId hw
    · exact absurd hw (List.mem_singleton.mp hy ▸ hnot webhookId)

theorem Api.Linked.inserted {s s' : Api} {x : Served} (h : s.Linked)
    (hserved : s'.served = s.served ++ [x]) {row : WebhookConfigRow}
    (hwritten : x.written = some (.insert row))
    (hfresh : row.id ∉ s.db.webhooks.map WebhookConfigRow.id)
    (hrows : s'.db.webhooks = s.db.webhooks ++ [row]) : s'.Linked := by
  have hnot : ∀ webhookId, ¬ x.Deactivates webhookId := by
    intro webhookId hx
    exact nomatch hwritten.symm.trans hx
  have hsecret : ∀ webhookId, x.secretFor webhookId =
      if row.id = webhookId then some row.secret else none := by
    intro webhookId
    rw [Served.secretFor, hwritten]
    rfl
  have hold : ∀ y ∈ s'.served, ∀ webhookId, y.Deactivates webhookId → y ∈ s.served := by
    intro y hy webhookId hw
    rw [hserved] at hy
    rcases List.mem_append.mp hy with hy | hy
    · exact hy
    · exact absurd hw (List.mem_singleton.mp hy ▸ hnot webhookId)
  refine ⟨?_, fun r hr => ?_, fun r hr hactive y hy hw => ?_, fun y hy webhookId hw => ?_⟩
  · rw [hrows, List.map_append, List.map_singleton, List.nodup_append]
    refine ⟨h.distinct, List.nodup_singleton _, ?_⟩
    rintro id hid _ hnew rfl
    rw [List.mem_singleton] at hnew
    exact hfresh (hnew ▸ hid)
  · rw [Api.secrets, hserved, secrets_append, hsecret]
    rw [hrows] at hr
    rcases List.mem_append.mp hr with hr | hr
    · have hne : row.id ≠ r.id := fun hid => hfresh (hid ▸ List.mem_map_of_mem hr)
      rw [if_neg hne, Option.toList_none, List.append_nil]
      exact h.secret r hr
    · rw [List.mem_singleton.mp hr, if_pos rfl, Option.toList_some, List.getLast?_concat]
  · have hmem := hold y hy r.id hw
    rw [hrows] at hr
    rcases List.mem_append.mp hr with hr | hr
    · exact h.active r hr hactive y hmem hw
    · rw [List.mem_singleton.mp hr] at hw
      exact hfresh (h.known y hmem row.id hw)
  · rw [hrows, List.map_append]
    exact List.mem_append_left _ (h.known y (hold y hy webhookId hw) webhookId hw)

theorem Api.Linked.rotated {s s' : Api} {x : Served} (h : s.Linked)
    (hserved : s'.served = s.served ++ [x]) {webhookId : UUID} {secret : String}
    (hwritten : x.written = some (.secret webhookId secret))
    (hdb : s'.db = s.db.writeWebhook (.secret webhookId secret)) : s'.Linked := by
  have hnot : ∀ id, ¬ x.Deactivates id := by
    intro id hx
    exact nomatch hwritten.symm.trans hx
  have hsecret : ∀ id, x.secretFor id = if webhookId = id then some secret else none := by
    intro id
    rw [Served.secretFor, hwritten]
    rfl
  have hold : ∀ y ∈ s'.served, ∀ id, y.Deactivates id → y ∈ s.served := by
    intro y hy id hw
    rw [hserved] at hy
    rcases List.mem_append.mp hy with hy | hy
    · exact hy
    · exact absurd hw (List.mem_singleton.mp hy ▸ hnot id)
  have hids : s'.db.webhooks.map WebhookConfigRow.id = s.db.webhooks.map WebhookConfigRow.id := by
    rw [hdb]
    refine changeWebhook_ids webhookId ?_ s.db
    exact fun _ => rfl
  refine ⟨hids ▸ h.distinct, fun r hr => ?_, fun r hr hactive y hy hw => ?_,
    fun y hy id hw => hids ▸ h.known y (hold y hy id hw) id hw⟩
  · rw [Api.secrets, hserved, secrets_append, hsecret]
    rw [hdb] at hr
    rcases mem_changeWebhook hr with ⟨old, -, hid, rfl⟩ | ⟨hr, hid⟩
    · rw [if_pos hid.symm, Option.toList_some, List.getLast?_concat]
    · rw [if_neg (Ne.symm hid), Option.toList_none, List.append_nil]
      exact h.secret r hr
  · have hmem := hold y hy r.id hw
    rw [hdb] at hr
    rcases mem_changeWebhook hr with ⟨old, hold, -, rfl⟩ | ⟨hr, -⟩
    · exact h.active old hold hactive y hmem hw
    · exact h.active r hr hactive y hmem hw

theorem Api.Linked.deactivated {s s' : Api} {x : Served} (h : s.Linked)
    (hserved : s'.served = s.served ++ [x]) {webhookId : UUID}
    (hwritten : x.written = some (.inactive webhookId))
    (hfound : webhookId ∈ s.db.webhooks.map WebhookConfigRow.id)
    (hdb : s'.db = s.db.writeWebhook (.inactive webhookId)) : s'.Linked := by
  have honly : ∀ id, x.Deactivates id → id = webhookId := by
    intro id hx
    cases hwritten.symm.trans hx
    rfl
  have hsecret : ∀ id, x.secretFor id = none := by
    intro id
    rw [Served.secretFor, hwritten]
    rfl
  have hids : s'.db.webhooks.map WebhookConfigRow.id = s.db.webhooks.map WebhookConfigRow.id := by
    rw [hdb]
    refine changeWebhook_ids webhookId ?_ s.db
    exact fun _ => rfl
  refine ⟨hids ▸ h.distinct, fun r hr => ?_, fun r hr hactive y hy hw => ?_, fun y hy id hw => ?_⟩
  · rw [Api.secrets, hserved, secrets_append, hsecret, Option.toList_none, List.append_nil]
    rw [hdb] at hr
    rcases mem_changeWebhook hr with ⟨old, hold, -, rfl⟩ | ⟨hr, -⟩
    · exact h.secret old hold
    · exact h.secret r hr
  · rw [hdb] at hr
    rcases mem_changeWebhook hr with ⟨old, -, -, rfl⟩ | ⟨hr, hid⟩
    · cases hactive
    · rw [hserved] at hy
      rcases List.mem_append.mp hy with hy | hy
      · exact h.active r hr hactive y hy hw
      · exact hid (honly r.id (List.mem_singleton.mp hy ▸ hw))
  · rw [hids]
    rw [hserved] at hy
    rcases List.mem_append.mp hy with hy | hy
    · exact h.known y hy id hw
    · rw [honly id (List.mem_singleton.mp hy ▸ hw)]
      exact hfound

theorem Api.serve_linked {d : Deployment} {s s' : Api} {request : Request} (h : s.Linked)
    (hserve : s.serve d request = some s') : s'.Linked := by
  obtain ⟨response, written, hserved, -, -, hchange⟩ := Api.serve_change hserve
  generalize hdb : s'.db = db' at hchange
  cases hchange with
  | nothing => exact h.unwritten hserved rfl (by rw [hdb])
  | definition row fresh => exact h.unwritten hserved rfl (by rw [hdb]; rfl)
  | execution row admits => exact h.unwritten hserved rfl (by rw [hdb]; rfl)
  | webhook row admits active =>
      simp only [Database.admitsWebhook, Bool.and_eq_true, decide_eq_true_eq] at admits
      exact h.inserted hserved rfl admits.1 (by rw [hdb]; rfl)
  | secret row found secret => exact h.rotated hserved rfl hdb
  | inactive row found => exact h.deactivated hserved rfl (List.mem_map_of_mem found) hdb

/-! ## 3. The answers -/

-- A response that shows no secret.
theorem returned_eq_none {x : Served} (h : ∀ read secret, x.response ≠ .ok (.webhook read secret))
    (webhookId : UUID) : x.returned webhookId = none := by
  unfold Served.returned
  split
  · rename_i read secret hresponse
    exact absurd hresponse (h read secret)
  · rfl

theorem createWebhookRoute_ok {session : SessionEnv} {env : WebhookEnv} {credentials : Credentials}
    {body : WebhookConfigCreate} {db : Database} {answer : ResponseBody}
    (h : (createWebhookRoute session env credentials body db).1 = .ok answer) :
    ∃ row : WebhookConfigRow, answer = .webhook row.read row.secret ∧
      (createWebhookRoute session env credentials body db).2 = some (.insert row) := by
  unfold createWebhookRoute createWebhook at h ⊢
  split at h
  · cases h
  · rename_i user huser
    by_cases hadmits : db.admitsWebhook (newWebhook env body user.tenantId) = true
    · simp only [if_pos hadmits] at h ⊢
      cases hended : env.commitAndRefresh (newWebhook env body user.tenantId, env.secret) with
      | error exc => simp only [hended] at h; cases h
      | ok value =>
          obtain ⟨rfl, hcommitted⟩ := WebhookEnv.commitAndRefresh_ok hended
            (.insert (newWebhook env body user.tenantId))
          simp only [hended] at h ⊢
          cases h
          exact ⟨_, rfl, hcommitted⟩
    · simp only [if_neg hadmits] at h
      cases h

theorem rotateWebhookRoute_ok {session : SessionEnv} {env : WebhookEnv} {credentials : Credentials}
    {webhookId : UUID} {db : Database} {answer : ResponseBody}
    (h : (rotateWebhookRoute session env credentials webhookId db).1 = .ok answer) :
    ∃ row : WebhookConfigRow, answer = .webhook row.read row.secret ∧
      (rotateWebhookRoute session env credentials webhookId db).2 =
        some (.secret row.id row.secret) := by
  unfold rotateWebhookRoute rotateSecret at h ⊢
  split at h
  · cases h
  · rename_i user huser
    cases hlookup : env.lookup with
    | error exc => simp only [hlookup] at h; cases h
    | ok u =>
        cases hfound : findOwnWebhook db webhookId user.tenantId with
        | none => simp only [hlookup, hfound] at h; cases h
        | some row =>
            simp only [hlookup, hfound] at h ⊢
            cases hended : env.commitAndRefresh
                (some ({ row with secret := env.secret }, env.secret)) with
            | error exc => simp only [hended] at h; cases h
            | ok value =>
                obtain ⟨rfl, hcommitted⟩ := WebhookEnv.commitAndRefresh_ok hended
                  (.secret row.id env.secret)
                simp only [hended] at h ⊢
                cases h
                exact ⟨{ row with secret := env.secret }, rfl, hcommitted⟩

/-- Only a create and a rotate show a secret, or commit one. -/
theorem handle_shows_none (d : Deployment) (db : Database) (request : Request)
    (hcreate : ∀ session env credentials body,
      request ≠ .createWebhook session env credentials body)
    (hrotate : ∀ session env credentials webhookId,
      request ≠ .rotateWebhook session env credentials webhookId) :
    (∀ read secret, (handle d db request).response ≠ .ok (.webhook read secret)) ∧
      ∀ webhookId,
        (handle d db request).written.bind (WebhookWrite.secretFor webhookId) = none := by
  cases request with
  | createWebhook session env credentials body =>
      exact absurd rfl (hcreate session env credentials body)
  | rotateWebhook session env credentials webhookId =>
      exact absurd rfl (hrotate session env credentials webhookId)
  | createWorkflow session env credentials body =>
      refine ⟨fun read secret => ?_, fun _ => rfl⟩
      simp only [handle, Handled.ofDatabase, createWorkflowRoute]
      repeat' split
      all_goals
        intro h
        cases h
  | triggerExecution session env credentials body =>
      refine ⟨fun read secret => ?_, fun _ => rfl⟩
      simp only [handle, Handled.ofDatabase, triggerExecutionRoute]
      repeat' split
      all_goals
        intro h
        cases h
  | triggerWebhook env call =>
      refine ⟨fun read secret => ?_, fun _ => rfl⟩
      simp only [handle, Handled.ofDatabase, triggerWebhookRoute]
      repeat' split
      all_goals
        intro h
        cases h
  | internalTrigger env header body =>
      refine ⟨fun read secret => ?_, fun _ => rfl⟩
      simp only [handle, Handled.ofDatabase]
      generalize (internalTrigger d.internalSecret env header body db).1 = response
      cases response <;>
        intro h <;>
        cases h
  | deleteWebhook session env credentials webhookId =>
      refine ⟨fun read secret => ?_, fun id => ?_⟩
      · simp only [handle, Handled.ofWrite, deleteWebhookRoute]
        repeat' split
        all_goals
          intro h
          cases h
      · simp only [handle, Handled.ofWrite]
        cases hwrite : (deleteWebhookRoute session env credentials webhookId db).2 with
        | none => rfl
        | some write =>
            obtain ⟨_, _, -, -, -, -, rfl⟩ := deleteWebhookRoute_write hwrite
            rfl

/-- The answer to a request, with what it has committed. -/
def Request.served (d : Deployment) (db : Database) (request : Request) : Served :=
  ⟨request, (handle d db request).response, (handle d db request).written⟩

/-- A request that is answered without an error shows the secret that it has committed. -/
theorem served_returned (d : Deployment) (db : Database) (request : Request) (webhookId : UUID)
    (h : (request.served d db).response.isOk = true) :
    (request.served d db).returned webhookId = (request.served d db).secretFor webhookId := by
  by_cases hcreate : ∃ session env credentials body,
      request = .createWebhook session env credentials body
  · obtain ⟨session, env, credentials, body, rfl⟩ := hcreate
    cases hanswer : (createWebhookRoute session env credentials body db).1 with
    | error e =>
        have hfailed : (Request.served d db
          (.createWebhook session env credentials body)).response = .error e := hanswer
        rw [hfailed] at h
        cases h
    | ok answer =>
        obtain ⟨row, rfl, hwritten⟩ := createWebhookRoute_ok hanswer
        simp only [Request.served, handle, Handled.ofWrite, Served.returned, Served.secretFor,
          hanswer, hwritten]
        rfl
  by_cases hrotate : ∃ session env credentials id,
      request = .rotateWebhook session env credentials id
  · obtain ⟨session, env, credentials, id, rfl⟩ := hrotate
    cases hanswer : (rotateWebhookRoute session env credentials id db).1 with
    | error e =>
        have hfailed : (Request.served d db
          (.rotateWebhook session env credentials id)).response = .error e := hanswer
        rw [hfailed] at h
        cases h
    | ok answer =>
        obtain ⟨row, rfl, hwritten⟩ := rotateWebhookRoute_ok hanswer
        simp only [Request.served, handle, Handled.ofWrite, Served.returned, Served.secretFor,
          hanswer, hwritten]
        rfl
  obtain ⟨hresponse, hwritten⟩ := handle_shows_none d db request
    (fun session env credentials body heq => hcreate ⟨session, env, credentials, body, heq⟩)
    (fun session env credentials id heq => hrotate ⟨session, env, credentials, id, heq⟩)
  rw [returned_eq_none hresponse]
  exact (hwritten webhookId).symm

/-! ## 4. The authority of a webhook -/

section Authority

variable {d : Deployment} {s : Api}

theorem Api.Linked.signed (h : s.Linked) {env : TriggerEnv} {call : WebhookCall}
    (hstored : (handle d s.db (.triggerWebhook env call)).db.executions ≠ s.db.executions) :
    (∃ row ∈ s.db.webhooks, row.id = call.webhookId) ∧
      (∀ x ∈ s.served, ¬ x.Deactivates call.webhookId) ∧
      ∃ secret, (s.secrets call.webhookId).getLast? = some secret ∧
        call.signature.getD "" = expectedSignature d.lib secret call.body := by
  have hdb : (handle d s.db (.triggerWebhook env call)).db =
      (triggerCreates d.lib env call s.db).2 := triggerWebhookRoute_database d.lib env call s.db
  rcases triggerCreates_cases d.lib env call s.db with
    ⟨e, hreached⟩ | ⟨webhook, context, hfound, hactive, hsigned, -⟩
  · rw [hdb, hreached] at hstored
    exact absurd rfl hstored
  · have hmem : webhook ∈ s.db.webhooks := List.mem_of_find?_eq_some hfound
    have hid : webhook.id = call.webhookId := by simpa using List.find?_some hfound
    rw [← hid]
    exact ⟨⟨webhook, hmem, rfl⟩, h.active webhook hmem hactive, webhook.secret,
      h.secret webhook hmem, hsigned⟩

-- The last of distinct elements is not among the others.
theorem getLast?_not_mem_dropLast {α : Type} {xs : List α} (h : xs.Nodup) {a : α}
    (ha : xs.getLast? = some a) : a ∉ xs.dropLast := by
  obtain ⟨before, rfl⟩ := List.getLast?_eq_some_iff.mp ha
  rw [List.dropLast_concat]
  intro hmem
  exact (List.nodup_append.mp h).2.2 a hmem a (List.mem_singleton.mpr rfl) rfl

theorem Api.Linked.replaced (h : s.Linked) (env : TriggerEnv) {call : WebhookCall}
    (hdistinct : (s.secrets call.webhookId).Nodup)
    (hdigests : ∀ a ∈ s.secrets call.webhookId, ∀ b ∈ s.secrets call.webhookId, a ≠ b →
      d.lib.hexdigest a call.body ≠ d.lib.hexdigest b call.body) {old : String}
    (hold : old ∈ (s.secrets call.webhookId).dropLast)
    (hsigned : call.signature.getD "" = expectedSignature d.lib old call.body) :
    (handle d s.db (.triggerWebhook env call)).db.executions = s.db.executions := by
  by_contra hstored
  obtain ⟨-, -, secret, hlast, hsecret⟩ := h.signed hstored
  have hne : old ≠ secret := by
    rintro rfl
    exact getLast?_not_mem_dropLast hdistinct hlast hold
  have hdigest : d.lib.hexdigest old call.body = d.lib.hexdigest secret call.body := by
    have hboth := hsigned.symm.trans hsecret
    simpa [expectedSignature] using hboth
  exact hdigests old ((List.dropLast_sublist _).subset hold) secret
    (List.mem_of_getLast? hlast) hne hdigest

theorem Api.serve_served {s' : Api} {request : Request} (h : s.serve d request = some s') :
    s'.served = s.served ++ [request.served d s.db] := by
  cases h
  rfl

theorem Api.Linked.run {s' : Api} {later : List Request} (h : s.Linked)
    (hrun : runActions (Api.serve d) s later = some s') : s'.Linked :=
  runActions_invariant (fun _ _ _ _ ht hserve => Api.serve_linked ht hserve) h hrun

end Authority

/-- The answers of the requests that were served. -/
theorem Api.Reached.shown {d : Deployment} {users : List UserRow} {s : Api}
    (h : Api.Reached d users s) : ∀ x ∈ s.served, ∀ webhookId,
      (x.response.isOk = true → x.returned webhookId = x.secretFor webhookId) ∧
        (x.response.isOk = false → x.returned webhookId = none) := by
  refine h.invariant (I := fun s => ∀ x ∈ s.served, ∀ webhookId,
    (x.response.isOk = true → x.returned webhookId = x.secretFor webhookId) ∧
      (x.response.isOk = false → x.returned webhookId = none)) (fun _ h => nomatch h) ?_
  intro s request s' _ _ hserve hs x hx webhookId
  rw [Api.serve_served hserve] at hx
  rcases List.mem_append.mp hx with hx | hx
  · exact hs x hx webhookId
  · rw [List.mem_singleton.mp hx]
    refine ⟨served_returned d s.db request webhookId, fun hfailed => ?_⟩
    refine returned_eq_none (fun read secret hanswer => ?_) webhookId
    rw [hanswer] at hfailed
    cases hfailed

theorem Api.Reached.answered {d : Deployment} {users : List UserRow} {s : Api}
    (h : Api.Reached d users s)
    (hanswered : ∀ x ∈ s.served, x.written.isSome = true → x.response.isOk = true)
    (webhookId : UUID) :
    s.served.filterMap (Served.returned webhookId) = s.secrets webhookId := by
  refine List.filterMap_congr fun x hx => ?_
  obtain ⟨hok, hfailed⟩ := h.shown x hx webhookId
  cases hresponse : x.response.isOk with
  | true => exact hok hresponse
  | false =>
      rw [hfailed hresponse, Served.secretFor]
      cases hwritten : x.written with
      | none => rfl
      | some write =>
          have hlost := hanswered x hx (by rw [hwritten]; rfl)
          exact nomatch hresponse.symm.trans hlost

end ConstructorPlatform
