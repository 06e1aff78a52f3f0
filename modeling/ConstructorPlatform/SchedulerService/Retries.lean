import Mathlib.Data.List.Perm.Subperm
import ConstructorPlatform.PlatformApi.InternalTrigger

/-!
# Retries — `_dispatch_with_retry`

The loop repeats an attempt that it got no success answer for, whether the platform has stored the
execution or not.  A dispatch creates as many executions as attempts come to a commit that is
carried out.
-/

namespace ConstructorPlatform

/-! ## 1. The loop -/

/-- The workflow of a job, and `settings.internal_secret` of the platform and of the scheduler. -/
structure DispatchTarget where
  workflowId : UUID
  platformSecret : String
  schedulerSecret : String

/-- What becomes of an attempt. -/
structure PostEnv where
  requestArrives : Bool
  trigger : TriggerEnv
  responseArrives : Bool

/-- `client.post(...)` and `raise_for_status()`: whether they return, and the platform's
database. -/
def post (target : DispatchTarget) (env : PostEnv) (db : Database) : Bool × Database :=
  if env.requestArrives then
    let answer := internalTrigger target.platformSecret env.trigger
      (some target.schedulerSecret) ⟨target.workflowId, []⟩ db
    (answer.1.isOk && env.responseArrives, answer.2)
  else (false, db)

/-- `_MAX_RETRIES`. -/
def maxRetries : Nat := 3

/-- The attempts that are left; the last failure is logged like the others. -/
def retryLoop (target : DispatchTarget) : List PostEnv → Database → Database
  | [], db => db
  | env :: rest, db =>
      match post target env db with
      | (true, db) => db
      | (false, db) => retryLoop target rest db

/-- `_dispatch_with_retry`. -/
def dispatchWithRetry (target : DispatchTarget) (envs : Fin maxRetries → PostEnv) (db : Database) :
    Database :=
  retryLoop target (List.ofFn envs) db

/-! ## 2. What an attempt does -/

/-- The attempt comes to a commit that is carried out. -/
def PostEnv.stores (target : DispatchTarget) (db : Database) (env : PostEnv) : Bool :=
  env.requestArrives && env.trigger.stores target.platformSecret (some target.schedulerSecret)
    ⟨target.workflowId, []⟩ db

/-- The attempt returns, and the loop with it. -/
def PostEnv.answered (target : DispatchTarget) (db : Database) (env : PostEnv) : Bool :=
  (post target env db).1

/-- The id that the platform gives to the new row. -/
def PostEnv.executionId (env : PostEnv) : UUID := env.trigger.create.executionId

/-- The executions of a workflow. -/
def Database.executionsOf (workflowId : UUID) (db : Database) : List ExecutionRow :=
  db.executions.filter fun e => e.processDefinitionId = workflowId

theorem Database.executionsOf_insert {workflowId : UUID} {row : ExecutionRow}
    (h : row.processDefinitionId = workflowId) (db : Database) :
    (db.insertExecution row).executionsOf workflowId = db.executionsOf workflowId ++ [row] := by
  simp [executionsOf, insertExecution, h]

section Attempts

variable {target : DispatchTarget} {db db' : Database} {env : PostEnv}

/-- An attempt stores one execution of the workflow, or nothing, and then it fails. -/
theorem post_database (target : DispatchTarget) (env : PostEnv) (db : Database) :
    (env.stores target db = true ∧ ∃ row, row.processDefinitionId = target.workflowId ∧
      row.id = env.executionId ∧ (post target env db).2 = db.insertExecution row) ∨
    (env.stores target db = false ∧ post target env db = (false, db)) := by
  unfold post PostEnv.stores
  cases env.requestArrives with
  | false => exact .inr ⟨rfl, rfl⟩
  | true =>
      rw [Bool.true_and, if_pos rfl]
      rcases internalTrigger_database target.platformSecret env.trigger
        (some target.schedulerSecret) ⟨target.workflowId, []⟩ db with
        ⟨hstores, row, hrow, hid, hdb⟩ | ⟨hstores, hdb, hfails⟩
      · exact .inl ⟨hstores, row, hrow, hid, hdb⟩
      · refine .inr ⟨hstores, ?_⟩
        show (_ && _, _) = (false, db)
        rw [hfails, hdb, Bool.false_and]

/-- How an attempt ends depends on the definitions, and on whether its id is taken. -/
theorem createExecution_congr {env : CreateEnv} (hdefinitions : db'.definitions = db.definitions)
    (hfresh : env.executionId ∉ db.executions.map ExecutionRow.id)
    (hfresh' : env.executionId ∉ db'.executions.map ExecutionRow.id) (data : ExecutionCreate)
    (tenantId : UUID) (triggeredBy : Option UUID) (triggerType : String) :
    (createExecution env data tenantId triggeredBy triggerType db').1 =
      (createExecution env data tenantId triggeredBy triggerType db).1 := by
  have hrow : (newExecution env data tenantId triggeredBy triggerType).id = env.executionId := rfl
  unfold createExecution
  rw [hdefinitions]
  cases env.lookup with
  | error exc => rfl
  | ok u =>
      cases db.definitions.find? fun d =>
        d.id = data.processDefinitionId ∧ d.tenantId = tenantId with
      | none => rfl
      | some d =>
          simp only [hrow, if_neg hfresh, if_neg hfresh']
          cases env.commit <;> cases env.refresh <;> rfl

theorem internalTrigger_congr {env : TriggerEnv} (hdefinitions : db'.definitions = db.definitions)
    (hfresh : env.create.executionId ∉ db.executions.map ExecutionRow.id)
    (hfresh' : env.create.executionId ∉ db'.executions.map ExecutionRow.id)
    (internalSecret : String) (header : Option String) (body : ExecutionCreate) :
    (internalTrigger internalSecret env header body db').1 =
      (internalTrigger internalSecret env header body db).1 := by
  have hworkflow : getProcess db' = getProcess db := by
    funext id
    rw [getProcess, getProcess, hdefinitions]
  unfold internalTrigger
  rw [hworkflow]
  split
  · rfl
  · rfl
  · split
    · rfl
    · rfl
    · show triggerRead _ = triggerRead _
      rw [createExecution_congr hdefinitions hfresh hfresh']

-- An id that is free in a larger table is free in the smaller one.
theorem PostEnv.stores_congr (hdefinitions : db'.definitions = db.definitions)
    (hids : env.executionId ∉ db.executions.map ExecutionRow.id →
      env.executionId ∉ db'.executions.map ExecutionRow.id) :
    env.stores target db = true → env.stores target db' = true := by
  have hworkflow : getProcess db' target.workflowId = getProcess db target.workflowId := by
    rw [getProcess, getProcess, hdefinitions]
  simp only [PostEnv.stores, TriggerEnv.stores, CreateEnv.stores, hworkflow, Bool.and_eq_true,
    decide_eq_true_eq, and_imp]
  intro harrives hsecret hquery hfound hconfig hlookup hcommit hfresh
  exact ⟨harrives, ⟨⟨⟨⟨hsecret, hquery⟩, hfound⟩, hconfig⟩, ⟨hlookup, hcommit⟩, hids hfresh⟩⟩

theorem PostEnv.stores_fresh (h : env.stores target db = true) :
    env.executionId ∉ db.executions.map ExecutionRow.id := by
  simp only [PostEnv.stores, TriggerEnv.stores, Bool.and_eq_true] at h
  exact CreateEnv.stores_fresh h.2.2

-- What returns has stored its row.
theorem PostEnv.answered_stores (h : env.answered target db = true) :
    env.stores target db = true := by
  rcases post_database target env db with ⟨hstores, -⟩ | ⟨-, hpost⟩
  · exact hstores
  · rw [PostEnv.answered, hpost] at h
    cases h

/-- None of the earlier attempts has stored the id. -/
def PostEnv.FreshAfter (target : DispatchTarget) (db : Database) (earlier : List PostEnv)
    (env : PostEnv) : Prop :=
  ∀ e ∈ earlier, e.stores target db = true → e.executionId ≠ env.executionId

instance (target : DispatchTarget) (db : Database) (earlier : List PostEnv) (env : PostEnv) :
    Decidable (env.FreshAfter target db earlier) :=
  inferInstanceAs (Decidable (∀ e ∈ earlier, _))

/-- The attempts that the loop makes after the earlier ones. -/
def attemptsMade (target : DispatchTarget) (db : Database) (earlier : List PostEnv) :
    List PostEnv → List PostEnv
  | [] => []
  | env :: rest =>
      if env.answered target db = true ∧ env.FreshAfter target db earlier then [env]
      else env :: attemptsMade target db (earlier ++ [env]) rest

theorem attemptsMade_length_le (earlier envs : List PostEnv) :
    (attemptsMade target db earlier envs).length ≤ envs.length := by
  induction envs generalizing earlier with
  | nil => exact Nat.le_refl 0
  | cons env rest ih =>
      rw [attemptsMade]
      split
      · exact Nat.succ_le_succ (Nat.zero_le _)
      · exact Nat.succ_le_succ (ih _)

/-- The database after some attempts: there is one new row for each id that they store. -/
structure After (target : DispatchTarget) (db : Database) (made : List PostEnv)
    (rows : List ExecutionRow) (db' : Database) : Prop where
  definitions : db'.definitions = db.definitions
  executions : db'.executions = db.executions ++ rows
  workflow : ∀ row ∈ rows, row.processDefinitionId = target.workflowId
  distinct : (rows.map ExecutionRow.id).Nodup
  ids : ∀ id, id ∈ rows.map ExecutionRow.id ↔
    ∃ e ∈ made, e.stores target db = true ∧ e.executionId = id

variable {made : List PostEnv} {rows : List ExecutionRow}

theorem After.refl (target : DispatchTarget) (db : Database) : After target db [] [] db where
  definitions := rfl
  executions := (List.append_nil _).symm
  workflow := List.forall_mem_nil _
  distinct := List.nodup_nil
  ids id := by simp

-- An id is taken when it was at the start, or an earlier attempt has stored it.
theorem After.taken_iff (h : After target db made rows db') (id : UUID) :
    id ∈ db'.executions.map ExecutionRow.id ↔ id ∈ db.executions.map ExecutionRow.id ∨
      ∃ e ∈ made, e.stores target db = true ∧ e.executionId = id := by
  rw [h.executions, List.map_append, List.mem_append, h.ids]

theorem After.stores_iff (h : After target db made rows db') :
    env.stores target db' = true ↔
      env.stores target db = true ∧ env.FreshAfter target db made := by
  constructor
  · intro hstores
    have hfree := PostEnv.stores_fresh hstores
    rw [h.taken_iff, not_or] at hfree
    refine ⟨PostEnv.stores_congr h.definitions.symm (fun _ => hfree.1) hstores, ?_⟩
    exact fun e he hearlier hid => hfree.2 ⟨e, he, hearlier, hid⟩
  · rintro ⟨hstores, hfresh⟩
    refine PostEnv.stores_congr h.definitions (fun hfree htaken => ?_) hstores
    rcases (h.taken_iff _).mp htaken with hold | ⟨e, he, hearlier, hid⟩
    · exact hfree hold
    · exact hfresh e he hearlier hid

theorem After.answered_iff (h : After target db made rows db') :
    env.answered target db' = true ↔
      env.answered target db = true ∧ env.FreshAfter target db made := by
  by_cases hstores : env.stores target db' = true
  · obtain ⟨hstoresDb, hfresh⟩ := h.stores_iff.mp hstores
    have hsame : env.answered target db' = env.answered target db := by
      have hanswer : (internalTrigger target.platformSecret env.trigger
          (some target.schedulerSecret) ⟨target.workflowId, []⟩ db').1 =
          (internalTrigger target.platformSecret env.trigger (some target.schedulerSecret)
            ⟨target.workflowId, []⟩ db).1 :=
        internalTrigger_congr h.definitions (PostEnv.stores_fresh hstoresDb)
          (PostEnv.stores_fresh hstores) _ _ _
      unfold PostEnv.answered post
      split
      · exact congrArg (·.isOk && env.responseArrives) hanswer
      · rfl
    rw [hsame]
    exact ⟨fun hanswered => ⟨hanswered, hfresh⟩, And.left⟩
  · refine iff_of_false (fun hanswered => hstores (PostEnv.answered_stores hanswered)) ?_
    rintro ⟨hanswered, hfresh⟩
    exact hstores (h.stores_iff.mpr ⟨PostEnv.answered_stores hanswered, hfresh⟩)

-- One attempt more.
theorem After.post (h : After target db made rows db') (env : PostEnv) :
    ∃ rows', After target db (made ++ [env]) rows' (post target env db').2 := by
  rcases post_database target env db' with ⟨hstores, row, hworkflow, hid, hdb⟩ | ⟨hstores, hpost⟩
  · obtain ⟨hstoresDb, hfresh⟩ := h.stores_iff.mp hstores
    rw [hdb]
    refine ⟨rows ++ [row], h.definitions, ?_, ?_, ?_, fun id => ?_⟩
    · rw [Database.insertExecution, h.executions, List.append_assoc]
    · exact List.forall_mem_append.mpr ⟨h.workflow, List.forall_mem_singleton.mpr hworkflow⟩
    · rw [List.map_append, List.map_singleton, List.nodup_append]
      refine ⟨h.distinct, List.nodup_singleton _, ?_⟩
      rintro id hold _ hrow rfl
      obtain ⟨e, he, hearlier, hsame⟩ := (h.ids id).mp hold
      rw [List.mem_singleton.mp hrow] at hsame
      exact hfresh e he hearlier (hsame.trans hid)
    · rw [List.map_append, List.mem_append, h.ids, List.map_singleton, List.mem_singleton, hid]
      constructor
      · rintro (⟨e, he, hearlier⟩ | rfl)
        · exact ⟨e, List.mem_append_left _ he, hearlier⟩
        · exact ⟨env, List.mem_append_right _ (List.mem_singleton_self env), hstoresDb, rfl⟩
      · rintro ⟨e, he, hearlier⟩
        rcases List.mem_append.mp he with he | he
        · exact .inl ⟨e, he, hearlier⟩
        · rw [List.mem_singleton.mp he] at hearlier
          exact .inr hearlier.2.symm
  · rw [hpost]
    refine ⟨rows, { h with ids := fun id => ?_ }⟩
    rw [h.ids]
    -- An attempt that stores nothing now has an id that an earlier one has stored, if it would
    -- have stored its row at the start.
    constructor
    · rintro ⟨e, he, hrest⟩
      exact ⟨e, List.mem_append_left _ he, hrest⟩
    · rintro ⟨e, he, hstoresDb, hid⟩
      rcases List.mem_append.mp he with he | he
      · exact ⟨e, he, hstoresDb, hid⟩
      · obtain rfl := List.mem_singleton.mp he
        have htaken : ¬ e.FreshAfter target db made := fun hfresh => by
          rw [h.stores_iff.mpr ⟨hstoresDb, hfresh⟩] at hstores
          cases hstores
        simp only [PostEnv.FreshAfter, not_forall, not_not] at htaken
        obtain ⟨first, hfirst, hfirstStores, hsame⟩ := htaken
        exact ⟨first, hfirst, hfirstStores, hsame.trans hid⟩

/-- The loop stores one row for each id that an attempt stores. -/
theorem retryLoop_after (h : After target db made rows db') (envs : List PostEnv) :
    ∃ rows', After target db (made ++ attemptsMade target db made envs) rows'
      (retryLoop target envs db') := by
  induction envs generalizing made rows db' with
  | nil =>
      rw [attemptsMade, List.append_nil, retryLoop]
      exact ⟨rows, h⟩
  | cons env rest ih =>
      obtain ⟨rows', hafter⟩ := h.post env
      have hanswered : env.answered target db' = true ↔
          env.answered target db = true ∧ env.FreshAfter target db made := h.answered_iff
      rw [PostEnv.answered] at hanswered
      rw [retryLoop, attemptsMade]
      generalize ConstructorPlatform.post target env db' = outcome at hafter hanswered
      obtain ⟨returned, db''⟩ := outcome
      cases returned with
      | true =>
          rw [if_pos (hanswered.mp rfl)]
          exact ⟨rows', hafter⟩
      | false =>
          rw [if_neg fun hreturns => Bool.false_ne_true (hanswered.mpr hreturns)]
          have hrest := ih hafter
          rwa [List.append_assoc] at hrest

-- One row at most, exactly when all attempts that store have the same id.
theorem After.length_le_one_iff (h : After target db made rows db') : rows.length ≤ 1 ↔
    made.Pairwise fun env later => env.stores target db = true →
      later.stores target db = true → later.executionId = env.executionId := by
  have hmem : ∀ e ∈ made, e.stores target db = true →
      e.executionId ∈ rows.map ExecutionRow.id :=
    fun e he hstores => (h.ids _).mpr ⟨e, he, hstores, rfl⟩
  constructor
  · intro hle
    have hone : ∀ id ∈ rows.map ExecutionRow.id, ∀ id' ∈ rows.map ExecutionRow.id, id' = id := by
      match rows, hle with
      | [], _ => exact nofun
      | [row], _ => simp
    exact List.pairwise_of_forall_mem_list fun env henv later hlater hstores hstores' =>
      hone _ (hmem env henv hstores) _ (hmem later hlater hstores')
  · intro hpairwise
    have hall : ∀ env ∈ made, ∀ later ∈ made, env.stores target db = true →
        later.stores target db = true → later.executionId = env.executionId := by
      have hflip : made.Pairwise (flip fun env later => env.stores target db = true →
          later.stores target db = true → later.executionId = env.executionId) :=
        hpairwise.imp fun hsame hstores hstores' => (hsame hstores' hstores).symm
      intro env henv later hlater
      exact List.Pairwise.forall_of_forall_of_flip (fun _ _ _ _ => rfl) hpairwise hflip henv hlater
    match rows, h.distinct, h.ids with
    | [], _, _ => exact Nat.zero_le 1
    | [_], _, _ => exact Nat.le_refl 1
    | row :: row' :: _, hdistinct, hids =>
        obtain ⟨env, henv, hstores, hid⟩ := (hids row.id).mp (by simp)
        obtain ⟨later, hlater, hstores', hid'⟩ := (hids row'.id).mp (by simp)
        have hsame := hall env henv later hlater hstores hstores'
        rw [hid, hid'] at hsame
        simp [hsame] at hdistinct

theorem After.length_le (h : After target db made rows db') : rows.length ≤ made.length := by
  have hsubset : rows.map ExecutionRow.id ⊆ made.map PostEnv.executionId := by
    intro id hid
    obtain ⟨e, he, -, rfl⟩ := (h.ids id).mp hid
    exact List.mem_map_of_mem he
  simpa using (List.subperm_of_subset h.distinct hsubset).length_le

theorem After.executionsOf_length (h : After target db made rows db') :
    (db'.executionsOf target.workflowId).length =
      (db.executionsOf target.workflowId).length + rows.length := by
  have hall : rows.filter (fun e => e.processDefinitionId = target.workflowId) = rows :=
    List.filter_eq_self.mpr fun row hrow => decide_eq_true (h.workflow row hrow)
  rw [Database.executionsOf, h.executions, List.filter_append, hall, List.length_append]
  rfl

end Attempts

/-! ## 3. How often a dispatch creates -/

/-- A dispatch creates at most one execution exactly when no attempt that is made after one that
stored its row stores its own; the platform refuses an id that an earlier attempt has stored.  In
any case a dispatch creates no more than it makes attempts. -/
theorem dispatch_created_iff (target : DispatchTarget) (envs : Fin maxRetries → PostEnv)
    (db : Database) :
    (((dispatchWithRetry target envs db).executionsOf target.workflowId).length ≤
        (db.executionsOf target.workflowId).length + 1 ↔
      (attemptsMade target db [] (List.ofFn envs)).Pairwise fun env later =>
        env.stores target db = true → later.stores target db = true →
          later.executionId = env.executionId) ∧
    ((dispatchWithRetry target envs db).executionsOf target.workflowId).length ≤
      (db.executionsOf target.workflowId).length + maxRetries := by
  obtain ⟨rows, hafter⟩ := retryLoop_after (After.refl target db) (List.ofFn envs)
  rw [List.nil_append] at hafter
  rw [dispatchWithRetry, hafter.executionsOf_length, Nat.add_le_add_iff_left,
    Nat.add_le_add_iff_left]
  refine ⟨hafter.length_le_one_iff, ?_⟩
  calc rows.length ≤ (attemptsMade target db [] (List.ofFn envs)).length := hafter.length_le
    _ ≤ (List.ofFn envs).length := attemptsMade_length_le _ _
    _ = maxRetries := List.length_ofFn

/-! The settings of `config.py` and one scheduled workflow. -/

def nightlyTarget : DispatchTarget := ⟨5, "internal_dev_secret", "internal_dev_secret"⟩

def nightlyDatabase : Database where
  users := []
  definitions := [⟨5, 7, "nightly",
    [("type", .str "schedule"), ("cron", .str "0 3 * * *")], [], "stop", 1, 0⟩]
  executions := []
  webhooks := []

/-- The platform stores an execution with this id. -/
def storingTrigger (executionId : UUID) : TriggerEnv :=
  ⟨.ok (), .ok (), ⟨.ok (), .ok, .ok (), executionId, 0⟩⟩

def answeredPost (executionId : UUID) : PostEnv := ⟨true, storingTrigger executionId, true⟩

/-- The answer to the first attempt is lost. -/
def firstAnswerLost (attempt : Fin maxRetries) : PostEnv :=
  if attempt.val = 0 then { answeredPost 20 with responseArrives := false } else answeredPost 21

/-- The second attempt creates a second execution. -/
theorem lost_answer_repeats :
    ¬ ∀ envs : Fin maxRetries → PostEnv,
      ((dispatchWithRetry nightlyTarget envs nightlyDatabase).executionsOf
          nightlyTarget.workflowId).length ≤
        (nightlyDatabase.executionsOf nightlyTarget.workflowId).length + 1 := by
  intro h
  have htwo : ((dispatchWithRetry nightlyTarget firstAnswerLost nightlyDatabase).executionsOf
      nightlyTarget.workflowId).length = 2 := by decide
  have hone := h firstAnswerLost
  rw [htwo] at hone
  exact absurd hone (by decide)

end ConstructorPlatform
