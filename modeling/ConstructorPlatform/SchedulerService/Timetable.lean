import ConstructorPlatform.PlatformApi.Backend
import ConstructorPlatform.SchedulerService.JobLoader
import ConstructorPlatform.SchedulerService.Retries

/-!
# Timetable — the scheduler service beside the platform

Workflows are created, any number of scheduler processes load their jobs, jobs fire and their
dispatches make attempts, in any order; a load reads the rows and brings the jobs up to date in two
steps, and a workflow can be created between them.  A row of `process_definitions` is never changed
or removed, so a job is never removed either.

`Timetable.jobs_kept`: a job stays, with its timer, until its process restarts.
`Timetable.job_of_workflow`: from a load on, a workflow with a valid schedule has exactly one.
`Timetable.scheduled_executions`: what a dispatch starts is a workflow with a schedule.
-/

namespace ConstructorPlatform

open Reasoning

variable {τ ι : Type}

/-! ## 1. The system -/

/-- `(trigger_config->>'type') = 'schedule'`. -/
def ProcessDefinitionRow.isScheduled (d : ProcessDefinitionRow) : Bool :=
  match d.triggerConfig.lookup "type" with
  | some (.str type) => decide (type = "schedule")
  | _ => false

/-- The columns that `_QUERY` selects, if it selects the row. -/
def ProcessDefinitionRow.schedule (d : ProcessDefinitionRow) : Option ScheduleRow :=
  if h : d.id < uuidBound ∧ d.isScheduled = true then
    some ⟨d.id, h.1, d.tenantId, d.triggerConfig⟩
  else none

def Database.scheduleRows (db : Database) : List ScheduleRow :=
  db.definitions.filterMap ProcessDefinitionRow.schedule

/-- A call of `dispatch` that has acquired the lock. -/
structure DispatchRun (ι : Type) where
  process : ι
  workflowId : UUID
  tenantId : UUID
  -- The attempts made.
  attempts : Nat

structure Timetable (τ ι : Type) where
  db : Database
  schedulers : ι → Scheduler τ
  -- The rows that a `load_jobs` of the process has read.
  reading : ι → Option (List ScheduleRow)
  dispatches : List (DispatchRun ι)

def Timetable.start (users : List UserRow) : Timetable τ ι :=
  ⟨(Api.start users).db, fun _ => .empty, fun _ => none, []⟩

/-- The packages and the settings of both services. -/
structure TimetableEnv (τ : Type) where
  deployment : Deployment
  triggers : Triggers τ
  -- `settings.internal_secret` of the scheduler.
  schedulerSecret : String

inductive TimetableAction (ι : Type) where
  | request (request : Request)
  -- The query of `load_jobs`, with the rows in the order in which it returns them.
  | query (i : ι) (rows : List ScheduleRow)
  -- The end of its transaction raises.
  | abandon (i : ι)
  -- The rest of `load_jobs`.
  | load (i : ι)
  | restart (i : ι)
  -- The timer of the job runs out; `acquired` is what Redis answers.
  | fire (i : ι) (n : Nat) (acquired : Bool)
  -- The next attempt of `_dispatch_with_retry`.
  | attempt (n : Nat) (env : PostEnv)

def TimetableEnv.target (e : TimetableEnv τ) (run : DispatchRun ι) : DispatchTarget :=
  ⟨run.workflowId, e.deployment.internalSecret, e.schedulerSecret⟩

def Timetable.attempt (e : TimetableEnv τ) (t : Timetable τ ι) (n : Nat) (run : DispatchRun ι)
    (env : PostEnv) : Timetable τ ι :=
  let (answered, db) := post (e.target run) env t.db
  { t with
    db := db
    dispatches :=
      if answered || run.attempts + 1 = maxRetries then t.dispatches.eraseIdx n
      else t.dispatches.set n { run with attempts := run.attempts + 1 } }

def Timetable.step [DecidableEq ι] (e : TimetableEnv τ) (t : Timetable τ ι) :
    TimetableAction ι → Option (Timetable τ ι)
  | .request request => some { t with db := (handle e.deployment t.db request).db }
  | .query i rows =>
      if (t.reading i).isNone then
        some { t with reading := Function.update t.reading i (some rows) }
      else none
  | .abandon i => some { t with reading := Function.update t.reading i none }
  | .load i =>
      match t.reading i with
      | some rows => some
          { t with
            schedulers := Function.update t.schedulers i
              (loadJobs e.triggers rows (t.schedulers i)).2
            reading := Function.update t.reading i none }
      | none => none
  | .restart i => some
      { t with
        schedulers := Function.update t.schedulers i .empty
        reading := Function.update t.reading i none
        dispatches := t.dispatches.filter fun run => run.process ≠ i }
  | .fire i n acquired =>
      match (t.schedulers i).jobs[n]? with
      | some job => some
          { t with
            dispatches :=
              if acquired then t.dispatches ++ [⟨i, job.workflowId, job.tenantId, 0⟩]
              else t.dispatches }
      | none => none
  | .attempt n env =>
      match t.dispatches[n]? with
      | some run => some (t.attempt e n run env)
      | none => none

/-- A query returns the rows that it selects. -/
def Timetable.Allowed (t : Timetable τ ι) : TimetableAction ι → Prop
  | .query _ rows => rows.Perm t.db.scheduleRows
  | _ => True

abbrev Timetable.Reached [DecidableEq ι] (e : TimetableEnv τ) (users : List UserRow) :
    Timetable τ ι → Prop :=
  Reachable (Timetable.step e) Timetable.Allowed (Timetable.start users)

/-- The schedulers alone know the secret. -/
def TimetableAction.Outside (e : TimetableEnv τ) : TimetableAction ι → Prop
  | .request (.internalTrigger _ header _) =>
      checkSecret e.deployment.internalSecret header ≠ .ok ()
  | _ => True

/-- What an action does. -/
inductive Timetable.Moves [DecidableEq ι] (e : TimetableEnv τ) (t : Timetable τ ι) :
    TimetableAction ι → Timetable τ ι → Prop where
  | request (request : Request) :
      Moves e t (.request request) { t with db := (handle e.deployment t.db request).db }
  | query (i : ι) (rows : List ScheduleRow) :
      Moves e t (.query i rows) { t with reading := Function.update t.reading i (some rows) }
  | abandon (i : ι) : Moves e t (.abandon i) { t with reading := Function.update t.reading i none }
  | load {i : ι} {rows : List ScheduleRow} (reading : t.reading i = some rows) :
      Moves e t (.load i)
        { t with
          schedulers := Function.update t.schedulers i
            (loadJobs e.triggers rows (t.schedulers i)).2
          reading := Function.update t.reading i none }
  | restart (i : ι) :
      Moves e t (.restart i)
        { t with
          schedulers := Function.update t.schedulers i .empty
          reading := Function.update t.reading i none
          dispatches := t.dispatches.filter fun run => run.process ≠ i }
  | fire {i : ι} {n : Nat} {job : Job τ} (acquired : Bool)
      (found : (t.schedulers i).jobs[n]? = some job) :
      Moves e t (.fire i n acquired)
        { t with
          dispatches :=
            if acquired then t.dispatches ++ [⟨i, job.workflowId, job.tenantId, 0⟩]
            else t.dispatches }
  | attempt {n : Nat} {run : DispatchRun ι} (env : PostEnv)
      (found : t.dispatches[n]? = some run) :
      Moves e t (.attempt n env) (t.attempt e n run env)

theorem Timetable.step_moves [DecidableEq ι] {e : TimetableEnv τ} {t t' : Timetable τ ι}
    {action : TimetableAction ι} (h : t.step e action = some t') : t.Moves e action t' := by
  unfold Timetable.step at h
  cases action with
  | request request => cases h; exact .request request
  | query i rows =>
      simp only at h
      split at h <;> cases h
      exact .query i rows
  | abandon i => cases h; exact .abandon i
  | load i =>
      simp only at h
      split at h
      · rename_i rows hreading
        cases h
        exact .load hreading
      · cases h
  | restart i => cases h; exact .restart i
  | fire i n acquired =>
      simp only at h
      split at h
      · rename_i job hn
        cases h
        exact .fire acquired hn
      · cases h
  | attempt n env =>
      simp only at h
      split at h
      · rename_i run hn
        cases h
        exact .attempt env hn
      · cases h

/-! ## 2. A load of rows that are still there -/

section Loads

variable {t : Triggers τ} {existingIds : List String} {rows : List ScheduleRow} {s : Scheduler τ}

theorem removeMissing_eq_self {dbIds : List String} (h : ∀ j ∈ s.jobs, j.id ∈ dbIds) :
    removeMissing dbIds s.jobs s = s := by
  rw [removeMissing_eq]
  have hkept : s.jobs.filter (fun j => decide (j.id ∈ dbIds ∨ j.id ∉ s.jobs.map Job.id)) =
      s.jobs := by
    rw [List.filter_eq_self]
    exact fun j hj => decide_eq_true (.inl (h j hj))
  rw [hkept]

/-- The ids of the rows are distinct, and the jobs that are there and have one of them are known. -/
structure KnownJobs (existingIds : List String) (rows : List ScheduleRow) (s : Scheduler τ) :
    Prop where
  distinct : (rows.map ScheduleRow.id).Nodup
  known : ∀ j ∈ s.jobs, ∀ row ∈ rows, j.id = uuidStr row.id → j.id ∈ existingIds

theorem KnownJobs.tail {row : ScheduleRow} {rest : List ScheduleRow}
    (h : KnownJobs existingIds (row :: rest) s) : KnownJobs existingIds rest s where
  distinct := (List.nodup_cons.mp h.distinct).2
  known j hj r hr := h.known j hj r (List.mem_cons_of_mem row hr)

-- A new job replaces none.
theorem KnownJobs.addJob_eq {row : ScheduleRow} {rest : List ScheduleRow}
    (h : KnownJobs existingIds (row :: rest) s) (hnew : uuidStr row.id ∉ existingIds)
    (trigger : τ) :
    s.addJob (row.job trigger) =
      ⟨s.jobs ++ [row.job trigger], s.added ++ [row.job trigger]⟩ := by
  have hkept : s.jobs.filter (fun j => j.id ≠ (row.job trigger).id) = s.jobs := by
    rw [List.filter_eq_self]
    refine fun j hj => decide_eq_true fun hid => hnew ?_
    have hmem := h.known j hj row List.mem_cons_self hid
    rwa [hid] at hmem
  rw [Scheduler.addJob, hkept]

theorem KnownJobs.addJob {row : ScheduleRow} {rest : List ScheduleRow}
    (h : KnownJobs existingIds (row :: rest) s) (hnew : uuidStr row.id ∉ existingIds)
    (trigger : τ) :
    KnownJobs existingIds rest (s.addJob (row.job trigger)) where
  distinct := h.tail.distinct
  known j hj r hr hid := by
    rw [h.addJob_eq hnew] at hj
    rcases List.mem_append.mp hj with hj | hj
    · exact h.tail.known j hj r hr hid
    · rw [List.mem_singleton.mp hj] at hid
      exact absurd hid (ScheduleRow.uuidStr_ne h.distinct hr)

/-- The loop over the rows appends jobs for some of the new ones, whether it raises or not. -/
theorem addNew_appends (h : KnownJobs existingIds rows s) :
    ∃ new, (addNew t existingIds rows s).2 = ⟨s.jobs ++ new, s.added ++ new⟩ ∧
      (new.map Job.id).Nodup ∧ ∀ j ∈ new, j.id ∉ existingIds ∧ ∃ row ∈ rows, ∃ trigger,
        buildTrigger t row.triggerConfig = .ok (some trigger) ∧ j = row.job trigger := by
  induction rows generalizing s with
  | nil => exact ⟨[], by simp [addNew], List.nodup_nil, List.forall_mem_nil _⟩
  | cons row rest ih =>
      -- What is added when the row is passed over.
      have hskip : ∃ new, (addNew t existingIds rest s).2 = ⟨s.jobs ++ new, s.added ++ new⟩ ∧
          (new.map Job.id).Nodup ∧ ∀ j ∈ new, j.id ∉ existingIds ∧ ∃ r ∈ row :: rest, ∃ trigger,
            buildTrigger t r.triggerConfig = .ok (some trigger) ∧ j = r.job trigger := by
        obtain ⟨new, heq, hnodup, hnew⟩ := ih h.tail
        refine ⟨new, heq, hnodup, fun j hj => ⟨(hnew j hj).1, ?_⟩⟩
        obtain ⟨r, hr, hjob⟩ := (hnew j hj).2
        exact ⟨r, List.mem_cons_of_mem row hr, hjob⟩
      rw [addNew]
      split
      · exact hskip
      · rename_i hnotExisting
        split
        · exact ⟨[], by simp, List.nodup_nil, List.forall_mem_nil _⟩
        · exact hskip
        · rename_i trigger htrigger
          obtain ⟨new, heq, hnodup, hnew⟩ := ih (h.addJob hnotExisting trigger)
          refine ⟨row.job trigger :: new, ?_, ?_, ?_⟩
          · rw [heq, h.addJob_eq hnotExisting]
            simp only [List.append_assoc, List.singleton_append]
          · rw [List.map_cons, List.nodup_cons]
            refine ⟨fun hmem => ?_, hnodup⟩
            obtain ⟨j, hj, hid⟩ := List.mem_map.mp hmem
            obtain ⟨-, r, hr, trigger', -, rfl⟩ := hnew j hj
            exact ScheduleRow.uuidStr_ne h.distinct hr hid.symm
          · rw [List.forall_mem_cons]
            refine ⟨⟨hnotExisting, row, List.mem_cons_self, trigger, htrigger, rfl⟩, ?_⟩
            intro j hj
            obtain ⟨hj', r, hr, hjob⟩ := hnew j hj
            exact ⟨hj', r, List.mem_cons_of_mem row hr, hjob⟩

/-- Without an exception every row that builds a trigger has its job. -/
theorem addNew_complete (h : KnownJobs existingIds rows s)
    (hok : (addNew t existingIds rows s).1 = .ok ()) {row : ScheduleRow} (hrow : row ∈ rows)
    {trigger : τ} (htrigger : buildTrigger t row.triggerConfig = .ok (some trigger)) :
    uuidStr row.id ∈ existingIds ∨ row.job trigger ∈ (addNew t existingIds rows s).2.jobs := by
  induction rows generalizing s with
  | nil => cases hrow
  | cons first rest ih =>
      by_cases hfirst : uuidStr first.id ∈ existingIds
      · rw [addNew, if_pos hfirst] at hok ⊢
        rcases List.mem_cons.mp hrow with rfl | hrest
        · exact .inl hfirst
        · exact ih h.tail hok hrest
      · rw [addNew, if_neg hfirst] at hok ⊢
        cases hbuild : buildTrigger t first.triggerConfig with
        | error exc =>
            rw [hbuild] at hok
            cases hok
        | ok built =>
            rw [hbuild] at hok
            rcases List.mem_cons.mp hrow with rfl | hrest
            · obtain rfl : built = some trigger := Except.ok.inj (hbuild.symm.trans htrigger)
              obtain ⟨new, heq, -, -⟩ := addNew_appends (t := t) (h.addJob hfirst trigger)
              refine .inr ?_
              dsimp only
              rw [heq, h.addJob_eq hfirst]
              exact List.mem_append_left _ (List.mem_append_right _ List.mem_cons_self)
            · cases built with
              | none => exact ih h.tail hok hrest
              | some trigger' => exact ih (h.addJob hfirst trigger') hok hrest

theorem known_jobs (hrows : (rows.map ScheduleRow.id).Nodup) :
    KnownJobs (s.jobs.map Job.id) rows s :=
  ⟨hrows, fun _ hj _ _ _ => List.mem_map_of_mem hj⟩

-- The rows of all jobs are there, so nothing is removed.
theorem loadJobs_of_listed (hjobs : ∀ j ∈ s.jobs, j.id ∈ rows.map fun row => uuidStr row.id) :
    loadJobs t rows s = addNew t (s.jobs.map Job.id) rows s := by
  unfold loadJobs
  simp only [removeMissing_eq_self hjobs]

end Loads

/-! ## 3. The executions that a request stores -/

section Stored

variable {db : Database} {x : ExecutionRow}

theorem createExecution_mem {env : CreateEnv} {data : ExecutionCreate} {tenantId : UUID}
    {triggeredBy : Option UUID} {triggerType : String}
    (hx : x ∈ (createExecution env data tenantId triggeredBy triggerType db).2.executions) :
    x ∈ db.executions ∨ x.triggerType = triggerType := by
  cases hfound : db.definitions.find? fun d =>
      d.id = data.processDefinitionId ∧ d.tenantId = tenantId with
  | none =>
      unfold createExecution at hx
      split at hx
      · exact .inl hx
      · simp only [hfound] at hx
        exact .inl hx
  | some definition =>
      rcases createExecution_cases env triggeredBy triggerType hfound with
        ⟨-, hdb⟩ | ⟨-, exc, hdb⟩
      · rw [hdb, Database.insertExecution] at hx
        rcases List.mem_append.mp hx with hx | hx
        · exact .inl hx
        · rw [List.mem_singleton.mp hx]
          exact .inr rfl
      · rw [hdb] at hx
        exact .inl hx

theorem createWorkflowRoute_executions (session : SessionEnv) (env : ProcessCreateEnv)
    (credentials : Credentials) (body : ProcessDefinitionCreate) (db : Database) :
    (createWorkflowRoute session env credentials body db).2.executions = db.executions := by
  unfold createWorkflowRoute
  split
  · rfl
  · dsimp only
    split
    · rfl
    · split
      · rfl
      · split <;> rfl
      · rfl

theorem Handled.ofWrite_executions (db : Database) (handled : Response × Option WebhookWrite) :
    (Handled.ofWrite db handled).db.executions = db.executions := by
  obtain ⟨response, write⟩ := handled
  cases write with
  | none => rfl
  | some write => cases write <;> rfl

/-- Without the secret nobody stores an execution of the trigger type `schedule`. -/
theorem handle_schedule {d : Deployment} {request : Request}
    (hsecret : ∀ env header body, request = .internalTrigger env header body →
      checkSecret d.internalSecret header ≠ .ok ())
    (hx : x ∈ (handle d db request).db.executions) :
    x ∈ db.executions ∨ x.triggerType ≠ "schedule" := by
  have hother : ∀ type : String, type ≠ "schedule" → x ∈ db.executions ∨ x.triggerType = type →
      x ∈ db.executions ∨ x.triggerType ≠ "schedule" := by
    rintro type htype (hold | rfl)
    · exact .inl hold
    · exact .inr htype
  cases request with
  | createWorkflow session env credentials body =>
      exact .inl (createWorkflowRoute_executions session env credentials body db ▸ hx)
  | triggerExecution session env credentials body =>
      simp only [handle, Handled.ofDatabase, triggerExecutionRoute] at hx
      split at hx
      · exact .inl hx
      · rename_i user _
        have hcreated : x ∈ (createExecution env body user.tenantId (some user.id) "manual"
            db).2.executions := by
          split at hx <;> exact hx
        exact hother "manual" (by decide) (createExecution_mem hcreated)
  | createWebhook session env credentials body =>
      exact .inl (Handled.ofWrite_executions db _ ▸ hx)
  | deleteWebhook session env credentials webhookId =>
      exact .inl (Handled.ofWrite_executions db _ ▸ hx)
  | rotateWebhook session env credentials webhookId =>
      exact .inl (Handled.ofWrite_executions db _ ▸ hx)
  | triggerWebhook env call =>
      simp only [handle, Handled.ofDatabase, triggerWebhookRoute_database] at hx
      rcases triggerCreates_cases d.lib env call db with ⟨e, heq⟩ | ⟨_, _, -, -, -, heq⟩
      · rw [heq] at hx
        exact .inl hx
      · rw [heq] at hx
        exact hother "webhook" (by decide) (createExecution_mem hx)
  | internalTrigger env header body =>
      have hrefused := hsecret env header body rfl
      simp only [handle, Handled.ofDatabase, internalTrigger] at hx
      split at hx
      · exact .inl hx
      · exact .inl hx
      · exact absurd ‹_› hrefused

theorem post_change (target : DispatchTarget) (env : PostEnv) (db : Database) :
    Change db none (post target env db).2 := by
  unfold post
  split
  · exact internalTrigger_change ..
  · exact .nothing

end Stored

/-! ## 4. The invariant -/

/-- The workflow belongs to the tenant and has a schedule. -/
def Database.Scheduled (db : Database) (workflowId tenantId : UUID) : Prop :=
  ∃ d ∈ db.definitions, d.id = workflowId ∧ d.tenantId = tenantId ∧ d.isScheduled = true

/-- The job is what `load_jobs` makes of the definition of its workflow. -/
def Database.Gives (triggers : Triggers τ) (db : Database) (j : Job τ) : Prop :=
  ∃ d ∈ db.definitions, d.id < uuidBound ∧ d.isScheduled = true ∧
    buildTrigger triggers d.triggerConfig = .ok (some j.trigger) ∧
    j.id = uuidStr d.id ∧ j.workflowId = d.id ∧ j.tenantId = d.tenantId

/-- No job has been removed or replaced. -/
structure Scheduler.Grown (triggers : Triggers τ) (db : Database) (s : Scheduler τ) : Prop where
  kept : s.jobs = s.added
  ids : (s.jobs.map Job.id).Nodup
  gives : ∀ j ∈ s.jobs, db.Gives triggers j

/-- The rows are there, and the rows of all jobs are among them. -/
structure Scheduler.Reads (db : Database) (rows : List ScheduleRow) (s : Scheduler τ) : Prop where
  distinct : (rows.map ScheduleRow.id).Nodup
  stored : rows ⊆ db.scheduleRows
  listed : ∀ j ∈ s.jobs, j.id ∈ rows.map fun row => uuidStr row.id

structure Timetable.Ok (e : TimetableEnv τ) (t : Timetable τ ι) : Prop where
  sound : t.db.Sound
  schedulers : ∀ i, (t.schedulers i).Grown e.triggers t.db
  reading : ∀ i rows, t.reading i = some rows → (t.schedulers i).Reads t.db rows
  dispatches : ∀ run ∈ t.dispatches, t.db.Scheduled run.workflowId run.tenantId

/-- What a scheduler has started is a workflow with a schedule. -/
def Database.OnlyScheduled (db : Database) : Prop :=
  ∀ x ∈ db.executions, x.triggerType = "schedule" → db.Scheduled x.processDefinitionId x.tenantId

section Invariant

variable {e : TimetableEnv τ} {t t' : Timetable τ ι} {db db' : Database} {triggers : Triggers τ}
  {s : Scheduler τ} {rows : List ScheduleRow}

theorem Database.Scheduled.mono {workflowId tenantId : UUID}
    (hgrow : db.definitions ⊆ db'.definitions) (h : db.Scheduled workflowId tenantId) :
    db'.Scheduled workflowId tenantId := by
  obtain ⟨d, hd, hrest⟩ := h
  exact ⟨d, hgrow hd, hrest⟩

theorem Scheduler.Grown.mono (hgrow : db.definitions ⊆ db'.definitions)
    (h : s.Grown triggers db) : s.Grown triggers db' := by
  refine ⟨h.kept, h.ids, fun j hj => ?_⟩
  obtain ⟨d, hd, hrest⟩ := h.gives j hj
  exact ⟨d, hgrow hd, hrest⟩

theorem Scheduler.grown_empty (triggers : Triggers τ) (db : Database) :
    (Scheduler.empty : Scheduler τ).Grown triggers db :=
  ⟨rfl, List.nodup_nil, List.forall_mem_nil _⟩

theorem Database.mem_scheduleRows {row : ScheduleRow} : row ∈ db.scheduleRows ↔
    ∃ d ∈ db.definitions, d.isScheduled = true ∧ d.id = row.id ∧ d.tenantId = row.tenantId ∧
      d.triggerConfig = row.triggerConfig := by
  rw [Database.scheduleRows, List.mem_filterMap]
  constructor
  · rintro ⟨d, hd, hrow⟩
    unfold ProcessDefinitionRow.schedule at hrow
    split at hrow
    · rename_i hselected
      cases hrow
      exact ⟨d, hd, hselected.2, rfl, rfl, rfl⟩
    · cases hrow
  · rintro ⟨d, hd, hscheduled, hid, htenant, hconfig⟩
    refine ⟨d, hd, ?_⟩
    obtain ⟨id, hbound, tenantId, config⟩ := row
    cases hid
    cases htenant
    cases hconfig
    exact dif_pos ⟨hbound, hscheduled⟩

theorem Database.scheduleRows_nodup (hkeyed : db.Keyed) :
    (db.scheduleRows.map ScheduleRow.id).Nodup := by
  have hids : ∀ d d' : ProcessDefinitionRow, d.id ≠ d'.id → ∀ row ∈ d.schedule,
      ∀ row' ∈ d'.schedule, row.id ≠ row'.id := by
    intro d d' hne row hrow row' hrow'
    unfold ProcessDefinitionRow.schedule at hrow hrow'
    split at hrow
    · split at hrow'
      · cases hrow
        cases hrow'
        exact hne
      · cases hrow'
    · cases hrow
  have hdefinitions := hkeyed.definitions
  rw [List.Nodup, List.pairwise_map] at hdefinitions ⊢
  rw [Database.scheduleRows, List.pairwise_filterMap]
  exact hdefinitions.imp fun hne row hrow row' hrow' => hids _ _ hne row hrow row' hrow'

theorem Database.scheduleRows_mono (hgrow : db.definitions ⊆ db'.definitions) :
    db.scheduleRows ⊆ db'.scheduleRows := by
  intro row hrow
  obtain ⟨d, hd, hselected⟩ := List.mem_filterMap.mp hrow
  exact List.mem_filterMap.mpr ⟨d, hgrow hd, hselected⟩

theorem Scheduler.Reads.mono (hgrow : db.definitions ⊆ db'.definitions) (h : s.Reads db rows) :
    s.Reads db' rows where
  distinct := h.distinct
  stored := List.Subset.trans h.stored (Database.scheduleRows_mono hgrow)
  listed := h.listed

-- A definition is never removed.
theorem Scheduler.Grown.reads (h : s.Grown triggers db) (hkeyed : db.Keyed)
    (hrows : rows.Perm db.scheduleRows) : s.Reads db rows where
  distinct := (hrows.map ScheduleRow.id).nodup_iff.mpr (Database.scheduleRows_nodup hkeyed)
  stored := hrows.subset
  listed j hj := by
    obtain ⟨d, hd, hbound, hscheduled, -, hid, -, -⟩ := h.gives j hj
    have hrow : (⟨d.id, hbound, d.tenantId, d.triggerConfig⟩ : ScheduleRow) ∈ rows :=
      hrows.mem_iff.mpr (Database.mem_scheduleRows.mpr ⟨d, hd, hscheduled, rfl, rfl, rfl⟩)
    exact List.mem_map.mpr ⟨_, hrow, hid.symm⟩

theorem Scheduler.Reads.loadJobs_eq (h : s.Reads db rows) :
    loadJobs triggers rows s = addNew triggers (s.jobs.map Job.id) rows s :=
  loadJobs_of_listed h.listed

/-- A load appends jobs that the definitions give. -/
theorem Scheduler.Grown.load (h : s.Grown triggers db) (hreads : s.Reads db rows) :
    s.jobs <+: (loadJobs triggers rows s).2.jobs ∧
      (loadJobs triggers rows s).2.Grown triggers db := by
  rw [hreads.loadJobs_eq]
  obtain ⟨new, heq, hnewIds, hnew⟩ :=
    addNew_appends (t := triggers) (known_jobs (s := s) hreads.distinct)
  rw [heq]
  refine ⟨List.prefix_append _ _, by rw [h.kept], ?_, ?_⟩
  · dsimp only
    rw [List.map_append, List.nodup_append]
    refine ⟨h.ids, hnewIds, ?_⟩
    rintro id hold _ hmem rfl
    obtain ⟨j, hj, rfl⟩ := List.mem_map.mp hmem
    exact (hnew j hj).1 hold
  · intro j hj
    rcases List.mem_append.mp hj with hj | hj
    · exact h.gives j hj
    · obtain ⟨-, row, hrow, trigger, htrigger, rfl⟩ := hnew j hj
      obtain ⟨d, hd, hscheduled, hid, htenant, hconfig⟩ :=
        Database.mem_scheduleRows.mp (hreads.stored hrow)
      exact ⟨d, hd, hid ▸ row.isUuid, hscheduled, hconfig ▸ htrigger, by rw [hid]; rfl, hid.symm,
        htenant.symm⟩

/-- After a load that does not raise, every row with a valid schedule has its job. -/
theorem Scheduler.Grown.load_complete (h : s.Grown triggers db) (hkeyed : db.Keyed)
    (hreads : s.Reads db rows) (hok : (loadJobs triggers rows s).1 = .ok ()) {row : ScheduleRow}
    (hrow : row ∈ rows) {trigger : τ}
    (htrigger : buildTrigger triggers row.triggerConfig = .ok (some trigger)) :
    row.job trigger ∈ (loadJobs triggers rows s).2.jobs := by
  have hload := h.load hreads
  rw [hreads.loadJobs_eq] at hok hload ⊢
  rcases addNew_complete (known_jobs hreads.distinct) hok hrow htrigger with hexisting | hadded
  · -- The job that is there comes from the same definition.
    obtain ⟨j, hj, hid⟩ := List.mem_map.mp hexisting
    obtain ⟨d, hd, hbound, -, htrigger', hid', hworkflow, htenant⟩ := h.gives j hj
    obtain ⟨d', hd', -, hrowId, hrowTenant, hconfig⟩ :=
      Database.mem_scheduleRows.mp (hreads.stored hrow)
    have hsame : d' = d := hkeyed.definition_unique hd' hd
      (hrowId.trans (uuidStr_inj row.isUuid hbound (hid.symm.trans hid')))
    subst hsame
    rw [hconfig] at htrigger'
    have htriggers : j.trigger = trigger :=
      Option.some.inj (Except.ok.inj (htrigger'.symm.trans htrigger))
    have hjob : j = row.job trigger := by
      rw [show j = ⟨j.id, j.trigger, j.workflowId, j.tenantId⟩ from rfl, hid, htriggers,
        hworkflow, htenant, hrowId, hrowTenant]
      rfl
    exact hjob ▸ hload.1.subset hj
  · exact hadded

theorem Timetable.Ok.request (h : t.Ok e) (request : Request) :
    Timetable.Ok e { t with db := (handle e.deployment t.db request).db } := by
  obtain ⟨-, hgrow, -⟩ := handle_executions e.deployment t.db request
  exact ⟨h.sound.change (handle_change e.deployment t.db request),
    fun i => (h.schedulers i).mono hgrow, fun i rows hi => (h.reading i rows hi).mono hgrow,
    fun run hrun => (h.dispatches run hrun).mono hgrow⟩

-- What becomes of one process.
theorem Timetable.Ok.update [DecidableEq ι] (h : t.Ok e) (i : ι) {s : Scheduler τ}
    (read : Option (List ScheduleRow)) (hs : s.Grown e.triggers t.db)
    (hread : ∀ rows, read = some rows → s.Reads t.db rows) {dispatches : List (DispatchRun ι)}
    (hdispatches : dispatches ⊆ t.dispatches) :
    Timetable.Ok e
      { t with
        schedulers := Function.update t.schedulers i s
        reading := Function.update t.reading i read
        dispatches := dispatches } := by
  refine ⟨h.sound, fun k => ?_, fun k rows hk => ?_,
    fun run hrun => h.dispatches run (hdispatches hrun)⟩
  · dsimp only
    by_cases hki : k = i
    · rw [hki, Function.update_self]
      exact hs
    · rw [Function.update_of_ne hki]
      exact h.schedulers k
  · dsimp only at hk ⊢
    rcases update_cases hk with ⟨rfl, hread'⟩ | ⟨hki, hk⟩
    · rw [Function.update_self]
      exact hread rows hread'
    · rw [Function.update_of_ne hki]
      exact h.reading k rows hk

-- A process that has read rows, or has given up.
theorem Timetable.Ok.read [DecidableEq ι] (h : t.Ok e) (i : ι) (read : Option (List ScheduleRow))
    (hread : ∀ rows, read = some rows → (t.schedulers i).Reads t.db rows) :
    Timetable.Ok e { t with reading := Function.update t.reading i read } := by
  have hupdate := h.update i read (h.schedulers i) hread (List.Subset.refl t.dispatches)
  rwa [Function.update_eq_self] at hupdate

theorem Timetable.Ok.fire (h : t.Ok e) {i : ι} {n : Nat} {job : Job τ}
    (hn : (t.schedulers i).jobs[n]? = some job) (acquired : Bool) :
    Timetable.Ok e
      { t with
        dispatches :=
          if acquired then t.dispatches ++ [⟨i, job.workflowId, job.tenantId, 0⟩]
          else t.dispatches } := by
  refine { h with dispatches := ?_ }
  dsimp only
  split
  · intro run hrun
    rcases List.mem_append.mp hrun with hrun | hrun
    · exact h.dispatches run hrun
    · rw [List.mem_singleton.mp hrun]
      obtain ⟨d, hd, -, hscheduled, -, -, hid, htenant⟩ :=
        (h.schedulers i).gives job (List.mem_of_getElem? hn)
      exact ⟨d, hd, hid.symm, htenant.symm, hscheduled⟩
  · exact h.dispatches

theorem Timetable.Ok.attempt (h : t.Ok e) {n : Nat} {run : DispatchRun ι}
    (hn : t.dispatches[n]? = some run) (env : PostEnv) : (t.attempt e n run env).Ok e := by
  have hchange := post_change (e.target run) env t.db
  have hgrow : t.db.definitions ⊆ (t.attempt e n run env).db.definitions := hchange.targets.1
  have hdispatches : ∀ r ∈ (t.attempt e n run env).dispatches,
      t.db.Scheduled r.workflowId r.tenantId := by
    intro r hr
    unfold Timetable.attempt at hr
    dsimp only at hr
    split at hr
    · exact h.dispatches r (List.mem_of_mem_eraseIdx hr)
    · rcases List.mem_or_eq_of_mem_set hr with hr | rfl
      · exact h.dispatches r hr
      · exact h.dispatches run (List.mem_of_getElem? hn)
  exact ⟨h.sound.change hchange, fun i => (h.schedulers i).mono hgrow,
    fun i rows hi => (h.reading i rows hi).mono hgrow, fun r hr => (hdispatches r hr).mono hgrow⟩

/-- An attempt stores an execution of the workflow that it was started for, if it stores one. -/
theorem Timetable.Ok.onlyScheduled_attempt (h : t.Ok e) {n : Nat} {run : DispatchRun ι}
    (hn : t.dispatches[n]? = some run) (env : PostEnv) (hscheduled : t.db.OnlyScheduled) :
    (t.attempt e n run env).db.OnlyScheduled := by
  intro x hx htype
  have hchange := post_change (e.target run) env t.db
  have hsound := h.sound.change hchange
  have hgrow : t.db.definitions ⊆ (t.attempt e n run env).db.definitions := hchange.targets.1
  have hadmits := (hsound.executions x hx).definition
  have hnew : x ∈ t.db.executions ∨ x.processDefinitionId = run.workflowId := by
    change x ∈ (post (e.target run) env t.db).2.executions at hx
    rcases post_database (e.target run) env t.db with ⟨-, row, hworkflow, -, hdb⟩ | ⟨-, heq⟩
    · rw [hdb] at hx
      rcases List.mem_append.mp hx with hold | hnew
      · exact .inl hold
      · exact .inr (List.mem_singleton.mp hnew ▸ hworkflow)
    · rw [heq] at hx
      exact .inl hx
  rcases hnew with hold | hworkflow
  · exact (hscheduled x hold htype).mono hgrow
  · obtain ⟨d, hd, hid, -, hscheduled⟩ :=
      (h.dispatches run (List.mem_of_getElem? hn)).mono hgrow
    obtain ⟨d', hd', hid', htenant'⟩ := hadmits
    have hsame : d' = d :=
      hsound.keyed.definition_unique hd' hd (hid'.trans (hworkflow.trans hid.symm))
    exact ⟨d, hd, hsame ▸ hid', hsame ▸ htenant', hscheduled⟩

-- The other actions add no execution of the scheduler.
theorem Timetable.Ok.onlyScheduled_step [DecidableEq ι] (h : t.Ok e) {action : TimetableAction ι}
    (houtside : action.Outside e) (hstep : t.step e action = some t')
    (hscheduled : t.db.OnlyScheduled) : t'.db.OnlyScheduled := by
  cases Timetable.step_moves hstep with
  | request request =>
      obtain ⟨-, hgrow, -⟩ := handle_executions e.deployment t.db request
      have hsecret : ∀ env header body, request = .internalTrigger env header body →
          checkSecret e.deployment.internalSecret header ≠ .ok () := by
        rintro env header body rfl
        exact houtside
      intro x hx htype
      rcases handle_schedule hsecret hx with hold | hother
      · exact (hscheduled x hold htype).mono hgrow
      · exact absurd htype hother
  | query i rows => exact hscheduled
  | abandon i => exact hscheduled
  | load hreading => exact hscheduled
  | restart i => exact hscheduled
  | fire acquired hn => exact hscheduled
  | attempt env hn => exact h.onlyScheduled_attempt hn env hscheduled

theorem Timetable.Ok.step [DecidableEq ι] (h : t.Ok e) {action : TimetableAction ι}
    (hallowed : t.Allowed action) (hstep : t.step e action = some t') : t'.Ok e := by
  cases Timetable.step_moves hstep with
  | request request => exact h.request request
  | query i rows =>
      refine h.read i _ fun _ hrows => ?_
      cases hrows
      exact (h.schedulers i).reads h.sound.keyed hallowed
  | abandon i => exact h.read i none nofun
  | @load i rows hreading =>
      exact h.update i none ((h.schedulers i).load (h.reading i rows hreading)).2 nofun
        (List.Subset.refl _)
  | restart i =>
      exact h.update i none (Scheduler.grown_empty e.triggers t.db) nofun List.filter_sublist.subset
  | fire acquired hn => exact h.fire hn acquired
  | attempt env hn => exact h.attempt hn env

theorem Timetable.Reached.ok [DecidableEq ι] {users : List UserRow}
    (h : Timetable.Reached e users t) : t.Ok e := by
  refine h.invariant ⟨Api.start_sound users, fun _ => Scheduler.grown_empty _ _, nofun,
    List.forall_mem_nil _⟩ ?_
  exact fun _ _ _ _ hallowed hstep hok => Timetable.Ok.step hok hallowed hstep

end Invariant

/-! ## 5. Runs -/

/-- The process `i` goes on. -/
def TimetableAction.goesOn (i : ι) : TimetableAction ι → Prop
  | .restart k => k ≠ i
  | _ => True

section Runs

variable [DecidableEq ι] {e : TimetableEnv τ} {t t' : Timetable τ ι} {users : List UserRow}

-- What one action does to the jobs of a process that goes on.
theorem Timetable.Ok.jobs_step (h : t.Ok e) (i : ι) {action : TimetableAction ι}
    (hgoes : action.goesOn i) (hstep : t.step e action = some t') :
    (t.schedulers i).jobs <+: (t'.schedulers i).jobs := by
  cases Timetable.step_moves hstep with
  | request request => exact List.prefix_refl _
  | query k rows => exact List.prefix_refl _
  | abandon k => exact List.prefix_refl _
  | @load k rows hreading =>
      dsimp only
      by_cases hk : i = k
      · subst hk
        rw [Function.update_self]
        exact ((h.schedulers i).load (h.reading i rows hreading)).1
      · rw [Function.update_of_ne hk]
  | restart k =>
      dsimp only
      rw [Function.update_of_ne (Ne.symm hgoes)]
  | fire acquired hn => exact List.prefix_refl _
  | attempt env hn => exact List.prefix_refl _

-- A process that goes on keeps its jobs.
theorem Timetable.Ok.jobs_goesOn (h : t.Ok e) {i : ι}
    (ht' : Reachable (Timetable.step e) (fun t a => t.Allowed a ∧ a.goesOn i) t t') :
    t'.Ok e ∧ (t.schedulers i).jobs <+: (t'.schedulers i).jobs := by
  refine ht'.invariant (I := fun t' => t'.Ok e ∧
    (t.schedulers i).jobs <+: (t'.schedulers i).jobs) ⟨h, List.prefix_refl _⟩ ?_
  rintro s a s' - ⟨hallowed, hgoes⟩ hstep ⟨hok, hgrows⟩
  exact ⟨hok.step hallowed hstep, hgrows.trans (hok.jobs_step i hgoes hstep)⟩

/-- While a scheduler process goes on, its jobs stay: no later load, whatever rows it finds and
whether it raises or not, removes a job, replaces it or gives a workflow a second one.  A job has
the timer that the definition of its workflow asks for. -/
theorem Timetable.jobs_kept (ht : Timetable.Reached e users t) (i : ι)
    (ht' : Reachable (Timetable.step e) (fun t a => t.Allowed a ∧ a.goesOn i) t t') :
    (t.schedulers i).jobs <+: (t'.schedulers i).jobs ∧
      (t'.schedulers i).jobs = (t'.schedulers i).added ∧
      ((t'.schedulers i).jobs.map Job.id).Nodup ∧
      ∀ j ∈ (t'.schedulers i).jobs, t'.db.Gives e.triggers j := by
  obtain ⟨hok, hgrows⟩ := ht.ok.jobs_goesOn ht'
  obtain ⟨hkept, hids, hgives⟩ := hok.schedulers i
  exact ⟨hgrows, hkept, hids, hgives⟩

theorem Timetable.step_definitions {action : TimetableAction ι}
    (hstep : t.step e action = some t') : t.db.definitions ⊆ t'.db.definitions := by
  cases Timetable.step_moves hstep with
  | request request => exact (handle_executions e.deployment t.db request).2.1
  | query i rows => exact List.Subset.refl _
  | abandon i => exact List.Subset.refl _
  | load hreading => exact List.Subset.refl _
  | restart i => exact List.Subset.refl _
  | fire acquired hn => exact List.Subset.refl _
  | @attempt n run env hn => exact (post_change (e.target run) env t.db).targets.1

/-- The row is stored, and a load of the process that has read any rows has read it. -/
def Timetable.Sees (i : ι) (row : ScheduleRow) (t : Timetable τ ι) : Prop :=
  row ∈ t.db.scheduleRows ∧ ∀ rows, t.reading i = some rows → row ∈ rows

-- Whatever a process reads after that, it sees the row again.
theorem Timetable.Sees.step {i : ι} {row : ScheduleRow} (h : t.Sees i row)
    {action : TimetableAction ι} (hallowed : t.Allowed action)
    (hstep : t.step e action = some t') : t'.Sees i row := by
  refine ⟨Database.scheduleRows_mono (Timetable.step_definitions hstep) h.1, ?_⟩
  have hother : ∀ (k : ι) (read : Option (List ScheduleRow)),
      (∀ rows, read = some rows → row ∈ rows) →
      ∀ rows, Function.update t.reading k read i = some rows → row ∈ rows := by
    intro k read hread rows hrows
    rcases update_cases hrows with ⟨-, hrows⟩ | ⟨-, hrows⟩
    · exact hread rows hrows
    · exact h.2 rows hrows
  cases Timetable.step_moves hstep with
  | request request => exact h.2
  | query k rows =>
      refine hother k _ fun _ hrows => ?_
      cases hrows
      exact hallowed.mem_iff.mpr h.1
  | abandon k => exact hother k none nofun
  | load hreading => exact hother _ none nofun
  | restart k => exact hother k none nofun
  | fire acquired hn => exact h.2
  | attempt env hn => exact h.2

-- A query reads the row.
theorem Timetable.sees_query {i : ι} {row : ScheduleRow} {rows : List ScheduleRow}
    (hrows : rows.Perm t.db.scheduleRows) (hstored : row ∈ t.db.scheduleRows)
    (hquery : t.step e (.query i rows) = some t') : t'.Sees i row := by
  cases Timetable.step_moves hquery with
  | query =>
      refine ⟨hstored, fun read hread => ?_⟩
      dsimp only at hread
      rw [Function.update_self] at hread
      cases hread
      exact hrows.mem_iff.mpr hstored

-- A load without an exception adds the job of a row that it has read, if it is not there.
theorem Timetable.Ok.job_of_load (h : t.Ok e) {i : ι} {rows : List ScheduleRow}
    (hread : t.reading i = some rows) (hok : (loadJobs e.triggers rows (t.schedulers i)).1 = .ok ())
    (hload : t.step e (.load i) = some t') {row : ScheduleRow} (hrow : row ∈ rows) {trigger : τ}
    (htrigger : buildTrigger e.triggers row.triggerConfig = .ok (some trigger)) :
    row.job trigger ∈ (t'.schedulers i).jobs := by
  cases Timetable.step_moves hload with
  | load hreading =>
      cases hread.symm.trans hreading
      dsimp only
      rw [Function.update_self]
      exact (h.schedulers i).load_complete h.sound.keyed (h.reading i rows hread) hok hrow htrigger

/-- A workflow with a valid schedule that is there at a query has exactly one job, with its timer
and its tenant, from the next load without an exception until the process restarts. -/
theorem Timetable.job_of_workflow (ht : Timetable.Reached e users t) (i : ι)
    {rows : List ScheduleRow} (hrows : rows.Perm t.db.scheduleRows) {t₁ t₂ t₃ : Timetable τ ι}
    (hquery : t.step e (.query i rows) = some t₁)
    (hgoes : Reachable (Timetable.step e) (fun t a => t.Allowed a ∧ a.goesOn i) t₁ t₂)
    {read : List ScheduleRow} (hread : t₂.reading i = some read)
    (hok : (loadJobs e.triggers read (t₂.schedulers i)).1 = .ok ())
    (hload : t₂.step e (.load i) = some t₃)
    (hgoes' : Reachable (Timetable.step e) (fun t a => t.Allowed a ∧ a.goesOn i) t₃ t')
    {d : ProcessDefinitionRow} (hd : d ∈ t.db.definitions) (hbound : d.id < uuidBound)
    (hscheduled : d.isScheduled = true) {trigger : τ}
    (htrigger : buildTrigger e.triggers d.triggerConfig = .ok (some trigger)) :
    ((t'.schedulers i).jobs.filter fun j => j.id = uuidStr d.id) =
      [⟨uuidStr d.id, trigger, d.id, d.tenantId⟩] := by
  obtain ⟨row, hrow⟩ : ∃ row : ScheduleRow, row = ⟨d.id, hbound, d.tenantId, d.triggerConfig⟩ :=
    ⟨_, rfl⟩
  have hallowed : t.Allowed (.query i rows) := hrows
  have ht₂ : Timetable.Reached e users t₂ :=
    (Reachable.next ht hallowed hquery).trans (hgoes.mono fun _ _ => And.left)
  have hstored : row ∈ t.db.scheduleRows :=
    hrow ▸ Database.mem_scheduleRows.mpr ⟨d, hd, hscheduled, rfl, rfl, rfl⟩
  have hsees : t₁.Sees i row := Timetable.sees_query hrows hstored hquery
  have hsees₂ : t₂.Sees i row :=
    hgoes.invariant hsees fun _ _ _ _ hallowed hstep h => h.step hallowed.1 hstep
  have hallowed₂ : t₂.Allowed (.load i) := trivial
  have ht₃ : Timetable.Reached e users t₃ := .next ht₂ hallowed₂ hload
  obtain ⟨hok', hgrows⟩ := ht₃.ok.jobs_goesOn hgoes'
  have hjob : row.job trigger ∈ (t'.schedulers i).jobs :=
    hgrows.subset (ht₂.ok.job_of_load hread hok hload (hsees₂.2 read hread) (hrow ▸ htrigger))
  have hjobs : row.job trigger ∈ (t'.schedulers i).jobs.filter fun j => j.id = uuidStr row.id :=
    List.mem_filter.mpr ⟨hjob, decide_eq_true rfl⟩
  have hfound : ((t'.schedulers i).jobs.find? fun j => j.id = uuidStr row.id) =
      some (row.job trigger) := by
    rw [filter_id_eq (hok'.schedulers i).ids] at hjobs
    exact Option.mem_toList.mp hjobs
  have hone := filter_id_eq (hok'.schedulers i).ids (uuidStr row.id)
  rw [hfound, hrow] at hone
  exact hone

/-- Every execution of the trigger type `schedule` is one of a workflow of its tenant that has a
schedule, while the schedulers alone know the secret. -/
theorem Timetable.scheduled_executions
    (ht : Reachable (Timetable.step e) (fun t a => t.Allowed a ∧ a.Outside e)
      (Timetable.start users) t) {x : ExecutionRow}
    (hx : x ∈ t.db.executions) (htype : x.triggerType = "schedule") :
    t.db.Scheduled x.processDefinitionId x.tenantId := by
  have hscheduled : t.db.OnlyScheduled := by
    refine ht.invariant (I := fun t => t.db.OnlyScheduled) (List.forall_mem_nil _) ?_
    intro s a s' hs hallowed hstep h
    have hok : s.Ok e := Timetable.Reached.ok (hs.mono fun _ _ => And.left)
    exact hok.onlyScheduled_step hallowed.2 hstep h
  exact hscheduled x hx htype

end Runs

/-! A workflow with a schedule, and two scheduler processes. -/

def timetableEnv : TimetableEnv (String ⊕ Int) := ⟨plainDeployment, fieldTriggers, "internal"⟩

abbrev Timetable.run (t : Timetable (String ⊕ Int) Bool) (actions : List (TimetableAction Bool)) :
    Option (Timetable (String ⊕ Int) Bool) :=
  runActions (Timetable.step timetableEnv) t actions

theorem often_accepted : validateSteps [⟨"often", "notify", [], .none, 60⟩] = [] := by decide

theorem skip_validOnError : "skip" ∈ validOnError := by decide

def createFiveMinutes : Request :=
  .createWorkflow healthySession ⟨100, 0, .ok (), .ok⟩ (developerOf 11 1)
    { steps := [⟨"often", "notify", [], .none, 60⟩], accepted := often_accepted, name := "often",
      trigger := [("type", .str "schedule"), ("interval_minutes", .int 5)], onError := "skip",
      validOnError := skip_validOnError }

def fiveMinutes : Timetable (String ⊕ Int) Bool :=
  ((Timetable.start twoTenants).run [.request createFiveMinutes]).getD (.start [])

/-- The first process reads the row. -/
def readFiveMinutes : Timetable (String ⊕ Int) Bool :=
  (fiveMinutes.run [.query true fiveMinutes.db.scheduleRows]).getD (.start [])

/-- It loads the job. -/
def loadedFiveMinutes : Timetable (String ⊕ Int) Bool :=
  (readFiveMinutes.run [.load true]).getD (.start [])

/-- The other process does, the job fires in both, one of them acquires the lock, and the other
restarts. -/
def firedActions : List (TimetableAction Bool) :=
  [.query false fiveMinutes.db.scheduleRows, .load false, .fire true 0 true, .fire false 0 false,
    .attempt 0 (answeredPost 200), .restart false, .query true fiveMinutes.db.scheduleRows,
    .load true]

def firedFiveMinutes : Timetable (String ⊕ Int) Bool :=
  (loadedFiveMinutes.run firedActions).getD (.start [])

theorem fiveMinutes_reached :
    Reachable (Timetable.step timetableEnv) (fun t a => t.Allowed a ∧ a.Outside timetableEnv)
      (Timetable.start twoTenants) fiveMinutes := by
  have hcreate : (Timetable.start twoTenants : Timetable (String ⊕ Int) Bool).Allowed
      (.request createFiveMinutes) := trivial
  exact .next .start ⟨hcreate, trivial⟩ rfl

theorem loadedFiveMinutes_reached :
    Reachable (Timetable.step timetableEnv) (fun t a => t.Allowed a ∧ a.Outside timetableEnv)
      (Timetable.start twoTenants) loadedFiveMinutes := by
  have hquery : fiveMinutes.Allowed (.query true fiveMinutes.db.scheduleRows) :=
    List.Perm.refl fiveMinutes.db.scheduleRows
  have hload : readFiveMinutes.Allowed (.load true) := trivial
  exact .next (.next fiveMinutes_reached ⟨hquery, trivial⟩ rfl) ⟨hload, trivial⟩ rfl

theorem firedActions_allowed :
    EachAllowed (Timetable.step timetableEnv)
      (fun t a => (t.Allowed a ∧ a.Outside timetableEnv) ∧ a.goesOn true) loadedFiveMinutes
      firedActions := by
  have hquery : ∀ (t : Timetable (String ⊕ Int) Bool) (i : Bool),
      t.db.definitions = fiveMinutes.db.definitions →
        t.Allowed (.query i fiveMinutes.db.scheduleRows) := by
    intro t i hdefinitions
    show fiveMinutes.db.scheduleRows.Perm t.db.scheduleRows
    rw [Database.scheduleRows, Database.scheduleRows, hdefinitions]
  have hplain : (True ∧ True) ∧ True := ⟨⟨trivial, trivial⟩, trivial⟩
  refine ⟨⟨⟨hquery _ _ rfl, trivial⟩, trivial⟩, fun t ht => ?_⟩
  cases ht
  refine ⟨hplain, fun t ht => ?_⟩
  cases ht
  refine ⟨hplain, fun t ht => ?_⟩
  cases ht
  refine ⟨hplain, fun t ht => ?_⟩
  cases ht
  refine ⟨hplain, fun t ht => ?_⟩
  cases ht
  refine ⟨⟨⟨trivial, trivial⟩, Bool.false_ne_true⟩, fun t ht => ?_⟩
  cases ht
  exact ⟨⟨⟨hquery _ _ rfl, trivial⟩, trivial⟩, fun _ _ => ⟨hplain, fun _ _ => trivial⟩⟩

theorem firedFiveMinutes_goesOn :
    Reachable (Timetable.step timetableEnv)
      (fun t a => (t.Allowed a ∧ a.Outside timetableEnv) ∧ a.goesOn true) loadedFiveMinutes
      firedFiveMinutes :=
  .of_eachAllowed .start firedActions_allowed rfl

theorem jobs_kept_fiveMinutes :
    (loadedFiveMinutes.schedulers true).jobs.map Job.trigger = [.inr 5] ∧
      (loadedFiveMinutes.schedulers true).jobs <+: (firedFiveMinutes.schedulers true).jobs ∧
      (firedFiveMinutes.schedulers true).jobs = (firedFiveMinutes.schedulers true).added :=
  have hkept := Timetable.jobs_kept (loadedFiveMinutes_reached.mono fun _ _ => And.left) true
    (firedFiveMinutes_goesOn.mono fun _ _ h => ⟨h.1.1, h.2⟩)
  ⟨rfl, hkept.1, hkept.2.1⟩

theorem job_of_workflow_fiveMinutes :
    ((firedFiveMinutes.schedulers true).jobs.filter fun j => j.id = uuidStr 100) =
      [⟨uuidStr 100, .inr 5, 100, 1⟩] := by
  obtain ⟨d, hdefinitions, hid, htenant, hconfig⟩ :
      ∃ d, fiveMinutes.db.definitions = [d] ∧ d.id = 100 ∧ d.tenantId = 1 ∧
        d.triggerConfig = [("type", .str "schedule"), ("interval_minutes", .int 5)] :=
    ⟨_, rfl, rfl, rfl, rfl⟩
  have hd : d ∈ fiveMinutes.db.definitions := hdefinitions ▸ List.mem_singleton_self d
  have hscheduled : d.isScheduled = true := by
    rw [ProcessDefinitionRow.isScheduled, hconfig]
    rfl
  have htrigger : buildTrigger timetableEnv.triggers d.triggerConfig = .ok (some (.inr 5)) := by
    rw [hconfig]
    rfl
  have hquery : fiveMinutes.step timetableEnv (.query true fiveMinutes.db.scheduleRows) =
      some readFiveMinutes := rfl
  have hjob := Timetable.job_of_workflow (fiveMinutes_reached.mono fun _ _ => And.left) true
    (.refl _) hquery .start rfl rfl rfl (firedFiveMinutes_goesOn.mono fun _ _ h => ⟨h.1.1, h.2⟩) hd
    (hid ▸ by decide) hscheduled htrigger
  rwa [hid, htenant] at hjob

theorem scheduled_executions_fiveMinutes :
    firedFiveMinutes.db.executions.map ExecutionRow.triggerType = ["schedule"] ∧
      ∀ x ∈ firedFiveMinutes.db.executions,
        firedFiveMinutes.db.Scheduled x.processDefinitionId x.tenantId := by
  have htypes : firedFiveMinutes.db.executions.map ExecutionRow.triggerType = ["schedule"] := rfl
  refine ⟨htypes, fun x hx => ?_⟩
  have htype : x.triggerType ∈ ["schedule"] := htypes ▸ List.mem_map_of_mem hx
  exact Timetable.scheduled_executions
    (loadedFiveMinutes_reached.trans (firedFiveMinutes_goesOn.mono fun _ _ => And.left)) hx
    (List.mem_singleton.mp htype)

end ConstructorPlatform
