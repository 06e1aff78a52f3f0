import Mathlib.Data.List.DropRight
import Mathlib.Data.Rat.Floor
import ConstructorPlatform.Events
import ConstructorPlatform.UuidText

/-!
# JobLoader — `src/job_loader.py`

`load_jobs` brings the jobs of the scheduler in line with the rows of the database: it removes the
jobs whose workflow is gone and adds the new ones.  A job that exists already is left alone, so its
timer goes on.  Over many loads the job of a workflow is the one that the first usable row has
given it since the workflow was last missing: `loads_synchronised`.
-/

namespace ConstructorPlatform

/-! ## 1. `_build_trigger` -/

/-- The package APScheduler, whose triggers are of type `τ`, and how Python reads an integer in a
string. -/
structure Triggers (τ : Type) where
  -- `CronTrigger.from_crontab(cron, timezone=timezone)`
  fromCrontab : Json → Json → Except PyExc τ
  -- `IntervalTrigger(minutes=minutes)`
  interval : Int → Except PyExc τ
  intOfStr : String → Option Int

variable {τ : Type}

/-- `int(value)`. -/
def Triggers.int (t : Triggers τ) : Json → Except PyExc Int
  | .int i => .ok i
  | .bool b => .ok (if b then 1 else 0)
  | .float q => .ok (if 0 ≤ q then ⌊q⌋ else ⌈q⌉)
  | .str s =>
      match t.intOfStr s with
      | some i => .ok i
      | none => .error ⟨.valueError, "invalid literal for int() with base 10: " ++ quoted s⟩
  | v => .error ⟨.typeError, "int() argument must be a string, a bytes-like object or a real " ++
      "number, not " ++ quoted v.typeName⟩

/-- `_build_trigger`; only the cron branch catches what its constructor raises. -/
def buildTrigger (t : Triggers τ) (triggerConfig : Dict) : Except PyExc (Option τ) :=
  match triggerConfig.lookup "cron" with
  | some cron =>
      match t.fromCrontab cron (triggerConfig.getOr "timezone" (.str "UTC")) with
      | .ok trigger => .ok (some trigger)
      | .error _ => .ok none
  | none =>
      match triggerConfig.lookup "interval_minutes" with
      | some minutes => do
          let minutes ← t.int minutes
          let trigger ← t.interval minutes
          return some trigger
      | none => .ok none

/-! ## 2. `load_jobs` -/

/-- A row of `_QUERY`. -/
structure ScheduleRow where
  id : UUID
  isUuid : id < uuidBound
  tenantId : UUID
  triggerConfig : Dict

/-- A job for `dispatch`, with its arguments but for the Redis client. -/
structure Job (τ : Type) where
  id : String
  trigger : τ
  workflowId : UUID
  tenantId : UUID

structure Scheduler (τ : Type) where
  jobs : List (Job τ)
  -- History: the calls of `add_job`, oldest first.
  added : List (Job τ)

def Scheduler.empty : Scheduler τ := ⟨[], []⟩

/-- `job.remove()`. -/
def Scheduler.removeJob (id : String) (s : Scheduler τ) : Scheduler τ :=
  { s with jobs := s.jobs.filter fun j => j.id ≠ id }

/-- `scheduler.add_job(..., replace_existing=True)`. -/
def Scheduler.addJob (job : Job τ) (s : Scheduler τ) : Scheduler τ :=
  { jobs := s.jobs.filter (fun j => j.id ≠ job.id) ++ [job], added := s.added ++ [job] }

/-- `for job in scheduler.get_jobs():`, on the jobs that it returned. -/
def removeMissing (dbIds : List String) : List (Job τ) → Scheduler τ → Scheduler τ
  | [], s => s
  | job :: rest, s =>
      removeMissing dbIds rest (if job.id ∈ dbIds then s else s.removeJob job.id)

def ScheduleRow.job (row : ScheduleRow) (trigger : τ) : Job τ :=
  ⟨uuidStr row.id, trigger, row.id, row.tenantId⟩

/-- `for row in rows:`. -/
def addNew (t : Triggers τ) (existingIds : List String) :
    List ScheduleRow → Scheduler τ → Except PyExc Unit × Scheduler τ
  | [], s => (.ok (), s)
  | row :: rest, s =>
      if uuidStr row.id ∈ existingIds then addNew t existingIds rest s
      else
        match buildTrigger t row.triggerConfig with
        | .error exc => (.error exc, s)
        | .ok none => addNew t existingIds rest s
        | .ok (some trigger) => addNew t existingIds rest (s.addJob (row.job trigger))

/-- `load_jobs` on the rows that the query returns. -/
def loadJobs (t : Triggers τ) (rows : List ScheduleRow) (s : Scheduler τ) :
    Except PyExc Unit × Scheduler τ :=
  let dbIds := rows.map fun row => uuidStr row.id
  let existingIds := s.jobs.map Job.id
  addNew t existingIds rows (removeMissing dbIds s.jobs s)

/-- One load after the other; what a load raises is logged. -/
def loads (t : Triggers τ) (lists : List (List ScheduleRow)) : Scheduler τ :=
  lists.foldl (fun s rows => (loadJobs t rows s).2) .empty

/-! ## 3. One load -/

/-- Rows whose ids are distinct and whose configs either build a trigger or are skipped. -/
structure Loadable (t : Triggers τ) (rows : List ScheduleRow) : Prop where
  distinct : (rows.map ScheduleRow.id).Nodup
  builds : ∀ row ∈ rows, ∃ trigger, buildTrigger t row.triggerConfig = .ok trigger

/-- The job that a row gives. -/
def ScheduleRow.build (t : Triggers τ) (row : ScheduleRow) : Option (Job τ) :=
  match buildTrigger t row.triggerConfig with
  | .ok trigger => trigger.map row.job
  | .error _ => none

/-- The job that a list of rows gives a workflow. -/
def jobOf (t : Triggers τ) (w : UUID) (rows : List ScheduleRow) : Option (Job τ) :=
  (rows.find? fun row => row.id = w).bind (ScheduleRow.build t)

def Lists (w : UUID) (rows : List ScheduleRow) : Bool := decide (w ∈ rows.map ScheduleRow.id)

def Scheduler.jobFor (w : UUID) (s : Scheduler τ) : Option (Job τ) :=
  s.jobs.find? fun j => j.id = uuidStr w

theorem removeMissing_eq (dbIds : List String) (snapshot : List (Job τ)) (s : Scheduler τ) :
    removeMissing dbIds snapshot s =
      { s with jobs := s.jobs.filter fun j =>
          decide (j.id ∈ dbIds ∨ j.id ∉ snapshot.map Job.id) } := by
  induction snapshot generalizing s with
  | nil => simp [removeMissing]
  | cons job rest ih =>
      rw [removeMissing, ih]
      split
      · rename_i hmem
        congr 1
        apply List.filter_congr
        intro j _
        by_cases hj : j.id = job.id
        · simp [hj, hmem]
        · simp [hj]
      · rename_i hmem
        simp only [Scheduler.removeJob, List.filter_filter]
        congr 1
        apply List.filter_congr
        intro j _
        by_cases hj : j.id = job.id
        · simp [hj, hmem]
        · simp [hj]

/-- The job that is added for a row. -/
def ScheduleRow.newJob (t : Triggers τ) (existingIds : List String) (row : ScheduleRow) :
    Option (Job τ) :=
  if uuidStr row.id ∈ existingIds then none else row.build t

def newJobs (t : Triggers τ) (existingIds : List String) (rows : List ScheduleRow) : List (Job τ) :=
  rows.filterMap (ScheduleRow.newJob t existingIds)

theorem Loadable.tail {t : Triggers τ} {row : ScheduleRow} {rest : List ScheduleRow}
    (h : Loadable t (row :: rest)) : Loadable t rest where
  distinct := (List.nodup_cons.mp h.distinct).2
  builds r hr := h.builds r (List.mem_cons_of_mem row hr)

-- Rows with distinct ids have jobs with distinct ids.
theorem ScheduleRow.uuidStr_ne {row : ScheduleRow} {rest : List ScheduleRow}
    (hdistinct : ((row :: rest).map ScheduleRow.id).Nodup) {other : ScheduleRow}
    (hother : other ∈ rest) : uuidStr row.id ≠ uuidStr other.id := by
  intro hid
  have hsame := uuidStr_inj row.isUuid other.isUuid hid
  exact (List.nodup_cons.mp hdistinct).1 (hsame ▸ List.mem_map_of_mem hother)

theorem Loadable.ids_nodup {t : Triggers τ} {rows : List ScheduleRow} (h : Loadable t rows) :
    (rows.map fun row => uuidStr row.id).Nodup := by
  induction rows with
  | nil => exact List.nodup_nil
  | cons row rest ih =>
      refine List.nodup_cons.mpr ⟨fun hmem => ?_, ih h.tail⟩
      obtain ⟨other, hother, hid⟩ := List.mem_map.mp hmem
      exact ScheduleRow.uuidStr_ne h.distinct hother hid.symm

-- The loop over the rows appends a job for each new row that builds one; it replaces none.
theorem addNew_eq {t : Triggers τ} {existingIds : List String} {rows : List ScheduleRow}
    (hrows : Loadable t rows) {s : Scheduler τ}
    (hjobs : ∀ j ∈ s.jobs, ∀ row ∈ rows, j.id = uuidStr row.id → j.id ∈ existingIds) :
    addNew t existingIds rows s = (.ok (), ⟨s.jobs ++ newJobs t existingIds rows,
      s.added ++ newJobs t existingIds rows⟩) := by
  induction rows generalizing s with
  | nil => simp [addNew, newJobs]
  | cons row rest ih =>
      have hrest : ∀ j ∈ s.jobs, ∀ r ∈ rest, j.id = uuidStr r.id → j.id ∈ existingIds :=
        fun j hj r hr => hjobs j hj r (List.mem_cons_of_mem row hr)
      rw [addNew]
      split
      · rename_i hmem
        have hnone : row.newJob t existingIds = none := if_pos hmem
        rw [ih hrows.tail hrest, newJobs, newJobs, List.filterMap_cons_none hnone]
      · rename_i hnew
        obtain ⟨trigger, htrigger⟩ := hrows.builds row List.mem_cons_self
        rw [htrigger]
        cases trigger with
        | none =>
            have hnone : row.newJob t existingIds = none := by
              rw [ScheduleRow.newJob, if_neg hnew, ScheduleRow.build, htrigger]
              rfl
            rw [newJobs, List.filterMap_cons_none hnone]
            exact ih hrows.tail hrest
        | some trigger =>
            have hsome : row.newJob t existingIds = some (row.job trigger) := by
              rw [ScheduleRow.newJob, if_neg hnew, ScheduleRow.build, htrigger]
              rfl
            have hkept : s.jobs.filter (fun j => j.id ≠ (row.job trigger).id) = s.jobs := by
              rw [List.filter_eq_self]
              intro j hj
              refine decide_eq_true fun hid => hnew ?_
              have hmem := hjobs j hj row List.mem_cons_self hid
              rwa [hid] at hmem
            have hadded : ∀ j ∈ (s.addJob (row.job trigger)).jobs, ∀ r ∈ rest,
                j.id = uuidStr r.id → j.id ∈ existingIds := by
              intro j hj r hr hid
              rw [Scheduler.addJob, hkept] at hj
              rcases List.mem_append.mp hj with hj | hj
              · exact hrest j hj r hr hid
              · rw [List.mem_singleton.mp hj] at hid
                exact absurd hid (ScheduleRow.uuidStr_ne hrows.distinct hr)
            show addNew t existingIds rest (s.addJob (row.job trigger)) = _
            rw [ih hrows.tail hadded, newJobs, newJobs, List.filterMap_cons_some hsome]
            simp only [Scheduler.addJob, hkept, List.append_assoc, List.singleton_append]

/-- A load of loadable rows: the jobs of the rows stay, and the new ones are added. -/
theorem loadJobs_eq {t : Triggers τ} {rows : List ScheduleRow} (hrows : Loadable t rows)
    (s : Scheduler τ) :
    loadJobs t rows s = (.ok (),
      ⟨s.jobs.filter (fun j => decide (j.id ∈ rows.map fun row => uuidStr row.id)) ++
          newJobs t (s.jobs.map Job.id) rows,
        s.added ++ newJobs t (s.jobs.map Job.id) rows⟩) := by
  have hmissing : removeMissing (rows.map fun row => uuidStr row.id) s.jobs s =
      { s with jobs := s.jobs.filter fun j =>
          decide (j.id ∈ rows.map fun row => uuidStr row.id) } := by
    rw [removeMissing_eq]
    congr 1
    apply List.filter_congr
    intro j hj
    rw [decide_eq_decide, or_iff_left (not_not_intro (List.mem_map_of_mem hj))]
  rw [loadJobs, hmissing, addNew_eq hrows]
  intro j hj row _ _
  exact List.mem_map_of_mem (List.mem_of_mem_filter hj)

theorem ScheduleRow.build_id {t : Triggers τ} {row : ScheduleRow} {job : Job τ}
    (h : row.build t = some job) : job.id = uuidStr row.id := by
  unfold ScheduleRow.build at h
  split at h
  · obtain ⟨trigger, -, rfl⟩ := Option.map_eq_some_iff.mp h
    rfl
  · cases h

theorem ScheduleRow.newJob_id {t : Triggers τ} {existingIds : List String} {row : ScheduleRow}
    {job : Job τ} (h : row.newJob t existingIds = some job) : job.id = uuidStr row.id := by
  unfold ScheduleRow.newJob at h
  split at h
  · cases h
  · exact build_id h

theorem jobOf_eq_none {t : Triggers τ} {w : UUID} {rows : List ScheduleRow}
    (h : w ∉ rows.map ScheduleRow.id) : jobOf t w rows = none := by
  have hnone : (rows.find? fun row => row.id = w) = none := by
    rw [List.find?_eq_none]
    intro row hrow hid
    exact h (List.mem_map.mpr ⟨row, hrow, of_decide_eq_true hid⟩)
  rw [jobOf, hnone]
  rfl

-- The job that the new jobs hold for a workflow.
theorem newJobs_find {t : Triggers τ} {existingIds : List String} {rows : List ScheduleRow}
    (hrows : Loadable t rows) {w : UUID} (hw : w < uuidBound) :
    (newJobs t existingIds rows).find? (fun j => j.id = uuidStr w) =
      if uuidStr w ∈ existingIds then none else jobOf t w rows := by
  induction rows with
  | nil => simp [newJobs, jobOf]
  | cons row rest ih =>
      have hrest := ih hrows.tail
      by_cases hid : row.id = w
      · have hjobOf : jobOf t w (row :: rest) = row.build t := by
          rw [jobOf, List.find?_cons_of_pos (by simpa using hid)]
          rfl
        have hgone : jobOf t w rest = none :=
          jobOf_eq_none (hid ▸ (List.nodup_cons.mp hrows.distinct).1)
        rw [hgone, ite_self] at hrest
        rw [hjobOf, ← hid]
        show _ = row.newJob t existingIds
        cases hjob : row.newJob t existingIds with
        | none => rw [newJobs, List.filterMap_cons_none hjob, hid]; exact hrest
        | some job =>
            rw [newJobs, List.filterMap_cons_some hjob, List.find?_cons_of_pos]
            exact decide_eq_true (ScheduleRow.newJob_id hjob)
      · have hjobOf : jobOf t w (row :: rest) = jobOf t w rest := by
          rw [jobOf, List.find?_cons_of_neg (by simpa using hid)]
          rfl
        rw [hjobOf, ← hrest]
        cases hjob : row.newJob t existingIds with
        | none => rw [newJobs, List.filterMap_cons_none hjob]; rfl
        | some job =>
            rw [newJobs, List.filterMap_cons_some hjob, List.find?_cons_of_neg]
            · rfl
            · intro hsame
              have hjobId := (ScheduleRow.newJob_id hjob).symm.trans (of_decide_eq_true hsame)
              exact hid (uuidStr_inj row.isUuid hw hjobId)

/-! ## 4. What a load does to the job of a workflow -/

/-- The calls of `add_job` for a workflow. -/
def Scheduler.addedFor (w : UUID) (s : Scheduler τ) : List (Job τ) :=
  s.added.filter fun j => j.id = uuidStr w

theorem mem_ids_iff (rows : List ScheduleRow) {w : UUID} (hw : w < uuidBound) :
    uuidStr w ∈ (rows.map fun row => uuidStr row.id) ↔ w ∈ rows.map ScheduleRow.id := by
  simp only [List.mem_map]
  constructor
  · rintro ⟨row, hrow, hid⟩
    exact ⟨row, hrow, uuidStr_inj row.isUuid hw hid⟩
  · rintro ⟨row, hrow, rfl⟩
    exact ⟨row, hrow, rfl⟩

theorem mem_jobIds_iff {s : Scheduler τ} {w : UUID} :
    uuidStr w ∈ s.jobs.map Job.id ↔ (s.jobFor w).isSome = true := by
  rw [Scheduler.jobFor, List.find?_isSome, List.mem_map]
  simp only [decide_eq_true_eq]

-- The jobs that stay.
theorem find_filter_jobs {rows : List ScheduleRow} {w : UUID} (hw : w < uuidBound)
    (jobs : List (Job τ)) :
    (jobs.filter fun j => decide (j.id ∈ rows.map fun row => uuidStr row.id)).find?
        (fun j => j.id = uuidStr w) =
      if w ∈ rows.map ScheduleRow.id then jobs.find? fun j => j.id = uuidStr w else none := by
  have hmem := mem_ids_iff rows hw
  generalize uuidStr w = id at hmem ⊢
  rw [List.find?_filter]
  split
  · rename_i hrow
    congr 1
    funext j
    by_cases hj : j.id = id
    · simp only [hj, hmem.mpr hrow, decide_true, and_self]
    · simp only [hj, decide_false, Bool.false_eq_true, and_false]
  · rename_i hgone
    rw [List.find?_eq_none]
    intro j _ hj
    simp only [decide_eq_true_eq] at hj
    exact hgone (hmem.mp (hj.2 ▸ hj.1))

/-- The job of a workflow that is in the rows is kept, or comes from its row. -/
theorem loadJobs_jobFor {t : Triggers τ} {rows : List ScheduleRow} (hrows : Loadable t rows)
    (s : Scheduler τ) {w : UUID} (hw : w < uuidBound) :
    (loadJobs t rows s).2.jobFor w =
      if w ∈ rows.map ScheduleRow.id then (s.jobFor w).or (jobOf t w rows) else none := by
  have hexisting := mem_jobIds_iff (s := s) (w := w)
  rw [loadJobs_eq hrows, Scheduler.jobFor, List.find?_append, newJobs_find hrows hw,
    find_filter_jobs hw]
  split
  · rw [← Scheduler.jobFor]
    cases hjob : s.jobFor w with
    | some job => rw [Option.some_or, Option.some_or]
    | none =>
        rw [if_neg]
        rw [hexisting, hjob]
        exact Bool.false_ne_true
  · rename_i hgone
    rw [jobOf_eq_none hgone, ite_self, Option.or_none]

theorem newJobs_ids (t : Triggers τ) (existingIds : List String) (rows : List ScheduleRow) :
    ((newJobs t existingIds rows).map Job.id).Sublist (rows.map fun row => uuidStr row.id) := by
  induction rows with
  | nil => exact List.Sublist.refl []
  | cons row rest ih =>
      cases hjob : row.newJob t existingIds with
      | none =>
          rw [newJobs, List.filterMap_cons_none hjob]
          exact ih.cons _
      | some job =>
          rw [newJobs, List.filterMap_cons_some hjob, List.map_cons, ScheduleRow.newJob_id hjob]
          exact ih.cons_cons _

theorem newJobs_nodup {t : Triggers τ} {existingIds : List String} {rows : List ScheduleRow}
    (hrows : Loadable t rows) : ((newJobs t existingIds rows).map Job.id).Nodup :=
  (newJobs_ids t existingIds rows).nodup hrows.ids_nodup

theorem newJobs_not_existing {t : Triggers τ} {existingIds : List String}
    {rows : List ScheduleRow} {job : Job τ} (h : job ∈ newJobs t existingIds rows) :
    job.id ∉ existingIds := by
  obtain ⟨row, -, hjob⟩ := List.mem_filterMap.mp h
  have hid := ScheduleRow.newJob_id hjob
  unfold ScheduleRow.newJob at hjob
  split at hjob
  · cases hjob
  · rename_i hnew
    rwa [hid]

-- Among jobs with distinct ids at most one is the job of a workflow.
theorem filter_id_eq {jobs : List (Job τ)} (h : (jobs.map Job.id).Nodup) (id : String) :
    jobs.filter (fun j => j.id = id) = (jobs.find? fun j => j.id = id).toList := by
  induction jobs with
  | nil => rfl
  | cons job rest ih =>
      obtain ⟨hjob, hrest⟩ := List.nodup_cons.mp h
      by_cases hid : job.id = id
      · have hnone : rest.filter (fun j => j.id = id) = [] := by
          rw [List.filter_eq_nil_iff]
          intro other hother hsame
          exact hjob (hid.trans (of_decide_eq_true hsame).symm ▸ List.mem_map_of_mem hother)
        rw [List.filter_cons_of_pos (by simpa using hid),
          List.find?_cons_of_pos (by simpa using hid), hnone]
        rfl
      · rw [List.filter_cons_of_neg (by simpa using hid),
          List.find?_cons_of_neg (by simpa using hid)]
        exact ih hrest

/-- It is added when there was none. -/
theorem loadJobs_addedFor {t : Triggers τ} {rows : List ScheduleRow} (hrows : Loadable t rows)
    (s : Scheduler τ) {w : UUID} (hw : w < uuidBound) :
    (loadJobs t rows s).2.addedFor w =
      s.addedFor w ++ if (s.jobFor w).isSome then [] else (jobOf t w rows).toList := by
  have hexisting := mem_jobIds_iff (s := s) (w := w)
  rw [loadJobs_eq hrows, Scheduler.addedFor, List.filter_append,
    filter_id_eq (newJobs_nodup hrows), newJobs_find hrows hw, ← Scheduler.addedFor]
  simp only [hexisting]
  split <;> rfl

/-! ## 5. Many loads -/

theorem loads_append (t : Triggers τ) (lists : List (List ScheduleRow)) (rows : List ScheduleRow) :
    loads t (lists ++ [rows]) = (loadJobs t rows (loads t lists)).2 := by
  rw [loads, List.foldl_append]
  rfl

section Runs

variable {t : Triggers τ} {lists : List (List ScheduleRow)}

/-- The job of a workflow after any number of loads. -/
theorem loads_jobFor (hlists : ∀ rows ∈ lists, Loadable t rows) {w : UUID} (hw : w < uuidBound) :
    (loads t lists).jobFor w = (lists.rtakeWhile (Lists w)).findSome? (jobOf t w) := by
  induction lists using List.reverseRecOn with
  | nil => rfl
  | append_singleton lists rows ih =>
      obtain ⟨hbefore, hrows⟩ := List.forall_mem_append.mp hlists
      rw [loads_append, loadJobs_jobFor (hrows rows List.mem_cons_self) _ hw, ih hbefore]
      by_cases hmem : w ∈ rows.map ScheduleRow.id
      · have hlisted : Lists w rows = true := decide_eq_true hmem
        rw [if_pos hmem, List.rtakeWhile_concat_pos _ _ _ hlisted, List.findSome?_append,
          List.findSome?_singleton]
      · rw [if_neg hmem, List.rtakeWhile_concat_neg _ _ _ (by simpa [Lists] using hmem)]
        rfl

/-- Every job is under its own workflow's id, and no two are under one. -/
theorem loads_jobs (hlists : ∀ rows ∈ lists, Loadable t rows) :
    ((loads t lists).jobs.map Job.id).Nodup ∧
      ∀ job ∈ (loads t lists).jobs,
        job.workflowId < uuidBound ∧ job.id = uuidStr job.workflowId := by
  induction lists using List.reverseRecOn with
  | nil => exact ⟨List.nodup_nil, fun _ h => nomatch h⟩
  | append_singleton lists rows ih =>
      obtain ⟨hbefore, hrows⟩ := List.forall_mem_append.mp hlists
      obtain ⟨hnodup, hids⟩ := ih hbefore
      have hload := hrows rows List.mem_cons_self
      rw [loads_append, loadJobs_eq hload]
      constructor
      · show List.Nodup (List.map Job.id (_ ++ _))
        rw [List.map_append, List.nodup_append]
        refine ⟨hnodup.sublist (List.filter_sublist.map _), newJobs_nodup hload, ?_⟩
        rintro id hkept _ hnew rfl
        obtain ⟨job, hjob, rfl⟩ := List.mem_map.mp hnew
        refine newJobs_not_existing hjob ?_
        exact (List.filter_sublist.map Job.id).subset hkept
      · intro job hjob
        rcases List.mem_append.mp hjob with hkept | hnew
        · exact hids job (List.mem_of_mem_filter hkept)
        · obtain ⟨row, -, hnew⟩ := List.mem_filterMap.mp hnew
          unfold ScheduleRow.newJob ScheduleRow.build at hnew
          split at hnew
          · cases hnew
          · split at hnew
            · obtain ⟨trigger, -, rfl⟩ := Option.map_eq_some_iff.mp hnew
              exact ⟨row.isUuid, rfl⟩
            · cases hnew

-- The lists since the workflow was last missing, when the last of them are known to have it.
theorem rtakeWhile_lists_append {w : UUID} {later : List (List ScheduleRow)}
    (before : List (List ScheduleRow)) (h : ∀ r ∈ later, w ∈ r.map ScheduleRow.id) :
    (before ++ later).rtakeWhile (Lists w) = before.rtakeWhile (Lists w) ++ later := by
  induction later using List.reverseRecOn with
  | nil => rw [List.append_nil, List.append_nil]
  | append_singleton later rows ih =>
      obtain ⟨hlater, hrows⟩ := List.forall_mem_append.mp h
      have hlisted : Lists w rows = true := decide_eq_true (hrows rows List.mem_cons_self)
      rw [← List.append_assoc, List.rtakeWhile_concat_pos _ _ _ hlisted, ih hlater,
        List.append_assoc]

theorem loads_jobFor_first {w : UUID} (hw : w < uuidBound) {before rest : List (List ScheduleRow)}
    {rows : List ScheduleRow} {job : Job τ}
    (hlists : ∀ r ∈ before ++ rows :: rest, Loadable t r)
    (hstays : ∀ r ∈ rows :: rest, w ∈ r.map ScheduleRow.id)
    (hnone : ∀ r ∈ before.rtakeWhile (Lists w), jobOf t w r = none)
    (hjob : jobOf t w rows = some job) :
    (loads t (before ++ rows :: rest)).jobFor w = some job := by
  rw [loads_jobFor hlists hw, rtakeWhile_lists_append before hstays, List.findSome?_append,
    List.findSome?_eq_none_iff.mpr hnone, List.findSome?_cons_of_isSome (by rw [hjob]; rfl), hjob]
  rfl

/-- From the first list that gives a job on, there is one call of `add_job` for the workflow. -/
theorem loads_addedFor_first {w : UUID} (hw : w < uuidBound)
    {before rest : List (List ScheduleRow)} {rows : List ScheduleRow} {job : Job τ}
    (hlists : ∀ r ∈ before ++ rows :: rest, Loadable t r)
    (hstays : ∀ r ∈ rows :: rest, w ∈ r.map ScheduleRow.id)
    (hnone : ∀ r ∈ before.rtakeWhile (Lists w), jobOf t w r = none)
    (hjob : jobOf t w rows = some job) :
    (loads t (before ++ rows :: rest)).addedFor w = (loads t before).addedFor w ++ [job] := by
  induction rest using List.reverseRecOn with
  | nil =>
      obtain ⟨hbefore, hrows⟩ := List.forall_mem_append.mp hlists
      have hnew : (loads t before).jobFor w = none := by
        rw [loads_jobFor hbefore hw, List.findSome?_eq_none_iff]
        exact hnone
      rw [loads_append, loadJobs_addedFor (hrows rows List.mem_cons_self) _ hw, hnew, hjob]
      rfl
  | append_singleton rest last ih =>
      rw [← List.cons_append, ← List.append_assoc] at hlists ⊢
      obtain ⟨hbefore, hlast⟩ := List.forall_mem_append.mp hlists
      have hrest : ∀ r ∈ rows :: rest, w ∈ r.map ScheduleRow.id :=
        fun r hr => hstays r (List.mem_append_left [last] hr)
      rw [loads_append, loadJobs_addedFor (hlast last List.mem_cons_self) _ hw,
        loads_jobFor_first hw hbefore hrest hnone hjob, ih hbefore hrest]
      exact List.append_nil _

-- A load that finds no job to remove and none to add.
theorem loadJobs_eq_self {rows : List ScheduleRow} (hrows : Loadable t rows) {s : Scheduler τ}
    (hlisted : ∀ job ∈ s.jobs, job.id ∈ rows.map fun row => uuidStr row.id)
    (hgiven : ∀ row ∈ rows, ∀ job, row.build t = some job →
      uuidStr row.id ∈ s.jobs.map Job.id) :
    loadJobs t rows s = (.ok (), s) := by
  have hkept : s.jobs.filter (fun j => decide (j.id ∈ rows.map fun row => uuidStr row.id)) =
      s.jobs := by
    rw [List.filter_eq_self]
    exact fun job hjob => decide_eq_true (hlisted job hjob)
  have hnone : newJobs t (s.jobs.map Job.id) rows = [] := by
    rw [newJobs, List.filterMap_eq_nil_iff]
    intro row hrow
    rw [ScheduleRow.newJob]
    split
    · rfl
    · rename_i hnew
      cases hbuild : row.build t with
      | none => rfl
      | some job => exact absurd (hgiven row hrow job hbuild) hnew
  rw [loadJobs_eq hrows, hkept, hnone, List.append_nil, List.append_nil]

/-- A load that follows a load of the same rows changes nothing. -/
theorem loadJobs_repeated {rows : List ScheduleRow} (hrows : Loadable t rows) (s : Scheduler τ) :
    loadJobs t rows (loadJobs t rows s).2 = (.ok (), (loadJobs t rows s).2) := by
  apply loadJobs_eq_self hrows
  · rw [loadJobs_eq hrows]
    intro job hjob
    rcases List.mem_append.mp hjob with hkept | hnew
    · exact of_decide_eq_true (List.mem_filter.mp hkept).2
    · exact (newJobs_ids t _ rows).subset (List.mem_map_of_mem hnew)
  · intro row hrow job hbuild
    have hid : uuidStr row.id ∈ rows.map fun row => uuidStr row.id := List.mem_map_of_mem hrow
    rw [loadJobs_eq hrows]
    by_cases hold : uuidStr row.id ∈ s.jobs.map Job.id
    · obtain ⟨other, hother, hsame⟩ := List.mem_map.mp hold
      have hkept : other ∈ s.jobs.filter fun j =>
          decide (j.id ∈ rows.map fun row => uuidStr row.id) :=
        List.mem_filter.mpr ⟨hother, decide_eq_true (hsame ▸ hid)⟩
      exact List.mem_map.mpr ⟨other, List.mem_append_left _ hkept, hsame⟩
    · have hnew : row.newJob t (s.jobs.map Job.id) = some job := by
        rw [ScheduleRow.newJob, if_neg hold, hbuild]
      have hadded := List.mem_filterMap.mpr ⟨row, hrow, hnew⟩
      exact List.mem_map.mpr
        ⟨job, List.mem_append_right _ hadded, ScheduleRow.build_id hbuild⟩

end Runs

/-- What the scheduler holds after loading the lists one after the other. -/
structure Synchronised (t : Triggers τ) (lists : List (List ScheduleRow)) : Prop where
  -- Every job is under the id of its workflow, which has no other job.
  unique : ((loads t lists).jobs.map Job.id).Nodup ∧
    ∀ job ∈ (loads t lists).jobs, job.workflowId < uuidBound ∧ job.id = uuidStr job.workflowId
  -- A workflow has a job iff it is in the last list and, since it was last missing, one list has
  -- a config for it that builds.
  present : ∀ w, w < uuidBound →
    ((∃ job ∈ (loads t lists).jobs, job.id = uuidStr w) ↔
      (∃ rows, lists.getLast? = some rows ∧ w ∈ rows.map ScheduleRow.id) ∧
        ∃ rows ∈ lists.rtakeWhile (Lists w), (jobOf t w rows).isSome = true)
  -- The job is the one that the first such list gives, and it was added once.
  first : ∀ w, w < uuidBound → ∀ before rows rest job, lists = before ++ rows :: rest →
    (∀ r ∈ rows :: rest, w ∈ r.map ScheduleRow.id) →
    (∀ r ∈ before.rtakeWhile (Lists w), jobOf t w r = none) → jobOf t w rows = some job →
    job ∈ (loads t lists).jobs ∧ job.id = uuidStr w ∧
      (loads t lists).addedFor w = (loads t before).addedFor w ++ [job]
  -- The same rows once more change nothing.
  repeated : ∀ rows, lists.getLast? = some rows → loads t (lists ++ [rows]) = loads t lists

theorem loads_present {t : Triggers τ} {lists : List (List ScheduleRow)}
    (hlists : ∀ rows ∈ lists, Loadable t rows) {w : UUID} (hw : w < uuidBound) :
    (∃ job ∈ (loads t lists).jobs, job.id = uuidStr w) ↔
      (∃ rows, lists.getLast? = some rows ∧ w ∈ rows.map ScheduleRow.id) ∧
        ∃ rows ∈ lists.rtakeWhile (Lists w), (jobOf t w rows).isSome = true := by
  have hjob : (∃ job ∈ (loads t lists).jobs, job.id = uuidStr w) ↔
      ∃ rows ∈ lists.rtakeWhile (Lists w), (jobOf t w rows).isSome = true := by
    rw [← List.findSome?_isSome_iff, ← loads_jobFor hlists hw, ← mem_jobIds_iff, List.mem_map]
  rw [hjob, iff_and_self]
  rintro ⟨rows, hrows, -⟩
  -- The lists since `w` was last missing are not empty, so the last list has `w`.
  induction lists using List.reverseRecOn with
  | nil => cases hrows
  | append_singleton lists last _ =>
      refine ⟨last, List.getLast?_concat, ?_⟩
      by_contra hgone
      have hmissing : ¬ Lists w last = true := fun h => hgone (of_decide_eq_true h)
      rw [List.rtakeWhile_concat_neg _ _ _ hmissing] at hrows
      cases hrows

/-- Job synchronisation over any number of loads. -/
theorem loads_synchronised (t : Triggers τ) (lists : List (List ScheduleRow))
    (hlists : ∀ rows ∈ lists, Loadable t rows) : Synchronised t lists where
  unique := loads_jobs hlists
  present _ hw := loads_present hlists hw
  first w hw before rows rest job hsplit hstays hnone hjob := by
    subst hsplit
    have hfound := loads_jobFor_first hw hlists hstays hnone hjob
    refine ⟨List.mem_of_find?_eq_some hfound, ?_, loads_addedFor_first hw hlists hstays hnone hjob⟩
    exact of_decide_eq_true
      (List.find?_some (p := fun j : Job τ => decide (j.id = uuidStr w)) hfound)
  repeated rows hlast := by
    obtain ⟨before, rfl⟩ := List.getLast?_eq_some_iff.mp hlast
    have hrows := hlists rows (List.mem_append_right before List.mem_cons_self)
    rw [loads_append, loads_append, loadJobs_repeated hrows]

/-! ## 6. A workflow whose schedule is corrected, and changed again -/

/-- Crontabs with a wrong number of fields are refused; the trigger is the crontab, or the number
of minutes. -/
def fieldTriggers : Triggers (String ⊕ Int) where
  fromCrontab cron _ :=
    match cron with
    | .str s =>
        if (s.toList.filter fun c => c = ' ').length = 4 then .ok (.inl s)
        else .error ⟨.valueError, "Wrong number of fields"⟩
    | _ => .error ⟨.attributeError, "object has no attribute 'split'"⟩
  interval minutes := .ok (.inr minutes)
  intOfStr := String.toInt?

def scheduled (w : UUID) (isUuid : w < uuidBound) (triggerConfig : Dict) : List ScheduleRow :=
  [⟨w, isUuid, 1, triggerConfig⟩]

def correctedSchedules : List (List ScheduleRow) :=
  [scheduled 7 (by decide) [("cron", .str "0 2 * *")],
    scheduled 7 (by decide) [("cron", .str "0 2 * * *")],
    scheduled 7 (by decide) [("interval_minutes", .int 5)]]

theorem loads_synchronised_corrected :
    Synchronised fieldTriggers correctedSchedules ∧
      (loads fieldTriggers correctedSchedules).jobs.map Job.trigger = [.inl "0 2 * * *"] := by
  refine ⟨loads_synchronised fieldTriggers correctedSchedules ?_, by decide +kernel⟩
  intro rows hrows
  simp only [correctedSchedules, List.mem_cons, List.not_mem_nil, or_false] at hrows
  rcases hrows with rfl | rfl | rfl
  · exact ⟨by decide, fun row hrow => ⟨none, by rw [List.mem_singleton.mp hrow]; rfl⟩⟩
  · exact ⟨by decide, fun row hrow => ⟨some (.inl "0 2 * * *"), by
      rw [List.mem_singleton.mp hrow]; rfl⟩⟩
  · exact ⟨by decide, fun row hrow => ⟨some (.inr 5), by rw [List.mem_singleton.mp hrow]; rfl⟩⟩

end ConstructorPlatform
