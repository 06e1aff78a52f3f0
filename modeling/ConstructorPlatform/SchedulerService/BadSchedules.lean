import ConstructorPlatform.SchedulerService.JobLoader

/-!
# BadSchedules — a row that `load_jobs` cannot build a trigger for

`_build_trigger` catches what `CronTrigger.from_crontab` raises and gives up on the row.  What
`int` and `IntervalTrigger` raise goes through `load_jobs`, whose loop ends there:
`addNew_stops`.  A load leaves no valid row behind exactly when no row without a job holds such an
interval: `loadJobs_isolates_iff`.
-/

namespace ConstructorPlatform

variable {τ : Type}

/-! ## 1. The configs that `_build_trigger` raises on -/

/-- A config without a crontab, with an interval that `int` or `IntervalTrigger` refuses. -/
def RefusesInterval (t : Triggers τ) (triggerConfig : Dict) : Prop :=
  triggerConfig.lookup "cron" = none ∧
    ∃ minutes, triggerConfig.lookup "interval_minutes" = some minutes ∧
      ∀ trigger, (t.int minutes >>= t.interval) ≠ .ok trigger

theorem buildTrigger_error_iff (t : Triggers τ) (triggerConfig : Dict) :
    (∃ exc, buildTrigger t triggerConfig = .error exc) ↔ RefusesInterval t triggerConfig := by
  unfold buildTrigger RefusesInterval
  cases hcron : triggerConfig.lookup "cron" with
  | some cron =>
      -- The crontab's own errors are caught.
      cases hbuilt : t.fromCrontab cron (triggerConfig.getOr "timezone" (.str "UTC")) <;>
        simp [hbuilt]
  | none =>
      cases hminutes : triggerConfig.lookup "interval_minutes" with
      | none => simp
      | some minutes =>
          cases hint : t.int minutes with
          | error exc => simp [hint, Bind.bind, Except.bind]
          | ok n =>
              cases htrigger : t.interval n <;>
                simp [hint, htrigger, Bind.bind, Except.bind, pure, Except.pure]

/-! ## 2. The loop over the rows -/

section Loop

variable {t : Triggers τ} {existingIds : List String}

-- A step of the loop on a row that has no job yet.
theorem addNew_cons_none {row : ScheduleRow} (hnew : uuidStr row.id ∉ existingIds)
    (hbuild : buildTrigger t row.triggerConfig = .ok none) (rest : List ScheduleRow)
    (s : Scheduler τ) :
    addNew t existingIds (row :: rest) s = addNew t existingIds rest s := by
  rw [addNew, if_neg hnew, hbuild]

theorem addNew_cons_some {row : ScheduleRow} (hnew : uuidStr row.id ∉ existingIds) {trigger : τ}
    (hbuild : buildTrigger t row.triggerConfig = .ok (some trigger)) (rest : List ScheduleRow)
    (s : Scheduler τ) :
    addNew t existingIds (row :: rest) s =
      addNew t existingIds rest (s.addJob (row.job trigger)) := by
  rw [addNew, if_neg hnew, hbuild]

/-- A row that gets through the loop: it has a job, or its config is not refused. -/
def GetsThrough (t : Triggers τ) (existingIds : List String) (row : ScheduleRow) : Prop :=
  uuidStr row.id ∉ existingIds → ¬ RefusesInterval t row.triggerConfig

theorem GetsThrough.build {row : ScheduleRow} (h : GetsThrough t existingIds row)
    (hnew : uuidStr row.id ∉ existingIds) :
    ∃ trigger, buildTrigger t row.triggerConfig = .ok trigger := by
  cases hbuild : buildTrigger t row.triggerConfig with
  | ok trigger => exact ⟨trigger, rfl⟩
  | error exc => exact absurd ((buildTrigger_error_iff t _).mp ⟨exc, hbuild⟩) (h hnew)

-- The loop over two lists, when the rows of the first get through.
theorem addNew_append (before : List ScheduleRow)
    (hbefore : ∀ row ∈ before, GetsThrough t existingIds row) (after : List ScheduleRow)
    (s : Scheduler τ) :
    addNew t existingIds (before ++ after) s =
      addNew t existingIds after (addNew t existingIds before s).2 := by
  induction before generalizing s with
  | nil => rfl
  | cons row rest ih =>
      obtain ⟨hrow, hrest⟩ := List.forall_mem_cons.mp hbefore
      rw [List.cons_append]
      by_cases hold : uuidStr row.id ∈ existingIds
      · rw [addNew, if_pos hold, addNew, if_pos hold]
        exact ih hrest s
      · obtain ⟨trigger, hbuild⟩ := hrow.build hold
        cases trigger with
        | none => rw [addNew_cons_none hold hbuild, addNew_cons_none hold hbuild, ih hrest]
        | some trigger => rw [addNew_cons_some hold hbuild, addNew_cons_some hold hbuild, ih hrest]

/-- The loop ends at the first row that does not get through; the rows behind it are not read. -/
theorem addNew_stops (before : List ScheduleRow) {row : ScheduleRow}
    (hbefore : ∀ r ∈ before, GetsThrough t existingIds r)
    (hrow : ¬ GetsThrough t existingIds row) (after : List ScheduleRow) (s : Scheduler τ) :
    ∃ exc, addNew t existingIds (before ++ row :: after) s =
      (.error exc, (addNew t existingIds before s).2) := by
  obtain ⟨hnew, hrefused⟩ := Classical.not_imp.mp hrow
  obtain ⟨exc, hbuild⟩ := (buildTrigger_error_iff t _).mpr (not_not.mp hrefused)
  refine ⟨exc, ?_⟩
  rw [addNew_append before hbefore, addNew, if_neg hnew, hbuild]

theorem addNew_ok {rows : List ScheduleRow} (hrows : ∀ row ∈ rows, GetsThrough t existingIds row)
    (s : Scheduler τ) : (addNew t existingIds rows s).1 = .ok () := by
  have hall := addNew_append rows hrows [] s
  rw [List.append_nil] at hall
  rw [hall]
  rfl

theorem addNew_ok_iff (rows : List ScheduleRow) (s : Scheduler τ) :
    (addNew t existingIds rows s).1 = .ok () ↔ ∀ row ∈ rows, GetsThrough t existingIds row := by
  refine ⟨fun hok => ?_, fun hrows => addNew_ok hrows s⟩
  induction rows generalizing s with
  | nil => exact fun _ h => nomatch h
  | cons row rest ih =>
      have hrow : GetsThrough t existingIds row := by
        by_contra hrow
        obtain ⟨exc, hstop⟩ := addNew_stops [] (fun _ h => nomatch h) hrow rest s
        rw [List.nil_append] at hstop
        rw [hstop] at hok
        cases hok
      refine List.forall_mem_cons.mpr ⟨hrow, ih (addNew t existingIds [row] s).2 ?_⟩
      rwa [← addNew_append [row] (by simpa using hrow), List.singleton_append]

-- A job is there until one replaces it.
theorem addJob_mem (job : Job τ) (s : Scheduler τ) : job ∈ (s.addJob job).jobs :=
  List.mem_append_right _ (List.mem_singleton.mpr rfl)

theorem mem_addJob {job other : Job τ} {s : Scheduler τ} (h : other ∈ s.jobs)
    (hne : other.id ≠ job.id) : other ∈ (s.addJob job).jobs :=
  List.mem_append_left _ (List.mem_filter.mpr ⟨h, decide_eq_true hne⟩)

-- `add_job` takes no id away.
theorem mem_addJob_ids {id : String} {job : Job τ} {s : Scheduler τ} (h : id ∈ s.jobs.map Job.id) :
    id ∈ (s.addJob job).jobs.map Job.id := by
  obtain ⟨other, hother, rfl⟩ := List.mem_map.mp h
  by_cases hsame : other.id = job.id
  · exact List.mem_map.mpr ⟨job, addJob_mem job s, hsame.symm⟩
  · exact List.mem_map_of_mem (mem_addJob hother hsame)

-- A row before the end of the loop: what the rest of the loop keeps of its job.
theorem addNew_mem {rows : List ScheduleRow} {job : Job τ} {s : Scheduler τ} (h : job ∈ s.jobs)
    (hother : ∀ row ∈ rows, uuidStr row.id ≠ job.id) :
    job ∈ (addNew t existingIds rows s).2.jobs := by
  induction rows generalizing s with
  | nil => exact h
  | cons row rest ih =>
      obtain ⟨hrow, hrest⟩ := List.forall_mem_cons.mp hother
      rw [addNew]
      split
      · exact ih h hrest
      · split
        · exact h
        · exact ih h hrest
        · exact ih (mem_addJob h (Ne.symm hrow)) hrest

theorem addNew_ids {rows : List ScheduleRow} {id : String} {s : Scheduler τ}
    (h : id ∈ s.jobs.map Job.id) : id ∈ (addNew t existingIds rows s).2.jobs.map Job.id := by
  induction rows generalizing s with
  | nil => exact h
  | cons row rest ih =>
      rw [addNew]
      split
      · exact ih h
      · split
        · exact h
        · exact ih h
        · exact ih (mem_addJob_ids h)

/-- When every row gets through, a row that builds a trigger has its job after the loop. -/
theorem addNew_gives {rows : List ScheduleRow} (hrows : ∀ row ∈ rows, GetsThrough t existingIds row)
    {row : ScheduleRow} (hrow : row ∈ rows) (hnew : uuidStr row.id ∉ existingIds) {trigger : τ}
    (hbuild : buildTrigger t row.triggerConfig = .ok (some trigger)) (s : Scheduler τ) :
    uuidStr row.id ∈ (addNew t existingIds rows s).2.jobs.map Job.id ∧
      ((rows.map fun r => uuidStr r.id).Nodup →
        row.job trigger ∈ (addNew t existingIds rows s).2.jobs) := by
  obtain ⟨before, after, rfl⟩ := List.append_of_mem hrow
  rw [addNew_append before fun r hr => hrows r (List.mem_append_left _ hr),
    addNew_cons_some hnew hbuild]
  have hadded := addJob_mem (row.job trigger) (addNew t existingIds before s).2
  have hid : (row.job trigger).id = uuidStr row.id := rfl
  rw [← hid]
  refine ⟨addNew_ids (List.mem_map_of_mem hadded), fun hdistinct => addNew_mem hadded ?_⟩
  intro other hother hsame
  rw [hid] at hsame
  rw [List.map_append, List.map_cons] at hdistinct
  have hlater := (List.nodup_cons.mp (List.nodup_append.mp hdistinct).2.1).1
  exact hlater (List.mem_map.mpr ⟨other, hother, hsame⟩)

end Loop

/-! ## 3. One load -/

/-- `load_jobs` gets through, and every row whose config builds a trigger and whose id has no job
gets its job. -/
structure IsolatesBadSchedules (t : Triggers τ) (rows : List ScheduleRow) (s : Scheduler τ) :
    Prop where
  returns : (loadJobs t rows s).1 = .ok ()
  gives : ∀ row ∈ rows, ∀ trigger, buildTrigger t row.triggerConfig = .ok (some trigger) →
    uuidStr row.id ∉ s.jobs.map Job.id →
    uuidStr row.id ∈ (loadJobs t rows s).2.jobs.map Job.id ∧
      ((rows.map ScheduleRow.id).Nodup → row.job trigger ∈ (loadJobs t rows s).2.jobs)

/-- A row with an interval that is no number. -/
def nullRow : ScheduleRow :=
  ⟨1, by decide, 1, [("type", .str "schedule"), ("interval_minutes", .null)]⟩

def nightlyRow : ScheduleRow :=
  ⟨2, by decide, 2, [("type", .str "schedule"), ("cron", .str "0 2 * * *")]⟩

theorem loadJobs_not_isolates_nullRow :
    ¬ IsolatesBadSchedules fieldTriggers [nullRow, nightlyRow] .empty := by
  intro h
  have hreturns : ((loadJobs fieldTriggers [nullRow, nightlyRow] .empty).1.isOk) = true := by
    rw [h.returns]
    rfl
  revert hreturns
  decide +kernel

/-- A load isolates bad schedules exactly when no row without a job has an interval that `int` or
`IntervalTrigger` refuses. -/
theorem loadJobs_isolates_iff (t : Triggers τ) (rows : List ScheduleRow) (s : Scheduler τ) :
    IsolatesBadSchedules t rows s ↔
      ∀ row ∈ rows, uuidStr row.id ∉ s.jobs.map Job.id →
        ¬ RefusesInterval t row.triggerConfig := by
  constructor
  · intro h
    exact (addNew_ok_iff rows _).mp h.returns
  · intro hrows
    refine ⟨addNew_ok hrows _, fun row hrow trigger hbuild hnew => ?_⟩
    obtain ⟨hid, hjob⟩ := addNew_gives hrows hrow hnew hbuild
      (removeMissing (rows.map fun row => uuidStr row.id) s.jobs s)
    refine ⟨hid, fun hdistinct => hjob ?_⟩
    refine List.pairwise_map.mpr ((List.pairwise_map.mp hdistinct).imp ?_)
    exact fun {r other} hne hsame => hne (uuidStr_inj r.isUuid other.isUuid hsame)

end ConstructorPlatform
