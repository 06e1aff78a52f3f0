import Mathlib.Data.List.Nodup
import ConstructorPlatform.AgentOrchestration.AgentLoop

/-!
# Consumer — `RedisConsumer._process` in `src/consumer/redis_consumer.py`

`_process` as a machine that stops at every `await`; a `ProcessEnv` says how each of them ends.  The
results, log rows and acknowledgements are recorded with the entry they were made for.
`process_eq` sums up a whole call, and `acked_once_iff` says for which environments an acknowledged
entry has exactly one result.
-/

namespace ConstructorPlatform

/-! ## 1. `_process` -/

/-- An entry of the task stream; `task` is the outcome of decoding `fields["data"]`. -/
structure Entry where
  id : Nat
  task : Except PyExc AgentTask

structure ProcessEnv where
  runner : RunnerEnv
  -- The consumer is cancelled while it awaits `run`.
  cancelledInRun : Bool
  publish : Remote
  write : Remote
  -- The publication of the failed result.
  publishFailed : Remote
  ack : Remote

/-- A row of `agent_execution_logs`. -/
structure LogRow where
  tenantId : UUID
  executionId : UUID
  stepId : String
  taskId : UUID
  modelUsed : String
  tokensUsed : Int
  iterations : Int
  status : ResultStatus

/-- The exception that leaves a block, if any. -/
inductive Leaving where
  | normally
  | raising (exc : PyExc)
  | cancelled

inductive ProcessPc where
  | run
  | publish (r : AgentResult)
  | write (r : AgentResult)
  -- In the `except` block.
  | publishFailed (exc : PyExc)
  -- In the `finally` block.
  | ack (leaving : Leaving)
  | ended (leaving : Leaving)

/-- What the worker has written, each record with the entry it was written for. -/
structure Worker where
  results : List (Nat × AgentResult)
  logs : List (Nat × LogRow)
  acked : List Nat

def Worker.empty : Worker := ⟨[], [], []⟩

/-- Records for the entry `id`. -/
def Worker.record (id : Nat) (rs : List AgentResult) (rows : List LogRow) (acked : List Nat)
    (w : Worker) : Worker :=
  ⟨w.results ++ rs.map (id, ·), w.logs ++ rows.map (id, ·), w.acked ++ acked⟩

/-- What a command has left behind. -/
def Remote.wrote {α : Type} (r : Remote) (a : α) : List α := if r.carriedOut then [a] else []

theorem Remote.wrote_eq_nil {α : Type} {r : Remote} {a : α} (h : r.carriedOut = false) :
    r.wrote a = [] := by
  simp [Remote.wrote, h]

theorem Remote.wrote_eq_singleton {α : Type} {r : Remote} {a : α} (h : r.carriedOut = true) :
    r.wrote a = [a] := by
  simp [Remote.wrote, h]

theorem Remote.mem_wrote {α : Type} {r : Remote} {a b : α} (h : b ∈ r.wrote a) : b = a := by
  unfold Remote.wrote at h
  split at h
  · exact List.mem_singleton.mp h
  · cases h

def logRow (task : AgentTask) (r : AgentResult) : LogRow :=
  ⟨task.tenantId, task.executionId, task.stepId, task.taskId, r.modelUsed, r.tokensUsed,
    r.iterations, r.status⟩

/-- The result that the `except` block publishes. -/
def failedResult (task : AgentTask) (exc : PyExc) : AgentResult :=
  task.result .failed [] 0 "" 0 (some exc.text)

/-- The code up to the end of the next `await`. -/
def processStep (env : ProcessEnv) (registry : ToolRegistry) (entry : Entry) :
    ProcessPc × Worker → ProcessPc × Worker
  | (.run, w) =>
      match entry.task with
      | .error _ => (.ack .normally, w)  -- `task` is still `None`
      | .ok task =>
          if env.cancelledInRun then (.ack .cancelled, w)
          else
            match (agentRun env.runner registry task).1 with
            | .ok r => (.publish r, w)
            | .error e => (.publishFailed e, w)
  | (.publish r, w) =>
      let w := w.record entry.id (env.publish.wrote r) [] []
      match env.publish with
      | .reply .ok => (.write r, w)
      | .reply (.raised e _) => (.publishFailed e, w)
      | .cancelled _ => (.ack .cancelled, w)
  | (.write r, w) =>
      let rows := entry.task.toOption.toList.flatMap fun task => env.write.wrote (logRow task r)
      let w := w.record entry.id [] rows []
      match env.write with
      | .reply .ok => (.ack .normally, w)
      | .reply (.raised e _) => (.publishFailed e, w)
      | .cancelled _ => (.ack .cancelled, w)
  | (.publishFailed exc, w) =>
      let failed := entry.task.toOption.toList.flatMap fun task =>
        env.publishFailed.wrote (failedResult task exc)
      let w := w.record entry.id failed [] []
      match env.publishFailed with
      | .reply _ => (.ack .normally, w)  -- an error is logged
      | .cancelled _ => (.ack .cancelled, w)
  | (.ack leaving, w) =>
      let w := w.record entry.id [] [] (env.ack.wrote entry.id)
      match env.ack with
      | .reply .ok => (.ended leaving, w)
      | .reply (.raised e _) => (.ended (.raising e), w)
      | .cancelled _ => (.ended .cancelled, w)
  | (.ended leaving, w) => (.ended leaving, w)

/-- A whole call of `_process`; it has four awaits beside the acknowledgement. -/
def process (env : ProcessEnv) (registry : ToolRegistry) (entry : Entry) (w : Worker) :
    ProcessPc × Worker :=
  (processStep env registry entry)^[5] (.run, w)

/-! ## 2. What a call leaves behind -/

/-- The failed result, when its publication is carried out. -/
def appendedFailure (env : ProcessEnv) (task : AgentTask) (exc : PyExc) : List AgentResult :=
  env.publishFailed.wrote (failedResult task exc)

/-- The results that follow a published one: an error of `write` makes `_process` publish again. -/
def appendedAfterWrite (env : ProcessEnv) (task : AgentTask) : List AgentResult :=
  match env.write with
  | .reply (.raised e _) => appendedFailure env task e
  | _ => []

def appendedAfterPublish (env : ProcessEnv) (task : AgentTask) : List AgentResult :=
  match env.publish with
  | .reply .ok => appendedAfterWrite env task
  | .reply (.raised e _) => appendedFailure env task e
  | .cancelled _ => []

def loggedAfterPublish (env : ProcessEnv) (task : AgentTask) (r : AgentResult) : List LogRow :=
  match env.publish with
  | .reply .ok => env.write.wrote (logRow task r)
  | _ => []

/-- The results that a call of `_process` appends for a task. -/
def appended (env : ProcessEnv) (registry : ToolRegistry) (task : AgentTask) : List AgentResult :=
  if env.cancelledInRun then []
  else
    match (agentRun env.runner registry task).1 with
    | .ok r => env.publish.wrote r ++ appendedAfterPublish env task
    | .error e => appendedFailure env task e

/-- The log rows that it inserts. -/
def logged (env : ProcessEnv) (registry : ToolRegistry) (task : AgentTask) : List LogRow :=
  if env.cancelledInRun then []
  else
    match (agentRun env.runner registry task).1 with
    | .ok r => loggedAfterPublish env task r
    | .error _ => []

theorem Worker.record_record (id : Nat) (rs rs' : List AgentResult) (rows rows' : List LogRow)
    (acked acked' : List Nat) (w : Worker) :
    (w.record id rs rows acked).record id rs' rows' acked' =
      w.record id (rs ++ rs') (rows ++ rows') (acked ++ acked') := by
  simp only [Worker.record, List.map_append, List.append_assoc]

section Stages

variable {env : ProcessEnv} {registry : ToolRegistry} {entry : Entry} {task : AgentTask}

/-! One lemma for each program point, from the last one backwards. -/

theorem process_ack (n : Nat) (leaving : Leaving) (w : Worker) :
    ((processStep env registry entry)^[n + 1] (.ack leaving, w)).2 =
      w.record entry.id [] [] (env.ack.wrote entry.id) := by
  have hended : ∀ (leaving : Leaving) (w : Worker),
      (processStep env registry entry)^[n] (.ended leaving, w) = (.ended leaving, w) :=
    fun _ _ => Function.iterate_fixed rfl n
  rw [Function.iterate_succ_apply]
  cases hack : env.ack with
  | reply r => cases r <;> simp only [processStep, hack, hended]
  | cancelled b => simp only [processStep, hack, hended]

theorem process_publishFailed (htask : entry.task = .ok task) (n : Nat) (exc : PyExc)
    (w : Worker) :
    ((processStep env registry entry)^[n + 2] (.publishFailed exc, w)).2 =
      w.record entry.id (appendedFailure env task exc) [] (env.ack.wrote entry.id) := by
  have hfailed : entry.task.toOption.toList.flatMap (fun task =>
      env.publishFailed.wrote (failedResult task exc)) = appendedFailure env task exc := by
    simp [htask, appendedFailure, Except.toOption]
  rw [Function.iterate_succ_apply]
  cases hpublish : env.publishFailed with
  | reply r =>
      simp only [processStep, hpublish]
      rw [process_ack, Worker.record_record, ← hfailed, hpublish]
      simp
  | cancelled b =>
      simp only [processStep, hpublish]
      rw [process_ack, Worker.record_record, ← hfailed, hpublish]
      simp

theorem process_write (htask : entry.task = .ok task) (n : Nat) (r : AgentResult) (w : Worker) :
    ((processStep env registry entry)^[n + 3] (.write r, w)).2 =
      w.record entry.id (appendedAfterWrite env task) (env.write.wrote (logRow task r))
        (env.ack.wrote entry.id) := by
  have hrows : entry.task.toOption.toList.flatMap (fun task =>
      env.write.wrote (logRow task r)) = env.write.wrote (logRow task r) := by
    simp [htask, Except.toOption]
  rw [Function.iterate_succ_apply]
  rcases hwrite : env.write with (_ | ⟨e, b⟩) | b <;> rw [hwrite] at hrows
  · simp only [processStep, hwrite, hrows]
    rw [process_ack, Worker.record_record]
    simp [appendedAfterWrite, hwrite]
  · simp only [processStep, hwrite, hrows]
    rw [process_publishFailed htask, Worker.record_record]
    simp [appendedAfterWrite, hwrite]
  · simp only [processStep, hwrite, hrows]
    rw [process_ack, Worker.record_record]
    simp [appendedAfterWrite, hwrite]

theorem process_publish (htask : entry.task = .ok task) (n : Nat) (r : AgentResult)
    (w : Worker) :
    ((processStep env registry entry)^[n + 4] (.publish r, w)).2 =
      w.record entry.id (env.publish.wrote r ++ appendedAfterPublish env task)
        (loggedAfterPublish env task r) (env.ack.wrote entry.id) := by
  rw [Function.iterate_succ_apply]
  rcases hpublish : env.publish with (_ | ⟨e, b⟩) | b
  · simp only [processStep, hpublish]
    rw [process_write htask, Worker.record_record]
    simp [appendedAfterPublish, loggedAfterPublish, hpublish]
  · simp only [processStep, hpublish]
    rw [process_publishFailed htask, Worker.record_record]
    simp [appendedAfterPublish, loggedAfterPublish, hpublish]
  · simp only [processStep, hpublish]
    rw [process_ack, Worker.record_record]
    simp [appendedAfterPublish, loggedAfterPublish, hpublish]

/-- What a call for a well-formed entry leaves behind, whatever happens on the way: the `finally`
block always acknowledges. -/
theorem process_eq (htask : entry.task = .ok task) (w : Worker) :
    (process env registry entry w).2 = w.record entry.id (appended env registry task)
      (logged env registry task) (env.ack.wrote entry.id) := by
  rw [process, Function.iterate_succ_apply]
  cases hcancelled : env.cancelledInRun with
  | true =>
      simp only [processStep, htask, hcancelled, if_true]
      rw [process_ack]
      simp [appended, logged, hcancelled]
  | false =>
      cases hrun : (agentRun env.runner registry task).1 with
      | ok r =>
          simp only [processStep, htask, hcancelled, Bool.false_eq_true, if_false, hrun]
          rw [process_publish htask]
          simp [appended, logged, hcancelled, hrun]
      | error e =>
          simp only [processStep, htask, hcancelled, Bool.false_eq_true, if_false, hrun]
          rw [process_publishFailed htask]
          simp [appended, logged, hcancelled, hrun]

end Stages

/-! ## 3. Sequences of calls -/

/-- The results of a call for any entry; one that cannot be decoded has none. -/
def Entry.appended (env : ProcessEnv) (registry : ToolRegistry) (entry : Entry) :
    List AgentResult :=
  match entry.task with
  | .ok task => ConstructorPlatform.appended env registry task
  | .error _ => []

def Entry.logged (env : ProcessEnv) (registry : ToolRegistry) (entry : Entry) : List LogRow :=
  match entry.task with
  | .ok task => ConstructorPlatform.logged env registry task
  | .error _ => []

theorem process_record (env : ProcessEnv) (registry : ToolRegistry) (entry : Entry) (w : Worker) :
    (process env registry entry w).2 = w.record entry.id (entry.appended env registry)
      (entry.logged env registry) (env.ack.wrote entry.id) := by
  cases htask : entry.task with
  | ok task =>
      rw [process_eq htask]
      simp only [Entry.appended, Entry.logged, htask]
  | error e =>
      rw [process, Function.iterate_succ_apply]
      simp only [processStep, htask]
      rw [process_ack]
      simp only [Entry.appended, Entry.logged, htask]

/-- The calls of `_process` for a sequence of entries; a cancelled consumer may be started again. -/
def processAll (registry : ToolRegistry) (calls : List (Entry × ProcessEnv)) (w : Worker) :
    Worker :=
  calls.foldl (fun w call => (process call.2 registry call.1 w).2) w

def Worker.resultsFor (id : Nat) (w : Worker) : List AgentResult :=
  (w.results.filter fun entry => entry.1 = id).map Prod.snd

def Worker.logsFor (id : Nat) (w : Worker) : List LogRow :=
  (w.logs.filter fun entry => entry.1 = id).map Prod.snd

theorem Worker.resultsFor_record (id id' : Nat) (rs : List AgentResult) (rows : List LogRow)
    (acked : List Nat) (w : Worker) :
    (w.record id' rs rows acked).resultsFor id =
      w.resultsFor id ++ if id' = id then rs else [] := by
  unfold Worker.resultsFor Worker.record
  rw [List.filter_append, List.map_append, List.filter_map]
  by_cases h : id' = id
  · simp [h, Function.comp_def]
  · simp [h, Function.comp_def]

theorem Worker.logsFor_record (id id' : Nat) (rs : List AgentResult) (rows : List LogRow)
    (acked : List Nat) (w : Worker) :
    (w.record id' rs rows acked).logsFor id = w.logsFor id ++ if id' = id then rows else [] := by
  unfold Worker.logsFor Worker.record
  rw [List.filter_append, List.map_append, List.filter_map]
  by_cases h : id' = id
  · simp [h, Function.comp_def]
  · simp [h, Function.comp_def]

-- What the calls have recorded for an entry.
theorem processAll_for (registry : ToolRegistry) (calls : List (Entry × ProcessEnv)) (w : Worker)
    (id : Nat) :
    (processAll registry calls w).resultsFor id = w.resultsFor id ++
      calls.flatMap (fun call => if call.1.id = id then call.1.appended call.2 registry else []) ∧
    (processAll registry calls w).logsFor id = w.logsFor id ++
      calls.flatMap (fun call => if call.1.id = id then call.1.logged call.2 registry else []) ∧
    (id ∈ (processAll registry calls w).acked ↔
      id ∈ w.acked ∨ ∃ call ∈ calls, call.1.id = id ∧ call.2.ack.carriedOut = true) := by
  induction calls generalizing w with
  | nil => simp [processAll]
  | cons call rest ih =>
      obtain ⟨hresults, hlogs, hacked⟩ := ih (process call.2 registry call.1 w).2
      rw [process_record] at hresults hlogs hacked
      rw [Worker.resultsFor_record] at hresults
      rw [Worker.logsFor_record] at hlogs
      rw [processAll, List.foldl_cons, ← processAll, process_record]
      refine ⟨?_, ?_, ?_⟩
      · rw [hresults, List.flatMap_cons, List.append_assoc]
      · rw [hlogs, List.flatMap_cons, List.append_assoc]
      · rw [hacked]
        simp only [Worker.record, List.mem_append, List.exists_mem_cons_iff, or_assoc]
        refine or_congr_right (or_congr_left ?_)
        cases hout : call.2.ack.carriedOut with
        | false => simp [Remote.wrote_eq_nil hout]
        | true => simp [Remote.wrote_eq_singleton hout, eq_comm]

-- Among distinct keys only one contributes.
theorem flatMap_ite_of_nodup {α β : Type} (key : α → Nat) (f : α → List β) {xs : List α}
    (hnodup : (xs.map key).Nodup) {x : α} (hx : x ∈ xs) :
    xs.flatMap (fun y => if key y = key x then f y else []) = f x := by
  induction xs with
  | nil => cases hx
  | cons y rest ih =>
      rw [List.map_cons, List.nodup_cons] at hnodup
      rw [List.flatMap_cons]
      rcases List.mem_cons.mp hx with rfl | hx
      · have hrest : rest.flatMap (fun y => if key y = key x then f y else []) = [] := by
          rw [List.flatMap_eq_nil_iff]
          intro y hy
          rw [if_neg]
          intro heq
          exact hnodup.1 (heq ▸ List.mem_map_of_mem hy)
        rw [hrest, if_pos rfl, List.append_nil]
      · have hne : key y ≠ key x := fun heq => hnodup.1 (heq ▸ List.mem_map_of_mem hx)
        rw [if_neg hne, List.nil_append]
        exact ih hnodup.2 hx

/-! ## 4. Acknowledged entries -/

theorem agentRun_isOk (env : RunnerEnv) (registry : ToolRegistry) (task : AgentTask) :
    (agentRun env registry task).1.isOk = (getModel env task).isOk := by
  unfold agentRun
  cases getModel env task with
  | error e => rfl
  | ok modelUsed =>
      simp only
      split
      · rfl
      · split
        · rfl
        · rfl
        · split <;> rfl

/-- The command succeeds whenever the consumer lets it come to its end. -/
def Remote.Succeeds (r : Remote) : Prop := ∀ exc carriedOut, r ≠ .reply (.raised exc carriedOut)

/-- The environments in which a call for the task publishes once: the consumer is not cancelled
before a result is out, and an error of `write` is not followed by a second publication. -/
def PublishesOnce (env : ProcessEnv) (task : AgentTask) : Prop :=
  env.cancelledInRun = false ∧
    if (getModel env.runner task).isOk then
      env.publish.carriedOut = true ∧
        ¬ (env.publish = .reply .ok ∧ (∃ exc b, env.write = .reply (.raised exc b)) ∧
          env.publishFailed.carriedOut = true)
    else env.publishFailed.carriedOut = true

/-- One result, with the ids of the task and the status of its log row. -/
def OneResult (task : AgentTask) (rs : List AgentResult) (rows : List LogRow) : Prop :=
  ∃ r, rs = [r] ∧ r.Answers task ∧ ∀ row ∈ rows, row.status = r.status

theorem loggedAfterPublish_status {env : ProcessEnv} {task : AgentTask} {r : AgentResult}
    {row : LogRow} (h : row ∈ loggedAfterPublish env task r) : row.status = r.status := by
  unfold loggedAfterPublish at h
  split at h
  · rw [Remote.mem_wrote h]
    rfl
  · cases h

-- A published failure is the only result when nothing was published before it.
theorem oneResult_failure_iff (env : ProcessEnv) (task : AgentTask) (exc : PyExc) :
    OneResult task (appendedFailure env task exc) [] ↔ env.publishFailed.carriedOut = true := by
  unfold appendedFailure OneResult
  cases hout : env.publishFailed.carriedOut with
  | false =>
      rw [Remote.wrote_eq_nil hout]
      simp
  | true =>
      rw [Remote.wrote_eq_singleton hout]
      simp only [iff_true]
      exact ⟨_, rfl, AgentTask.result_answers _ _ _ _ _ _ _, nofun⟩

-- When publishing succeeds, a call leaves one result exactly in the environments of
-- `PublishesOnce`.
theorem oneResult_iff (env : ProcessEnv) (registry : ToolRegistry) (task : AgentTask)
    (hpublish : env.publish.Succeeds) :
    OneResult task (appended env registry task) (logged env registry task) ↔
      PublishesOnce env task := by
  unfold PublishesOnce
  rw [← agentRun_isOk env.runner registry task]
  cases hcancelled : env.cancelledInRun with
  | true => simp [appended, hcancelled, OneResult]
  | false =>
      cases hrun : (agentRun env.runner registry task).1 with
      | error e =>
          simp only [appended, logged, hcancelled, hrun, Bool.false_eq_true, if_false,
            Except.isOk, Except.toBool, true_and]
          exact oneResult_failure_iff env task e
      | ok r =>
          have hanswers : r.Answers task := agentRun_answers hrun
          simp only [appended, logged, hcancelled, hrun, Bool.false_eq_true, if_false,
            Except.isOk, Except.toBool, if_true, true_and]
          have hone : ∀ rs, rs = [r] → OneResult task rs (loggedAfterPublish env task r) := by
            rintro rs rfl
            exact ⟨r, rfl, hanswers, fun row h => loggedAfterPublish_status h⟩
          rcases hp : env.publish with (_ | ⟨exc, b⟩) | b
          · have hwrote : (Remote.reply .ok).wrote r = [r] := rfl
            simp only [appendedAfterPublish, hp, hwrote, Remote.carriedOut_reply,
              Reply.carriedOut_ok, true_and]
            rcases hw : env.write with (_ | ⟨exc, b⟩) | b
            · simpa [appendedAfterWrite, hw] using hone [r] rfl
            · simp only [appendedAfterWrite, hw, appendedFailure]
              cases hout : env.publishFailed.carriedOut with
              | false =>
                  rw [Remote.wrote_eq_nil hout]
                  simpa using hone [r] rfl
              | true =>
                  rw [Remote.wrote_eq_singleton hout]
                  simp [OneResult]
            · simpa [appendedAfterWrite, hw] using hone [r] rfl
          · exact absurd hp (hpublish exc b)
          · simp only [appendedAfterPublish, hp, List.append_nil, Remote.carriedOut_cancelled,
              reduceCtorEq, false_and, not_false_eq_true, and_true]
            cases b with
            | false => simp [OneResult, Remote.wrote]
            | true => simpa [Remote.wrote] using hone [r] rfl

/-- Entries with distinct ids, whose publications succeed: every acknowledged one has exactly one
result, with its task's ids and the status of its log row, exactly when every call that
acknowledges publishes once. -/
theorem acked_once_iff (registry : ToolRegistry) (calls : List (Entry × ProcessEnv))
    (hids : (calls.map fun call => call.1.id).Nodup)
    (hpublish : ∀ call ∈ calls, call.2.publish.Succeeds ∧ call.2.publishFailed.Succeeds) :
    (∀ call ∈ calls, ∀ task, call.1.task = .ok task →
      call.1.id ∈ (processAll registry calls .empty).acked →
      OneResult task ((processAll registry calls .empty).resultsFor call.1.id)
        ((processAll registry calls .empty).logsFor call.1.id)) ↔
    ∀ call ∈ calls, ∀ task, call.1.task = .ok task → call.2.ack.carriedOut = true →
      PublishesOnce call.2 task := by
  refine forall₂_congr fun call hcall => forall₂_congr fun task htask => ?_
  obtain ⟨hresults, hlogs, hacked⟩ := processAll_for registry calls .empty call.1.id
  have happended : (processAll registry calls .empty).resultsFor call.1.id =
      appended call.2 registry task := by
    rw [hresults, flatMap_ite_of_nodup (fun call : Entry × ProcessEnv => call.1.id)
      (fun call => call.1.appended call.2 registry) hids hcall]
    simp only [Entry.appended, htask]
    rfl
  have hlogged : (processAll registry calls .empty).logsFor call.1.id =
      logged call.2 registry task := by
    rw [hlogs, flatMap_ite_of_nodup (fun call : Entry × ProcessEnv => call.1.id)
      (fun call => call.1.logged call.2 registry) hids hcall]
    simp only [Entry.logged, htask]
    rfl
  have hack : call.1.id ∈ (processAll registry calls .empty).acked ↔
      call.2.ack.carriedOut = true := by
    rw [hacked]
    constructor
    · rintro (hnone | ⟨call', hcall', hid, hout⟩)
      · cases hnone
      · rw [List.inj_on_of_nodup_map hids hcall' hcall hid] at hout
        exact hout
    · exact fun hout => .inr ⟨call, hcall, rfl, hout⟩
  rw [happended, hlogged, hack, oneResult_iff call.2 registry task (hpublish call hcall).1]

/-- `long_term.write` loses its connection after the result has been published. -/
def writeFails : ProcessEnv where
  runner := callsSql
  cancelledInRun := false
  publish := .reply .ok
  write := .reply (.raised ⟨.database, "connection lost"⟩ false)
  publishFailed := .reply .ok
  ack := .reply .ok

def allSucceeds : ProcessEnv := { writeFails with write := .reply .ok }

/-- The class of the model cannot be called. -/
def noModel : ProcessEnv :=
  { allSucceeds with
    runner := { callsSql with construct := fun _ _ => .error ⟨.valueError, "api_key"⟩ } }

/-- Calls that fail at different places; each that acknowledges publishes once. -/
def failingCalls : List (Entry × ProcessEnv) :=
  [(⟨0, .ok plainTask⟩, allSucceeds), (⟨1, .ok plainTask⟩, noModel),
   -- The consumer is cancelled before it publishes again.
   (⟨2, .ok plainTask⟩, { writeFails with publishFailed := .cancelled false }),
   (⟨3, .error ⟨.valueError, "data"⟩⟩, allSucceeds),
   (⟨4, .ok plainTask⟩, { allSucceeds with cancelledInRun := true, ack := .cancelled false })]

theorem acked_once_iff_failingCalls :
    (processAll sqlRegistry failingCalls .empty).acked = [0, 1, 2, 3] ∧
      (processAll sqlRegistry failingCalls .empty).results.map (fun r => (r.1, r.2.status)) =
        [(0, .completed), (1, .failed), (2, .completed)] ∧
      ∀ call ∈ failingCalls, ∀ task, call.1.task = .ok task →
        call.1.id ∈ (processAll sqlRegistry failingCalls .empty).acked →
        OneResult task ((processAll sqlRegistry failingCalls .empty).resultsFor call.1.id)
          ((processAll sqlRegistry failingCalls .empty).logsFor call.1.id) := by
  refine ⟨by decide, by decide, (acked_once_iff sqlRegistry failingCalls (by decide) ?_).mpr ?_⟩
  · simp [failingCalls, noModel, allSucceeds, writeFails, Remote.Succeeds]
  · simp only [failingCalls, List.forall_mem_cons]
    refine ⟨fun task _ _ => ⟨rfl, rfl, ?_⟩, fun task _ _ => ⟨rfl, rfl⟩,
      fun task _ _ => ⟨rfl, rfl, ?_⟩, nofun, fun task _ hack => absurd hack Bool.false_ne_true,
      List.forall_mem_nil _⟩
    · rintro ⟨-, ⟨exc, b, hwrite⟩, -⟩
      cases hwrite
    · rintro ⟨-, -, hcarried⟩
      cases hcarried

/-- The acknowledged task has two results, the second of which says that it failed. -/
theorem acked_twice :
    ¬ ∀ (registry : ToolRegistry) (calls : List (Entry × ProcessEnv)),
      (calls.map fun call => call.1.id).Nodup →
      (∀ call ∈ calls, call.2.publish.Succeeds ∧ call.2.publishFailed.Succeeds) →
      ∀ call ∈ calls, ∀ task, call.1.task = .ok task →
        call.1.id ∈ (processAll registry calls .empty).acked →
        OneResult task ((processAll registry calls .empty).resultsFor call.1.id)
          ((processAll registry calls .empty).logsFor call.1.id) := by
  intro h
  have hsucceeds : ∀ call ∈ [((⟨0, .ok plainTask⟩ : Entry), writeFails)],
      call.2.publish.Succeeds ∧ call.2.publishFailed.Succeeds := by
    intro call hcall
    rw [List.mem_singleton.mp hcall]
    exact ⟨nofun, nofun⟩
  obtain ⟨r, hone, -⟩ := h sqlRegistry [(⟨0, .ok plainTask⟩, writeFails)] (by decide) hsucceeds _
    (List.mem_singleton_self _) plainTask rfl (by decide)
  have htwo : ((processAll sqlRegistry [(⟨0, .ok plainTask⟩, writeFails)]
      .empty).resultsFor 0).length = 2 := by decide
  rw [hone] at htwo
  cases htwo

end ConstructorPlatform
