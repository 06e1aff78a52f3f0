import ConstructorPlatform.AgentOrchestration.Consumer
import ConstructorPlatform.PlatformApi.CallOrder

/-!
# Correlation — tasks and results

The platform-api process and the worker, joined by the task stream and the result stream.  Nothing
compares the task id of a result with that of the call it settles: `_pending` is keyed by execution.
`answers_correlated` says what keeps the answers right all the same, and when they go wrong.
-/

namespace ConstructorPlatform

variable {Ctx : Type}

/-! ## 1. Answers -/

/-- A result or an agent error. -/
def Future.isAnswer : Future → Bool
  | .result _ => true
  | .exception _ => true
  | _ => false

/-- Calls are answered by results for their own tasks among the `handled` ones. -/
structure Dispatching.Answered (handled : List AgentResult) (s : Dispatching) : Prop where
  settled : ∀ id (c : Call) value, s.calls id = some c →
    s.dispatcher.futures[c.future]? = some value → value.isAnswer = true →
      ∃ r ∈ handled, r.taskId = c.task.taskId ∧ value = r.future
  answers : ∀ x ∈ s.answers, ∃ r ∈ handled, r.taskId = x.1.taskId ∧ x.2 = r.future
  known : ∀ r ∈ handled, ∃ task ∈ s.registered, r.Answers task
  -- A call that still waits has had no result.
  fresh : ∀ id (c : Call), s.calls id = some c → s.dispatcher.Open c.future →
    ∀ r ∈ handled, r.taskId ≠ c.task.taskId

theorem Dispatching.answered_empty : Dispatching.empty.Answered [] := by
  refine ⟨?_, ?_, ?_, ?_⟩
  · intro id c value hcall
    cases hcall
  · intro x hx
    cases hx
  · intro r hr
    cases hr
  · intro id c hcall
    cases hcall

theorem Dispatching.Consistent.mem_taskId {s : Dispatching} (h : s.Consistent) {task : AgentTask}
    (hmem : task ∈ s.registered) : s.registered[task.taskId]? = some task := by
  obtain ⟨f, hf⟩ := List.mem_iff_getElem?.mp hmem
  rw [h.ids f task hf]
  exact hf

theorem Dispatching.Consistent.task_unique {s : Dispatching} (h : s.Consistent)
    {task task' : AgentTask} (hmem : task ∈ s.registered) (hmem' : task' ∈ s.registered)
    (hid : task.taskId = task'.taskId) : task = task' := by
  have hfirst := h.mem_taskId hmem
  rw [hid, h.mem_taskId hmem'] at hfirst
  exact (Option.some.inj hfirst).symm

theorem Dispatching.Consistent.call_registered {s : Dispatching} (h : s.Consistent) {id : UUID}
    {c : Call} (hcall : s.calls id = some c) : c.task ∈ s.registered :=
  List.mem_iff_getElem?.mpr ⟨_, (h.calls id c hcall).1⟩

section Step

variable {handled : List AgentResult} {s : Dispatching}

theorem Dispatching.Answered.register (h : s.Answered handled) (hconsistent : s.Consistent)
    {task : AgentTask} (hid : task.taskId = s.registered.length) :
    (s.register task).Answered handled := by
  have hcalls : ∀ id c, (s.register task).calls id = some c →
      (c.future = s.dispatcher.futures.length ∧ c.task = task) ∨ s.calls id = some c := by
    intro id c hcall
    rcases Reasoning.update_cases hcall with ⟨-, hself⟩ | ⟨-, hold⟩
    · cases hself
      exact .inl ⟨rfl, rfl⟩
    · exact .inr hold
  have hlt : ∀ id (c : Call), s.calls id = some c → c.future < s.dispatcher.futures.length := by
    intro id c hcall
    rw [← hconsistent.length]
    exact (List.getElem?_eq_some_iff.mp (hconsistent.calls id c hcall).1).1
  refine ⟨?_, h.answers, ?_, ?_⟩
  · intro id c value hcall hvalue hanswer
    change (s.dispatcher.futures ++ [.pending])[c.future]? = some value at hvalue
    rcases hcalls id c hcall with ⟨hfuture, -⟩ | hcall
    · rw [hfuture, List.getElem?_concat_length] at hvalue
      cases hvalue
      cases hanswer
    · rw [List.getElem?_append_left (hlt id c hcall)] at hvalue
      exact h.settled id c value hcall hvalue hanswer
  · intro r hr
    obtain ⟨t, ht, hanswers⟩ := h.known r hr
    exact ⟨t, List.mem_append_left _ ht, hanswers⟩
  · intro id c hcall hopen r hr heq
    rcases hcalls id c hcall with ⟨-, htask⟩ | hcall
    · -- A handled result belongs to a task that is registered already.
      obtain ⟨t, ht, hanswers⟩ := h.known r hr
      have hlast := (List.getElem?_eq_some_iff.mp (hconsistent.mem_taskId ht)).1
      rw [htask, hanswers.taskId] at heq
      rw [heq, hid] at hlast
      exact Nat.lt_irrefl _ hlast
    · rcases Dispatcher.open_register.mp hopen with hopen | hlast
      · exact h.fresh id c hcall hopen r hr heq
      · have := hlt id c hcall
        omega

-- Changing the stage of a call, or ending it, keeps the answers; the futures may lose what nobody
-- has settled.
theorem Dispatching.Answered.setCall (h : s.Answered handled) {id : UUID} {c : Call}
    (hcall : s.calls id = some c) (stage : Option CallStage) {d : Dispatcher}
    (hfutures : ∀ (f : Nat) (value : Future), d.futures[f]? = some value → value.isAnswer = true →
      s.dispatcher.futures[f]? = some value)
    (hopen : ∀ f, d.Open f → s.dispatcher.Open f) (tasks : List AgentTask) :
    Dispatching.Answered handled ({ s with dispatcher := d, tasks := tasks }.setCall id
      (stage.map fun stage => { c with stage := stage })) := by
  refine ⟨?_, h.answers, h.known, ?_⟩
  · intro id' c' value hcall' hvalue hanswer
    obtain ⟨c₀, hc₀, hfuture, htask⟩ := Dispatching.setCall_find hcall hcall'
    rw [← hfuture] at hvalue
    rw [← htask]
    exact h.settled id' c₀ value hc₀ (hfutures c₀.future value hvalue hanswer) hanswer
  · intro id' c' hcall' hopen'
    obtain ⟨c₀, hc₀, hfuture, htask⟩ := Dispatching.setCall_find hcall hcall'
    rw [← hfuture] at hopen'
    rw [← htask]
    exact h.fresh id' c₀ hc₀ (hopen _ hopen')

theorem Dispatching.Answered.publish (h : s.Answered handled) {id : UUID} {c : Call}
    (hcall : s.calls id = some c) (hid : c.task.executionId = id) (reply : Reply) :
    (s.publish c reply).Answered handled := by
  subst hid
  cases reply with
  | ok => exact h.setCall hcall (some (.waiting false)) (fun _ _ hf _ => hf) (fun _ ho => ho) _
  | raised exc carriedOut => exact h.setCall hcall none (fun _ _ hf _ => hf) (fun _ ho => ho) _

-- Cancelling a future neither opens one nor answers one.
theorem Dispatcher.cancel_answer {d : Dispatcher} {f g : Nat} {value : Future}
    (h : (d.cancel f).futures[g]? = some value) (hanswer : value.isAnswer = true) :
    d.futures[g]? = some value := by
  unfold Dispatcher.cancel at h
  split at h
  · rename_i hpending
    by_cases heq : f = g
    · subst heq
      rw [List.getElem?_set_self (List.getElem?_eq_some_iff.mp hpending).1] at h
      cases h
      cases hanswer
    · rw [List.getElem?_set_ne heq] at h
      exact h
  · exact h

theorem Dispatching.Answered.timeout (h : s.Answered handled) {id : UUID} {c : Call}
    (hcall : s.calls id = some c) (hid : c.task.executionId = id) :
    (s.timeout c).Answered handled := by
  subst hid
  exact h.setCall hcall (some (.waiting true)) (fun _ _ hf ha => Dispatcher.cancel_answer hf ha)
    (fun _ ho => (Dispatcher.open_cancel.mp ho).1) s.tasks

theorem Dispatching.Answered.wake (h : s.Answered handled) {id : UUID} {c : Call}
    (hcall : s.calls id = some c) (hid : c.task.executionId = id)
    (hdone : (s.outcome c).isSome = true) : (s.wake c).Answered handled := by
  subst hid
  have hkept := h.setCall hcall none (fun _ _ hf _ => hf) (fun _ ho => ho) s.tasks
  refine ⟨hkept.settled, ?_, hkept.known, hkept.fresh⟩
  intro x hx
  rcases List.mem_append.mp hx with hx | hx
  · exact h.answers x hx
  · -- The call returns with what settled its future.
    split at hx
    · rename_i hstage
      obtain ⟨value, hvalue, rfl⟩ := List.mem_map.mp hx
      rw [Option.mem_toList] at hvalue
      apply h.settled _ c value hcall hvalue
      rw [Dispatching.outcome, hstage] at hdone
      simp only [Option.mem_def.mp hvalue] at hdone
      cases value with
      | result output => rfl
      | exception error => rfl
      | _ => cases hdone
    · cases hx

-- A result that belongs to the task of the call it settles.
theorem Dispatching.Answered.consume (h : s.Answered handled) (hconsistent : s.Consistent)
    {r : AgentResult} {task : AgentTask} (hmem : task ∈ s.registered) (hr : r.Answers task)
    (hown : ∀ c, s.calls r.executionId = some c → s.dispatcher.Open c.future →
      r.taskId = c.task.taskId) :
    (s.consume r).Answered (handled ++ [r]) := by
  obtain ⟨-, hcalls, hregistered, hanswers⟩ := s.consume_frame r
  have hopen : ∀ f, (s.consume r).dispatcher.Open f →
      s.dispatcher.Open f ∧ s.dispatcher.pending r.executionId ≠ some f := by
    intro f hf
    rcases s.consume_cases r with ⟨g, hpending, hg, heq⟩ | ⟨hclosed, heq⟩ <;> rw [heq] at hf
    · obtain ⟨hopen, hne⟩ := (Dispatcher.open_set r.future_done hg.lt _ f).mp hf
      refine ⟨hopen, ?_⟩
      rw [hpending]
      exact fun h => hne (Option.some.inj h).symm
    · exact ⟨hf, fun hpending => hclosed f hpending hf⟩
  refine ⟨?_, ?_, ?_, ?_⟩
  · intro id c value hcall hvalue hanswer
    rw [hcalls] at hcall
    have hold : s.dispatcher.futures[c.future]? = some value →
        ∃ r' ∈ handled ++ [r], r'.taskId = c.task.taskId ∧ value = r'.future := by
      intro hvalue
      obtain ⟨r', hr', hanswered⟩ := h.settled id c value hcall hvalue hanswer
      exact ⟨r', List.mem_append_left _ hr', hanswered⟩
    rcases s.consume_cases r with ⟨f, hpending, hf, heq⟩ | ⟨-, heq⟩ <;> rw [heq] at hvalue
    · change (s.dispatcher.futures.set f r.future)[c.future]? = some value at hvalue
      by_cases hsame : f = c.future
      · subst hsame
        rw [List.getElem?_set_self hf.lt] at hvalue
        cases hvalue
        obtain rfl := hconsistent.owner hcall hpending
        exact ⟨r, List.mem_append_right _ (List.mem_singleton_self r), hown c hcall hf, rfl⟩
      · rw [List.getElem?_set_ne hsame] at hvalue
        exact hold hvalue
    · exact hold hvalue
  · rw [hanswers]
    intro x hx
    obtain ⟨r', hr', hanswered⟩ := h.answers x hx
    exact ⟨r', List.mem_append_left _ hr', hanswered⟩
  · rw [hregistered]
    intro r' hr'
    rcases List.mem_append.mp hr' with hr' | hr'
    · exact h.known r' hr'
    · rw [List.mem_singleton.mp hr']
      exact ⟨task, hmem, hr⟩
  · intro id c hcall hopen' r' hr' heq
    rw [hcalls] at hcall
    obtain ⟨hbefore, hnotsettled⟩ := hopen c.future hopen'
    rcases List.mem_append.mp hr' with hr' | hr'
    · exact h.fresh id c hcall hbefore r' hr' heq
    · -- The result would have settled the call of its own execution.
      rw [List.mem_singleton.mp hr', hr.taskId] at heq
      have htask := hconsistent.task_unique hmem (hconsistent.call_registered hcall) heq
      have hid : r.executionId = id := by
        rw [hr.executionId, htask]
        exact (hconsistent.calls id c hcall).2
      rw [hid] at hnotsettled
      exact hnotsettled (hconsistent.awaited id c hcall hbefore)

/-- The results that an event hands to the dispatcher. -/
def CallEvent.results : CallEvent → List AgentResult
  | .consume r => [r]
  | _ => []

/-- Every step keeps the answers right, provided that a result settles the call for its task. -/
theorem Dispatching.Answered.step (h : s.Answered handled) (hconsistent : s.Consistent)
    {s' : Dispatching} {event : CallEvent} (hstep : s.step event = some s')
    (hresults : ∀ r ∈ event.results, (∃ task ∈ s.registered, r.Answers task) ∧
      ∀ c, s.calls r.executionId = some c → s.dispatcher.Open c.future →
        r.taskId = c.task.taskId) :
    s'.Answered (handled ++ event.results) := by
  cases Dispatching.step_steps hstep with
  | register hnone hid =>
      simp only [CallEvent.results, List.append_nil]
      exact h.register hconsistent hid
  | publish reply hcall _ =>
      simp only [CallEvent.results, List.append_nil]
      exact h.publish hcall (hconsistent.calls _ _ hcall).2 reply
  | timeout hcall _ =>
      simp only [CallEvent.results, List.append_nil]
      exact h.timeout hcall (hconsistent.calls _ _ hcall).2
  | wake hcall hdone =>
      simp only [CallEvent.results, List.append_nil]
      exact h.wake hcall (hconsistent.calls _ _ hcall).2 hdone
  | consume r =>
      obtain ⟨⟨task, hmem, hr⟩, hown⟩ := hresults r (List.mem_singleton_self r)
      exact h.consume hconsistent hmem hr hown

end Step

/-! ## 2. The platform -/

/-- A call of `RedisConsumer._process`. -/
structure WorkerCall where
  entry : Entry
  pc : ProcessPc

/-- The two processes and the two streams: the tasks that `api` has sent, and the results that
`worker` has published. -/
structure Platform (Ctx : Type) where
  api : Process Ctx
  worker : Worker
  -- The worker handles one entry at a time.
  call : Option WorkerCall
  tasksRead : Nat
  resultsRead : Nat
  -- History: the results that the result consumer has handled.
  handled : List AgentResult

def Platform.empty : Platform Ctx := ⟨.empty, .empty, none, 0, 0, []⟩

inductive PlatformAction (Ctx : Type) where
  | api (a : Action Ctx)
  | takeTask
  -- The worker calls `_process` up to its next `await`.
  | work (env : ProcessEnv)
  -- An entry that is read but not handled, or not decoded.
  | skipTask
  | consumeResult
  | skipResult

section Step

variable (m : ContextModel Ctx) (pydantic : Pydantic) (registry : ToolRegistry)

def Platform.work (env : ProcessEnv) (call : WorkerCall) (s : Platform Ctx) : Platform Ctx :=
  match processStep env registry call.entry (call.pc, s.worker) with
  | (.ended _, worker) => { s with worker := worker, call := none }
  | (pc, worker) => { s with worker := worker, call := some { call with pc := pc } }

def Platform.step (s : Platform Ctx) : PlatformAction Ctx → Option (Platform Ctx)
  -- The results of the process come from the stream.
  | .api (.consume _) => none
  | .api a => (s.api.step m pydantic a).map fun api => { s with api := api }
  | .takeTask =>
      match s.call, s.api.dispatching.tasks[s.tasksRead]? with
      | none, some task =>
          some { s with
            call := some ⟨⟨s.tasksRead, .ok task⟩, .run⟩
            tasksRead := s.tasksRead + 1 }
      | _, _ => none
  | .work env => s.call.map fun call => s.work registry env call
  | .skipTask =>
      if s.tasksRead < s.api.dispatching.tasks.length then
        some { s with tasksRead := s.tasksRead + 1 }
      else none
  | .consumeResult =>
      match s.worker.results[s.resultsRead]? with
      | some (_, r) =>
          (s.api.step m pydantic (.consume r)).map fun api =>
            { s with api := api, resultsRead := s.resultsRead + 1, handled := s.handled ++ [r] }
      | none => none
  | .skipResult =>
      if s.resultsRead < s.worker.results.length then
        some { s with resultsRead := s.resultsRead + 1 }
      else none

/-- When a result is handled while a call of its execution waits, it is the first one handled for
its task. -/
def Platform.FirstResult (s : Platform Ctx) : PlatformAction Ctx → Prop
  | .consumeResult => ∀ x, s.worker.results[s.resultsRead]? = some x →
      ∀ c, s.api.dispatching.calls x.2.executionId = some c →
        s.api.dispatching.dispatcher.Open c.future → ∀ r ∈ s.handled, r.taskId ≠ x.2.taskId
  | _ => True

end Step

/-! ## 3. What a step of the platform can do -/

variable {m : ContextModel Ctx} {pydantic : Pydantic} {registry : ToolRegistry}

/-- The steps, with what their guards say. -/
inductive Platform.Steps (m : ContextModel Ctx) (pydantic : Pydantic) (registry : ToolRegistry)
    (s : Platform Ctx) : PlatformAction Ctx → Platform Ctx → Prop where
  | api {a : Action Ctx} {api : Process Ctx} (ha : ∀ r, a ≠ .consume r)
      (hstep : s.api.step m pydantic a = some api) :
      Steps m pydantic registry s (.api a) { s with api := api }
  | takeTask {task : AgentTask} (hidle : s.call = none)
      (htask : s.api.dispatching.tasks[s.tasksRead]? = some task) :
      Steps m pydantic registry s .takeTask
        { s with call := some ⟨⟨s.tasksRead, .ok task⟩, .run⟩, tasksRead := s.tasksRead + 1 }
  | work (env : ProcessEnv) {call : WorkerCall} (hcall : s.call = some call) :
      Steps m pydantic registry s (.work env) (s.work registry env call)
  | skipTask : Steps m pydantic registry s .skipTask { s with tasksRead := s.tasksRead + 1 }
  | consumeResult {id : Nat} {r : AgentResult} {api : Process Ctx}
      (hresult : s.worker.results[s.resultsRead]? = some (id, r))
      (hstep : s.api.step m pydantic (.consume r) = some api) :
      Steps m pydantic registry s .consumeResult
        { s with api := api, resultsRead := s.resultsRead + 1, handled := s.handled ++ [r] }
  | skipResult : Steps m pydantic registry s .skipResult { s with resultsRead := s.resultsRead + 1 }

theorem Platform.step_steps {s s' : Platform Ctx} {a : PlatformAction Ctx}
    (h : s.step m pydantic registry a = some s') : s.Steps m pydantic registry a s' := by
  cases a with
  | api a =>
      cases a with
      | consume r => cases h
      | _ =>
          obtain ⟨api, hstep, rfl⟩ := Option.map_eq_some_iff.mp h
          exact .api (fun r => by simp) hstep
  | takeTask =>
      simp only [Platform.step] at h
      split at h
      · rename_i task hidle htask
        cases h
        exact .takeTask hidle htask
      · cases h
  | work env =>
      obtain ⟨call, hcall, rfl⟩ := Option.map_eq_some_iff.mp h
      exact .work env hcall
  | skipTask =>
      simp only [Platform.step] at h
      split at h
      · cases h
        exact .skipTask
      · cases h
  | consumeResult =>
      simp only [Platform.step] at h
      split at h
      · rename_i id r hresult
        obtain ⟨api, hstep, rfl⟩ := Option.map_eq_some_iff.mp h
        exact .consumeResult hresult hstep
      · cases h
  | skipResult =>
      simp only [Platform.step] at h
      split at h
      · cases h
        exact .skipResult
      · cases h

-- The platform-api process of a platform runs by its own steps.
theorem Platform.api_reaches {allowed : Platform Ctx → PlatformAction Ctx → Prop} {s : Platform Ctx}
    (h : Reasoning.Reachable (Platform.step m pydantic registry) allowed .empty s) :
    s.api.Reaches m pydantic := by
  apply Reasoning.Reachable.map (f := Platform.api) h
  intro s a s' _ hstep
  cases Platform.step_steps hstep with
  | api _ happly => exact .inr ⟨_, trivial, happly⟩
  | work env hcall =>
      apply Or.inl
      unfold Platform.work
      split <;> rfl
  | consumeResult _ happly => exact .inr ⟨_, trivial, happly⟩
  | _ => exact .inl rfl

/-! ## 4. The invariant -/

-- What the worker is about to publish or to log.
def ProcessPc.Answers (task : AgentTask) : ProcessPc → Prop
  | .publish r => r.Answers task
  | .write r => r.Answers task
  | _ => True

theorem Worker.mem_results_record {id : Nat} {rs : List AgentResult} {rows : List LogRow}
    {acked : List Nat} {w : Worker} {x : Nat × AgentResult} :
    x ∈ (w.record id rs rows acked).results ↔ x ∈ w.results ∨ ∃ r ∈ rs, x = (id, r) := by
  simp only [Worker.record, List.mem_append, List.mem_map, eq_comm]

-- Whatever fails, the worker publishes results of its task only.
theorem processStep_answers (env : ProcessEnv) (registry : ToolRegistry) {entry : Entry}
    {task : AgentTask} (htask : entry.task = .ok task) {s : ProcessPc × Worker}
    (h : s.1.Answers task) :
    (processStep env registry entry s).1.Answers task ∧
      ∀ x ∈ (processStep env registry entry s).2.results, x ∈ s.2.results ∨ x.2.Answers task := by
  obtain ⟨pc, w⟩ := s
  cases pc with
  | run =>
      simp only [processStep, htask]
      split
      · exact ⟨trivial, fun x hx => .inl hx⟩
      · split
        · rename_i r hrun
          exact ⟨agentRun_answers hrun, fun x hx => .inl hx⟩
        · exact ⟨trivial, fun x hx => .inl hx⟩
  | publish r =>
      have hresults : ∀ x ∈ (w.record entry.id (env.publish.wrote r) [] []).results,
          x ∈ w.results ∨ x.2.Answers task := by
        intro x hx
        rcases Worker.mem_results_record.mp hx with hx | ⟨r', hr', rfl⟩
        · exact .inl hx
        · rw [Remote.mem_wrote hr']
          exact .inr h
      simp only [processStep]
      split
      · exact ⟨h, hresults⟩
      · exact ⟨trivial, hresults⟩
      · exact ⟨trivial, hresults⟩
  | write r =>
      have hresults : ∀ rows, (w.record entry.id [] rows []).results = w.results :=
        fun rows => List.append_nil _
      simp only [processStep]
      split <;> exact ⟨trivial, fun x hx => .inl (hresults _ ▸ hx)⟩
  | publishFailed exc =>
      simp only [processStep, htask, Except.toOption, Option.toList_some, List.flatMap_cons,
        List.flatMap_nil, List.append_nil]
      have hresults : ∀ x ∈ (w.record entry.id (env.publishFailed.wrote (failedResult task exc))
          [] []).results, x ∈ w.results ∨ x.2.Answers task := by
        intro x hx
        rcases Worker.mem_results_record.mp hx with hx | ⟨r', hr', rfl⟩
        · exact .inl hx
        · rw [Remote.mem_wrote hr']
          exact .inr (AgentTask.result_answers ..)
      split <;> exact ⟨trivial, hresults⟩
  | ack leaving =>
      have hresults : ∀ acked, (w.record entry.id [] [] acked).results = w.results :=
        fun acked => List.append_nil _
      simp only [processStep]
      split <;> exact ⟨trivial, fun x hx => .inl (hresults _ ▸ hx)⟩
  | ended leaving => exact ⟨trivial, fun x hx => .inl hx⟩

theorem Dispatching.step_registered {s s' : Dispatching} {event : CallEvent}
    (hstep : s.step event = some s') : ∀ task ∈ s.registered, task ∈ s'.registered := by
  intro task hmem
  cases Dispatching.step_steps hstep with
  | register _ _ => exact List.mem_append_left _ hmem
  | publish reply _ _ => cases reply <;> exact hmem
  | timeout _ _ => exact hmem
  | wake _ _ => exact hmem
  | consume r =>
      rw [(s.consume_frame r).2.2.1]
      exact hmem

-- Only registered tasks are sent.
theorem Dispatching.step_tasks {s s' : Dispatching} {event : CallEvent} (hconsistent : s.Consistent)
    (hstep : s.step event = some s') (h : ∀ task ∈ s.tasks, task ∈ s.registered) :
    ∀ task ∈ s'.tasks, task ∈ s'.registered := by
  intro task hmem
  apply Dispatching.step_registered hstep
  cases Dispatching.step_steps hstep with
  | register _ _ => exact h task hmem
  | @publish id c reply hcall _ =>
      have htasks : task ∈ if reply.carriedOut then s.tasks ++ [c.task] else s.tasks := by
        cases reply <;> exact hmem
      split at htasks
      · rcases List.mem_append.mp htasks with htask | htask
        · exact h task htask
        · rw [List.mem_singleton.mp htask]
          exact hconsistent.call_registered hcall
      · exact h task htasks
  | timeout _ _ => exact h task hmem
  | wake _ _ => exact h task hmem
  | consume r =>
      rw [(s.consume_frame r).1] at hmem
      exact h task hmem

/-- Every task on its way belongs to a future, and every result on its way to such a task. -/
structure Platform.Correlated (s : Platform Ctx) : Prop where
  answered : s.api.dispatching.Answered s.handled
  tasks : ∀ task ∈ s.api.dispatching.tasks, task ∈ s.api.dispatching.registered
  call : ∀ call, s.call = some call → ∃ task ∈ s.api.dispatching.registered,
    call.entry.task = .ok task ∧ call.pc.Answers task
  results : ∀ x ∈ s.worker.results, ∃ task ∈ s.api.dispatching.registered, x.2.Answers task

theorem Platform.correlated_empty : (Platform.empty : Platform Ctx).Correlated := by
  refine ⟨Dispatching.answered_empty, ?_, ?_, ?_⟩
  · intro task hmem
    cases hmem
  · intro call hcall
    cases hcall
  · intro x hx
    cases hx

-- A step of the calls keeps what is known about the streams.
theorem Platform.Correlated.dispatch {s : Platform Ctx} (h : s.Correlated)
    (hconsistent : s.api.dispatching.Consistent) {event : CallEvent} (api : Process Ctx)
    (hstep : s.api.dispatching.step event = some api.dispatching) (resultsRead : Nat)
    (hresults : ∀ r ∈ event.results, (∃ task ∈ s.api.dispatching.registered, r.Answers task) ∧
      ∀ c, s.api.dispatching.calls r.executionId = some c →
        s.api.dispatching.dispatcher.Open c.future → r.taskId = c.task.taskId) :
    Platform.Correlated { s with
      api := api, resultsRead := resultsRead, handled := s.handled ++ event.results } := by
  have hregistered := Dispatching.step_registered hstep
  refine ⟨h.answered.step hconsistent hstep hresults,
    Dispatching.step_tasks hconsistent hstep h.tasks, ?_, ?_⟩
  · intro call hcall
    obtain ⟨task, hmem, hcall⟩ := h.call call hcall
    exact ⟨task, hregistered task hmem, hcall⟩
  · intro x hx
    obtain ⟨task, hmem, hr⟩ := h.results x hx
    exact ⟨task, hregistered task hmem, hr⟩

/-- The first result that is handled for its task settles the call for that task: the execution has
made no other call that is still without an answer. -/
theorem Platform.Correlated.own {s : Platform Ctx} (h : s.Correlated)
    (hsequential : s.api.Sequential)
    {r : AgentResult} {task : AgentTask} (hmem : task ∈ s.api.dispatching.registered)
    (hr : r.Answers task) {c : Call} (hcall : s.api.dispatching.calls r.executionId = some c)
    (hfirst : ∀ r' ∈ s.handled, r'.taskId ≠ r.taskId) : r.taskId = c.task.taskId := by
  obtain ⟨a, hact, hsome⟩ := hsequential.waiting _ c hcall
  have hover : ¬ a.run.Over := by
    intro hover
    rw [hover.agentStep] at hsome
    cases hsome
  rcases hsequential.passed _ a hact hover task hmem hr.executionId.symm with
    ⟨c', hcall', rfl⟩ | ⟨value, hanswer⟩
  · rw [hcall] at hcall'
    cases hcall'
    exact hr.taskId
  · obtain ⟨r', hr', hid, -⟩ := h.answered.answers _ hanswer
    exact absurd (hid.trans hr.taskId.symm) (hfirst r' hr')

/-- Every step that meets the condition keeps the invariant. -/
theorem Platform.Correlated.step {s s' : Platform Ctx} {a : PlatformAction Ctx}
    (h : s.Correlated) (hapi : s.api.Reaches m pydantic) (hallowed : s.FirstResult a)
    (hstep : s.step m pydantic registry a = some s') : s'.Correlated := by
  have hconsistent := hapi.consistent
  have hsequential := Process.Reaches.sequential hapi
  cases Platform.step_steps hstep with
  | @api a api hnot happly =>
      rcases Process.step_dispatching happly with heq | ⟨event, hevent, hconsume⟩
      · exact ⟨heq ▸ h.answered, heq ▸ h.tasks, heq ▸ h.call, heq ▸ h.results⟩
      · have hnone : event.results = [] := by
          cases event with
          | consume r => exact absurd (hconsume r rfl) (hnot r)
          | _ => rfl
        have hkept := h.dispatch hconsistent api hevent s.resultsRead (by
          rw [hnone]
          intro r hr
          cases hr)
        rw [hnone, List.append_nil] at hkept
        exact hkept
  | @takeTask task hidle htask =>
      refine ⟨h.answered, h.tasks, ?_, h.results⟩
      intro call hcall
      cases hcall
      exact ⟨task, h.tasks task (List.mem_of_getElem? htask), rfl, trivial⟩
  | @work env call hcall =>
      obtain ⟨task, hmem, htask, hpc⟩ := h.call call hcall
      obtain ⟨hpc', hresults⟩ := processStep_answers env registry htask
        (s := (call.pc, s.worker)) hpc
      have hall : ∀ x ∈ (processStep env registry call.entry (call.pc, s.worker)).2.results,
          ∃ task ∈ s.api.dispatching.registered, x.2.Answers task := by
        intro x hx
        rcases hresults x hx with hx | hx
        · exact h.results x hx
        · exact ⟨task, hmem, hx⟩
      unfold Platform.work
      split <;> rename_i heq <;> rw [heq] at hpc' hall
      · refine ⟨h.answered, h.tasks, ?_, hall⟩
        intro call' hcall'
        cases hcall'
      · refine ⟨h.answered, h.tasks, ?_, hall⟩
        intro call' hcall'
        cases hcall'
        exact ⟨task, hmem, htask, hpc'⟩
  | skipTask => exact ⟨h.answered, h.tasks, h.call, h.results⟩
  | @consumeResult id r api hresult happly =>
      obtain ⟨task, hmem, hr⟩ := h.results _ (List.mem_of_getElem? hresult)
      cases happly
      have hevent : s.api.dispatching.step (.consume r) =
          some (s.api.dispatching.consume r) := rfl
      refine h.dispatch hconsistent { s.api with dispatching := s.api.dispatching.consume r } hevent
        (s.resultsRead + 1) ?_
      intro r' hr'
      cases List.mem_singleton.mp hr'
      refine ⟨⟨task, hmem, hr⟩, fun c hcall hopen => ?_⟩
      exact h.own hsequential hmem hr hcall (hallowed _ hresult c hcall hopen)
  | skipResult => exact ⟨h.answered, h.tasks, h.call, h.results⟩

theorem Platform.correlated {s : Platform Ctx}
    (h : Reasoning.Reachable (Platform.step m pydantic registry) Platform.FirstResult .empty s) :
    s.Correlated := by
  apply Reasoning.Reachable.invariant (I := Platform.Correlated) h Platform.correlated_empty
  intro s a s' hreaches hallowed hstep hcorrelated
  exact hcorrelated.step (Platform.api_reaches hreaches) hallowed hstep

/-! ## 5. Answers come from the results of their tasks -/

-- A second result of a task settles the call that waits by then, which is for another task.
theorem Platform.Correlated.stale {s s' : Platform Ctx} {a : PlatformAction Ctx}
    (h : s.Correlated) (hconsistent : s.api.dispatching.Consistent) (hnot : ¬ s.FirstResult a)
    (hstep : s.step m pydantic registry a = some s') :
    ∃ (id : UUID) (c : Call) (r : AgentResult), s'.api.dispatching.calls id = some c ∧
      s'.api.dispatching.dispatcher.futures[c.future]? = some r.future ∧
      r.taskId ≠ c.task.taskId := by
  cases Platform.step_steps hstep with
  | @consumeResult id r api hresult happly =>
      cases happly
      simp only [Platform.FirstResult, hresult, Option.some.injEq, forall_eq', not_forall,
        not_ne_iff] at hnot
      obtain ⟨c, hcall, hopen, r', hr', hsame⟩ := hnot
      have hawaited := hconsistent.awaited _ c hcall hopen
      refine ⟨r.executionId, c, r, ?_, ?_, ?_⟩
      · show (s.api.dispatching.consume r).calls r.executionId = some c
        rw [(s.api.dispatching.consume_frame r).2.1]
        exact hcall
      · show (s.api.dispatching.consume r).dispatcher.futures[c.future]? = some r.future
        rcases s.api.dispatching.consume_cases r with ⟨f, hpending, hf, heq⟩ | ⟨hclosed, -⟩
        · rw [hawaited] at hpending
          cases hpending
          rw [heq]
          exact List.getElem?_set_self hf.lt
        · exact absurd hopen (hclosed c.future hawaited)
      · rw [← hsame]
        exact h.answered.fresh _ c hcall hopen r' hr'
  | _ => exact absurd trivial hnot

/-- In every run in which a result that finds a waiting call is the first one handled for its task,
every answer comes from a result for the task of the call.  A step that breaks the condition settles
a waiting call with the result of another task. -/
theorem answers_correlated (m : ContextModel Ctx) (pydantic : Pydantic) (registry : ToolRegistry)
    (s : Platform Ctx)
    (h : Reasoning.Reachable (Platform.step m pydantic registry) Platform.FirstResult .empty s) :
    (∀ x ∈ s.api.dispatching.answers, ∃ r ∈ s.handled, r.taskId = x.1.taskId ∧ x.2 = r.future) ∧
    ∀ a s', s.step m pydantic registry a = some s' → ¬ s.FirstResult a →
      ∃ (id : UUID) (c : Call) (r : AgentResult), s'.api.dispatching.calls id = some c ∧
        s'.api.dispatching.dispatcher.futures[c.future]? = some r.future ∧
        r.taskId ≠ c.task.taskId := by
  have hcorrelated := Platform.correlated h
  have hconsistent := (Platform.api_reaches h).consistent
  exact ⟨hcorrelated.answered.answers,
    fun a s' hstep hnot => hcorrelated.stale hconsistent hnot hstep⟩

/-- Two agent steps. -/
def reviewDefinition : ProcessDefinition where
  steps := [⟨"ask", "agent", [], .id "review", 60⟩, ⟨"review", "agent", [], .none, 60⟩]
  accepted := by decide

/-- The first step of the execution, with `n` awaits of `_process`. -/
def firstStep (env : ProcessEnv) (n : Nat) : List (PlatformAction PyContext) :=
  [.api (.launch 1 7 (.ofDict []) reviewDefinition), .api (.advance 1 (.steady 0)),
   .api (.advance 1 (.steady 1)), .api (.dispatch 1), .api (.publish 1 .ok), .takeTask] ++
  List.replicate n (.work env)

/-- The answer of the first step, and the call of the second. -/
def secondStep : List (PlatformAction PyContext) :=
  [.api (.wake 1), .api (.advance 1 (.steady 2)), .api (.advance 1 (.steady 3)),
   .api (.dispatch 1), .api (.publish 1 .ok)]

theorem answers_correlated_first : ∃ s, Reasoning.runActions
      (Platform.step (contextModel identifierSearch) strictPydantic sqlRegistry) .empty
        (firstStep allSucceeds 4 ++ .consumeResult :: secondStep) = some s ∧
    (∀ x ∈ s.api.dispatching.answers, ∃ r ∈ s.handled, r.taskId = x.1.taskId ∧ x.2 = r.future) ∧
    s.api.dispatching.answers.map (fun x => x.1.taskId) = [0] := by
  have hids : (Reasoning.runActions
      (Platform.step (contextModel identifierSearch) strictPydantic sqlRegistry) .empty
        (firstStep allSucceeds 4 ++ .consumeResult :: secondStep)).map
          (fun s => s.api.dispatching.answers.map fun x => x.1.taskId) = some [0] := by decide
  have hnone : (Reasoning.runActions
      (Platform.step (contextModel identifierSearch) strictPydantic sqlRegistry) .empty
        (firstStep allSucceeds 4)).map (fun s => s.handled.length) = some 0 := by decide
  obtain ⟨s, hrun, hids⟩ := Option.map_eq_some_iff.mp hids
  obtain ⟨s₁, hfirst, hnone⟩ := Option.map_eq_some_iff.mp hnone
  refine ⟨s, hrun, ?_, hids⟩
  rw [Reasoning.runActions_append, hfirst, Option.bind_some] at hrun
  obtain ⟨s₂, hconsume, hsecond⟩ := Option.bind_eq_some_iff.mp hrun
  -- Only the handling of a result has a condition, and it is the first one.
  have hreach₁ : Reasoning.Reachable (Platform.step (contextModel identifierSearch) strictPydantic
      sqlRegistry) Platform.FirstResult .empty s₁ :=
    .of_run .start (by simp [firstStep, Platform.FirstResult, List.replicate]) hfirst
  have hfree : s₁.FirstResult .consumeResult := by
    intro x _ c _ _ r hr
    rw [List.length_eq_zero_iff.mp hnone] at hr
    cases hr
  exact (answers_correlated _ _ _ s (.of_run (.next hreach₁ hfree hconsume)
    (by simp [secondStep, Platform.FirstResult]) hsecond)).1

/-- The second step is failed by the failed result that the worker published for the first one. -/
theorem later_step_failed :
    ¬ ∀ (registry : ToolRegistry) (s : Platform PyContext),
      Reasoning.Reachable (Platform.step (contextModel identifierSearch) strictPydantic registry)
        (fun _ _ => True) .empty s →
      ∀ x ∈ s.api.dispatching.answers, ∃ r ∈ s.handled, r.taskId = x.1.taskId ∧ x.2 = r.future := by
  intro h
  have hids : (Reasoning.runActions
      (Platform.step (contextModel identifierSearch) strictPydantic sqlRegistry) .empty
        (firstStep writeFails 5 ++ .consumeResult :: secondStep ++
          [.consumeResult, .api (.wake 1)])).map (fun s =>
            (s.api.dispatching.answers.map (fun x => x.1.taskId), s.handled.map (·.taskId))) =
      some ([0, 1], [0, 0]) := by decide
  obtain ⟨s, hrun, hids⟩ := Option.map_eq_some_iff.mp hids
  obtain ⟨hanswers, hhandled⟩ := Prod.mk.inj hids
  have hmem : 1 ∈ s.api.dispatching.answers.map fun x => x.1.taskId := by
    rw [hanswers]
    decide
  obtain ⟨x, hx, hid⟩ := List.mem_map.mp hmem
  obtain ⟨r, hr, hsame, -⟩ := h sqlRegistry s (.of_run .start (fun _ _ _ => trivial) hrun) x hx
  have hone : 1 ∈ s.handled.map (·.taskId) := by
    rw [← hid, ← hsame]
    exact List.mem_map_of_mem hr
  rw [hhandled] at hone
  revert hone
  decide

end ConstructorPlatform
