import ConstructorPlatform.PlatformApi.Process

/-!
# CallOrder — the agent steps of an execution come one after the other

What ties the runs of a process to their calls.  An execution registers a task only after the call
for the one before has returned with an answer; a call that ends in any other way ends the run.
-/

namespace ConstructorPlatform

variable {Ctx : Type} {m : ContextModel Ctx} {pydantic : Pydantic} {steps : List StepSchema}

/-! ## 1. Steps of a run -/

/-- The run has reached one of its `except` blocks or its end. -/
def Run.Over (r : Run Ctx) : Prop :=
  match r.pc with
  | .handler _ => True
  | .ended _ => True
  | _ => False

theorem Run.Over.execute {r : Run Ctx} (h : r.Over) (i : Input) :
    (executeWorkflow m steps i r).Over := by
  obtain ⟨new, hmoves, -⟩ := executeWorkflow_moves m steps i r
  unfold Run.Over at h ⊢
  split at h
  · rename_i exc hpc
    rw [hpc] at hmoves
    generalize (executeWorkflow m steps i r).pc = pc at hmoves ⊢
    cases hmoves <;> exact trivial
  · rename_i exc hpc
    rw [hpc] at hmoves
    generalize (executeWorkflow m steps i r).pc = pc at hmoves ⊢
    cases hmoves
    exact trivial
  · exact h.elim

theorem Run.Over.agentStep {r : Run Ctx} (h : r.Over) : r.agentStep = none := by
  unfold Run.Over at h
  unfold Run.agentStep
  split at h <;> rename_i hpc
  · rw [hpc]
  · rw [hpc]
  · exact h.elim

-- An exception out of `dispatch_agent_step` leaves the `match` for an `except` block.
theorem Run.agentStep_error {r : Run Ctx} (h : r.agentStep.isSome = true) (e : PyExc) :
    (executeWorkflow m steps (.agentEnd (.error e)) r).Over := by
  unfold Run.agentStep at h
  split at h
  · rename_i step hpc
    split at h
    · rename_i htype
      simp only [Run.Over, executeWorkflow, hpc, Run.body, htype, Input.agentEnd, Run.goto_pc]
    · cases h
  · cases h

-- A commit leaves the row in memory to what follows it.
theorem Run.commit_execution {outcome : Except PyExc Unit} {r : Run Ctx} {ok : Run Ctx → Run Ctx}
    {fail : PyExc → Run Ctx → Run Ctx} (hok : ∀ r, (ok r).execution = r.execution)
    (hfail : ∀ e r, (fail e r).execution = r.execution) :
    (r.commit outcome ok fail).execution = r.execution := by
  rcases Run.commit_cases outcome r ok fail with ⟨-, -, h⟩ | ⟨-, e, -, h⟩ | ⟨-, h⟩ <;> rw [h]
  · rw [hok]
  · rw [hfail]
  · rw [hfail]

theorem executeWorkflow_id (m : ContextModel Ctx) (steps : List StepSchema) (i : Input)
    (r : Run Ctx) : (executeWorkflow m steps i r).execution.id = r.execution.id := by
  unfold executeWorkflow
  split
  · rw [Run.begin, Run.commit_execution (by simp) (by simp)]
    rfl
  · rename_i current _
    unfold Run.loopHead
    split
    · split
      · rw [Run.startStep, Run.commit_execution (by simp) (by simp)]
        rfl
      · rfl
    · rw [Run.complete, Run.commit_execution (by simp) (by simp)]
      rfl
  · rename_i step _
    unfold Run.body
    split
    · split <;> rfl
    · split <;> rfl
    · split <;> rfl
    · rfl
  · rw [Run.advance, Run.commit_execution (by simp) (by simp)]
  · rw [Run.fail, Run.commit_execution (by simp) (by simp)]
    rfl
  · rfl

/-! ## 2. The invariant -/

/-- Which tasks an execution has registered, by how far its run has come. -/
structure Process.Sequential (p : Process Ctx) : Prop where
  owner : ∀ id (a : Activity Ctx), p.activities id = some a → a.run.execution.id = id
  launched : ∀ task ∈ p.dispatching.registered, (p.activities task.executionId).isSome = true
  -- A call belongs to a run that stands at its agent step.
  waiting : ∀ id (c : Call), p.dispatching.calls id = some c →
    ∃ a, p.activities id = some a ∧ a.run.agentStep.isSome = true
  passed : ∀ id (a : Activity Ctx), p.activities id = some a → ¬ a.run.Over →
    ∀ task ∈ p.dispatching.registered, task.executionId = id →
      (∃ c, p.dispatching.calls id = some c ∧ c.task = task) ∨
      ∃ value, (task, value) ∈ p.dispatching.answers

theorem Process.sequential_empty : (Process.empty : Process Ctx).Sequential := by
  refine ⟨?_, ?_, ?_, ?_⟩
  · intro id a hact
    cases hact
  · intro task hmem
    cases hmem
  · intro id c hcall
    cases hcall
  · intro id a hact
    cases hact

-- The actions of the calls alone: the futures and the stages of the calls may change.
theorem Process.Sequential.dispatching {p : Process Ctx} (h : p.Sequential) {d : Dispatching}
    (hcalls : ∀ id, (d.calls id).map Call.task = (p.dispatching.calls id).map Call.task)
    (hregistered : d.registered = p.dispatching.registered)
    (hanswers : d.answers = p.dispatching.answers) :
    Process.Sequential { p with dispatching := d } := by
  refine ⟨h.owner, ?_, ?_, ?_⟩
  · rw [hregistered]
    exact h.launched
  · intro id c hcall
    have htask := hcalls id
    rw [hcall] at htask
    obtain ⟨c', hcall', -⟩ := Option.map_eq_some_iff.mp htask.symm
    exact h.waiting id c' hcall'
  · intro id a hact hover task htask he
    rw [hregistered] at htask
    rw [hanswers]
    rcases h.passed id a hact hover task htask he with ⟨c, hcall, rfl⟩ | hanswer
    · have hmap := hcalls id
      rw [hcall] at hmap
      obtain ⟨c', hcall', hsame⟩ := Option.map_eq_some_iff.mp hmap
      exact .inl ⟨c', hcall', hsame⟩
    · exact .inr hanswer

-- A step of a run that makes no call, or whose call has just ended: when the run goes on, the call
-- has an answer.
theorem Process.Sequential.execute {p : Process Ctx} (h : p.Sequential) {id : UUID}
    {a : Activity Ctx} (hact : p.activities id = some a) (i : Input) {d : Dispatching}
    (hcalls : d.calls = Function.update p.dispatching.calls id none)
    (hregistered : d.registered = p.dispatching.registered)
    (hanswers : ∀ x ∈ p.dispatching.answers, x ∈ d.answers)
    (hanswered : ¬ (a.execute m i).run.Over → ∀ c, p.dispatching.calls id = some c →
      ∃ value, (c.task, value) ∈ d.answers) :
    ({ p with dispatching := d }.setActivity id (a.execute m i)).Sequential := by
  refine ⟨?_, ?_, ?_, ?_⟩
  · intro id' a' hact'
    rcases Reasoning.update_cases hact' with ⟨rfl, hself⟩ | ⟨-, hact'⟩
    · cases hself
      exact (executeWorkflow_id m a.definition.steps i a.run).trans (h.owner id' a hact)
    · exact h.owner id' a' hact'
  · intro task htask
    show (Function.update p.activities id _ task.executionId).isSome = true
    by_cases hid : task.executionId = id
    · rw [hid, Function.update_self]
      rfl
    · rw [Function.update_of_ne hid]
      exact h.launched task (hregistered ▸ htask)
  · intro id' c hcall
    change d.calls id' = some c at hcall
    rw [hcalls] at hcall
    rcases Reasoning.update_cases hcall with ⟨-, hself⟩ | ⟨hid, hcall⟩
    · cases hself
    · obtain ⟨a', hact', hstep⟩ := h.waiting id' c hcall
      exact ⟨a', (Function.update_of_ne hid _ _).trans hact', hstep⟩
  · intro id' a' hact' hover task htask he
    change task ∈ d.registered at htask
    rw [hregistered] at htask
    rcases Reasoning.update_cases hact' with ⟨rfl, hself⟩ | ⟨hid, hact'⟩
    · cases hself
      -- Before the step the run was not over either.
      have hover' : ¬ a.run.Over := fun h => hover (h.execute i)
      rcases h.passed id' a hact hover' task htask he with ⟨c, hcall, rfl⟩ | ⟨value, hanswer⟩
      · exact .inr (hanswered hover c hcall)
      · exact .inr ⟨value, hanswers _ hanswer⟩
    · rcases h.passed id' a' hact' hover task htask he with ⟨c, hcall, hc⟩ | ⟨value, hanswer⟩
      · refine .inl ⟨c, ?_, hc⟩
        show d.calls id' = some c
        rw [hcalls, Function.update_of_ne hid, hcall]
      · exact .inr ⟨value, hanswers _ hanswer⟩

-- A step of a run that makes no call.
theorem Process.Sequential.executeIdle {p : Process Ctx} (h : p.Sequential) {id : UUID}
    {a : Activity Ctx} (hact : p.activities id = some a) (hidle : p.dispatching.calls id = none)
    (i : Input) : (p.setActivity id (a.execute m i)).Sequential := by
  refine h.execute hact i (d := p.dispatching) ?_ rfl (fun _ hx => hx) ?_
  · rw [← hidle, Function.update_eq_self]
  · intro _ c hcall
    rw [hidle] at hcall
    cases hcall

theorem Process.Sequential.register {p : Process Ctx} (h : p.Sequential) {id : UUID}
    {a : Activity Ctx} (hact : p.activities id = some a) (hstep : a.run.agentStep.isSome = true)
    {task : AgentTask} (hid : task.executionId = id) (hidle : p.dispatching.calls id = none) :
    Process.Sequential { p with dispatching := p.dispatching.register task } := by
  have hover : ¬ a.run.Over := by
    intro hover
    rw [hover.agentStep] at hstep
    cases hstep
  have hcalls : (p.dispatching.register task).calls = Function.update p.dispatching.calls id
      (some ⟨task, p.dispatching.dispatcher.futures.length, .publishing⟩) := by
    rw [← hid]
    rfl
  refine ⟨h.owner, ?_, ?_, ?_⟩
  · intro t ht
    rcases List.mem_append.mp ht with ht | ht
    · exact h.launched t ht
    · rw [List.mem_singleton.mp ht, hid, hact]
      rfl
  · intro id' c hcall
    change (p.dispatching.register task).calls id' = some c at hcall
    rw [hcalls] at hcall
    by_cases hid' : id' = id
    · subst hid'
      exact ⟨a, hact, hstep⟩
    · rw [Function.update_of_ne hid'] at hcall
      exact h.waiting id' c hcall
  · intro id' a' hact' hover' t ht he
    show (∃ c, (p.dispatching.register task).calls id' = some c ∧ _) ∨ _
    rw [hcalls]
    rcases List.mem_append.mp ht with ht | ht
    · rcases h.passed id' a' hact' hover' t ht he with ⟨c, hcall, hc⟩ | hanswer
      · -- The execution that registers has no call, so this is another one.
        have hne : id' ≠ id := by
          intro hsame
          subst hsame
          rw [hidle] at hcall
          cases hcall
        exact .inl ⟨c, by rw [Function.update_of_ne hne, hcall], hc⟩
      · exact .inr hanswer
    · obtain rfl := List.mem_singleton.mp ht
      obtain rfl : id' = id := he.symm.trans hid
      exact .inl ⟨_, Function.update_self .., rfl⟩

theorem Process.Sequential.launch {p : Process Ctx} (h : p.Sequential) {id : UUID}
    (tenantId : UUID) (context : Ctx) (definition : ProcessDefinition)
    (hnew : p.activities id = none) :
    (p.setActivity id ⟨definition, Run.start (.create id tenantId context)⟩).Sequential := by
  have hkept : ∀ {id' : UUID}, id' ≠ id →
      Function.update p.activities id (some ⟨definition, Run.start (.create id tenantId context)⟩)
        id' = p.activities id' := fun hid => Function.update_of_ne hid _ _
  have hother : ∀ task ∈ p.dispatching.registered, task.executionId ≠ id := by
    rintro task htask rfl
    have hsome := h.launched task htask
    rw [hnew] at hsome
    cases hsome
  refine ⟨?_, ?_, ?_, ?_⟩
  · intro id' a hact
    rcases Reasoning.update_cases hact with ⟨rfl, hself⟩ | ⟨-, hact⟩
    · cases hself
      rfl
    · exact h.owner id' a hact
  · intro task htask
    show (Function.update p.activities id _ task.executionId).isSome = true
    rw [hkept (hother task htask)]
    exact h.launched task htask
  · intro id' c hcall
    obtain ⟨a, hact, hstep⟩ := h.waiting id' c hcall
    have hid : id' ≠ id := by
      intro hsame
      subst hsame
      rw [hnew] at hact
      cases hact
    exact ⟨a, (hkept hid).trans hact, hstep⟩
  · intro id' a hact hover task htask he
    have hid : id' ≠ id := he ▸ hother task htask
    exact h.passed id' a ((hkept hid).symm.trans hact) hover task htask he

-- Only the stage of the call changes.
theorem Dispatching.setStage_task {s : Dispatching} {id : UUID} {c : Call}
    (hcall : s.calls id = some c) (stage : CallStage) (id' : UUID) :
    (Function.update s.calls id (some { c with stage := stage }) id').map Call.task =
      (s.calls id').map Call.task := by
  by_cases hid : id' = id
  · rw [hid, Function.update_self, hcall]
    rfl
  · rw [Function.update_of_ne hid]

-- The answer of a call that goes on without an exception is recorded.
theorem Dispatching.wake_answer {s : Dispatching} {c : Call} {output : Json}
    (h : s.outcome c = some (.ok output)) : ∃ value, (c.task, value) ∈ (s.wake c).answers := by
  obtain ⟨task, future, stage⟩ := c
  cases stage with
  | publishing => cases h
  | waiting timedOut =>
      cases timedOut with
      | true => cases h
      | false =>
          simp only [Dispatching.outcome] at h
          cases hfuture : s.dispatcher.futures[future]? with
          | none =>
              rw [hfuture] at h
              cases h
          | some value =>
              refine ⟨value, List.mem_append_right _ ?_⟩
              simp [hfuture]

/-- Every action keeps the invariant. -/
theorem Process.Sequential.step {p p' : Process Ctx} {action : Action Ctx} (h : p.Sequential)
    (hconsistent : p.dispatching.Consistent) (hstep : p.step m pydantic action = some p') :
    p'.Sequential := by
  cases Process.step_steps hstep with
  | launch tenantId context definition hnew => exact h.launch tenantId context definition hnew
  | @advance id a i hact hnone =>
      have hidle : p.dispatching.calls id = none := by
        by_contra hcall
        obtain ⟨c, hcall⟩ := Option.ne_none_iff_exists'.mp hcall
        obtain ⟨a', hact', hsome⟩ := h.waiting id c hcall
        rw [hact] at hact'
        cases hact'
        rw [hnone] at hsome
        cases hsome
      exact h.executeIdle hact hidle i
  | @refuse id a e hact hsome hidle => exact h.executeIdle hact hidle _
  | @register id a task d hact hsome htask hd =>
      have hid : task.executionId = id := htask.trans (h.owner id a hact)
      cases Dispatching.step_steps hd with
      | register hidle _ => exact h.register hact hsome hid (hid ▸ hidle)
  | @publish id d reply hd =>
      cases Dispatching.step_steps hd with
      | publish _ hcall hstage =>
          rename_i c
          obtain ⟨-, rfl⟩ := hconsistent.calls _ c hcall
          exact h.dispatching (Dispatching.setStage_task hcall (.waiting false)) rfl rfl
  | @publishFails id a d reply e carriedOut hact hd =>
      obtain ⟨a', hact', hsome⟩ : ∃ a', p.activities id = some a' ∧
          a'.run.agentStep.isSome = true := by
        cases Dispatching.step_steps hd with
        | publish _ hcall _ => exact h.waiting id _ hcall
      rw [hact] at hact'
      cases hact'
      cases Dispatching.step_steps hd with
      | publish _ hcall hstage =>
          rename_i c
          obtain ⟨-, rfl⟩ := hconsistent.calls _ c hcall
          exact h.execute hact _ rfl rfl (fun _ hx => hx)
            fun hover => absurd (Run.agentStep_error hsome e) hover
  | @timeout id d hd =>
      cases Dispatching.step_steps hd with
      | timeout hcall hstage =>
          rename_i c
          obtain ⟨-, rfl⟩ := hconsistent.calls _ c hcall
          exact h.dispatching (Dispatching.setStage_task hcall (.waiting true)) rfl rfl
  | @wake id a c outcome d hact hcall houtcome hd =>
      obtain ⟨a', hact', hsome⟩ := h.waiting id c hcall
      rw [hact] at hact'
      cases hact'
      cases Dispatching.step_steps hd with
      | wake hcall' hdone =>
          rename_i c'
          rw [hcall] at hcall'
          cases hcall'
          obtain ⟨-, rfl⟩ := hconsistent.calls _ c hcall
          refine h.execute hact _ rfl rfl (fun x hx => List.mem_append_left _ hx) ?_
          intro hover c' hcall'
          rw [hcall] at hcall'
          cases hcall'
          cases outcome with
          | ok output => exact Dispatching.wake_answer houtcome
          | error e => exact absurd (Run.agentStep_error hsome e) hover
  | consume r =>
      obtain ⟨-, hcalls, hregistered, hanswers⟩ := p.dispatching.consume_frame r
      exact h.dispatching (fun id => by rw [hcalls]) hregistered hanswers

theorem Process.Reaches.sequential {p : Process Ctx} (h : p.Reaches m pydantic) : p.Sequential := by
  apply Reasoning.Reachable.invariant (I := Process.Sequential) h Process.sequential_empty
  intro p a p' hreaches _ hstep hsequential
  exact hsequential.step (Process.Reaches.consistent hreaches) hstep

end ConstructorPlatform
