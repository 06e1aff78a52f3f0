import ConstructorPlatform.PlatformApi.Dispatching
import ConstructorPlatform.PlatformApi.Transform

/-!
# Process — one platform-api process

Any number of executions, each driven by one `execute_workflow` task, with the result consumer
beside them.  The tasks run interleaved: an action is what one of them does between two awaits.
The state of the calls is a `Dispatching`, and every action is a step of it or leaves it alone
(`Process.step_dispatching`), so its invariant holds in every reachable state of the process.
-/

namespace ConstructorPlatform

variable {Ctx : Type}

/-! ## 1. `AgentTask(...)` in `dispatch_agent_step` -/

/-- The fields whose values pydantic refuses. -/
def invalidFields (pydantic : Pydantic) (config : Dict) : List String :=
  [("task_type", (config.getOr "task_type" (.str "default")).str?.isSome),
   ("prompt", (config.getOr "prompt" (.str "")).str?.isSome),
   ("tools_allowed", (config.getOr "tools_allowed" (.arr [])).strings?.isSome),
   ("model_override", (config.getOr "model_override" .null).optionalStr?.isSome),
   ("max_iterations", (pydantic.int (config.getOr "max_iterations" (.int 20))).isSome)].filterMap
    fun field => if field.2 then none else some field.1

/-- The task of a step; its context is what `model_dump_json` will write. -/
def buildTask (pydantic : Pydantic) (taskId : UUID) (e : Execution Ctx) (context : Dict)
    (step : StepSchema) : Except PyExc AgentTask :=
  match (step.config.getOr "task_type" (.str "default")).str?,
    (step.config.getOr "prompt" (.str "")).str?,
    (step.config.getOr "tools_allowed" (.arr [])).strings?,
    (step.config.getOr "model_override" .null).optionalStr?,
    pydantic.int (step.config.getOr "max_iterations" (.int 20)) with
  | some taskType, some prompt, some toolsAllowed, some modelOverride, some maxIterations =>
      .ok
        { taskId := taskId
          executionId := e.id
          tenantId := e.tenantId
          stepId := step.id
          taskType := taskType
          prompt := prompt
          context := context
          toolsAllowed := toolsAllowed
          modelOverride := modelOverride
          timeoutSeconds := step.timeoutSeconds
          maxIterations := maxIterations }
  | _, _, _, _, _ => .error ⟨.valueError, pydantic.errorText (invalidFields pydantic step.config)⟩

/-! ## 2. The process -/

/-- An `execute_workflow` task. -/
structure Activity (Ctx : Type) where
  definition : ProcessDefinition
  run : Run Ctx

structure Process (Ctx : Type) where
  activities : UUID → Option (Activity Ctx)
  dispatching : Dispatching

def Process.empty : Process Ctx := ⟨fun _ => none, .empty⟩

/-- The agent step whose `case` the run has entered. -/
def Run.agentStep (r : Run Ctx) : Option StepSchema :=
  match r.pc with
  | .body step => if step.type = "agent" then some step else none
  | _ => none

def Process.setActivity (id : UUID) (a : Activity Ctx) (p : Process Ctx) : Process Ctx :=
  { p with activities := Function.update p.activities id (some a) }

/-- The end of `dispatch_agent_step`; the `case` of an agent step reads nothing else. -/
def Input.agentEnd (outcome : Except PyExc Json) : Input := ⟨0, .ok (), .ok, outcome⟩

inductive Action (Ctx : Type) where
  -- `create_execution` stores the row and starts the task.
  | launch (id tenantId : UUID) (context : Ctx) (definition : ProcessDefinition)
  | advance (id : UUID) (i : Input)
  -- `dispatch_agent_step` up to its first `await`.
  | dispatch (id : UUID)
  | publish (id : UUID) (reply : Reply)
  | timeout (id : UUID)
  | wake (id : UUID)
  | consume (r : AgentResult)

section Step

variable (m : ContextModel Ctx) (pydantic : Pydantic)

/-- One step of a workflow. -/
def Activity.execute (i : Input) (a : Activity Ctx) : Activity Ctx :=
  { a with run := executeWorkflow m a.definition.steps i a.run }

/-- `task.model_dump_json()` runs before the command is sent. -/
def Activity.send (reply : Reply) (a : Activity Ctx) : Reply :=
  match m.dump a.run.execution.context with
  | .ok _ => reply
  | .error e => .raised e false

/-- `dispatch_agent_step` until it has registered its future. -/
def Process.dispatch (id : UUID) (a : Activity Ctx) (step : StepSchema) (p : Process Ctx) :
    Option (Process Ctx) :=
  let context := (m.dump a.run.execution.context).toOption.getD []
  match buildTask pydantic p.dispatching.registered.length a.run.execution context step with
  | .error e => some (p.setActivity id (a.execute m (.agentEnd (.error e))))
  | .ok task => (p.dispatching.step (.register task)).map fun d => { p with dispatching := d }

def Process.publish (id : UUID) (a : Activity Ctx) (reply : Reply) (p : Process Ctx) :
    Option (Process Ctx) :=
  (p.dispatching.step (.publish id reply)).map fun d =>
    match reply with
    | .ok => { p with dispatching := d }
    | .raised e _ => { p with dispatching := d }.setActivity id (a.execute m (.agentEnd (.error e)))

def Process.wake (id : UUID) (a : Activity Ctx) (c : Call) (p : Process Ctx) :
    Option (Process Ctx) :=
  (p.dispatching.outcome c).bind fun outcome =>
    (p.dispatching.step (.wake id)).map fun d =>
      { p with dispatching := d }.setActivity id (a.execute m (.agentEnd outcome))

def Process.step (p : Process Ctx) : Action Ctx → Option (Process Ctx)
  | .launch id tenantId context definition =>
      match p.activities id with
      | some _ => none
      | none => some (p.setActivity id ⟨definition, Run.start (.create id tenantId context)⟩)
  | .advance id i =>
      match p.activities id with
      | some a =>
          if a.run.agentStep.isSome then none else some (p.setActivity id (a.execute m i))
      | none => none
  | .dispatch id =>
      match p.activities id with
      | some a =>
          match a.run.agentStep, p.dispatching.calls id with
          | some step, none => p.dispatch m pydantic id a step
          | _, _ => none
      | none => none
  | .publish id reply =>
      match p.activities id with
      | some a => p.publish m id a (a.send m reply)
      | none => none
  | .timeout id => (p.dispatching.step (.timeout id)).map fun d => { p with dispatching := d }
  | .wake id =>
      match p.activities id, p.dispatching.calls id with
      | some a, some c => p.wake m id a c
      | _, _ => none
  | .consume r => (p.dispatching.step (.consume r)).map fun d => { p with dispatching := d }

/-- The states of the process, whatever its tasks and the environment do. -/
def Process.Reaches (p : Process Ctx) : Prop :=
  Reasoning.Reachable (Process.step m pydantic) (fun _ _ => True) Process.empty p

end Step

/-! ## 3. What an action can do -/

variable {m : ContextModel Ctx} {pydantic : Pydantic}

theorem buildTask_executionId {taskId : UUID} {e : Execution Ctx} {context : Dict}
    {step : StepSchema} {task : AgentTask}
    (h : buildTask pydantic taskId e context step = .ok task) :
    task.executionId = e.id := by
  unfold buildTask at h
  split at h
  · cases h
    rfl
  · cases h

/-- The actions, with what their guards say. -/
inductive Process.Steps (m : ContextModel Ctx) (p : Process Ctx) :
    Action Ctx → Process Ctx → Prop where
  | launch {id : UUID} (tenantId : UUID) (context : Ctx) (definition : ProcessDefinition)
      (hnew : p.activities id = none) :
      Steps m p (.launch id tenantId context definition)
        (p.setActivity id ⟨definition, Run.start (.create id tenantId context)⟩)
  | advance {id : UUID} {a : Activity Ctx} (i : Input) (hact : p.activities id = some a)
      (hstep : a.run.agentStep = none) :
      Steps m p (.advance id i) (p.setActivity id (a.execute m i))
  | refuse {id : UUID} {a : Activity Ctx} (e : PyExc) (hact : p.activities id = some a)
      (hstep : a.run.agentStep.isSome = true) (hidle : p.dispatching.calls id = none) :
      Steps m p (.dispatch id) (p.setActivity id (a.execute m (.agentEnd (.error e))))
  | register {id : UUID} {a : Activity Ctx} {task : AgentTask} {d : Dispatching}
      (hact : p.activities id = some a) (hstep : a.run.agentStep.isSome = true)
      (htask : task.executionId = a.run.execution.id)
      (hd : p.dispatching.step (.register task) = some d) :
      Steps m p (.dispatch id) { p with dispatching := d }
  | publish {id : UUID} {d : Dispatching} (reply : Reply)
      (hd : p.dispatching.step (.publish id .ok) = some d) :
      Steps m p (.publish id reply) { p with dispatching := d }
  | publishFails {id : UUID} {a : Activity Ctx} {d : Dispatching} (reply : Reply) {e : PyExc}
      {carriedOut : Bool} (hact : p.activities id = some a)
      (hd : p.dispatching.step (.publish id (.raised e carriedOut)) = some d) :
      Steps m p (.publish id reply)
        ({ p with dispatching := d }.setActivity id (a.execute m (.agentEnd (.error e))))
  | timeout {id : UUID} {d : Dispatching} (hd : p.dispatching.step (.timeout id) = some d) :
      Steps m p (.timeout id) { p with dispatching := d }
  | wake {id : UUID} {a : Activity Ctx} {c : Call} {outcome : Except PyExc Json} {d : Dispatching}
      (hact : p.activities id = some a) (hcall : p.dispatching.calls id = some c)
      (houtcome : p.dispatching.outcome c = some outcome)
      (hd : p.dispatching.step (.wake id) = some d) :
      Steps m p (.wake id)
        ({ p with dispatching := d }.setActivity id (a.execute m (.agentEnd outcome)))
  | consume (r : AgentResult) :
      Steps m p (.consume r) { p with dispatching := p.dispatching.consume r }

theorem Process.step_steps {p p' : Process Ctx} {a : Action Ctx}
    (h : p.step m pydantic a = some p') : p.Steps m a p' := by
  cases a with
  | launch id tenantId context definition =>
      simp only [Process.step] at h
      split at h
      · cases h
      · rename_i hnew
        cases h
        exact .launch tenantId context definition hnew
  | advance id i =>
      simp only [Process.step] at h
      split at h
      · rename_i a hact
        split at h
        · cases h
        · rename_i hstep
          cases h
          exact .advance i hact (Option.not_isSome_iff_eq_none.mp hstep)
      · cases h
  | dispatch id =>
      simp only [Process.step] at h
      split at h
      · rename_i a hact
        split at h
        · rename_i step hstep hidle
          have hsome : a.run.agentStep.isSome = true := by rw [hstep]; rfl
          unfold Process.dispatch at h
          simp only at h
          split at h
          · cases h
            exact .refuse _ hact hsome hidle
          · rename_i task htask
            obtain ⟨d, hd, rfl⟩ := Option.map_eq_some_iff.mp h
            exact .register hact hsome (buildTask_executionId htask) hd
        · cases h
      · cases h
  | publish id reply =>
      simp only [Process.step] at h
      split at h
      · rename_i a hact
        unfold Process.publish at h
        obtain ⟨d, hd, rfl⟩ := Option.map_eq_some_iff.mp h
        cases hsend : a.send m reply <;> rw [hsend] at hd
        · exact .publish reply hd
        · exact .publishFails reply hact hd
      · cases h
  | timeout id =>
      obtain ⟨d, hd, rfl⟩ := Option.map_eq_some_iff.mp h
      exact .timeout hd
  | wake id =>
      simp only [Process.step] at h
      split at h
      · rename_i a c hact hcall
        obtain ⟨outcome, houtcome, hwake⟩ := Option.bind_eq_some_iff.mp h
        obtain ⟨d, hd, rfl⟩ := Option.map_eq_some_iff.mp hwake
        exact .wake hact hcall houtcome hd
      · cases h
  | consume r =>
      cases h
      exact .consume r

/-! ## 4. The calls of a process -/

/-- Every action is a step of the calls or none, and only results are consumed as such. -/
theorem Process.step_dispatching {p p' : Process Ctx} {a : Action Ctx}
    (h : p.step m pydantic a = some p') :
    p'.dispatching = p.dispatching ∨
      ∃ event, p.dispatching.step event = some p'.dispatching ∧
        ∀ r, event = .consume r → a = .consume r := by
  cases Process.step_steps h with
  | launch _ _ _ _ => exact .inl rfl
  | advance _ _ _ => exact .inl rfl
  | refuse _ _ _ _ => exact .inl rfl
  | register _ _ _ hd => exact .inr ⟨_, hd, fun _ h => by cases h⟩
  | publish _ hd => exact .inr ⟨_, hd, fun _ h => by cases h⟩
  | publishFails _ _ hd => exact .inr ⟨_, hd, fun _ h => by cases h⟩
  | timeout hd => exact .inr ⟨_, hd, fun _ h => by cases h⟩
  | wake _ _ _ hd => exact .inr ⟨_, hd, fun _ h => by cases h⟩
  | consume r => exact .inr ⟨.consume r, rfl, fun _ h => by cases h; rfl⟩

theorem Process.Reaches.consistent {p : Process Ctx} (h : p.Reaches m pydantic) :
    p.dispatching.Consistent := by
  refine Reasoning.Reachable.invariant (I := fun p => p.dispatching.Consistent) h
    Dispatching.consistent_empty ?_
  intro p a p' _ _ hstep hconsistent
  rcases Process.step_dispatching hstep with heq | ⟨event, hevent, -⟩
  · rw [heq]
    exact hconsistent
  · exact hconsistent.step hevent

/-- In every reachable state of a process a call that waits on an open future is the one that the
next result for its execution settles, and no future is settled twice. -/
theorem no_lost_wakeup (m : ContextModel Ctx) (pydantic : Pydantic) (p : Process Ctx)
    (h : p.Reaches m pydantic) : p.dispatching.NoLostWakeup :=
  h.consistent.noLostWakeup

/-- Pydantic where only integers are integers. -/
def strictPydantic : Pydantic where
  int
    | .int i => some i
    | _ => none
  errorText fields := "validation errors for AgentTask: " ++ ", ".intercalate fields

def askDefinition : ProcessDefinition where
  steps := [⟨"ask", "agent", [], .none, 60⟩]
  accepted := by decide

/-- Two executions at their agent steps; the first has been answered, the second waits. -/
def twoWaiting : List (Action PyContext) :=
  [.launch 1 7 (.ofDict []) askDefinition, .launch 2 7 (.ofDict []) askDefinition,
   .advance 1 (.steady 0), .advance 2 (.steady 0), .advance 1 (.steady 1), .advance 2 (.steady 1),
   .dispatch 1, .dispatch 2, .publish 2 .ok, .publish 1 .ok,
   .consume ⟨0, 1, 7, "ask", .completed, [], 0, "stub", 1, none⟩, .wake 1]

theorem no_lost_wakeup_two : ∃ p, Reasoning.runActions
      (Process.step (contextModel identifierSearch) strictPydantic) Process.empty twoWaiting =
        some p ∧
    p.dispatching.NoLostWakeup ∧ p.dispatching.dispatcher.pending 2 = some 1 := by
  have hpending : (Reasoning.runActions (Process.step (contextModel identifierSearch)
      strictPydantic) Process.empty twoWaiting).map
        (fun p => p.dispatching.dispatcher.pending 2) = some (some 1) := by decide
  obtain ⟨p, hrun, hp⟩ := Option.map_eq_some_iff.mp hpending
  exact ⟨p, hrun, no_lost_wakeup _ _ p (.of_run .start (fun _ _ _ => trivial) hrun), hp⟩

end ConstructorPlatform
