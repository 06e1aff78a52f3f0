import ConstructorPlatform.PlatformApi.Condition
import ConstructorPlatform.PlatformApi.Validator
import ConstructorPlatform.Reasoning.System

/-!
# Executor — `src/executions/executor.py`

`execute_workflow` as a machine.  One step of the machine is the code between two places where the
environment decides something: the outcome of a commit, of a publication, of an agent step.  An
`Input` holds these outcomes and the clock.  The machine never stops by itself: a workflow whose
references form a cycle keeps it running.

The context is a Python object that `apply_transform` and `jmespath` read and write, so the machine
is stated over any `ContextModel`.
-/

namespace ConstructorPlatform

/-! ## 1. Contexts -/

/-- What the executor asks of `execution.context`. -/
structure ContextModel (Ctx : Type) where
  -- `jmespath.search(expression, context)`, as the JSON value that comes out.
  search : Json → Ctx → Except PyExc Json
  -- `apply_transform(config, context)`; an error comes with the context as it is left.
  applyTransform : Dict → Ctx → Except (PyExc × Ctx) Ctx
  -- `{**context, key: value}`.
  insert : Ctx → String → Json → Ctx
  -- The JSON encoding that a message or the database column receives.
  dump : Ctx → Except PyExc Dict
  -- `key in context`.
  HasKey : Ctx → String → Prop
  hasKey_insert : ∀ c key value k, HasKey (insert c key value) k ↔ k = key ∨ HasKey c k

/-! ## 2. The rows -/

inductive Status where
  | pending
  | running
  | completed
  | failed
  deriving DecidableEq, Repr

/-- The columns of `ProcessExecution` that the executor reads or writes. -/
structure Execution (Ctx : Type) where
  id : UUID
  tenantId : UUID
  status : Status
  context : Ctx
  currentStepId : Option String
  startedAt : Option Nat
  completedAt : Option Nat

/-- The row that `create_execution` stores. -/
def Execution.create {Ctx : Type} (id tenantId : UUID) (context : Ctx) : Execution Ctx where
  id := id
  tenantId := tenantId
  status := .pending
  context := context
  currentStepId := none
  startedAt := none
  completedAt := none

/-! The assignments to the row; each is followed by a commit, except that of the context. -/

def Execution.setRunning {Ctx : Type} (now : Nat) (e : Execution Ctx) : Execution Ctx :=
  { e with status := .running, startedAt := some now }

def Execution.setStep {Ctx : Type} (stepId : String) (e : Execution Ctx) : Execution Ctx :=
  { e with currentStepId := some stepId }

def Execution.setContext {Ctx : Type} (context : Ctx) (e : Execution Ctx) : Execution Ctx :=
  { e with context := context }

def Execution.setCompleted {Ctx : Type} (now : Nat) (e : Execution Ctx) : Execution Ctx :=
  { e with status := .completed, currentStepId := none, completedAt := some now }

def Execution.setFailed {Ctx : Type} (context : Ctx) (e : Execution Ctx) : Execution Ctx :=
  { e with status := .failed, context := context }

/-- An event of the status stream. -/
structure StatusEvent (Ctx : Type) where
  executionId : UUID
  tenantId : UUID
  status : Status
  currentStepId : Option String
  context : Ctx
  timestamp : Nat

def Execution.statusEvent {Ctx : Type} (e : Execution Ctx) (now : Nat) : StatusEvent Ctx :=
  ⟨e.id, e.tenantId, e.status, e.currentStepId, e.context, now⟩

/-- An SQLAlchemy session refuses everything after a failed flush until it is rolled back, and the
executor never rolls back. -/
inductive Session where
  | active
  | inactive
  deriving DecidableEq, Repr

/-! ## 3. The machine -/

/-- What the environment decides during one step. -/
structure Input where
  now : Nat
  commit : Except PyExc Unit
  -- The `xadd` of `_publish_status_change`; an exception there is logged and dropped.
  publish : Reply
  -- The end of `dispatch_agent_step`.
  agent : Except PyExc Json

/-- Nothing fails. -/
def Input.steady (now : Nat) : Input := ⟨now, .ok (), .ok, .ok (.obj [])⟩

/-- Where `execute_workflow` stands. -/
inductive Pc where
  -- Before `execution.status = "running"`.
  | begin
  -- At `while current_step_id:`.
  | loopHead (current : Json)
  -- At `match step["type"]:`, with the step committed and published as the current one.
  | body (step : StepSchema)
  -- At `current_step_id = step.get("next")`.
  | advance (step : StepSchema)
  -- In one of the two `except` blocks.
  | handler (exc : PyExc)
  -- Returned, or left by an exception.
  | ended (exc : Option PyExc)

structure Run (Ctx : Type) where
  pc : Pc
  -- The row in memory.
  execution : Execution Ctx
  session : Session
  -- The row at each successful commit, oldest first.
  commits : List (Execution Ctx)
  -- The events on the status stream, oldest first.
  published : List (StatusEvent Ctx)
  -- History: the steps started so far, oldest first.
  started : List StepSchema

/-- The lookups of the first lines: without both rows `execute_workflow` returns at once. -/
def Run.load {Ctx : Type} (execution : Option (Execution Ctx))
    (definition : Option (List StepSchema)) : Option (Run Ctx) :=
  match execution, definition with
  | some e, some _ => some ⟨.begin, e, .active, [], [], []⟩
  | _, _ => none

/-- The machine at the start, both rows found. -/
def Run.start {Ctx : Type} (execution : Execution Ctx) : Run Ctx :=
  ⟨.begin, execution, .active, [], [], []⟩

/-- `definition.steps[0]["id"] if definition.steps else None`. -/
def firstRef : List StepSchema → Json
  | [] => .null
  | s :: _ => .str s.id

/-- `steps_map.get(id)`: the last step with the id wins. -/
def stepById (steps : List StepSchema) (id : String) : Option StepSchema :=
  steps.reverse.find? fun s => s.id = id

/-- The lookup of the loop with its two errors; a list or dictionary cannot even be looked up. -/
def lookupStep (steps : List StepSchema) (current : Json) : Except PyExc StepSchema :=
  match current with
  | .str id =>
      match stepById steps id with
      | some s => .ok s
      | none => .error ⟨.valueError, "Step '" ++ id ++ "' not in definition"⟩
  | v =>
      if v.hashable then .error ⟨.valueError, "Step '" ++ v.keyRepr ++ "' not in definition"⟩
      else .error (unhashable v)

def pendingRollback : PyExc :=
  ⟨.database, "This Session's transaction has been rolled back due to a previous exception"⟩

section Machine

variable {Ctx : Type}

/-- `await db.commit()`, followed by `ok` or, on an exception, by `fail`.  What it records is the
row as the session holds it; `Runtime.column` says what is sent for the context. -/
def Run.commit (outcome : Except PyExc Unit) (r : Run Ctx) (ok : Run Ctx → Run Ctx)
    (fail : PyExc → Run Ctx → Run Ctx) : Run Ctx :=
  match r.session, outcome with
  | .inactive, _ => fail pendingRollback r
  | .active, .error e => fail e { r with session := .inactive }
  | .active, .ok () => ok { r with commits := r.commits ++ [r.execution] }

/-- `_publish_status_change`. -/
def Run.publishStatusChange (i : Input) (r : Run Ctx) : Run Ctx :=
  if i.publish.carriedOut then
    { r with published := r.published ++ [r.execution.statusEvent i.now] }
  else r

def Run.goto (pc : Pc) (r : Run Ctx) : Run Ctx := { r with pc := pc }

def Run.setRow (execution : Execution Ctx) (r : Run Ctx) : Run Ctx :=
  { r with execution := execution }

/-- The lines before the `try`. -/
def Run.begin (steps : List StepSchema) (i : Input) (r : Run Ctx) : Run Ctx :=
  (r.setRow (r.execution.setRunning i.now)).commit i.commit
    (fun r => (r.publishStatusChange i).goto (.loopHead (firstRef steps)))
    (fun e r => r.goto (.ended (some e)))

/-- The lines from the lookup to the `match`. -/
def Run.startStep (i : Input) (step : StepSchema) (r : Run Ctx) : Run Ctx :=
  { r.setRow (r.execution.setStep step.id) with started := r.started ++ [step] }.commit i.commit
    (fun r => (r.publishStatusChange i).goto (.body step))
    (fun e r => r.goto (.handler e))

/-- The lines after the loop. -/
def Run.complete (i : Input) (r : Run Ctx) : Run Ctx :=
  (r.setRow (r.execution.setCompleted i.now)).commit i.commit
    (fun r => (r.publishStatusChange i).goto (.ended none))
    (fun e r => r.goto (.handler e))

/-- `while current_step_id:`. -/
def Run.loopHead (steps : List StepSchema) (i : Input) (current : Json) (r : Run Ctx) : Run Ctx :=
  if current.truthy then
    match lookupStep steps current with
    | .ok step => r.startStep i step
    | .error e => r.goto (.handler e)
  else r.complete i

/-- `match step["type"]:`. -/
def Run.body (m : ContextModel Ctx) (i : Input) (step : StepSchema) (r : Run Ctx) : Run Ctx :=
  match step.type with
  | "condition" =>
      match evaluateCondition (fun e => m.search e r.execution.context) step.config with
      | .ok next => r.goto (.loopHead next)
      | .error e => r.goto (.handler e)
  | "transform" =>
      match m.applyTransform step.config r.execution.context with
      | .ok context => (r.setRow (r.execution.setContext context)).goto (.advance step)
      | .error (e, context) => (r.setRow (r.execution.setContext context)).goto (.handler e)
  | "agent" =>
      match i.agent with
      | .ok result =>
          (r.setRow (r.execution.setContext (m.insert r.execution.context step.id result))).goto
            (.advance step)
      | .error e => r.goto (.handler e)
  | _ => r.goto (.advance step)  -- notify, wait and human_approval are stubs

/-- `current_step_id = step.get("next")` and the commit after it. -/
def Run.advance (i : Input) (step : StepSchema) (r : Run Ctx) : Run Ctx :=
  r.commit i.commit
    (fun r => r.goto (.loopHead step.next.toJson))
    (fun e r => r.goto (.handler e))

/-- The text stored under `_error`. -/
def errorText (e : Execution Ctx) (exc : PyExc) : String :=
  if exc.kind = .timeoutError then "Timeout on step '" ++ e.currentStepId.getD "None" ++ "'"
  else exc.text

/-- The two `except` blocks; they differ in the text they store. -/
def Run.fail (m : ContextModel Ctx) (i : Input) (exc : PyExc) (r : Run Ctx) : Run Ctx :=
  (r.setRow (r.execution.setFailed
    (m.insert r.execution.context "_error" (.str (errorText r.execution exc))))).commit i.commit
    (fun r => (r.publishStatusChange i).goto (.ended none))
    (fun e r => r.goto (.ended (some e)))

/-- One step of `execute_workflow`. -/
def executeWorkflow (m : ContextModel Ctx) (steps : List StepSchema) (i : Input) (r : Run Ctx) :
    Run Ctx :=
  match r.pc with
  | .begin => r.begin steps i
  | .loopHead current => r.loopHead steps i current
  | .body step => r.body m i step
  | .advance step => r.advance i step
  | .handler exc => r.fail m i exc
  | .ended _ => r

/-- The machine after `n` steps on a new execution. -/
def runOf (m : ContextModel Ctx) (steps : List StepSchema) (execution : Execution Ctx)
    (inputs : Nat → Input) (n : Nat) : Run Ctx :=
  Reasoning.trace (executeWorkflow m steps) (Run.start execution) inputs n

/-! ## 4. What a step can do -/

-- The three ends of a commit.
theorem Run.commit_cases (outcome : Except PyExc Unit) (r : Run Ctx) (ok : Run Ctx → Run Ctx)
    (fail : PyExc → Run Ctx → Run Ctx) :
    (r.session = .active ∧ outcome = .ok () ∧
      r.commit outcome ok fail = ok { r with commits := r.commits ++ [r.execution] }) ∨
    (r.session = .active ∧ ∃ e, outcome = .error e ∧
      r.commit outcome ok fail = fail e { r with session := .inactive }) ∨
    (r.session = .inactive ∧ r.commit outcome ok fail = fail pendingRollback r) := by
  cases hs : r.session with
  | inactive => exact .inr (.inr ⟨rfl, by simp only [Run.commit, hs]⟩)
  | active =>
      cases outcome with
      | ok u => exact .inl ⟨rfl, rfl, by simp only [Run.commit, hs]⟩
      | error e => exact .inr (.inl ⟨rfl, e, rfl, by simp only [Run.commit, hs]⟩)

-- What holds after a commit, when it does after a success and after a failure; a session that has
-- refused one commit refuses the next.
theorem Run.commit_ind {motive : Run Ctx → Prop} {outcome : Except PyExc Unit} {r : Run Ctx}
    {ok : Run Ctx → Run Ctx} {fail : PyExc → Run Ctx → Run Ctx}
    (hok : motive (ok { r with commits := r.commits ++ [r.execution] }))
    (hfail : ∀ e session, motive (fail e { r with session })) :
    motive (r.commit outcome ok fail) := by
  rcases Run.commit_cases outcome r ok fail with ⟨-, -, h⟩ | ⟨-, e, -, h⟩ | ⟨-, h⟩ <;> rw [h]
  · exact hok
  · exact hfail e .inactive
  · exact hfail pendingRollback r.session

theorem Run.commit_ok {r : Run Ctx} (h : r.session = .active) (ok : Run Ctx → Run Ctx)
    (fail : PyExc → Run Ctx → Run Ctx) :
    r.commit (.ok ()) ok fail = ok { r with commits := r.commits ++ [r.execution] } := by
  simp only [Run.commit, h]

@[simp] theorem Run.setRow_session (e : Execution Ctx) (r : Run Ctx) :
    (r.setRow e).session = r.session := rfl
@[simp] theorem Run.setRow_commits (e : Execution Ctx) (r : Run Ctx) :
    (r.setRow e).commits = r.commits := rfl
@[simp] theorem Run.setRow_started (e : Execution Ctx) (r : Run Ctx) :
    (r.setRow e).started = r.started := rfl

@[simp] theorem Run.goto_pc (pc : Pc) (r : Run Ctx) : (r.goto pc).pc = pc := rfl
@[simp] theorem Run.goto_execution (pc : Pc) (r : Run Ctx) :
    (r.goto pc).execution = r.execution := rfl
@[simp] theorem Run.goto_session (pc : Pc) (r : Run Ctx) : (r.goto pc).session = r.session := rfl
@[simp] theorem Run.goto_commits (pc : Pc) (r : Run Ctx) : (r.goto pc).commits = r.commits := rfl
@[simp] theorem Run.goto_started (pc : Pc) (r : Run Ctx) : (r.goto pc).started = r.started := rfl

@[simp] theorem Run.publish_pc (i : Input) (r : Run Ctx) :
    (r.publishStatusChange i).pc = r.pc := by
  unfold Run.publishStatusChange; split <;> rfl
@[simp] theorem Run.publish_execution (i : Input) (r : Run Ctx) :
    (r.publishStatusChange i).execution = r.execution := by
  unfold Run.publishStatusChange; split <;> rfl
@[simp] theorem Run.publish_session (i : Input) (r : Run Ctx) :
    (r.publishStatusChange i).session = r.session := by
  unfold Run.publishStatusChange; split <;> rfl
@[simp] theorem Run.publish_commits (i : Input) (r : Run Ctx) :
    (r.publishStatusChange i).commits = r.commits := by
  unfold Run.publishStatusChange; split <;> rfl
@[simp] theorem Run.publish_started (i : Input) (r : Run Ctx) :
    (r.publishStatusChange i).started = r.started := by
  unfold Run.publishStatusChange; split <;> rfl

/-- The control flow of one step: where it goes from a program point, and which steps it starts on
the way.  `context` is the context before the step. -/
inductive Moves (m : ContextModel Ctx) (steps : List StepSchema) (context : Ctx) :
    Pc → List StepSchema → Pc → Prop where
  | begin : Moves m steps context .begin [] (.loopHead (firstRef steps))
  | beginFails {e : PyExc} : Moves m steps context .begin [] (.ended (some e))
  | start {current : Json} {step : StepSchema} (htrue : current.truthy = true)
      (hfound : lookupStep steps current = .ok step) :
      Moves m steps context (.loopHead current) [step] (.body step)
  | startFails {current : Json} {step : StepSchema} {e : PyExc} (htrue : current.truthy = true)
      (hfound : lookupStep steps current = .ok step) :
      Moves m steps context (.loopHead current) [step] (.handler e)
  | unknown {current : Json} {e : PyExc} (htrue : current.truthy = true)
      (hunknown : lookupStep steps current = .error e) :
      Moves m steps context (.loopHead current) [] (.handler e)
  | complete {current : Json} (hfalse : current.truthy = false) :
      Moves m steps context (.loopHead current) [] (.ended none)
  | completeFails {current : Json} {e : PyExc} (hfalse : current.truthy = false) :
      Moves m steps context (.loopHead current) [] (.handler e)
  | branch {step : StepSchema} {next : Json} (htype : step.type = "condition")
      (hnext : evaluateCondition (fun e => m.search e context) step.config = .ok next) :
      Moves m steps context (.body step) [] (.loopHead next)
  | conditionFails {step : StepSchema} {e : PyExc} (htype : step.type = "condition")
      (herror : evaluateCondition (fun e => m.search e context) step.config = .error e) :
      Moves m steps context (.body step) [] (.handler e)
  | done {step : StepSchema} (htype : step.type ≠ "condition") :
      Moves m steps context (.body step) [] (.advance step)
  | bodyFails {step : StepSchema} {e : PyExc} (htype : step.type ≠ "condition") :
      Moves m steps context (.body step) [] (.handler e)
  | advance {step : StepSchema} :
      Moves m steps context (.advance step) [] (.loopHead step.next.toJson)
  | advanceFails {step : StepSchema} {e : PyExc} :
      Moves m steps context (.advance step) [] (.handler e)
  | fail {exc : PyExc} : Moves m steps context (.handler exc) [] (.ended none)
  | failFails {exc e : PyExc} : Moves m steps context (.handler exc) [] (.ended (some e))
  | stay {exc : Option PyExc} : Moves m steps context (.ended exc) [] (.ended exc)

variable {m : ContextModel Ctx} {steps : List StepSchema}

-- A machine step starts one step of the definition at most, the one it has looked up.
theorem Moves.new_cases {context : Ctx} {pc pc' : Pc} {new : List StepSchema}
    (h : Moves m steps context pc new pc') :
    new = [] ∨ ∃ current step, pc = .loopHead current ∧ lookupStep steps current = .ok step ∧
      new = [step] := by
  cases h with
  | start _ hfound => exact .inr ⟨_, _, rfl, hfound, rfl⟩
  | startFails _ hfound => exact .inr ⟨_, _, rfl, hfound, rfl⟩
  | _ => exact .inl rfl

-- Where the reference at the loop head comes from.
theorem Moves.loopHead_cases {context : Ctx} {pc : Pc} {new : List StepSchema} {current : Json}
    (h : Moves m steps context pc new (.loopHead current)) :
    (pc = .begin ∧ current = firstRef steps) ∨
    (∃ step, pc = .body step ∧ step.type = "condition" ∧
      evaluateCondition (fun e => m.search e context) step.config = .ok current) ∨
    (∃ step, pc = .advance step ∧ current = step.next.toJson) := by
  cases h with
  | begin => exact .inl ⟨rfl, rfl⟩
  | branch htype hnext => exact .inr (.inl ⟨_, rfl, htype, hnext⟩)
  | advance => exact .inr (.inr ⟨_, rfl, rfl⟩)

theorem Run.begin_moves (i : Input) (r : Run Ctx) :
    Moves m steps r.execution.context .begin [] (r.begin steps i).pc ∧
      (r.begin steps i).started = r.started := by
  unfold Run.begin
  refine Run.commit_ind (motive := fun r' => Moves _ _ _ _ _ r'.pc ∧ r'.started = _) ?_ ?_
  · exact ⟨by simpa using .begin, by simp⟩
  · exact fun e session => ⟨.beginFails, rfl⟩

theorem Run.loopHead_moves (i : Input) (current : Json) (r : Run Ctx) :
    ∃ new, Moves m steps r.execution.context (.loopHead current) new
        (r.loopHead steps i current).pc ∧
      (r.loopHead steps i current).started = r.started ++ new := by
  unfold Run.loopHead
  cases htrue : current.truthy with
  | false =>
      refine ⟨[], ?_⟩
      simp only [Bool.false_eq_true, if_false, Run.complete]
      refine Run.commit_ind (motive := fun r' => Moves _ _ _ _ _ r'.pc ∧ r'.started = _) ?_ ?_
      · exact ⟨by simpa using .complete htrue, by simp⟩
      · exact fun e session => ⟨.completeFails htrue, by simp⟩
  | true =>
      simp only [if_true]
      cases hfound : lookupStep steps current with
      | error e => exact ⟨[], .unknown htrue hfound, by simp⟩
      | ok step =>
          refine ⟨[step], ?_⟩
          simp only [Run.startStep]
          refine Run.commit_ind (motive := fun r' => Moves _ _ _ _ _ r'.pc ∧ r'.started = _) ?_ ?_
          · exact ⟨by simpa using .start htrue hfound, by simp⟩
          · exact fun e session => ⟨.startFails htrue hfound, rfl⟩

theorem Run.body_moves (i : Input) (step : StepSchema) (r : Run Ctx) :
    Moves m steps r.execution.context (.body step) [] (r.body m i step).pc ∧
      (r.body m i step).started = r.started := by
  unfold Run.body
  split
  · rename_i htype
    split
    · rename_i next hnext
      exact ⟨.branch htype hnext, rfl⟩
    · rename_i e herror
      exact ⟨.conditionFails htype herror, rfl⟩
  · rename_i htype
    have hne : step.type ≠ "condition" := by rw [htype]; decide
    split
    · exact ⟨.done hne, rfl⟩
    · exact ⟨.bodyFails hne, rfl⟩
  · rename_i htype
    have hne : step.type ≠ "condition" := by rw [htype]; decide
    split
    · exact ⟨.done hne, rfl⟩
    · exact ⟨.bodyFails hne, rfl⟩
  · rename_i hne _ _
    exact ⟨.done hne, rfl⟩

theorem Run.advance_moves (i : Input) (step : StepSchema) (r : Run Ctx) :
    Moves m steps r.execution.context (.advance step) [] (r.advance i step).pc ∧
      (r.advance i step).started = r.started := by
  unfold Run.advance
  refine Run.commit_ind (motive := fun r' => Moves _ _ _ _ _ r'.pc ∧ r'.started = _) ?_ ?_
  · exact ⟨.advance, rfl⟩
  · exact fun e session => ⟨.advanceFails, rfl⟩

theorem Run.fail_moves (i : Input) (exc : PyExc) (r : Run Ctx) :
    Moves m steps r.execution.context (.handler exc) [] (r.fail m i exc).pc ∧
      (r.fail m i exc).started = r.started := by
  unfold Run.fail
  refine Run.commit_ind (motive := fun r' => Moves _ _ _ _ _ r'.pc ∧ r'.started = _) ?_ ?_
  · exact ⟨by simpa using .fail, by simp⟩
  · exact fun e session => ⟨.failFails, rfl⟩

/-- Every step follows the control flow. -/
theorem executeWorkflow_moves (m : ContextModel Ctx) (steps : List StepSchema) (i : Input)
    (r : Run Ctx) :
    ∃ new, Moves m steps r.execution.context r.pc new (executeWorkflow m steps i r).pc ∧
      (executeWorkflow m steps i r).started = r.started ++ new := by
  unfold executeWorkflow
  split <;> rename_i hpc <;> rw [hpc]
  · exact ⟨[], by simpa using Run.begin_moves i r⟩
  · exact Run.loopHead_moves i _ r
  · exact ⟨[], by simpa using Run.body_moves i _ r⟩
  · exact ⟨[], by simpa using Run.advance_moves i _ r⟩
  · exact ⟨[], by simpa using Run.fail_moves i _ r⟩
  · exact ⟨[], .stay, by simp⟩

end Machine

/-! ## 5. Lookups -/

section Lookup

variable {steps : List StepSchema}

theorem stepById_eq_some {id : String} {s : StepSchema} (h : stepById steps id = some s) :
    s ∈ steps ∧ s.id = id := by
  refine ⟨List.mem_reverse.mp (List.mem_of_find?_eq_some h), ?_⟩
  simpa using List.find?_some h

-- A reference that is found is the id of the step it finds.
theorem lookupStep_ok {current : Json} {s : StepSchema} (h : lookupStep steps current = .ok s) :
    s ∈ steps ∧ current = .str s.id := by
  unfold lookupStep at h
  split at h
  · split at h
    · rename_i hid
      cases h
      obtain ⟨hmem, rfl⟩ := stepById_eq_some hid
      exact ⟨hmem, rfl⟩
    · cases h
  · split at h <;> cases h

-- Declared ids are found.
theorem lookupStep_of_declared {id : String} (h : id ∈ stepIds steps) :
    ∃ s, lookupStep steps (.str id) = .ok s := by
  obtain ⟨s, hs, hid⟩ := List.mem_map.mp h
  cases hfind : stepById steps id with
  | some t => exact ⟨t, by simp only [lookupStep, hfind]⟩
  | none =>
      have hnone := List.find?_eq_none.mp hfind s (List.mem_reverse.mpr hs)
      simp [hid] at hnone

-- An accepted definition starts with a step that is found.
theorem Accepted.firstRef (h : Accepted steps) :
    (firstRef steps).truthy = true ∧ ∃ s, lookupStep steps (firstRef steps) = .ok s := by
  obtain ⟨s, rest, rfl⟩ := List.exists_cons_of_ne_nil h.nonempty
  refine ⟨?_, lookupStep_of_declared List.mem_cons_self⟩
  simpa [ConstructorPlatform.firstRef] using h.ids s List.mem_cons_self

end Lookup

/-! ## 6. The steps started -/

section Started

variable {Ctx : Type} {m : ContextModel Ctx} {steps : List StepSchema}

/-- Which steps have been started at each program point of an accepted definition. -/
def Run.Progress (steps : List StepSchema) (r : Run Ctx) : Prop :=
  match r.pc with
  | .begin => r.started = []
  | .loopHead current => r.started = [] → current = firstRef steps
  | .body step => r.started.getLast? = some step
  | .advance step => r.started.getLast? = some step
  | .handler _ => r.started ≠ []
  | .ended none => r.started ≠ []
  | .ended (some _) => True

theorem Run.Progress.step (hacc : Accepted steps) (i : Input) (r : Run Ctx) (h : r.Progress steps) :
    (executeWorkflow m steps i r).Progress steps := by
  obtain ⟨new, hmoves, hstarted⟩ := executeWorkflow_moves m steps i r
  -- At the first reference the loop body is entered.
  have hfirst : ∀ current, r.pc = .loopHead current →
      (current.truthy = false ∨ ∃ e, lookupStep steps current = .error e) → r.started ≠ [] := by
    intro current hpc hleave hnil
    simp only [Run.Progress, hpc] at h
    obtain ⟨htrue, s, hs⟩ := hacc.firstRef
    rw [h hnil] at hleave
    rcases hleave with hfalse | ⟨e, he⟩
    · rw [htrue] at hfalse
      cases hfalse
    · rw [hs] at he
      cases he
  have hlast : ∀ step, r.started.getLast? = some step → r.started ≠ [] := by
    intro step hs hnil
    rw [hnil] at hs
    cases hs
  revert h hfirst
  unfold Run.Progress
  generalize r.pc = pc at hmoves
  generalize (executeWorkflow m steps i r).pc = pc' at hmoves
  intro h hfirst
  rw [hstarted]
  cases hmoves with
  | begin => intro _; rfl
  | beginFails => trivial
  | start => simp
  | startFails => simp
  | unknown _ hunknown => simpa using hfirst _ rfl (.inr ⟨_, hunknown⟩)
  | complete hfalse => simpa using hfirst _ rfl (.inl hfalse)
  | completeFails hfalse => simpa using hfirst _ rfl (.inl hfalse)
  | branch => intro hnil; exact absurd (by simpa using hnil) (hlast _ h)
  | conditionFails => simpa using hlast _ h
  | done => simpa using h
  | bodyFails => simpa using hlast _ h
  | advance => intro hnil; exact absurd (by simpa using hnil) (hlast _ h)
  | advanceFails => simpa using hlast _ h
  | fail => simpa using h
  | failFails => trivial
  | stay => simpa using h

theorem progress_of_run (m : ContextModel Ctx) (hacc : Accepted steps) (e : Execution Ctx)
    (inputs : Nat → Input)
    (n : Nat) : (runOf m steps e inputs n).Progress steps := by
  have hinit : (Run.start e).Progress steps := rfl
  have hstep : ∀ k r, r.Progress steps →
      (executeWorkflow m steps (inputs k) r).Progress steps :=
    fun k r h => h.step hacc (inputs k) r
  exact Reasoning.trace_invariant (I := fun _ => Run.Progress steps) hinit hstep n

end Started

end ConstructorPlatform
