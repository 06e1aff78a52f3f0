import Mathlib.Algebra.Ring.Int.Defs
import ConstructorPlatform.AgentOrchestration.Nodes

/-!
# AgentRunner — `src/runner/agent_runner.py`

`run` alternates the two nodes of the graph and classifies what comes out.  LangGraph counts every
node as a superstep and gives up when `recursionLimit` of them are used up, even if the last one was
the end of the graph.
-/

namespace ConstructorPlatform

/-! ## 1. `AgentRunner.run` -/

/-- The default `recursion_limit`: `ainvoke` is called without one. -/
def recursionLimit : Nat := 25

inductive Node where
  | callModel
  | executeTool (calls : List ToolCall)
  -- `END`: no task is left.
  | finish

/-- The graph from a node on, with the supersteps left. -/
def supersteps (env : RunnerEnv) (config : GraphConfig) :
    Nat → Node → Graph → Awaited Graph × Graph
  -- The limit is looked at before the next task is looked for, also when there is none.
  | 0, _, g => (.raised env.recursionError, g)
  | _ + 1, .finish, g => (.value g, g)
  | fuel + 1, .callModel, g =>
      match callModelNode env config g with
      | (.value g', _) =>
          match shouldContinue config g' with
          | some calls => supersteps env config fuel (.executeTool calls) g'
          | none => supersteps env config fuel .finish g'
      | stopped => stopped
  | fuel + 1, .executeTool calls, g =>
      match executeToolNode env config calls g with
      | (.value g', _) => supersteps env config fuel .callModel g'
      | stopped => stopped

/-- `AgentResult(...)`; the ids are always those of the task. -/
def AgentTask.result (task : AgentTask) (status : ResultStatus) (output : Dict) (tokensUsed : Int)
    (modelUsed : String) (iterations : Int) (error : Option String) : AgentResult where
  taskId := task.taskId
  executionId := task.executionId
  tenantId := task.tenantId
  stepId := task.stepId
  status := status
  output := output
  tokensUsed := tokensUsed
  modelUsed := modelUsed
  iterations := iterations
  error := error

def Message.tokens : Message → Int
  | .ai response => (response.usageMetadata.map UsageMetadata.totalTokens).getD 0
  | _ => 0

/-- `_count_tokens`. -/
def countTokens (messages : Messages) : Int := (messages.map fun entry => entry.2.tokens).sum

def lastAI (messages : Messages) : Option AIMessage :=
  messages.reverse.findSome? fun entry =>
    match entry.2 with
    | .ai response => some response
    | _ => none

/-- The lines after `ainvoke`. -/
def classify (task : AgentTask) (modelUsed : String) (final : Graph) : AgentResult :=
  match lastAI final.messages with
  | some response =>
      if response.toolCalls ≠ [] ∧ task.maxIterations ≤ final.iterations then
        task.result .failed [] (countTokens final.messages) modelUsed final.iterations
          (some "max_iterations_reached")
      else
        task.result .completed [("text", response.content)] (countTokens final.messages) modelUsed
          final.iterations none
  | none =>
      task.result .completed [("text", .str "")] (countTokens final.messages) modelUsed
        final.iterations none

def timedOut (task : AgentTask) (modelUsed : String) : AgentResult :=
  task.result .timeout [] 0 modelUsed 0
    (some ("Timed out after " ++ toString task.timeoutSeconds ++ "s"))

/-- `get_model`: the id of the model, when its class could be called. -/
def getModel (env : RunnerEnv) (task : AgentTask) : Except PyExc String := do
  let modelId := resolveModelId task.taskType task.modelOverride
  let provider ← providerOf env.useStubModel modelId
  env.construct provider modelId
  return modelId

def runConfig (registry : ToolRegistry) (task : AgentTask) : GraphConfig where
  registry := registry
  tools := task.toolsAllowed.filterMap registry.get
  maxIterations := task.maxIterations
  tenantId := task.tenantId

/-- `initial`. -/
def initialGraph (env : RunnerEnv) (task : AgentTask) : Graph where
  messages := addMessages []
    [.human ("<context>" ++ env.str task.context ++ "</context>\n\n" ++ task.prompt)]
  iterations := 0
  modelCalls := []
  executed := []

/-- `run`: its result or exception, and the graph with what has been called. -/
def agentRun (env : RunnerEnv) (registry : ToolRegistry) (task : AgentTask) :
    Except PyExc AgentResult × Graph :=
  match getModel env task with
  | .error e => (.error e, initialGraph env task)
  | .ok modelUsed =>
      if task.timeoutSeconds ≤ 0 then
        -- `wait_for` cancels the graph before it starts.
        (.ok (timedOut task modelUsed), initialGraph env task)
      else
        match supersteps env (runConfig registry task) recursionLimit .callModel
          (initialGraph env task) with
        | (.value final, g) => (.ok (classify task modelUsed final), g)
        | (.cancelled, g) => (.ok (timedOut task modelUsed), g)
        | (.raised e, g) =>
            if e.kind = .timeoutError then (.ok (timedOut task modelUsed), g)
            else (.ok (task.result .failed [] 0 modelUsed 0 (some e.text)), g)

/-- The result carries the ids of its task. -/
structure AgentResult.Answers (r : AgentResult) (task : AgentTask) : Prop where
  taskId : r.taskId = task.taskId
  executionId : r.executionId = task.executionId
  tenantId : r.tenantId = task.tenantId
  stepId : r.stepId = task.stepId

theorem AgentTask.result_answers (task : AgentTask) (status : ResultStatus) (output : Dict)
    (tokensUsed : Int) (modelUsed : String) (iterations : Int) (error : Option String) :
    (task.result status output tokensUsed modelUsed iterations error).Answers task :=
  ⟨rfl, rfl, rfl, rfl⟩

theorem classify_answers (task : AgentTask) (modelUsed : String) (final : Graph) :
    (classify task modelUsed final).Answers task := by
  unfold classify
  split
  · split <;> apply AgentTask.result_answers
  · apply AgentTask.result_answers

theorem agentRun_answers {env : RunnerEnv} {registry : ToolRegistry} {task : AgentTask}
    {r : AgentResult} (h : (agentRun env registry task).1 = .ok r) : r.Answers task := by
  unfold agentRun at h
  split at h
  · cases h
  · split at h
    · cases h
      apply AgentTask.result_answers
    · split at h
      · cases h
        apply classify_answers
      · cases h
        apply AgentTask.result_answers
      · split at h <;> cases h <;> apply AgentTask.result_answers

end ConstructorPlatform
