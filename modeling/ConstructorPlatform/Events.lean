import ConstructorPlatform.Value

/-!
# Events — `src/executions/events.py` and `src/events.py`

The two messages that platform-api and agent-orchestration exchange; both services declare them
alike.
-/

namespace ConstructorPlatform

structure AgentTask where
  taskId : UUID
  executionId : UUID
  tenantId : UUID
  stepId : String
  taskType : String
  prompt : String
  context : Dict
  toolsAllowed : List String
  modelOverride : Option String
  timeoutSeconds : Int
  maxIterations : Int

/-- `Literal["completed", "failed", "timeout"]`. -/
inductive ResultStatus where
  | completed
  | failed
  | timeout
  deriving DecidableEq, Repr

def ResultStatus.text : ResultStatus → String
  | .completed => "completed"
  | .failed => "failed"
  | .timeout => "timeout"

structure AgentResult where
  taskId : UUID
  executionId : UUID
  tenantId : UUID
  stepId : String
  status : ResultStatus
  output : Dict
  tokensUsed : Int
  modelUsed : String
  iterations : Int
  error : Option String

/-! ## 1. What pydantic checks -/

/-- The package pydantic: its conversion to `int` and the text of a `ValidationError` for the fields
that do not validate. -/
structure Pydantic where
  int : Json → Option Int
  errorText : List String → String

def Json.str? : Json → Option String
  | .str s => some s
  | _ => none

def Json.strings? : Json → Option (List String)
  | .arr xs => xs.mapM Json.str?
  | _ => none

def Json.optionalStr? : Json → Option (Option String)
  | .null => some none
  | v => v.str?.map some

/-- `config.get(key, fallback)`. -/
def Dict.getOr (d : Dict) (key : String) (fallback : Json) : Json := (d.lookup key).getD fallback

end ConstructorPlatform
