import Mathlib.Data.List.Infix
import ConstructorPlatform.Events

/-!
# Nodes — `src/tools/registry.py`, `src/router/model_router.py`, `src/runner/nodes.py`

The two nodes of the agent graph and what they work with.  What the model and the tools answer is
given by a `RunnerEnv`, one answer for each call in order; a timer that fires during a call shows as
the answer `cancelled`.
-/

namespace ConstructorPlatform

/-! ## 1. Tools -/

/-- The attributes of a `BaseTool`. -/
structure Tool where
  name : String
  description : String
  inputSchema : Json

/-- `as_openai_tool`. -/
def Tool.asOpenaiTool (t : Tool) : Json :=
  .obj [("type", .str "function"), ("function", .obj [("name", .str t.name),
    ("description", .str t.description), ("parameters", t.inputSchema)])]

/-- `_tools`: every tool stands under its own name. -/
structure ToolRegistry where
  tools : List (String × Tool)
  named : ∀ entry ∈ tools, entry.1 = entry.2.name

def ToolRegistry.empty : ToolRegistry := ⟨[], nofun⟩

theorem mem_dictSet {V : Type} {key : String} {value : V} {d : List (String × V)}
    {entry : String × V} (h : entry ∈ dictSet key value d) : entry = (key, value) ∨ entry ∈ d := by
  induction d with
  | nil => exact .inl (List.mem_singleton.mp h)
  | cons kv rest ih =>
      obtain ⟨k, v⟩ := kv
      rw [dictSet] at h
      split at h
      · rcases List.mem_cons.mp h with h | h
        · exact .inl h
        · exact .inr (List.mem_cons_of_mem _ h)
      · rcases List.mem_cons.mp h with h | h
        · exact .inr (h ▸ List.mem_cons_self)
        · exact (ih h).imp_right (List.mem_cons_of_mem _)

def ToolRegistry.register (tool : Tool) (r : ToolRegistry) : ToolRegistry where
  tools := dictSet tool.name tool r.tools
  named entry h := by
    rcases mem_dictSet h with rfl | h
    · rfl
    · exact r.named entry h

def ToolRegistry.get (r : ToolRegistry) (name : String) : Option Tool := r.tools.lookup name

theorem mem_of_lookup {V : Type} {key : String} {value : V} {d : List (String × V)}
    (h : d.lookup key = some value) : (key, value) ∈ d := by
  induction d with
  | nil => cases h
  | cons kv rest ih =>
      obtain ⟨k, v⟩ := kv
      rw [List.lookup_cons] at h
      split at h
      · rename_i heq
        cases h
        rw [beq_iff_eq.mp heq]
        exact List.mem_cons_self
      · exact List.mem_cons_of_mem _ (ih h)

-- A tool is found under its own name only.
theorem ToolRegistry.get_name {r : ToolRegistry} {name : String} {tool : Tool}
    (h : r.get name = some tool) : tool.name = name :=
  (r.named _ (mem_of_lookup h)).symm

/-! ## 2. The model router -/

def routingTable : List (String × String) :=
  [("code_analysis", "gemini-2.0-flash"), ("security_scan", "gemini-2.0-flash"),
   ("summarization", "gemini-2.0-flash"), ("ocr_extraction", "gemini-2.0-flash"),
   ("default", "gemini-2.0-flash")]

/-- `_resolve_model_id`. -/
def resolveModelId (taskType : String) (modelOverride : Option String) : String :=
  match modelOverride with
  | some "" | none => (routingTable.lookup taskType).getD "gemini-2.0-flash"
  | some modelId => modelId

/-- The classes that `_instantiate` chooses from. -/
inductive Provider where
  | stub
  | anthropic
  | openai
  | google
  deriving DecidableEq, Repr

def String.hasSubstring (s part : String) : Bool := decide (part.toList <:+: s.toList)

/-- `s.startswith(start)`. -/
def String.hasStart (s start : String) : Bool := decide (start.toList <+: s.toList)

/-- `_instantiate`, up to the call of the class. -/
def providerOf (useStubModel : Bool) (modelId : String) : Except PyExc Provider :=
  if useStubModel || modelId = "stub" then .ok .stub
  else if String.hasStart modelId "claude" then .ok .anthropic
  else if String.hasSubstring modelId "gpt" || String.hasStart modelId "o1" ||
      String.hasStart modelId "o3" then .ok .openai
  else if String.hasSubstring modelId "gemini" then .ok .google
  else .error ⟨.valueError, "Unsupported model id: " ++ modelId⟩

/-! ## 3. Messages -/

structure ToolCall where
  name : String
  args : Dict
  -- Optional in LangChain's `ToolCall`, but a `ToolMessage` needs one.
  id : Option String

structure UsageMetadata where
  totalTokens : Int

structure AIMessage where
  id : Option String
  content : Json
  toolCalls : List ToolCall
  usageMetadata : Option UsageMetadata

inductive Message where
  | human (content : String)
  | ai (response : AIMessage)
  | tool (content : String) (toolCallId : String)

/-- A message's id is the one that came with it or a new `uuid4`. -/
inductive MessageId where
  | given (id : String)
  | fresh (n : Nat)
  deriving DecidableEq

abbrev Messages := List (MessageId × Message)

def Message.idIn (messages : Messages) : Message → MessageId
  | .ai response =>
      match response.id with
      | some id => .given id
      | none => .fresh messages.length
  | _ => .fresh messages.length

/-- The reducer `add_messages` for one message: one that has the id of an earlier message takes its
place. -/
def addMessage (messages : Messages) (m : Message) : Messages :=
  let id := m.idIn messages
  if id ∈ messages.map Prod.fst then
    messages.map fun entry => if entry.1 = id then (id, m) else entry
  else messages ++ [(id, m)]

def addMessages (messages : Messages) (new : List Message) : Messages :=
  new.foldl addMessage messages

/-! ## 4. The environment -/

structure RunnerEnv where
  -- `settings.use_stub_model`.
  useStubModel : Bool
  -- What calling the provider's class raises, if anything.
  construct : Provider → String → Except PyExc Unit
  -- The `i`-th `bound.ainvoke(...)`.
  model : Nat → Awaited AIMessage
  -- The `i`-th `tool.execute(...)`, as the text that `str` gives.
  tool : Nat → Awaited String
  -- `str` of a dictionary.
  str : Dict → String
  -- The error of `ToolMessage(...)` without an id.
  toolMessageError : PyExc
  -- `GraphRecursionError`.
  recursionError : PyExc

/-! ## 5. The nodes -/

/-- A call of a tool's `execute` method. -/
structure Execute where
  tool : Tool
  inputs : Dict
  tenantId : UUID

/-- The state of the graph with the history of its calls. -/
structure Graph where
  messages : Messages
  iterations : Int
  -- History: the tools and messages handed to the model, call by call.
  modelCalls : List (List Json × Messages)
  -- History: the calls of tools.
  executed : List Execute

/-- `config["configurable"]` and the fields of the state that no node changes. -/
structure GraphConfig where
  registry : ToolRegistry
  -- The tools that are offered to the model.
  tools : List Tool
  maxIterations : Int
  tenantId : UUID

/-- `call_model_node`. -/
def callModelNode (env : RunnerEnv) (config : GraphConfig) (g : Graph) : Awaited Graph × Graph :=
  let called := { g with
    modelCalls := g.modelCalls ++ [(config.tools.map Tool.asOpenaiTool, g.messages)] }
  match env.model g.modelCalls.length with
  | .value response =>
      (.value
        { called with
          messages := addMessages g.messages [.ai response]
          iterations := g.iterations + 1 }, called)
  | .raised e => (.raised e, called)
  | .cancelled => (.cancelled, called)

/-- What a tool call leaves as the content of its message, and the calls of tools so far. -/
def toolContent (env : RunnerEnv) (config : GraphConfig) (tc : ToolCall)
    (executed : List Execute) : Option String × List Execute :=
  match config.registry.get tc.name with
  | none => (some ("Error: tool '" ++ tc.name ++ "' not registered"), executed)
  | some tool =>
      let executed' := executed ++ [⟨tool, tc.args, config.tenantId⟩]
      match env.tool executed.length with
      | .value out => (some out, executed')
      | .raised e => (some ("Error: " ++ e.text), executed')
      | .cancelled => (none, executed')

/-- The loop of `execute_tool_node`. -/
def executeCalls (env : RunnerEnv) (config : GraphConfig) :
    List ToolCall → List Execute → Awaited (List Message) × List Execute
  | [], executed => (.value [], executed)
  | tc :: rest, executed =>
      match toolContent env config tc executed, tc.id with
      | (none, executed), _ => (.cancelled, executed)
      | (some _, executed), none => (.raised env.toolMessageError, executed)
      | (some content, executed), some id =>
          match executeCalls env config rest executed with
          | (.value results, executed) => (.value (.tool content id :: results), executed)
          | (stopped, executed) => (stopped, executed)

/-- `execute_tool_node`, for the tool calls of the last message. -/
def executeToolNode (env : RunnerEnv) (config : GraphConfig) (calls : List ToolCall) (g : Graph) :
    Awaited Graph × Graph :=
  match executeCalls env config calls g.executed with
  | (.value results, executed) =>
      (.value { g with messages := addMessages g.messages results, executed := executed },
        { g with executed := executed })
  | (.raised e, executed) => (.raised e, { g with executed := executed })
  | (.cancelled, executed) => (.cancelled, { g with executed := executed })

/-- `should_continue`: the tool calls to execute, or `END`. -/
def shouldContinue (config : GraphConfig) (g : Graph) : Option (List ToolCall) :=
  match g.messages.getLast? with
  | some (_, .ai response) =>
      if response.toolCalls ≠ [] ∧ g.iterations < config.maxIterations then some response.toolCalls
      else none
  | _ => none

end ConstructorPlatform
