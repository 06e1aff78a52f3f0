import ConstructorPlatform.AgentOrchestration.AgentRunner

/-!
# Rounds — the graph round by round

A round is a model call with the tool calls that follow it.  `AtRound` describes the state of the
graph before each of them, `reaches_round` says which rounds are reached, and `executed_of_reached`
which calls of tools a run can make.
-/

namespace ConstructorPlatform

/-! ## 1. Messages -/

/-- Ids that came from `uuid4` are numbered below the length of the list. -/
def Numbered (messages : Messages) : Prop :=
  ∀ n, .fresh n ∈ messages.map Prod.fst → n < messages.length

def Message.IsTool (m : Message) : Prop := ∃ content id, m = .tool content id

theorem Message.idIn_of_some {response : AIMessage} {id : String} (h : response.id = some id)
    (messages : Messages) : (Message.ai response).idIn messages = .given id := by
  simp only [Message.idIn, h]

theorem Message.idIn_of_none {response : AIMessage} (h : response.id = none)
    (messages : Messages) : (Message.ai response).idIn messages = .fresh messages.length := by
  simp only [Message.idIn, h]

theorem addMessage_of_new {messages : Messages} {m : Message}
    (h : m.idIn messages ∉ messages.map Prod.fst) :
    addMessage messages m = messages ++ [(m.idIn messages, m)] := by
  unfold addMessage
  rw [if_neg h]

theorem Numbered.fresh_not_mem {messages : Messages} (h : Numbered messages) :
    MessageId.fresh messages.length ∉ messages.map Prod.fst := fun hmem =>
  (h _ hmem).false

theorem Numbered.snoc {messages : Messages} (h : Numbered messages) (m : Message) :
    Numbered (messages ++ [(m.idIn messages, m)]) := by
  intro n hmem
  rw [List.map_append, List.mem_append] at hmem
  rw [List.length_append, List.length_singleton]
  rcases hmem with hmem | hmem
  · have := h n hmem
    omega
  · have hid : MessageId.fresh n = m.idIn messages := List.mem_singleton.mp hmem
    have hlast : n = messages.length := by
      unfold Message.idIn at hid
      split at hid
      · split at hid <;> cases hid
        rfl
      · cases hid
        rfl
    omega

theorem countTokens_append (messages new : Messages) :
    countTokens (messages ++ new) = countTokens messages + countTokens new := by
  simp [countTokens]

/-- What appending tool messages keeps. -/
structure Extends (messages messages' : Messages) : Prop where
  numbered : Numbered messages'
  given : ∀ s, .given s ∈ messages'.map Prod.fst ↔ .given s ∈ messages.map Prod.fst
  tokens : countTokens messages' = countTokens messages

theorem addMessages_tools {messages : Messages} {new : List Message} (h : Numbered messages)
    (hnew : ∀ m ∈ new, m.IsTool) : Extends messages (addMessages messages new) := by
  induction new generalizing messages with
  | nil => exact ⟨h, fun _ => Iff.rfl, rfl⟩
  | cons m rest ih =>
      obtain ⟨content, id, rfl⟩ := hnew _ List.mem_cons_self
      have hid : (Message.tool content id).idIn messages = .fresh messages.length := rfl
      have hadd := addMessage_of_new (m := .tool content id) (hid ▸ h.fresh_not_mem)
      have hrest := ih (h.snoc (.tool content id)) fun m hm => hnew m (List.mem_cons_of_mem _ hm)
      rw [← hadd] at hrest
      refine ⟨hrest.numbered, fun s => ?_, ?_⟩
      · rw [addMessages, List.foldl_cons, ← addMessages, hrest.given, hadd, hid]
        simp
      · rw [addMessages, List.foldl_cons, ← addMessages, hrest.tokens, hadd, countTokens_append]
        simp [countTokens, Message.tokens]

theorem addMessages_tools_getLast? {messages : Messages} {new : List Message}
    (h : Numbered messages) (hnew : ∀ m ∈ new, m.IsTool) (hne : new ≠ []) :
    ∃ n m, (addMessages messages new).getLast? = some (.fresh n, m) ∧ m.IsTool := by
  induction new generalizing messages with
  | nil => exact absurd rfl hne
  | cons m rest ih =>
      obtain ⟨content, id, rfl⟩ := hnew _ List.mem_cons_self
      have hid : (Message.tool content id).idIn messages = .fresh messages.length := rfl
      have hadd := addMessage_of_new (m := .tool content id) (hid ▸ h.fresh_not_mem)
      rw [addMessages, List.foldl_cons, ← addMessages]
      cases rest with
      | nil => exact ⟨messages.length, _, by rw [hadd, hid]; simp [addMessages], content, id, rfl⟩
      | cons m' rest =>
          apply ih
          · rw [hadd]
            exact h.snoc _
          · exact fun m hm => hnew m (List.mem_cons_of_mem _ hm)
          · exact List.cons_ne_nil _ _

/-! ## 2. The tool calls of a message -/

/-- The calls that `execute_tool_node` comes to: a `ToolMessage` without an id ends it. -/
def attempted : List ToolCall → List ToolCall
  | [] => []
  | tc :: rest => if tc.id.isSome then tc :: attempted rest else [tc]

variable {env : RunnerEnv} {config : GraphConfig}

/-- The call of a tool that a tool call of the model leads to. -/
def GraphConfig.execute (config : GraphConfig) (tool : Tool) (tc : ToolCall) : Execute :=
  ⟨tool, tc.args, config.tenantId⟩

theorem toolContent_executed (tc : ToolCall) (executed : List Execute) :
    (toolContent env config tc executed).2 = executed ++
      (config.registry.get tc.name).toList.map fun tool => config.execute tool tc := by
  unfold toolContent
  split
  · rename_i h
    rw [h]
    simp
  · rename_i tool h
    rw [h]
    split <;> rfl

theorem toolContent_isSome (config : GraphConfig) (hnever : ∀ n, env.tool n ≠ .cancelled)
    (tc : ToolCall) (executed : List Execute) :
    ∃ content, (toolContent env config tc executed).1 = some content := by
  unfold toolContent
  split
  · exact ⟨_, rfl⟩
  · split
    · exact ⟨_, rfl⟩
    · exact ⟨_, rfl⟩
    · rename_i h
      exact absurd h (hnever _)

-- The results are tool messages, one for each call, and every call had an id.
theorem executeCalls_value {calls : List ToolCall} {executed executed' : List Execute}
    {results : List Message}
    (h : executeCalls env config calls executed = (.value results, executed')) :
    (∀ m ∈ results, m.IsTool) ∧ results.length = calls.length ∧
      ∀ tc ∈ calls, tc.id.isSome = true := by
  induction calls generalizing executed results with
  | nil =>
      cases h
      exact ⟨nofun, rfl, nofun⟩
  | cons tc rest ih =>
      rw [executeCalls] at h
      split at h
      · cases h
      · cases h
      · rename_i content executed₁ id _ hid
        split at h
        · rename_i results' executed₂ hrest
          cases h
          obtain ⟨htools, hlength, hids⟩ := ih hrest
          refine ⟨?_, by rw [List.length_cons, hlength, List.length_cons], ?_⟩
          · intro m hm
            rcases List.mem_cons.mp hm with rfl | hm
            · exact ⟨content, id, rfl⟩
            · exact htools m hm
          · intro tc' htc'
            rcases List.mem_cons.mp htc' with rfl | htc'
            · rw [hid]
              rfl
            · exact hids tc' htc'
        · rename_i hno _
          cases h
          exact absurd rfl (hno results)

-- The history after a tool call: the loop goes on only with a message for it.
theorem executeCalls_cons_executed (tc : ToolCall) (rest : List ToolCall)
    (executed : List Execute) :
    (executeCalls env config (tc :: rest) executed).2 =
      if (toolContent env config tc executed).1.isSome ∧ tc.id.isSome then
        (executeCalls env config rest (toolContent env config tc executed).2).2
      else (toolContent env config tc executed).2 := by
  rw [executeCalls]
  rcases toolContent env config tc executed with ⟨content, executed'⟩
  cases content with
  | none => simp
  | some content =>
      cases tc.id with
      | none => simp
      | some id =>
          rcases h : executeCalls env config rest executed' with ⟨stopped, executed''⟩
          cases stopped <;> simp [h]

-- Only attempted calls of registered tools are executed.
theorem mem_executeCalls {calls : List ToolCall} {executed : List Execute} {x : Execute}
    (hx : x ∈ (executeCalls env config calls executed).2) :
    x ∈ executed ∨ ∃ tc ∈ attempted calls, ∃ tool, config.registry.get tc.name = some tool ∧
      x = config.execute tool tc := by
  induction calls generalizing executed with
  | nil => exact .inl hx
  | cons tc rest ih =>
      -- What the head adds to the history.
      have hhead : x ∈ (toolContent env config tc executed).2 → x ∈ executed ∨
          ∃ tc' ∈ attempted (tc :: rest), ∃ tool, config.registry.get tc'.name = some tool ∧
            x = config.execute tool tc' := by
        intro hx
        rw [toolContent_executed, List.mem_append, List.mem_map] at hx
        apply hx.imp_right
        rintro ⟨tool, htool, rfl⟩
        refine ⟨tc, ?_, tool, Option.mem_toList.mp htool, rfl⟩
        unfold attempted
        split <;> exact List.mem_cons_self
      rw [executeCalls_cons_executed] at hx
      split at hx
      · rename_i hgoes
        rcases ih hx with hx | ⟨tc', htc', htool⟩
        · exact hhead hx
        · refine .inr ⟨tc', ?_, htool⟩
          rw [attempted, if_pos hgoes.2]
          exact List.mem_cons_of_mem _ htc'
      · exact hhead hx

theorem subset_executeCalls (env : RunnerEnv) (config : GraphConfig) (calls : List ToolCall)
    (executed : List Execute) :
    executed ⊆ (executeCalls env config calls executed).2 := by
  induction calls generalizing executed with
  | nil => exact fun _ h => h
  | cons tc rest ih =>
      have hhead : executed ⊆ (toolContent env config tc executed).2 := by
        rw [toolContent_executed]
        exact List.subset_append_left _ _
      rw [executeCalls_cons_executed]
      split
      · exact fun x hx => ih _ (hhead hx)
      · exact hhead

-- When no timer fires, every attempted call of a registered tool is executed.
theorem executed_of_attempted (config : GraphConfig) (hnever : ∀ n, env.tool n ≠ .cancelled)
    {calls : List ToolCall} {tc : ToolCall} {tool : Tool} (htc : tc ∈ attempted calls)
    (htool : config.registry.get tc.name = some tool) (executed : List Execute) :
    config.execute tool tc ∈ (executeCalls env config calls executed).2 := by
  induction calls generalizing executed with
  | nil => cases htc
  | cons tc' rest ih =>
      obtain ⟨content, hcontent⟩ := toolContent_isSome config hnever tc' executed
      have hself : tc = tc' → config.execute tool tc ∈ (toolContent env config tc' executed).2 := by
        intro hsame
        subst hsame
        rw [toolContent_executed, htool]
        simp
      rw [attempted] at htc
      rw [executeCalls_cons_executed, hcontent]
      by_cases hid : tc'.id.isSome = true
      · rw [if_pos hid] at htc
        rw [if_pos ⟨rfl, hid⟩]
        rcases List.mem_cons.mp htc with heq | htc
        · exact subset_executeCalls _ _ _ _ (hself heq)
        · exact ih htc _
      · rw [if_neg hid] at htc
        rw [if_neg fun h => hid h.2]
        exact hself (List.mem_singleton.mp htc)

-- When no timer fires, the node comes to its end exactly when every call has an id.
theorem executeCalls_complete (config : GraphConfig) (hnever : ∀ n, env.tool n ≠ .cancelled)
    {calls : List ToolCall} (hids : ∀ tc ∈ calls, tc.id.isSome = true) (executed : List Execute) :
    ∃ results executed', executeCalls env config calls executed = (.value results, executed') := by
  induction calls generalizing executed with
  | nil => exact ⟨[], executed, rfl⟩
  | cons tc rest ih =>
      obtain ⟨content, hcontent⟩ := toolContent_isSome config hnever tc executed
      have hpair : toolContent env config tc executed =
          (some content, (toolContent env config tc executed).2) := by rw [← hcontent]
      obtain ⟨id, hid⟩ := Option.isSome_iff_exists.mp (hids tc List.mem_cons_self)
      obtain ⟨results, executed', hrest⟩ := ih (fun tc h => hids tc (List.mem_cons_of_mem _ h))
        (toolContent env config tc executed).2
      refine ⟨.tool content id :: results, executed', ?_⟩
      rw [executeCalls, hpair, hid]
      simp only [hrest]

theorem executeCalls_raised (config : GraphConfig) (hnever : ∀ n, env.tool n ≠ .cancelled)
    {calls : List ToolCall} (hmissing : ∃ tc ∈ calls, tc.id = none) (executed : List Execute) :
    ∃ executed', executeCalls env config calls executed =
      (.raised env.toolMessageError, executed') := by
  induction calls generalizing executed with
  | nil =>
      obtain ⟨tc, htc, -⟩ := hmissing
      cases htc
  | cons tc rest ih =>
      obtain ⟨content, hcontent⟩ := toolContent_isSome config hnever tc executed
      have hpair : toolContent env config tc executed =
          (some content, (toolContent env config tc executed).2) := by rw [← hcontent]
      cases hid : tc.id with
      | none => exact ⟨_, by rw [executeCalls, hpair, hid]⟩
      | some id =>
          have hrest : ∃ tc ∈ rest, tc.id = none := by
            obtain ⟨tc', htc', hnone⟩ := hmissing
            rcases List.mem_cons.mp htc' with rfl | htc'
            · rw [hid] at hnone
              cases hnone
            · exact ⟨tc', htc', hnone⟩
          obtain ⟨executed', hr⟩ := ih hrest (toolContent env config tc executed).2
          refine ⟨executed', ?_⟩
          rw [executeCalls, hpair, hid]
          simp only [hr]

/-! ## 3. Rounds -/

/-- The `i`-th response brings no id, or one that no response before it has brought. -/
def NewId (env : RunnerEnv) (i : Nat) (response : AIMessage) : Prop :=
  ∀ id, response.id = some id → ∀ j < i, ∀ earlier, env.model j = .value earlier →
    earlier.id ≠ some id

/-- The response of round `i` sends the graph to the tool node. -/
structure ToolRound (env : RunnerEnv) (config : GraphConfig) (i : Nat) (response : AIMessage) :
    Prop where
  model : env.model i = .value response
  calls : response.toolCalls ≠ []
  budget : (i : Int) + 1 < config.maxIterations
  newId : NewId env i response

/-- No tool call of the round lacks the id of its message. -/
def CompleteRound (env : RunnerEnv) (config : GraphConfig) (i : Nat) : Prop :=
  ∃ response, ToolRound env config i response ∧
    ∀ tc ∈ response.toolCalls, tc.id.isSome = true

def responseTokens : Awaited AIMessage → Int
  | .value response => (Message.ai response).tokens
  | _ => 0

/-- The tokens of the first `i` responses. -/
def tokensBefore (env : RunnerEnv) (i : Nat) : Int :=
  ((List.range i).map fun j => responseTokens (env.model j)).sum

/-- The graph before the `i`-th model call. -/
structure AtRound (env : RunnerEnv) (i : Nat) (g : Graph) : Prop where
  iterations : g.iterations = i
  modelCalls : g.modelCalls.length = i
  numbered : Numbered g.messages
  given : ∀ id, .given id ∈ g.messages.map Prod.fst ↔
    ∃ j < i, ∃ response, env.model j = .value response ∧ response.id = some id
  last : ∃ n m, g.messages.getLast? = some (.fresh n, m) ∧ ∀ response, m ≠ .ai response
  tokens : countTokens g.messages = tokensBefore env i

/-- The graph after a response. -/
def Graph.respond (config : GraphConfig) (response : AIMessage) (g : Graph) : Graph :=
  { g with
    modelCalls := g.modelCalls ++ [(config.tools.map Tool.asOpenaiTool, g.messages)]
    messages := addMessages g.messages [.ai response]
    iterations := g.iterations + 1 }

/-- The graph after the tool node. -/
def Graph.finish (results : List Message) (executed : List Execute) (g : Graph) : Graph :=
  { g with messages := addMessages g.messages results, executed := executed }

@[simp] theorem Graph.finish_messages (results : List Message) (executed : List Execute)
    (g : Graph) : (g.finish results executed).messages = addMessages g.messages results := rfl
@[simp] theorem Graph.finish_iterations (results : List Message) (executed : List Execute)
    (g : Graph) : (g.finish results executed).iterations = g.iterations := rfl
@[simp] theorem Graph.finish_modelCalls (results : List Message) (executed : List Execute)
    (g : Graph) : (g.finish results executed).modelCalls = g.modelCalls := rfl
@[simp] theorem Graph.respond_iterations (config : GraphConfig) (response : AIMessage) (g : Graph) :
    (g.respond config response).iterations = g.iterations + 1 := rfl
@[simp] theorem Graph.respond_modelCalls (config : GraphConfig) (response : AIMessage) (g : Graph) :
    (g.respond config response).modelCalls.length = g.modelCalls.length + 1 := by
  simp [Graph.respond]
@[simp] theorem Graph.respond_executed (config : GraphConfig) (response : AIMessage) (g : Graph) :
    (g.respond config response).executed = g.executed := rfl

theorem atRound_initial (env : RunnerEnv) (task : AgentTask) :
    AtRound env 0 (initialGraph env task) := by
  refine ⟨rfl, rfl, ?_, ?_, ⟨0, _, rfl, nofun⟩, rfl⟩
  · intro n hn
    cases List.mem_singleton.mp hn
    exact Nat.zero_lt_one
  · intro id
    constructor
    · intro h
      cases List.mem_singleton.mp h
    · rintro ⟨j, hj, -⟩
      omega

namespace AtRound

variable {i : Nat} {g : Graph} {response : AIMessage}

theorem given_not_mem (h : AtRound env i g) (hnew : NewId env i response) :
    (Message.ai response).idIn g.messages ∉ g.messages.map Prod.fst := by
  cases hid : response.id with
  | none =>
      rw [Message.idIn_of_none hid]
      exact h.numbered.fresh_not_mem
  | some id =>
      rw [Message.idIn_of_some hid]
      intro hmem
      obtain ⟨j, hj, earlier, hmodel, hearlier⟩ := (h.given id).mp hmem
      exact hnew id hid j hj earlier hmodel hearlier

theorem respond_messages (h : AtRound env i g) (hnew : NewId env i response) :
    (g.respond config response).messages =
      g.messages ++ [((Message.ai response).idIn g.messages, .ai response)] :=
  addMessage_of_new (h.given_not_mem hnew)

theorem respond_getLast? (h : AtRound env i g) (hnew : NewId env i response) :
    (g.respond config response).messages.getLast? =
      some ((Message.ai response).idIn g.messages, .ai response) := by
  rw [h.respond_messages hnew, List.getLast?_concat]

theorem respond_tokens (h : AtRound env i g) (hmodel : env.model i = .value response)
    (hnew : NewId env i response) :
    countTokens (g.respond config response).messages = tokensBefore env (i + 1) := by
  rw [h.respond_messages hnew, countTokens_append, h.tokens, tokensBefore, tokensBefore,
    List.range_succ, List.map_append, List.sum_append]
  simp [countTokens, hmodel, responseTokens]

-- A response that takes the place of an earlier one ends the loop.
theorem shouldContinue_replaced (h : AtRound env i g) (hold : ¬ NewId env i response) :
    shouldContinue config (g.respond config response) = none := by
  unfold NewId at hold
  push Not at hold
  obtain ⟨id, hid, j, hj, earlier, hmodel, hearlier⟩ := hold
  have hmem := (h.given id).mpr ⟨j, hj, earlier, hmodel, hearlier⟩
  have hin := Message.idIn_of_some hid g.messages
  obtain ⟨n, m, hlast, hnot⟩ := h.last
  have hmessages : (g.respond config response).messages.getLast? = some (.fresh n, m) := by
    show (addMessage g.messages (.ai response)).getLast? = _
    unfold addMessage
    rw [hin, if_pos hmem, List.getLast?_map, hlast]
    rfl
  unfold shouldContinue
  rw [hmessages]
  cases m with
  | ai r => exact absurd rfl (hnot r)
  | human content => rfl
  | tool content id => rfl

theorem shouldContinue_new (h : AtRound env i g) (hnew : NewId env i response) :
    shouldContinue config (g.respond config response) =
      if response.toolCalls ≠ [] ∧ (i : Int) + 1 < config.maxIterations then
        some response.toolCalls else none := by
  unfold shouldContinue
  rw [h.respond_getLast? hnew]
  simp only [Graph.respond_iterations, h.iterations]

-- The graph goes on to the tool node exactly in a tool round.
theorem shouldContinue_eq_some (h : AtRound env i g) (hmodel : env.model i = .value response)
    {calls : List ToolCall} :
    shouldContinue config (g.respond config response) = some calls ↔
      ToolRound env config i response ∧ calls = response.toolCalls := by
  by_cases hnew : NewId env i response
  · rw [h.shouldContinue_new hnew]
    constructor
    · intro hsome
      split at hsome
      · rename_i hgo
        cases hsome
        exact ⟨⟨hmodel, hgo.1, hgo.2, hnew⟩, rfl⟩
      · cases hsome
    · rintro ⟨hround, rfl⟩
      rw [if_pos ⟨hround.calls, hround.budget⟩]
  · rw [h.shouldContinue_replaced hnew]
    simp only [reduceCtorEq, false_iff, not_and]
    exact fun hround => absurd hround.newId hnew

theorem callModelNode_eq (h : AtRound env i g) (hmodel : env.model i = .value response) :
    (callModelNode env config g).1 = .value (g.respond config response) := by
  unfold callModelNode
  rw [h.modelCalls, hmodel]
  rfl

-- A tool round whose tool messages have all been made leads to the next round.
theorem succ (h : AtRound env i g) (hround : ToolRound env config i response)
    {results : List Message} (htools : ∀ m ∈ results, m.IsTool) (hne : results ≠ [])
    (executed : List Execute) :
    AtRound env (i + 1) ((g.respond config response).finish results executed) := by
  have hmessages : (g.respond config response).messages =
      g.messages ++ [((Message.ai response).idIn g.messages, .ai response)] :=
    h.respond_messages hround.newId
  have hnumbered : Numbered (g.respond config response).messages := by
    rw [hmessages]
    exact h.numbered.snoc _
  have hextends := addMessages_tools hnumbered htools
  refine ⟨?_, ?_, hextends.numbered, ?_, ?_, ?_⟩
  · rw [Graph.finish_iterations, Graph.respond_iterations, h.iterations]
    rfl
  · rw [Graph.finish_modelCalls, Graph.respond_modelCalls, h.modelCalls]
  · intro id
    rw [Graph.finish_messages, hextends.given, hmessages, List.map_append, List.mem_append, h.given]
    have hself : MessageId.given id ∈
        [((Message.ai response).idIn g.messages, Message.ai response)].map Prod.fst ↔
          response.id = some id := by
      rw [List.map_singleton, List.mem_singleton]
      cases hid : response.id with
      | none => simp [Message.idIn_of_none hid]
      | some id' => simp [Message.idIn_of_some hid, eq_comm]
    rw [hself]
    constructor
    · rintro (⟨j, hj, hr⟩ | hid)
      · exact ⟨j, by omega, hr⟩
      · exact ⟨i, by omega, response, hround.model, hid⟩
    · rintro ⟨j, hj, earlier, hmodel, hid⟩
      by_cases heq : j = i
      · subst heq
        rw [hround.model] at hmodel
        cases hmodel
        exact .inr hid
      · exact .inl ⟨j, by omega, earlier, hmodel, hid⟩
  · obtain ⟨n, m, hlast, content, id, rfl⟩ := addMessages_tools_getLast? hnumbered htools hne
    exact ⟨n, _, hlast, nofun⟩
  · rw [Graph.finish_messages, hextends.tokens, h.respond_tokens hround.model hround.newId]

end AtRound

/-! ## 4. From round to round -/

theorem supersteps_callModel {i : Nat} {g : Graph} {response : AIMessage} (h : AtRound env i g)
    (hmodel : env.model i = .value response) (n : Nat) :
    supersteps env config (n + 1) .callModel g =
      match shouldContinue config (g.respond config response) with
      | some calls => supersteps env config n (.executeTool calls) (g.respond config response)
      | none => supersteps env config n .finish (g.respond config response) := by
  have hnode : (callModelNode env config g).1 = .value (g.respond config response) :=
    h.callModelNode_eq hmodel
  rw [supersteps]
  rcases hcall : callModelNode env config g with ⟨outcome, g'⟩
  rw [hcall] at hnode
  subst hnode
  rfl

@[simp] theorem supersteps_finish_snd (n : Nat) (g : Graph) :
    (supersteps env config n .finish g).2 = g := by
  cases n <;> rfl

theorem supersteps_executeTool (calls : List ToolCall) (g : Graph) (n : Nat) :
    supersteps env config (n + 1) (.executeTool calls) g =
      match executeCalls env config calls g.executed with
      | (.value results, executed) =>
          supersteps env config n .callModel (g.finish results executed)
      | (.raised e, executed) => (.raised e, { g with executed := executed })
      | (.cancelled, executed) => (.cancelled, { g with executed := executed }) := by
  rw [supersteps, executeToolNode]
  rcases executeCalls env config calls g.executed with ⟨outcome, executed⟩
  cases outcome <;> rfl

/-- The rounds before the `i`-th take two supersteps each. -/
theorem reaches_round (hnever : ∀ n, env.tool n ≠ .cancelled) {g₀ : Graph}
    (h₀ : AtRound env 0 g₀) (i n : Nat) (hcomplete : ∀ j < i, CompleteRound env config j) :
    ∃ g, AtRound env i g ∧
      supersteps env config (2 * i + n) .callModel g₀ = supersteps env config n .callModel g := by
  induction i generalizing n with
  | zero => exact ⟨g₀, h₀, by rw [Nat.mul_zero, Nat.zero_add]⟩
  | succ i ih =>
      obtain ⟨g, hg, hrun⟩ := ih (n + 2) fun j hj => hcomplete j (by omega)
      obtain ⟨response, hround, hids⟩ := hcomplete i (by omega)
      obtain ⟨results, executed, hcalls⟩ := executeCalls_complete config hnever hids
        g.executed
      obtain ⟨htools, hlength, -⟩ := executeCalls_value hcalls
      have hne : results ≠ [] := by
        intro hsame
        subst hsame
        exact hround.calls (List.length_eq_zero_iff.mp hlength.symm)
      refine ⟨_, hg.succ hround htools hne executed, ?_⟩
      have hgo := (hg.shouldContinue_eq_some hround.model).mpr ⟨hround, rfl⟩
      rw [show 2 * (i + 1) + n = 2 * i + (n + 2) by omega, hrun,
        supersteps_callModel hg hround.model, hgo]
      simp only
      rw [supersteps_executeTool, Graph.respond_executed, hcalls]

theorem executed_subset_supersteps (n : Nat) (node : Node) (g : Graph) :
    g.executed ⊆ (supersteps env config n node g).2.executed := by
  induction n generalizing node g with
  | zero => exact fun _ h => h
  | succ n ih =>
      cases node with
      | callModel =>
          rw [supersteps, callModelNode]
          cases env.model g.modelCalls.length with
          | raised e => exact fun _ h => h
          | cancelled => exact fun _ h => h
          | value response =>
              simp only
              split
              · exact fun x hx => ih _ _ hx
              · exact fun x hx => ih _ _ hx
      | finish => exact fun _ h => h
      | executeTool calls =>
          have hcalls := subset_executeCalls env config calls g.executed
          rw [supersteps_executeTool]
          rcases h : executeCalls env config calls g.executed with ⟨outcome, executed⟩
          rw [h] at hcalls
          cases outcome with
          | raised e => exact hcalls
          | cancelled => exact hcalls
          | value results => exact fun x hx => ih _ _ (hcalls hx)

/-- The graph executes the tool calls of the response. -/
structure Reached (env : RunnerEnv) (config : GraphConfig) (i : Nat) (response : AIMessage) :
    Prop where
  round : ToolRound env config i response
  before : ∀ j < i, CompleteRound env config j
  supersteps : 2 * i + 2 ≤ recursionLimit

/-- What holds of the attempted calls of every response that is reached holds of every call of a
tool. -/
theorem executed_of_reached {P : Execute → Prop}
    (hP : ∀ i response, Reached env config i response → ∀ tc ∈ attempted response.toolCalls,
      ∀ tool, config.registry.get tc.name = some tool → P (config.execute tool tc))
    (n i : Nat) (g : Graph) (hn : 2 * i + n = recursionLimit) (hg : AtRound env i g)
    (hbefore : ∀ j < i, CompleteRound env config j) (hexecuted : ∀ x ∈ g.executed, P x) :
    ∀ x ∈ (supersteps env config n .callModel g).2.executed, P x := by
  induction n using Nat.strong_induction_on generalizing i g with
  | _ n ih =>
      cases n with
      | zero => exact hexecuted
      | succ n =>
          cases hmodel : env.model i with
          | raised e =>
              simpa only [supersteps, callModelNode, hg.modelCalls, hmodel] using hexecuted
          | cancelled =>
              simpa only [supersteps, callModelNode, hg.modelCalls, hmodel] using hexecuted
          | value response =>
              rw [supersteps_callModel hg hmodel]
              cases hgo : shouldContinue config (g.respond config response) with
              | none =>
                  simp only [supersteps_finish_snd]
                  exact hexecuted
              | some calls =>
                  obtain ⟨hround, rfl⟩ := (hg.shouldContinue_eq_some hmodel).mp hgo
                  cases n with
                  | zero => exact hexecuted
                  | succ n =>
                      have hreached : Reached env config i response :=
                        ⟨hround, hbefore, by omega⟩
                      have hnode : ∀ x ∈ (executeCalls env config response.toolCalls
                          g.executed).2, P x := by
                        intro x hx
                        rcases mem_executeCalls hx with hx | ⟨tc, htc, tool, htool, rfl⟩
                        · exact hexecuted x hx
                        · exact hP i response hreached tc htc tool htool
                      simp only
                      rw [supersteps_executeTool, Graph.respond_executed]
                      rcases hcalls : executeCalls env config response.toolCalls g.executed with
                        ⟨outcome, executed⟩
                      rw [hcalls] at hnode
                      cases outcome with
                      | raised e => exact hnode
                      | cancelled => exact hnode
                      | value results =>
                          obtain ⟨htools, hlength, hids⟩ := executeCalls_value hcalls
                          have hne : results ≠ [] := by
                            intro hsame
                            subst hsame
                            exact hround.calls (List.length_eq_zero_iff.mp hlength.symm)
                          refine ih n (by omega) (i + 1) _ (by omega)
                            (hg.succ hround htools hne executed) ?_ hnode
                          intro j hj
                          by_cases heq : j = i
                          · subst heq
                            exact ⟨response, hround, hids⟩
                          · exact hbefore j (by omega)

end ConstructorPlatform
