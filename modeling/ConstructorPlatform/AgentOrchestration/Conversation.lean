import Mathlib.Data.List.Forall2
import ConstructorPlatform.AgentOrchestration.AgentLoop

/-!
# Conversation — the messages that the model is given

Providers refuse a conversation in which a tool call has no answer, or an answer has no call.
`Answered` is the grammar of what follows the human message; every model call of a run is given a
list of this form: `agentRun_wellFormed`.
-/

namespace ConstructorPlatform

/-! ## 1. The grammar -/

/-- A tool message that answers a tool call. -/
def Message.Answers (m : Message) (tc : ToolCall) : Prop :=
  ∃ content id, tc.id = some id ∧ m = .tool content id

/-- Responses of the model, each with the tool messages that answer its calls in order. -/
inductive Answered : List Message → Prop where
  | nil : Answered []
  | round {response : AIMessage} {results rest : List Message}
      (answers : List.Forall₂ Message.Answers results response.toolCalls)
      (answered : Answered rest) : Answered (.ai response :: (results ++ rest))

theorem Message.Answers.isTool {m : Message} {tc : ToolCall} (h : m.Answers tc) : m.IsTool := by
  obtain ⟨content, id, -, rfl⟩ := h
  exact ⟨content, id, rfl⟩

theorem answers_isTool {results : List Message} {calls : List ToolCall}
    (h : List.Forall₂ Message.Answers results calls) : ∀ m ∈ results, m.IsTool := by
  induction h with
  | nil => exact fun _ hm => nomatch hm
  | cons hm _ ih => exact List.forall_mem_cons.mpr ⟨hm.isTool, ih⟩

theorem Message.ai_not_isTool (response : AIMessage) : ¬ (Message.ai response).IsTool := by
  rintro ⟨content, id, h⟩
  cases h

theorem Answered.append {messages new : List Message} (h : Answered messages)
    (hnew : Answered new) : Answered (messages ++ new) := by
  induction h with
  | nil => exact hnew
  | round answers _ ih =>
      rw [List.cons_append, List.append_assoc]
      exact .round answers ih

theorem Answered.snoc {messages : List Message} (h : Answered messages) {response : AIMessage}
    {results : List Message} (answers : List.Forall₂ Message.Answers results response.toolCalls) :
    Answered (messages ++ .ai response :: results) := by
  have hlast : Answered (.ai response :: (results ++ [])) := .round answers .nil
  rw [List.append_nil] at hlast
  exact h.append hlast

/-! ## 2. What the grammar says of each message -/

-- Tool messages come only after a response.
theorem Answered.head_not_isTool {messages : List Message} (h : Answered messages) {m : Message}
    (hm : messages.head? = some m) : ¬ m.IsTool := by
  cases h with
  | nil => cases hm
  | round answers answered =>
      cases hm
      exact Message.ai_not_isTool _

theorem Answered.not_human {messages : List Message} (h : Answered messages) :
    ∀ m ∈ messages, ∀ content, m ≠ .human content := by
  induction h with
  | nil => exact fun _ hm => nomatch hm
  | round answers _ ih =>
      refine List.forall_mem_cons.mpr ⟨(fun _ h => nomatch h), fun m hm => ?_⟩
      rcases List.mem_append.mp hm with hm | hm
      · obtain ⟨content, id, rfl⟩ := answers_isTool answers m hm
        exact fun _ h => nomatch h
      · exact ih m hm

/-- The answers to a response follow it at once, and nothing else of their kind does. -/
theorem Answered.after_response {messages : List Message} (h : Answered messages)
    {before after : List Message} {response : AIMessage}
    (hsplit : messages = before ++ .ai response :: after) :
    ∃ results rest, after = results ++ rest ∧
      List.Forall₂ Message.Answers results response.toolCalls ∧ Answered rest := by
  induction h generalizing before with
  | nil => exact absurd hsplit.symm (by simp)
  | @round first results rest answers answered ih =>
      cases before with
      | nil =>
          cases hsplit
          exact ⟨results, rest, rfl, answers, answered⟩
      | cons m before =>
          obtain ⟨-, htail⟩ := List.cons.inj hsplit
          rcases List.append_eq_append_iff.mp htail with ⟨more, -, hrest⟩ | ⟨more, hresults, hmore⟩
          · exact ih hrest
          · -- A response among the answers of another would be a tool message.
            cases more with
            | nil =>
                have hrest : rest = [] ++ .ai response :: after := hmore.symm
                exact ih hrest
            | cons m more =>
                obtain ⟨rfl, -⟩ := List.cons.inj hmore
                have hmem : Message.ai response ∈ results := by
                  rw [hresults]
                  exact List.mem_append_right _ List.mem_cons_self
                exact absurd (answers_isTool answers _ hmem) (Message.ai_not_isTool response)

/-- Every tool message is one of the answers to the last response before it. -/
theorem Answered.before_tool {messages : List Message} (h : Answered messages)
    {before after : List Message} {m : Message} (hsplit : messages = before ++ m :: after)
    (hm : m.IsTool) : ∃ earlier response results, before = earlier ++ .ai response :: results ∧
      (∀ r ∈ results, r.IsTool) ∧ results.length < response.toolCalls.length := by
  induction h generalizing before with
  | nil => exact absurd hsplit.symm (by simp)
  | @round first results rest answers answered ih =>
      cases before with
      | nil =>
          obtain ⟨rfl, -⟩ := List.cons.inj hsplit
          exact absurd hm (Message.ai_not_isTool first)
      | cons b before =>
          obtain ⟨rfl, htail⟩ := List.cons.inj hsplit
          rcases List.append_eq_append_iff.mp htail with
            ⟨more, rfl, hrest⟩ | ⟨more, hresults, hmore⟩
          · obtain ⟨earlier, response, between, rfl, htools, hlength⟩ := ih hrest
            refine ⟨.ai first :: (results ++ earlier), response, between, ?_, htools, hlength⟩
            rw [List.cons_append, List.append_assoc]
          · cases more with
            | nil =>
                rw [List.nil_append] at hmore
                exact absurd hm (answered.head_not_isTool (by rw [← hmore]; rfl))
            | cons m' more =>
                refine ⟨[], first, before, rfl, fun r hr => ?_, ?_⟩
                · refine answers_isTool answers r ?_
                  rw [hresults]
                  exact List.mem_append_left _ hr
                · rw [← answers.length_eq, hresults, List.length_append, List.length_cons]
                  omega

/-! ## 3. Conversations -/

/-- A list of messages that a provider takes. -/
structure WellFormed (messages : List Message) : Prop where
  -- The one human message comes first.
  human : ∃ content rest, messages = .human content :: rest ∧
    ∀ m ∈ rest, ∀ content, m ≠ .human content
  -- A response is followed by one tool message for each of its calls, in order, and no more.
  answered : ∀ before response after, messages = before ++ .ai response :: after →
    ∃ results rest, after = results ++ rest ∧
      List.Forall₂ Message.Answers results response.toolCalls ∧
      ∀ m, rest.head? = some m → ¬ m.IsTool
  -- There are no other tool messages.
  only : ∀ before m after, messages = before ++ m :: after → m.IsTool →
    ∃ earlier response results, before = earlier ++ .ai response :: results ∧
      (∀ r ∈ results, r.IsTool) ∧ results.length < response.toolCalls.length

/-- A human message and answered responses. -/
def Conversation (messages : List Message) : Prop :=
  ∃ content rest, messages = .human content :: rest ∧ Answered rest

theorem Conversation.wellFormed {messages : List Message} (h : Conversation messages) :
    WellFormed messages := by
  obtain ⟨content, rest, rfl, hrest⟩ := h
  refine ⟨⟨content, rest, rfl, hrest.not_human⟩, ?_, ?_⟩
  · intro before response after hsplit
    cases before with
    | nil => cases hsplit
    | cons m before =>
        obtain ⟨results, more, hafter, answers, hmore⟩ :=
          hrest.after_response (List.cons.inj hsplit).2
        exact ⟨results, more, hafter, answers, fun m => hmore.head_not_isTool⟩
  · intro before m after hsplit hm
    cases before with
    | nil =>
        obtain ⟨rfl, -⟩ := List.cons.inj hsplit
        obtain ⟨content, id, h⟩ := hm
        cases h
    | cons b before =>
        obtain ⟨rfl, htail⟩ := List.cons.inj hsplit
        obtain ⟨earlier, response, results, rfl, htools, hlength⟩ := hrest.before_tool htail hm
        exact ⟨.human content :: earlier, response, results, rfl, htools, hlength⟩

theorem Conversation.snoc {messages : List Message} (h : Conversation messages)
    {response : AIMessage} {results : List Message}
    (answers : List.Forall₂ Message.Answers results response.toolCalls) :
    Conversation (messages ++ .ai response :: results) := by
  obtain ⟨content, rest, rfl, hrest⟩ := h
  exact ⟨content, _, rfl, hrest.snoc answers⟩

/-! ## 4. The runs -/

variable {env : RunnerEnv} {config : GraphConfig}

/-- The messages without their ids. -/
def Graph.conversation (g : Graph) : List Message := g.messages.map Prod.snd

-- The tool node answers the calls in order.
theorem executeCalls_answers {calls : List ToolCall} {executed executed' : List Execute}
    {results : List Message}
    (h : executeCalls env config calls executed = (.value results, executed')) :
    List.Forall₂ Message.Answers results calls := by
  induction calls generalizing executed results with
  | nil =>
      cases h
      exact .nil
  | cons tc rest ih =>
      rw [executeCalls] at h
      split at h
      · cases h
      · cases h
      · rename_i content executed₁ id _ hid
        split at h
        · rename_i results' executed₂ hrest
          cases h
          exact .cons ⟨content, id, hid, rfl⟩ (ih hrest)
        · rename_i hno _
          cases h
          exact absurd rfl (hno results)

-- Tool messages are appended.
theorem addMessages_tools_snd {messages : Messages} {new : List Message} (h : Numbered messages)
    (hnew : ∀ m ∈ new, m.IsTool) :
    (addMessages messages new).map Prod.snd = messages.map Prod.snd ++ new := by
  induction new generalizing messages with
  | nil => exact (List.append_nil _).symm
  | cons m rest ih =>
      obtain ⟨⟨content, id, rfl⟩, hrest⟩ := List.forall_mem_cons.mp hnew
      have hid : (Message.tool content id).idIn messages = .fresh messages.length := rfl
      have hadd := addMessage_of_new (m := .tool content id) (hid ▸ h.fresh_not_mem)
      rw [addMessages, List.foldl_cons, ← addMessages, hadd, ih (h.snoc _) hrest, List.map_append,
        List.append_assoc]
      rfl

theorem AtRound.conversation_succ {i : Nat} {g : Graph} (h : AtRound env i g)
    {response : AIMessage} (hround : ToolRound env config i response) {results : List Message}
    (htools : ∀ m ∈ results, m.IsTool) (executed : List Execute) :
    ((g.respond config response).finish results executed).conversation =
      g.conversation ++ .ai response :: results := by
  have hmessages : (g.respond config response).messages =
      g.messages ++ [((Message.ai response).idIn g.messages, .ai response)] :=
    h.respond_messages hround.newId
  have hnumbered : Numbered (g.respond config response).messages := by
    rw [hmessages]
    exact h.numbered.snoc _
  rw [Graph.conversation, Graph.finish_messages, addMessages_tools_snd hnumbered htools, hmessages,
    List.map_append, List.append_assoc]
  rfl

/-- From a round on, the model is given conversations only. -/
theorem supersteps_modelCalls (n i : Nat) {g : Graph} (hg : AtRound env i g)
    (hconversation : Conversation g.conversation)
    (hcalls : ∀ call ∈ g.modelCalls, Conversation (call.2.map Prod.snd)) :
    ∀ call ∈ (supersteps env config n .callModel g).2.modelCalls,
      Conversation (call.2.map Prod.snd) := by
  induction n using Nat.strong_induction_on generalizing i g with
  | _ n ih =>
      cases n with
      | zero => exact hcalls
      | succ n =>
          -- The model call of this round.
          have hcalled : ∀ call ∈ g.modelCalls ++ [(config.tools.map Tool.asOpenaiTool,
              g.messages)], Conversation (call.2.map Prod.snd) := by
            intro call hcall
            rcases List.mem_append.mp hcall with hcall | hcall
            · exact hcalls call hcall
            · rw [List.mem_singleton.mp hcall]
              exact hconversation
          cases hmodel : env.model i with
          | raised e => simpa only [supersteps, callModelNode, hg.modelCalls, hmodel] using hcalled
          | cancelled =>
              simpa only [supersteps, callModelNode, hg.modelCalls, hmodel] using hcalled
          | value response =>
              rw [supersteps_callModel hg hmodel]
              cases hgo : shouldContinue config (g.respond config response) with
              | none =>
                  simp only [supersteps_finish_snd]
                  exact hcalled
              | some calls =>
                  obtain ⟨hround, rfl⟩ := (hg.shouldContinue_eq_some hmodel).mp hgo
                  cases n with
                  | zero => exact hcalled
                  | succ n =>
                      simp only
                      rw [supersteps_executeTool, Graph.respond_executed]
                      rcases hexecuted : executeCalls env config response.toolCalls g.executed with
                        ⟨outcome, executed⟩
                      cases outcome with
                      | raised e => exact hcalled
                      | cancelled => exact hcalled
                      | value results =>
                          have hanswers := executeCalls_answers hexecuted
                          have htools := answers_isTool hanswers
                          have hne : results ≠ [] := by
                            rintro rfl
                            exact hround.calls (List.forall₂_nil_left_iff.mp hanswers)
                          refine ih n (by omega) (i + 1) (hg.succ hround htools hne executed) ?_
                            hcalled
                          rw [hg.conversation_succ hround htools]
                          exact hconversation.snoc hanswers

/-- Every list of messages that a run passes to the model is well formed. -/
theorem agentRun_wellFormed (env : RunnerEnv) (registry : ToolRegistry) (task : AgentTask) :
    ∀ call ∈ (agentRun env registry task).2.modelCalls, WellFormed (call.2.map Prod.snd) := by
  intro call hcall
  apply Conversation.wellFormed
  have hinitial : Conversation (initialGraph env task).conversation := ⟨_, [], rfl, .nil⟩
  have hrun : ∀ call ∈ (supersteps env (runConfig registry task) recursionLimit .callModel
      (initialGraph env task)).2.modelCalls, Conversation (call.2.map Prod.snd) :=
    supersteps_modelCalls recursionLimit 0 (atRound_initial env task) hinitial
      (fun _ h => nomatch h)
  unfold agentRun at hcall
  split at hcall
  · cases hcall
  · split at hcall
    · cases hcall
    · split at hcall
      · rename_i h
        rw [h] at hrun
        exact hrun call hcall
      · rename_i h
        rw [h] at hrun
        exact hrun call hcall
      · rename_i h
        rw [h] at hrun
        split at hcall <;> exact hrun call hcall

-- The second model call of a run with one tool call.
theorem agentRun_wellFormed_oneToolCall :
    WellFormed [.human "<context>{}</context>\n\n",
      .ai ⟨none, .str "done", [⟨"sql_query", [], some "call-1"⟩], none⟩,
      .tool "rows" "call-1"] := by
  have hlast : (agentRun callsSql sqlRegistry plainTask).2.modelCalls.getLast? =
      some ([], [(.fresh 0, .human "<context>{}</context>\n\n"),
        (.fresh 1, .ai ⟨none, .str "done", [⟨"sql_query", [], some "call-1"⟩], none⟩),
        (.fresh 2, .tool "rows" "call-1")]) := rfl
  exact agentRun_wellFormed callsSql sqlRegistry plainTask _ (List.mem_of_getLast? hlast)

end ConstructorPlatform
