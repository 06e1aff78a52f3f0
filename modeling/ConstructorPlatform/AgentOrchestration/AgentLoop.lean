import Mathlib.Data.ENat.Lattice
import ConstructorPlatform.AgentOrchestration.Rounds

/-!
# AgentLoop — what a run calls and what comes out of it

`run` offers the model only the tools that the task allows, but the tool node looks names up in the
whole registry: `only_allowed_tools_iff` says when no other tool is called.  `agentLoop_iff` says
when the loop makes the number of model calls that the response sequence and `max_iterations` ask
for: LangGraph's budget has room for twelve.
-/

namespace ConstructorPlatform

/-! ## 1. Which tools are called -/

theorem agentRun_executed {env : RunnerEnv} {registry : ToolRegistry} {task : AgentTask}
    {x : Execute} (hx : x ∈ (agentRun env registry task).2.executed) :
    (getModel env task).isOk = true ∧ 0 < task.timeoutSeconds ∧
      x ∈ (supersteps env (runConfig registry task) recursionLimit .callModel
        (initialGraph env task)).2.executed := by
  unfold agentRun at hx
  split at hx
  · cases hx
  · rename_i modelId hmodel
    split at hx
    · cases hx
    · rename_i htimeout
      refine ⟨by rw [hmodel]; rfl, by omega, ?_⟩
      split at hx
      · rename_i h
        rw [h]
        exact hx
      · rename_i h
        rw [h]
        exact hx
      · rename_i h
        rw [h]
        split at hx <;> exact hx

theorem agentRun_snd (env : RunnerEnv) (registry : ToolRegistry) {task : AgentTask}
    (hmodel : (getModel env task).isOk = true) (htimeout : 0 < task.timeoutSeconds) :
    (agentRun env registry task).2 = (supersteps env (runConfig registry task) recursionLimit
      .callModel (initialGraph env task)).2 := by
  unfold agentRun
  cases h : getModel env task with
  | error e =>
      rw [h] at hmodel
      cases hmodel
  | ok modelId =>
      simp only
      rw [if_neg (by omega)]
      split
      · rename_i hrun
        rw [hrun]
      · rename_i hrun
        rw [hrun]
      · rename_i hrun
        rw [hrun]
        split <;> rfl

/-- A response that is reached has its attempted calls executed when no timer fires. -/
theorem executed_in_round {env : RunnerEnv} {config : GraphConfig} {g₀ : Graph} {i : Nat}
    {response : AIMessage} (hnever : ∀ n, env.tool n ≠ .cancelled) (h₀ : AtRound env 0 g₀)
    (hreached : Reached env config i response) {tc : ToolCall}
    (htc : tc ∈ attempted response.toolCalls) {tool : Tool}
    (htool : config.registry.get tc.name = some tool) :
    config.execute tool tc ∈
      (supersteps env config recursionLimit .callModel g₀).2.executed := by
  obtain ⟨hround, hbefore, hbudget⟩ := hreached
  obtain ⟨n, hn⟩ := Nat.exists_eq_add_of_le hbudget
  obtain ⟨g, hg, hrun⟩ := reaches_round hnever h₀ i (n + 2) hbefore
  have hgo := (hg.shouldContinue_eq_some hround.model).mpr ⟨hround, rfl⟩
  rw [show recursionLimit = 2 * i + (n + 2) by omega, hrun, supersteps_callModel hg hround.model,
    hgo]
  simp only
  have hcalls := executed_of_attempted config hnever htc htool g.executed
  rw [supersteps_executeTool, Graph.respond_executed]
  rcases h : executeCalls env config response.toolCalls g.executed with ⟨outcome, executed⟩
  rw [h] at hcalls
  cases outcome with
  | raised e => exact hcalls
  | cancelled => exact hcalls
  | value results => exact executed_subset_supersteps _ _ _ hcalls

/-- The same models with other tools. -/
def RunnerEnv.withTools (tool : Nat → Awaited String) (env : RunnerEnv) : RunnerEnv :=
  { env with tool := tool }

theorem ToolRound.of_tool {env : RunnerEnv} {config : GraphConfig} {i : Nat}
    {response : AIMessage} (tool tool' : Nat → Awaited String)
    (h : ToolRound (env.withTools tool) config i response) :
    ToolRound (env.withTools tool') config i response :=
  ⟨h.model, h.calls, h.budget, h.newId⟩

-- Whether a response is reached does not depend on what the tools answer.
theorem Reached.of_tool {env : RunnerEnv} {config : GraphConfig} {i : Nat} {response : AIMessage}
    (tool tool' : Nat → Awaited String)
    (h : Reached (env.withTools tool) config i response) :
    Reached (env.withTools tool') config i response := by
  refine ⟨h.round.of_tool tool tool', fun j hj => ?_, h.supersteps⟩
  obtain ⟨earlier, hround, hids⟩ := h.before j hj
  exact ⟨earlier, hround.of_tool tool tool', hids⟩

/-- Whatever the tools answer, only allowed tools are called: this holds exactly when every
registered tool that a response names is allowed, for the responses whose calls are executed. -/
theorem only_allowed_tools_iff (env : RunnerEnv) (registry : ToolRegistry) (task : AgentTask) :
    (∀ tool, ∀ x ∈ (agentRun (env.withTools tool) registry task).2.executed,
      x.tool.name ∈ task.toolsAllowed) ↔
    ((getModel env task).isOk = true → 0 < task.timeoutSeconds →
      ∀ i response, Reached env (runConfig registry task) i response →
        ∀ tc ∈ attempted response.toolCalls, (registry.get tc.name).isSome = true →
          tc.name ∈ task.toolsAllowed) := by
  constructor
  · intro hallowed hmodel htimeout i response hreached tc htc hsome
    obtain ⟨tool, htool⟩ := Option.isSome_iff_exists.mp hsome
    have hnever : ∀ n, (env.withTools fun _ => .value "").tool n ≠ .cancelled := by
      intro n h
      cases h
    have hreached' := hreached.of_tool env.tool fun _ => .value ""
    have hx := executed_in_round hnever (atRound_initial _ task) hreached' htc htool
    have hsnd := agentRun_snd (env.withTools fun _ => .value "") registry hmodel htimeout
    rw [← hsnd] at hx
    rw [← registry.get_name htool]
    exact hallowed (fun _ => .value "") _ hx
  · intro hreach tool x hx
    obtain ⟨hmodel, htimeout, hx⟩ := agentRun_executed hx
    refine executed_of_reached (P := fun x => x.tool.name ∈ task.toolsAllowed) ?_ recursionLimit 0
      _ (Nat.zero_add _) (atRound_initial _ task) (fun j hj => absurd hj (Nat.not_lt_zero j))
      nofun x hx
    intro i response hreached tc htc t ht
    show t.name ∈ task.toolsAllowed
    rw [registry.get_name ht]
    apply hreach hmodel htimeout i response (hreached.of_tool tool env.tool) tc htc
    exact Option.isSome_iff_exists.mpr ⟨t, ht⟩

def sqlTool : Tool := ⟨"sql_query", "Run a read-only query", .obj []⟩

def sqlRegistry : ToolRegistry := ToolRegistry.empty.register sqlTool

/-- The first response calls `sql_query`, the second one is final. -/
def callsSql : RunnerEnv where
  useStubModel := true
  construct := fun _ _ => .ok ()
  model := fun i => .value ⟨none, .str "done",
    if i = 0 then [⟨"sql_query", [], some "call-1"⟩] else [], none⟩
  tool := fun _ => .value "rows"
  str := fun _ => "{}"
  toolMessageError := ⟨.valueError, "tool_call_id"⟩
  recursionError := ⟨.library, "Recursion limit of 25 reached"⟩

/-- No tool is allowed. -/
def plainTask : AgentTask := ⟨1, 2, 3, "ask", "default", "", [], [], none, 300, 20⟩

theorem sql_tool_called_unallowed :
    ¬ ∀ (env : RunnerEnv) (registry : ToolRegistry) (task : AgentTask),
      ∀ x ∈ (agentRun env registry task).2.executed, x.tool.name ∈ task.toolsAllowed := by
  intro h
  have hrun : (agentRun callsSql sqlRegistry plainTask).2.executed =
      [⟨sqlTool, [], plainTask.tenantId⟩] := rfl
  have hmem : sqlTool.name ∈ plainTask.toolsAllowed :=
    h callsSql sqlRegistry plainTask _ (hrun ▸ List.mem_singleton_self _)
  cases hmem

/-! ## 2. How many model calls a run makes -/

/-- The 1-based index of the first response without tool calls. -/
noncomputable def firstFinal (responses : Nat → AIMessage) : ℕ∞ :=
  sInf {k | ∃ i : Nat, (responses i).toolCalls = [] ∧ k = i + 1}

/-- What the loop is for: `c` model calls and the result that they make. -/
structure LoopOutcome (task : AgentTask) (responses : Nat → AIMessage) (c : Nat)
    (out : Except PyExc AgentResult × Graph) : Prop where
  calls : out.2.modelCalls.length = c
  result : ∃ r, out.1 = .ok r ∧ r.iterations = c ∧
    r.tokensUsed = ((List.range c).map fun i => (Message.ai (responses i)).tokens).sum ∧
    ((∃ i : Nat, (i : Int) < task.maxIterations ∧ (responses i).toolCalls = []) →
      r.status = .completed ∧ r.output = [("text", (responses (c - 1)).content)]) ∧
    ((∀ i : Nat, (i : Int) < task.maxIterations → (responses i).toolCalls ≠ []) →
      r.status = .failed ∧ r.error = some "max_iterations_reached")

-- The number of calls is at most `m`, and the loop ends with the first response that calls no
-- tool.
theorem min_firstFinal {responses : Nat → AIMessage} {m c : Nat} (hm : 1 ≤ m)
    (hc : (c : ℕ∞) = min (m : ℕ∞) (firstFinal responses)) :
    1 ≤ c ∧ c ≤ m ∧ (∀ i, i + 1 < c → (responses i).toolCalls ≠ []) ∧
      (c = m ∨ (responses (c - 1)).toolCalls = []) := by
  have hle : (c : ℕ∞) ≤ firstFinal responses := hc ▸ min_le_right _ _
  refine ⟨?_, ?_, ?_, ?_⟩
  · have hone : ((1 : Nat) : ℕ∞) ≤ c := by
      rw [hc]
      refine le_min (Nat.cast_le.mpr hm) (le_sInf ?_)
      rintro k ⟨i, -, rfl⟩
      exact_mod_cast Nat.le_add_left 1 i
    exact Nat.cast_le.mp hone
  · have hcm : (c : ℕ∞) ≤ m := hc ▸ min_le_left _ _
    exact Nat.cast_le.mp hcm
  · intro i hi hfinal
    have hfirst : firstFinal responses ≤ ((i + 1 : Nat) : ℕ∞) :=
      sInf_le ⟨i, hfinal, by push_cast; rfl⟩
    have hci : c ≤ i + 1 := Nat.cast_le.mp (hle.trans hfirst)
    omega
  · rcases min_choice (m : ℕ∞) (firstFinal responses) with h | h
    · rw [h] at hc
      exact .inl (Nat.cast_inj.mp hc)
    · rw [h] at hc
      apply Or.inr
      have hne : {k : ℕ∞ | ∃ i : Nat, (responses i).toolCalls = [] ∧ k = i + 1}.Nonempty := by
        rw [Set.nonempty_iff_ne_empty]
        intro hempty
        rw [firstFinal, hempty, sInf_empty] at hc
        exact ENat.natCast_ne_top c hc
      obtain ⟨i, hfinal, hi⟩ := csInf_mem hne
      change firstFinal responses = _ at hi
      rw [← hc] at hi
      have hci : c = i + 1 := by exact_mod_cast hi
      rw [hci, Nat.add_sub_cancel]
      exact hfinal

section Loop

variable {env : RunnerEnv} {config : GraphConfig} {responses : Nat → AIMessage} {c : Nat}

-- Responses with distinct ids are all new.
theorem newId_of_distinct (hmodel : ∀ i, env.model i = .value (responses i))
    (hids : ∀ i j id, i < j → (responses i).id = some id → (responses j).id ≠ some id) (i : Nat) :
    NewId env i (responses i) := by
  intro id hid j hj earlier hearlier hsame
  rw [hmodel j] at hearlier
  cases hearlier
  exact hids j i id hj hsame hid

-- The run breaks off: a message cannot be made, or the supersteps run out.
theorem supersteps_raised (hmodel : ∀ i, env.model i = .value (responses i))
    (hnever : ∀ n, env.tool n ≠ .cancelled)
    (hround : ∀ i, i + 1 < c → ToolRound env config i (responses i)) {g₀ : Graph}
    (h₀ : AtRound env 0 g₀)
    (hbad : 12 < c ∨ ∃ i, i + 1 < c ∧ ∃ tc ∈ (responses i).toolCalls, tc.id = none) :
    ∃ e g, supersteps env config recursionLimit .callModel g₀ = (.raised e, g) := by
  by_cases hearly : ∃ i, i < 12 ∧ i + 1 < c ∧ ∃ tc ∈ (responses i).toolCalls, tc.id = none
  · -- The first round with such a call ends the run.
    classical
    obtain ⟨hlt, hic, hmissing⟩ := Nat.find_spec hearly
    have hfirst : ∀ j < Nat.find hearly, CompleteRound env config j := by
      intro j hj
      refine ⟨_, hround j (by omega), fun tc htc => ?_⟩
      by_contra hnone
      exact Nat.find_min hearly hj ⟨by omega, by omega, tc, htc, by simpa using hnone⟩
    generalize Nat.find hearly = i at hlt hic hmissing hfirst
    obtain ⟨n, hn⟩ : ∃ n, recursionLimit = 2 * i + (n + 2) :=
      ⟨23 - 2 * i, by simp only [recursionLimit]; omega⟩
    obtain ⟨g, hg, hrun⟩ := reaches_round hnever h₀ i (n + 2) hfirst
    have hgo := (hg.shouldContinue_eq_some (hround i hic).model).mpr ⟨hround i hic, rfl⟩
    obtain ⟨executed, hraised⟩ := executeCalls_raised config hnever hmissing g.executed
    refine ⟨env.toolMessageError, { g.respond config (responses i) with executed := executed }, ?_⟩
    rw [hn, hrun, supersteps_callModel hg (hround i hic).model, hgo]
    simp only
    rw [supersteps_executeTool, Graph.respond_executed, hraised]
  · -- Twelve rounds use up all supersteps but one, which is that of the thirteenth model call.
    have hc : 12 < c := by
      rcases hbad with hc | ⟨i, hic, hmissing⟩
      · exact hc
      · by_contra hle
        exact hearly ⟨i, by omega, hic, hmissing⟩
    have hcomplete : ∀ j < 12, CompleteRound env config j := by
      intro j hj
      refine ⟨_, hround j (by omega), fun tc htc => ?_⟩
      by_contra hnone
      exact hearly ⟨j, hj, by omega, tc, htc, by simpa using hnone⟩
    obtain ⟨g, hg, hrun⟩ := reaches_round hnever h₀ 12 1 hcomplete
    refine ⟨env.recursionError, g.respond config (responses 12), ?_⟩
    rw [show recursionLimit = 2 * 12 + 1 by rfl, hrun, supersteps_callModel hg (hmodel 12)]
    cases shouldContinue config (g.respond config (responses 12)) <;> rfl

-- The run comes to its end after `c` model calls.
theorem supersteps_value (hnever : ∀ n, env.tool n ≠ .cancelled) {g₀ : Graph}
    (h₀ : AtRound env 0 g₀) (hcomplete : ∀ j < c, CompleteRound env config j) (hc : c ≤ 11)
    {response : AIMessage} (hmodel : env.model c = .value response) (hnew : NewId env c response)
    (hstop : response.toolCalls = [] ∨ config.maxIterations ≤ (c : Int) + 1) :
    ∃ g, AtRound env c g ∧ supersteps env config recursionLimit .callModel g₀ =
      (.value (g.respond config response), g.respond config response) := by
  obtain ⟨n, hn⟩ : ∃ n, recursionLimit = 2 * c + (n + 2) :=
    ⟨23 - 2 * c, by simp only [recursionLimit]; omega⟩
  obtain ⟨g, hg, hrun⟩ := reaches_round hnever h₀ c (n + 2) hcomplete
  refine ⟨g, hg, ?_⟩
  have hnone : shouldContinue config (g.respond config response) = none := by
    rw [hg.shouldContinue_new hnew, if_neg]
    rintro ⟨hcalls, hbudget⟩
    rcases hstop with hempty | hmax
    · exact hcalls hempty
    · omega
  rw [hn, hrun, supersteps_callModel hg hmodel, hnone]
  rfl

end Loop

theorem lastAI_snoc (messages : Messages) (id : MessageId) (response : AIMessage) :
    lastAI (messages ++ [(id, .ai response)]) = some response := by
  simp [lastAI]

-- Without a model `run` itself raises.
theorem getModel_of_agentRun {env : RunnerEnv} {registry : ToolRegistry} {task : AgentTask}
    {r : AgentResult} (h : (agentRun env registry task).1 = .ok r) :
    (getModel env task).isOk = true := by
  unfold agentRun at h
  split at h
  · cases h
  · rename_i hget
    rw [hget]
    rfl

-- The run of a task whose graph raises reports no iterations.
theorem agentRun_raised {env : RunnerEnv} {registry : ToolRegistry} {task : AgentTask} {e : PyExc}
    {g : Graph} (h : supersteps env (runConfig registry task) recursionLimit .callModel
      (initialGraph env task) = (.raised e, g)) {r : AgentResult}
    (hr : (agentRun env registry task).1 = .ok r) : r.iterations = 0 := by
  unfold agentRun at hr
  split at hr
  · cases hr
  · split at hr
    · cases hr
      rfl
    · rw [h] at hr
      simp only at hr
      split at hr <;> cases hr <;> rfl

theorem agentRun_value {env : RunnerEnv} {registry : ToolRegistry} {task : AgentTask}
    {final : Graph} (hmodel : (getModel env task).isOk = true) (htimeout : 0 < task.timeoutSeconds)
    (h : supersteps env (runConfig registry task) recursionLimit .callModel
      (initialGraph env task) = (.value final, final)) :
    ∃ modelUsed, agentRun env registry task = (.ok (classify task modelUsed final), final) := by
  unfold agentRun
  cases hget : getModel env task with
  | error e =>
      rw [hget] at hmodel
      cases hmodel
  | ok modelUsed =>
      refine ⟨modelUsed, ?_⟩
      simp only
      rw [if_neg (by omega), h]

/-- What the loop is for comes out exactly when there is a model to call, at most twelve calls of it
are asked for and every tool call that has to be answered has an id. -/
theorem agentLoop_iff (env : RunnerEnv) (registry : ToolRegistry) (task : AgentTask)
    (responses : Nat → AIMessage) (hmodel : ∀ i, env.model i = .value (responses i))
    (hnever : ∀ n, env.tool n ≠ .cancelled) (htimeout : 0 < task.timeoutSeconds)
    (hm : 1 ≤ task.maxIterations)
    (hids : ∀ i j id, i < j → (responses i).id = some id → (responses j).id ≠ some id)
    (c : Nat) (hc : (c : ℕ∞) = min (task.maxIterations.toNat : ℕ∞) (firstFinal responses)) :
    LoopOutcome task responses c (agentRun env registry task) ↔
      (getModel env task).isOk = true ∧ c ≤ 12 ∧
        ∀ i, i + 1 < c → ∀ tc ∈ (responses i).toolCalls, tc.id.isSome = true := by
  obtain ⟨hone, hcm, hcalls, hend⟩ := min_firstFinal (by omega) hc
  have hnew := newId_of_distinct hmodel hids
  have hround : ∀ i, i + 1 < c → ToolRound env (runConfig registry task) i (responses i) := by
    intro i hi
    refine ⟨hmodel i, hcalls i hi, ?_, hnew i⟩
    show (i : Int) + 1 < task.maxIterations
    omega
  have h₀ := atRound_initial env task
  constructor
  · intro hout
    obtain ⟨r, hr, hiterations, -⟩ := hout.result
    refine ⟨getModel_of_agentRun hr, ?_⟩
    by_contra hnot
    have hbad : 12 < c ∨ ∃ i, i + 1 < c ∧ ∃ tc ∈ (responses i).toolCalls, tc.id = none := by
      by_contra hgood
      push Not at hgood
      refine hnot ⟨hgood.1, fun i hi tc htc => ?_⟩
      exact Option.isSome_iff_ne_none.mpr (hgood.2 i hi tc htc)
    obtain ⟨e, g, hraised⟩ := supersteps_raised hmodel hnever hround h₀ hbad
    rw [agentRun_raised hraised hr] at hiterations
    omega
  · rintro ⟨hget, hc12, hsome⟩
    obtain ⟨last, rfl⟩ : ∃ last, c = last + 1 := ⟨c - 1, by omega⟩
    rw [Nat.add_sub_cancel] at hend
    have hcomplete : ∀ j < last, CompleteRound env (runConfig registry task) j := fun j hj =>
      ⟨_, hround j (by omega), hsome j (by omega)⟩
    have hstop : (responses last).toolCalls = [] ∨ task.maxIterations ≤ (last : Int) + 1 := by
      rcases hend with hmax | hfinal
      · exact .inr (by omega)
      · exact .inl hfinal
    obtain ⟨g, hg, hrun⟩ := supersteps_value hnever h₀ hcomplete (by omega) (hmodel last)
      (hnew last) hstop
    obtain ⟨modelUsed, hout⟩ := agentRun_value hget htimeout hrun
    have hlast : lastAI (g.respond (runConfig registry task) (responses last)).messages =
        some (responses last) := by rw [hg.respond_messages (hnew last), lastAI_snoc]
    have htokens : countTokens (g.respond (runConfig registry task) (responses last)).messages =
        tokensBefore env (last + 1) := hg.respond_tokens (hmodel last) (hnew last)
    have hiterations : (g.respond (runConfig registry task) (responses last)).iterations =
        (last : Int) + 1 := by rw [Graph.respond_iterations, hg.iterations]
    have hsum : tokensBefore env (last + 1) =
        ((List.range (last + 1)).map fun i => (Message.ai (responses i)).tokens).sum := by
      simp only [tokensBefore, hmodel, responseTokens]
    rw [hout]
    refine ⟨by rw [Graph.respond_modelCalls, hg.modelCalls], _, rfl, ?_⟩
    simp only [classify, hlast, hiterations, htokens, hsum, Nat.add_sub_cancel]
    by_cases hfinal : (responses last).toolCalls = []
    · rw [if_neg fun h => h.1 hfinal]
      refine ⟨rfl, rfl, fun _ => ⟨rfl, rfl⟩, fun hall => ?_⟩
      exact absurd hfinal (hall last (by omega))
    · have hmax : task.maxIterations ≤ (last : Int) + 1 := hstop.resolve_left hfinal
      rw [if_pos ⟨hfinal, hmax⟩]
      refine ⟨rfl, rfl, ?_, fun _ => ⟨rfl, rfl⟩⟩
      rintro ⟨i, hi, hempty⟩
      by_cases heq : i = last
      · exact absurd (heq ▸ hempty) hfinal
      · exact absurd hempty (hcalls i (by omega))

theorem firstFinal_eq_top {responses : Nat → AIMessage} (h : ∀ i, (responses i).toolCalls ≠ []) :
    firstFinal responses = ⊤ := by
  rw [firstFinal, sInf_eq_top]
  rintro k ⟨i, hi, -⟩
  exact absurd hi (h i)

/-- A response that never ends the loop. -/
def searching : AIMessage := ⟨none, .str "searching", [⟨"search", [], some "call-1"⟩], some ⟨7⟩⟩

def neverFinal : RunnerEnv := { callsSql with model := fun _ => .value searching }

theorem searching_firstFinal : firstFinal (fun _ => searching) = ⊤ :=
  firstFinal_eq_top fun _ => List.cons_ne_nil _ _

theorem agentLoop_iff_two :
    LoopOutcome { plainTask with maxIterations := 2 } (fun _ => searching) 2
      (agentRun neverFinal sqlRegistry { plainTask with maxIterations := 2 }) :=
  (agentLoop_iff neverFinal sqlRegistry { plainTask with maxIterations := 2 } (fun _ => searching)
    (fun _ => rfl) (fun _ => nofun) (by decide) (by decide) (fun _ _ _ _ => nofun) 2
    (by rw [searching_firstFinal]; rfl)).mpr
    ⟨rfl, by decide, fun i _ tc htc => by rw [List.mem_singleton.mp htc]; rfl⟩

/-- With the default of twenty iterations the run breaks off after thirteen model calls. -/
theorem default_iterations_break_off :
    ¬ ∀ (env : RunnerEnv) (registry : ToolRegistry) (task : AgentTask)
      (responses : Nat → AIMessage) (c : Nat), (∀ i, env.model i = .value (responses i)) →
      (∀ n, env.tool n ≠ .cancelled) → (getModel env task).isOk = true →
      0 < task.timeoutSeconds → 1 ≤ task.maxIterations →
      (∀ i j id, i < j → (responses i).id = some id → (responses j).id ≠ some id) →
      (c : ℕ∞) = min (task.maxIterations.toNat : ℕ∞) (firstFinal responses) →
      LoopOutcome task responses c (agentRun env registry task) := by
  intro h
  have hout := h neverFinal sqlRegistry plainTask (fun _ => searching) 20 (fun _ => rfl)
    (fun _ => nofun) rfl (by decide) (by decide) (fun _ _ _ _ => nofun)
    (by rw [searching_firstFinal]; rfl)
  have hcalls : (agentRun neverFinal sqlRegistry plainTask).2.modelCalls.length = 13 := by decide
  rw [hout.calls] at hcalls
  cases hcalls

end ConstructorPlatform
