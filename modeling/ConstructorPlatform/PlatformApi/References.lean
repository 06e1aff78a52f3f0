import ConstructorPlatform.PlatformApi.LifeCycle
import ConstructorPlatform.Reasoning.Walk

/-!
# References — how the executor follows the references between steps

`validate_steps` checks the references that are strings under `next`.  The executor follows those,
but also a dictionary under `next`, which it takes for a step id, and the branches of conditions,
which nothing has checked.  `followsDeclared_iff` says which runs follow references to declared
steps only.  Nothing checks the references for cycles either: `acyclic_run_ends` bounds the runs of
a definition whose references have none.
-/

namespace ConstructorPlatform

variable {Ctx : Type} {m : ContextModel Ctx} {steps : List StepSchema}

/-! ## 1. References -/

/-- What `validate_steps` asks of a reference: it is empty or names a declared step. -/
def RefOk (steps : List StepSchema) (ref : Json) : Prop :=
  ref.truthy = false ∨ ∃ id ∈ stepIds steps, ref = .str id

/-- The key under which `evaluate_condition` finds the branch. -/
def branchKey (result : Bool) : String := if result then "true" else "false"

theorem selectBranch_ok_iff {config : Dict} {b : Bool} {ref : Json} :
    selectBranch config b = .ok ref ↔ ∃ branches, config.lookup "branches" = some (.obj branches) ∧
      branches.lookup (branchKey b) = some ref := by
  have hitem : ∀ (d : Dict) (key : String) (v : Json),
      d.item key = .ok v ↔ d.lookup key = some v := by
    intro d key v
    unfold Dict.item
    split <;> rename_i h <;> simp [h]
  unfold selectBranch
  cases hbranches : config.item "branches" with
  | error e =>
      simp only [bind, Except.bind, reduceCtorEq, false_iff]
      rintro ⟨branches, h, -⟩
      rw [(hitem _ _ _).mpr h] at hbranches
      cases hbranches
  | ok v =>
      have hlookup := (hitem _ _ _).mp hbranches
      simp only [bind, Except.bind, hlookup, Option.some.injEq]
      cases v with
      | obj branches => simpa [Json.subscript, branchKey] using hitem branches (branchKey b) ref
      | _ => simp [Json.subscript]

/-- A reference that names no declared step. -/
def danglingRef (steps : List StepSchema) : Json → Bool
  | .str id => decide (id ≠ "" ∧ id ∉ stepIds steps)
  | ref => ref.truthy

/-- The schema lets `next` be a dictionary; one with an entry is no reference. -/
def StepSchema.danglingNext (s : StepSchema) : Bool :=
  match s.next with
  | .dict d => !d.isEmpty
  | _ => false

/-- The `branches` of a condition hold no usable reference for the outcome. -/
def StepSchema.danglingBranch (steps : List StepSchema) (s : StepSchema) (b : Bool) : Bool :=
  match s.config.lookup "branches" with
  | some (.obj branches) =>
      match branches.lookup (branchKey b) with
      | some ref => danglingRef steps ref
      | none => true
  | _ => true

theorem danglingRef_eq_false {ref : Json} : danglingRef steps ref = false ↔ RefOk steps ref := by
  unfold danglingRef RefOk
  cases ref with
  | str id => simp [imp_iff_not_or]
  | _ => simp

theorem danglingBranch_eq_false {s : StepSchema} {b : Bool} :
    s.danglingBranch steps b = false ↔
      ∃ ref, selectBranch s.config b = .ok ref ∧ RefOk steps ref := by
  simp only [selectBranch_ok_iff, ← danglingRef_eq_false]
  unfold StepSchema.danglingBranch
  split
  · rename_i branches hbranches
    simp only [hbranches, Option.some.injEq, Json.obj.injEq, exists_eq_left']
    split <;> rename_i h <;> simp [h]
  · rename_i hother
    simp only [Bool.true_eq_false, false_iff]
    rintro ⟨ref, ⟨branches, h, -⟩, -⟩
    exact hother branches h

-- In an accepted definition the only bad `next` is a dictionary.
theorem Accepted.refOk_next (hacc : Accepted steps) {s : StepSchema} (hs : s ∈ steps) :
    RefOk steps s.next.toJson ↔ s.danglingNext = false := by
  unfold StepSchema.danglingNext RefOk
  cases hnext : s.next with
  | none => simp [Next.toJson, Json.truthy]
  | id ref => simpa [Next.toJson] using Or.inr (hacc.next s hs ref hnext)
  | dict d => simp [Next.toJson, Json.truthy]

/-! ## 2. Which references a run follows -/

/-- The references that the executor reads in a state are empty or name declared steps. -/
structure Run.FollowsDeclared (m : ContextModel Ctx) (steps : List StepSchema) (r : Run Ctx) :
    Prop where
  followed : ∀ current, r.pc = .loopHead current → RefOk steps current
  found : ∀ current, r.pc = .loopHead current → current.truthy = true →
    ∃ step, lookupStep steps current = .ok step
  next : ∀ step, r.pc = .advance step → RefOk steps step.next.toJson
  branch : ∀ step b, r.pc = .body step → step.type = "condition" →
    conditionResult (fun e => m.search e r.execution.context) step.config = .ok b →
    ∃ ref, evaluateCondition (fun e => m.search e r.execution.context) step.config = .ok ref ∧
      RefOk steps ref

/-- The run is about to read a dictionary under `next` or a bad branch. -/
def Run.MeetsDangling (m : ContextModel Ctx) (steps : List StepSchema) (r : Run Ctx) : Prop :=
  match r.pc with
  | .body step => step.type = "condition" ∧
      ∃ b, conditionResult (fun e => m.search e r.execution.context) step.config = .ok b ∧
        step.danglingBranch steps b = true
  | .advance step => step.danglingNext = true
  | _ => False

/-- The steps at hand are declared; `next` is read after the steps that are no condition. -/
structure Run.AtDeclared (steps : List StepSchema) (r : Run Ctx) : Prop where
  body : ∀ step, r.pc = .body step → step ∈ steps
  advance : ∀ step, r.pc = .advance step → step ∈ steps ∧ step.type ≠ "condition"

theorem Run.AtDeclared.step (i : Input) (r : Run Ctx) (h : r.AtDeclared steps) :
    (executeWorkflow m steps i r).AtDeclared steps := by
  obtain ⟨new, hmoves, -⟩ := executeWorkflow_moves m steps i r
  constructor
  · intro step hpc'
    rw [hpc'] at hmoves
    generalize hpc : r.pc = pc at hmoves
    cases hmoves with
    | start _ hfound => exact (lookupStep_ok hfound).1
  · intro step hpc'
    rw [hpc'] at hmoves
    generalize hpc : r.pc = pc at hmoves
    cases hmoves with
    | done htype => exact ⟨h.body step hpc, htype⟩

theorem atDeclared_of_run (m : ContextModel Ctx) (steps : List StepSchema)
    (e : Execution Ctx) (inputs : Nat → Input) (n : Nat) :
    (runOf m steps e inputs n).AtDeclared steps := by
  have hinit : (Run.start e).AtDeclared steps := ⟨nofun, nofun⟩
  have hstep : ∀ k r, Run.AtDeclared steps r →
      Run.AtDeclared steps (executeWorkflow m steps (inputs k) r) :=
    fun k r h => h.step (inputs k) r
  exact Reasoning.trace_invariant (I := fun _ => Run.AtDeclared steps) hinit hstep n

theorem evaluateCondition_ok {search : Json → Except PyExc Json} {config : Dict} {ref : Json}
    (h : evaluateCondition search config = .ok ref) :
    ∃ b, conditionResult search config = .ok b ∧ selectBranch config b = .ok ref := by
  cases hresult : conditionResult search config with
  | error e => rw [evaluateCondition_of_error hresult] at h; cases h
  | ok b => exact ⟨b, rfl, by rw [← evaluateCondition_of_result hresult]; exact h⟩

-- The reference at the loop head comes from the definition's start, a `next` or a branch.
theorem refOk_loopHead (hacc : Accepted steps) (i : Input) (r : Run Ctx) (hat : r.AtDeclared steps)
    (hmeets : ¬ r.MeetsDangling m steps) {current : Json}
    (hpc' : (executeWorkflow m steps i r).pc = .loopHead current) : RefOk steps current := by
  obtain ⟨new, hmoves, -⟩ := executeWorkflow_moves m steps i r
  rw [hpc'] at hmoves
  rcases hmoves.loopHead_cases with ⟨-, rfl⟩ | ⟨step, hpc, htype, hnext⟩ | ⟨step, hpc, rfl⟩
  · obtain ⟨-, s, hs⟩ := hacc.firstRef
    exact .inr ⟨s.id, List.mem_map_of_mem (lookupStep_ok hs).1, (lookupStep_ok hs).2⟩
  · obtain ⟨b, hresult, hselect⟩ := evaluateCondition_ok hnext
    simp only [Run.MeetsDangling, hpc, not_and, not_exists, Bool.not_eq_true] at hmeets
    obtain ⟨ref, href, hok⟩ := danglingBranch_eq_false.mp (hmeets htype b hresult)
    rw [hselect] at href
    cases href
    exact hok
  · simp only [Run.MeetsDangling, hpc, Bool.not_eq_true] at hmeets
    exact (hacc.refOk_next (hat.advance step hpc).1).mpr hmeets

/-- Every reference that a run of an accepted definition follows is empty or names a declared step
exactly when the run never reads a dictionary under `next` and never takes a bad branch. -/
theorem followsDeclared_iff (m : ContextModel Ctx) (definition : ProcessDefinition)
    (id tenantId : UUID) (context : Ctx) (inputs : Nat → Input) :
    (∀ n, (runOf m definition.steps (.create id tenantId context) inputs n).FollowsDeclared m
      definition.steps) ↔
    ∀ n, ¬ (runOf m definition.steps (.create id tenantId context) inputs n).MeetsDangling m
      definition.steps := by
  have hat := atDeclared_of_run m definition.steps (.create id tenantId context)
    inputs
  constructor
  · intro hfollows n hmeets
    obtain ⟨-, -, hnext, hbranch⟩ := hfollows n
    unfold Run.MeetsDangling at hmeets
    split at hmeets
    · rename_i step hpc
      obtain ⟨htype, b, hresult, hdangling⟩ := hmeets
      have hgood := hbranch step b hpc htype hresult
      rw [evaluateCondition_of_result hresult, ← danglingBranch_eq_false, hdangling] at hgood
      cases hgood
    · rename_i step hpc
      have hgood := hnext step hpc
      rw [definition.spec.refOk_next ((hat n).advance step hpc).1, hmeets] at hgood
      cases hgood
    · exact hmeets
  · intro hmeets n
    have hfollowed : ∀ current, (runOf m definition.steps (.create id tenantId context) inputs
        n).pc = .loopHead current → RefOk definition.steps current := by
      intro current hpc
      cases n with
      | zero => cases hpc
      | succ n => exact refOk_loopHead definition.spec (inputs n) _ (hat n) (hmeets n) hpc
    refine ⟨hfollowed, ?_, ?_, ?_⟩
    · intro current hpc htrue
      rcases hfollowed current hpc with hfalse | ⟨ref, hmem, rfl⟩
      · rw [htrue] at hfalse
        cases hfalse
      · exact lookupStep_of_declared hmem
    · intro step hpc
      have hgood := hmeets n
      simp only [Run.MeetsDangling, hpc, Bool.not_eq_true] at hgood
      exact (definition.spec.refOk_next ((hat n).advance step hpc).1).mpr hgood
    · intro step b hpc htype hresult
      have hgood := hmeets n
      simp only [Run.MeetsDangling, hpc, not_and, not_exists, Bool.not_eq_true] at hgood
      rw [evaluateCondition_of_result hresult]
      exact danglingBranch_eq_false.mp (hgood htype b hresult)

/-- Accepted, and its only step is a condition whose branches name no step. -/
def nowhereDefinition : ProcessDefinition where
  steps := [⟨"check", "condition", [("expression", .str "x"), ("operator", .str "=="),
    ("value", .int 1), ("branches", .obj [("true", .str "nowhere"), ("false", .str "nowhere")])],
    .none, 60⟩]
  accepted := by decide

/-- The executor follows the branch and fails with "not in definition". -/
theorem nowhere_not_in_definition :
    ¬ ∀ (definition : ProcessDefinition) (context : PyContext) (inputs : Nat → Input) (n : Nat),
      (runOf (contextModel identifierSearch) definition.steps (.create 1 7 context) inputs
        n).FollowsDeclared (contextModel identifierSearch) definition.steps := by
  intro h
  obtain ⟨step, hstep⟩ := (h nowhereDefinition (.ofDict []) .steady 3).found (.str "nowhere") rfl
    (by decide)
  have herror : lookupStep nowhereDefinition.steps (.str "nowhere") =
      .error ⟨.valueError, "Step 'nowhere' not in definition"⟩ := rfl
  rw [herror] at hstep
  cases hstep

/-! ## 3. Runs without cycles -/

/-- A step refers to the steps that the executor may take after it. -/
inductive Refers (steps : List StepSchema) : StepSchema → StepSchema → Prop where
  | next {s t : StepSchema} (hs : s ∈ steps) (ht : t ∈ steps) (htype : s.type ≠ "condition")
      (hnext : s.next = .id t.id) : Refers steps s t
  | branch {s t : StepSchema} (hs : s ∈ steps) (ht : t ∈ steps) (htype : s.type = "condition")
      (b : Bool) (hbranch : selectBranch s.config b = .ok (.str t.id)) : Refers steps s t

/-- The references that can be followed from the first step form no cycle. -/
def Acyclic (steps : List StepSchema) : Prop :=
  ∀ first, steps.head? = some first → Reasoning.AcyclicFrom (Refers steps) first

/-- The steps started are a walk along the references. -/
structure Run.Walks (steps : List StepSchema) (r : Run Ctx) : Prop where
  subset : r.started ⊆ steps
  chain : r.started.IsChain (Refers steps)
  head : ∀ step, r.started.head? = some step → steps.head? = some step
  next : ∀ current, r.pc = .loopHead current → ∀ last, r.started.getLast? = some last →
    ∀ step, lookupStep steps current = .ok step → Refers steps last step

theorem lookupStep_firstRef (hacc : Accepted steps) {step : StepSchema}
    (h : lookupStep steps (firstRef steps) = .ok step) : steps.head? = some step := by
  obtain ⟨s, rest, rfl⟩ := List.exists_cons_of_ne_nil hacc.nonempty
  obtain ⟨hmem, hid⟩ := lookupStep_ok h
  have hid : s.id = step.id := Json.str.inj hid
  rcases List.mem_cons.mp hmem with rfl | hrest
  · rfl
  · have hnodup := hacc.nodup
    rw [stepIds_cons, List.nodup_cons] at hnodup
    exact absurd (hid ▸ List.mem_map_of_mem hrest) hnodup.1

-- The step found at the loop head is the first one, or the last one started refers to it.
theorem Run.Walks.snoc (hacc : Accepted steps) {r : Run Ctx} (hprogress : r.Progress steps)
    (h : r.Walks steps) {current : Json} {step : StepSchema} (hpc : r.pc = .loopHead current)
    (hfound : lookupStep steps current = .ok step) :
    r.started ++ [step] ⊆ steps ∧ (r.started ++ [step]).IsChain (Refers steps) ∧
      ∀ s, (r.started ++ [step]).head? = some s → steps.head? = some s := by
  simp only [Run.Progress, hpc] at hprogress
  refine ⟨?_, Reasoning.isChain_snoc h.chain fun a ha => h.next current hpc a ha step hfound, ?_⟩
  · intro s hs
    rcases List.mem_append.mp hs with hs | hs
    · exact h.subset hs
    · rw [List.mem_singleton.mp hs]
      exact (lookupStep_ok hfound).1
  · cases hempty : r.started with
    | nil =>
        rintro s ⟨⟩
        rw [hprogress hempty] at hfound
        exact lookupStep_firstRef hacc hfound
    | cons s rest =>
        have hhead := h.head
        rw [hempty] at hhead
        exact hhead

-- What is read after a step is what it refers to.
theorem Run.Walks.next_step (i : Input) (r : Run Ctx)
    (hprogress : r.Progress steps) (hat : r.AtDeclared steps) (h : r.Walks steps) (current : Json)
    (hpc' : (executeWorkflow m steps i r).pc = .loopHead current) (last : StepSchema)
    (hlast : r.started.getLast? = some last) (step : StepSchema)
    (hfound : lookupStep steps current = .ok step) : Refers steps last step := by
  obtain ⟨new, hmoves, -⟩ := executeWorkflow_moves m steps i r
  rw [hpc'] at hmoves
  obtain ⟨hmem, hid⟩ := lookupStep_ok hfound
  have hdeclared : last ∈ steps := h.subset (List.mem_of_getLast? hlast)
  rcases hmoves.loopHead_cases with ⟨hpc, -⟩ | ⟨at', hpc, htype, hnext⟩ | ⟨at', hpc, hnext⟩
  · simp only [Run.Progress, hpc] at hprogress
    rw [hprogress] at hlast
    cases hlast
  · simp only [Run.Progress, hpc] at hprogress
    rw [hlast] at hprogress
    cases hprogress
    obtain ⟨b, -, hselect⟩ := evaluateCondition_ok hnext
    exact .branch hdeclared hmem htype b (by rw [hselect, hid])
  · simp only [Run.Progress, hpc] at hprogress
    rw [hlast] at hprogress
    cases hprogress
    rw [hid] at hnext
    refine .next hdeclared hmem (hat.advance last hpc).2 ?_
    cases hraw : last.next with
    | none => rw [hraw] at hnext; cases hnext
    | id ref => rw [hraw] at hnext; cases hnext; rfl
    | dict d => rw [hraw] at hnext; cases hnext

theorem Run.Walks.step (hacc : Accepted steps) (i : Input) (r : Run Ctx)
    (hprogress : r.Progress steps) (hat : r.AtDeclared steps) (h : r.Walks steps) :
    (executeWorkflow m steps i r).Walks steps := by
  obtain ⟨new, hmoves, hstarted⟩ := executeWorkflow_moves m steps i r
  rcases hmoves.new_cases with rfl | ⟨current, step, hpc, hfound, rfl⟩
  · rw [List.append_nil] at hstarted
    refine ⟨hstarted ▸ h.subset, hstarted ▸ h.chain, hstarted ▸ h.head, ?_⟩
    rw [hstarted]
    exact h.next_step i r hprogress hat
  · obtain ⟨hsubset, hchain, hhead⟩ := h.snoc hacc hprogress hpc hfound
    rw [← hstarted] at hsubset hchain hhead
    refine ⟨hsubset, hchain, hhead, ?_⟩
    intro current' hpc'
    rw [hpc'] at hmoves
    rcases hmoves.loopHead_cases with ⟨h, -⟩ | ⟨_, h, -⟩ | ⟨_, h, -⟩ <;> rw [hpc] at h <;> cases h

theorem walks_of_run (m : ContextModel Ctx) (hacc : Accepted steps)
    (e : Execution Ctx) (inputs : Nat → Input) (n : Nat) :
    (runOf m steps e inputs n).Walks steps := by
  induction n with
  | zero => exact ⟨nofun, .nil, nofun, nofun⟩
  | succ n ih =>
      exact ih.step hacc (inputs n) _ (progress_of_run m hacc e inputs n)
        (atDeclared_of_run m steps e inputs n)

/-- The number of steps of the machine is bounded by the number of steps it has started. -/
def Run.Paced (n : Nat) (r : Run Ctx) : Prop :=
  match r.pc with
  | .begin => n = 0
  | .loopHead _ => n ≤ 3 * r.started.length + 1
  | .body _ => n + 1 ≤ 3 * r.started.length
  | .advance _ => n ≤ 3 * r.started.length
  | .handler _ => n ≤ 3 * r.started.length + 2
  | .ended _ => True

theorem Run.Paced.step (i : Input) (n : Nat) (r : Run Ctx) (h : r.Paced n) :
    (executeWorkflow m steps i r).Paced (n + 1) := by
  obtain ⟨new, hmoves, hstarted⟩ := executeWorkflow_moves m steps i r
  revert h
  unfold Run.Paced
  rw [hstarted, List.length_append]
  generalize r.pc = pc at hmoves
  generalize (executeWorkflow m steps i r).pc = pc' at hmoves
  cases hmoves <;> simp only [List.length_nil, List.length_singleton, forall_true_iff] <;> omega

theorem paced_of_run (m : ContextModel Ctx) (steps : List StepSchema)
    (e : Execution Ctx) (inputs : Nat → Input) (n : Nat) :
    (runOf m steps e inputs n).Paced n := by
  have hinit : (Run.start e).Paced 0 := rfl
  have hstep : ∀ k r, Run.Paced k r → Run.Paced (k + 1) (executeWorkflow m steps (inputs k) r) :=
    fun k r h => h.step (inputs k) k r
  exact Reasoning.trace_invariant (I := Run.Paced) hinit hstep n

-- Without cycles no step is started twice.
theorem Run.Walks.started_length_le {r : Run Ctx} (h : r.Walks steps) (hacyclic : Acyclic steps) :
    r.started.length ≤ steps.length := by
  cases hstarted : r.started with
  | nil => exact Nat.zero_le _
  | cons first rest =>
      obtain ⟨hsubset, hchain, hhead, -⟩ := h
      rw [hstarted] at hsubset hchain hhead
      exact Reasoning.length_le_of_isChain hchain (hacyclic first (hhead first rfl)) hsubset

/-- Accepted definitions whose references form no cycle: the loop starts no more steps than there
are, the run ends, and when its commits succeed the execution is settled. -/
theorem acyclic_run_ends (m : ContextModel Ctx) (definition : ProcessDefinition)
    (hacyclic : Acyclic definition.steps) (id tenantId : UUID) (context : Ctx)
    (inputs : Nat → Input) :
    (∀ n, (runOf m definition.steps (.create id tenantId context) inputs n).started.length ≤
      definition.steps.length) ∧
    ∀ n, 3 * definition.steps.length + 3 ≤ n →
      (∃ exc, (runOf m definition.steps (.create id tenantId context) inputs n).pc = .ended exc) ∧
      ((∀ k, (inputs k).commit = .ok ()) →
        (runOf m definition.steps (.create id tenantId context) inputs n).Settled) := by
  have hlength : ∀ n, (runOf m definition.steps (.create id tenantId context) inputs
      n).started.length ≤ definition.steps.length := fun n =>
    (walks_of_run m definition.spec (.create id tenantId context) inputs n).started_length_le
      hacyclic
  refine ⟨hlength, fun n hn => ?_⟩
  have hended : ∃ exc, (runOf m definition.steps (.create id tenantId context) inputs n).pc =
      .ended exc := by
    have hpaced := paced_of_run m definition.steps
      (.create id tenantId context) inputs n
    have hle := hlength n
    unfold Run.Paced at hpaced
    split at hpaced
    · omega
    · omega
    · omega
    · omega
    · omega
    · rename_i exc hpc
      exact ⟨exc, hpc⟩
  refine ⟨hended, fun hcommit => ?_⟩
  obtain ⟨exc, hpc⟩ := hended
  have hhealthy := healthy_of_run m definition.steps
    (.create id tenantId context) inputs hcommit n
  cases exc with
  | some exc => exact absurd hpc (hhealthy.noException exc)
  | none =>
      obtain ⟨before, last, hcommits, -, -, hlast⟩ := Phase.ended (phase_of_run m definition.steps
        (.create id tenantId context) ⟨rfl, rfl⟩ inputs n) hpc
      refine ⟨last, by rw [hcommits, List.getLast?_concat], ?_⟩
      exact hlast.imp (fun h => h.1) (fun h => h.1)

theorem notifyDefinition_acyclic : Acyclic notifyDefinition.steps := by
  intro first _
  refine Reasoning.acyclicFrom_of_rank (fun s => if s.id = "ask" then 1 else 0) ?_ first
  have hsteps : ∀ {s}, s ∈ notifyDefinition.steps →
      (s.id = "ask" ∧ s.next = .id "tell" ∨ s.id = "tell" ∧ s.next = .none) ∧
        s.type ≠ "condition" := by
    intro s hs
    rcases List.mem_cons.mp hs with rfl | hs
    · exact ⟨.inl ⟨rfl, rfl⟩, by decide⟩
    · rw [List.mem_singleton.mp hs]
      exact ⟨.inr ⟨rfl, rfl⟩, by decide⟩
  intro s t href
  cases href with
  | next hs ht htype hnext =>
      rcases (hsteps hs).1 with ⟨hid, h⟩ | ⟨hid, h⟩ <;> rw [h] at hnext
      · rw [← Next.id.inj hnext, hid]
        decide
      · cases hnext
  | branch hs ht htype => exact absurd htype (hsteps hs).2

theorem acyclic_run_ends_notify :
    (runOf (contextModel identifierSearch) notifyDefinition.steps (.create 1 7 (.ofDict [])) .steady
      9).Settled :=
  ((acyclic_run_ends (contextModel identifierSearch) notifyDefinition notifyDefinition_acyclic 1 7
    (.ofDict []) .steady).2 9 (by decide)).2 fun _ => rfl

/-! ## 4. A run that does not end -/

/-- Accepted, and its only step names itself as the next one. -/
def loopDefinition : ProcessDefinition where
  steps := [⟨"again", "notify", [], .id "again", 60⟩]
  accepted := by decide

/-- The program points of the loop. -/
def Run.Loops (r : Run PyContext) : Prop :=
  r.session = .active ∧ (r.pc = .begin ∨ r.pc = .loopHead (.str "again") ∨
    ∃ step ∈ loopDefinition.steps, r.pc = .body step ∨ r.pc = .advance step)

theorem Run.Loops.step (n : Nat) (r : Run PyContext) (h : r.Loops) :
    (executeWorkflow (contextModel identifierSearch) loopDefinition.steps (.steady n) r).Loops := by
  obtain ⟨hs, hpc | hpc | ⟨step, hstep, hpc | hpc⟩⟩ := h
  · simp only [executeWorkflow, hpc, Run.begin, Run.commit, Run.setRow_session, hs, Input.steady]
    exact ⟨by simp, .inr (.inl rfl)⟩
  · have hfound : lookupStep loopDefinition.steps (.str "again") =
        .ok ⟨"again", "notify", [], .id "again", 60⟩ := rfl
    simp only [executeWorkflow, hpc, Run.loopHead, hfound, Json.truthy_str, Run.startStep,
      Run.commit, Run.setRow_session, hs, Input.steady]
    exact ⟨by simp, .inr (.inr ⟨_, List.mem_cons_self, .inl rfl⟩)⟩
  · cases List.mem_singleton.mp hstep
    simp only [executeWorkflow, hpc, Run.body]
    exact ⟨hs, .inr (.inr ⟨_, hstep, .inr rfl⟩)⟩
  · cases List.mem_singleton.mp hstep
    simp only [executeWorkflow, hpc, Run.advance, Run.commit, hs, Input.steady]
    exact ⟨rfl, .inr (.inl rfl)⟩

/-- The loop of `execute_workflow` goes on for ever although nothing fails. -/
theorem loop_never_ends :
    ¬ ∀ (definition : ProcessDefinition) (context : PyContext) (inputs : Nat → Input),
      ∃ n exc, (runOf (contextModel identifierSearch) definition.steps (.create 1 7 context) inputs
        n).pc = .ended exc := by
  intro h
  obtain ⟨n, exc, hended⟩ := h loopDefinition (.ofDict []) .steady
  have hinit : (Run.start (.create 1 7 (.ofDict []))).Loops := ⟨rfl, .inl rfl⟩
  have hstep : ∀ k r, Run.Loops r → Run.Loops (executeWorkflow (contextModel identifierSearch)
      loopDefinition.steps (.steady k) r) := fun k r h => h.step k r
  have hloops : (runOf (contextModel identifierSearch) loopDefinition.steps
      (.create 1 7 (.ofDict [])) .steady n).Loops :=
    Reasoning.trace_invariant (I := fun _ => Run.Loops) hinit hstep n
  obtain ⟨-, hpc⟩ := hloops
  rw [hended] at hpc
  obtain h | h | ⟨step, -, h | h⟩ := hpc <;> cases h

end ConstructorPlatform
