import ConstructorPlatform.PlatformApi.Transform

/-!
# LifeCycle — the states that `execute_workflow` commits

`Phase` says at each program point what has been committed so far and what the row in memory holds.
It is kept by every step, whatever the commits, publications and agent steps do
(`phase_of_run`).  When every commit succeeds it gives the life cycle of an execution; when one
inside the `try` fails, the `except` block meets a session that refuses its commit, and the last
committed status stays `running`.
-/

namespace ConstructorPlatform

variable {Ctx : Type} {m : ContextModel Ctx} {steps : List StepSchema}

/-! ## 1. The invariant -/

/-- A committed row of an execution that has started and not ended. -/
def Execution.Running (c : Execution Ctx) : Prop :=
  c.status = .running ∧ c.startedAt.isSome = true

def Execution.Completed (c : Execution Ctx) : Prop :=
  c.status = .completed ∧ c.currentStepId = none ∧ c.completedAt.isSome = true

/-- A failed row; the last of the steps started is the current one. -/
def Execution.Failed (m : ContextModel Ctx) (started : List StepSchema) (c : Execution Ctx) :
    Prop :=
  c.status = .failed ∧ c.completedAt = none ∧
    c.currentStepId = started.getLast?.map StepSchema.id ∧ m.HasKey c.context "_error"

/-- The session and the row in memory while the workflow runs. -/
structure Live (r : Run Ctx) : Prop where
  session : r.session = .active
  status : r.execution.status = .running
  startedAt : r.execution.startedAt.isSome = true
  completedAt : r.execution.completedAt = none
  stepId : r.execution.currentStepId = r.started.getLast?.map StepSchema.id

def OnlyRunning (r : Run Ctx) : Prop := r.commits ≠ [] ∧ ∀ c ∈ r.commits, c.Running

/-- Running rows, then one row of an ended execution. -/
def EndsWith (P : Execution Ctx → Prop) (commits : List (Execution Ctx)) : Prop :=
  ∃ before last, commits = before ++ [last] ∧ before ≠ [] ∧ (∀ c ∈ before, c.Running) ∧ P last

/-- What holds at each program point. -/
def Phase (m : ContextModel Ctx) (e : Execution Ctx) (r : Run Ctx) : Prop :=
  match r.pc with
  | .begin => r = Run.start e
  | .loopHead _ => Live r ∧ OnlyRunning r
  | .body _ => Live r ∧ OnlyRunning r
  | .advance _ => Live r ∧ OnlyRunning r
  | .handler _ => (r.session = .active → Live r) ∧ OnlyRunning r
  | .ended none => EndsWith (fun c => c.Completed ∨ c.Failed m r.started) r.commits
  | .ended (some _) => ∀ c ∈ r.commits, c.Running

theorem Live.running {r : Run Ctx} (h : Live r) : r.execution.Running := ⟨h.status, h.startedAt⟩

theorem OnlyRunning.snoc {commits : List (Execution Ctx)} {c : Execution Ctx} {r : Run Ctx}
    (h : ∀ d ∈ commits, d.Running) (hc : c.Running) (hr : r.commits = commits ++ [c]) :
    OnlyRunning r := by
  refine ⟨by simp [hr], ?_⟩
  rw [hr]
  intro d hd
  rcases List.mem_append.mp hd with hd | hd
  · exact h d hd
  · rw [List.mem_singleton.mp hd]; exact hc

/-! ## 2. One lemma for each segment -/

theorem phase_begin (e : Execution Ctx) (hnew : e.completedAt = none ∧ e.currentStepId = none)
    (i : Input) : Phase m e ((Run.start e).begin steps i) := by
  unfold Run.begin
  rcases Run.commit_cases i.commit _ _ _ with ⟨-, -, h⟩ | ⟨-, exc, -, h⟩ | ⟨-, h⟩ <;> rw [h]
  · refine ⟨⟨?_, ?_, ?_, ?_, ?_⟩, ?_⟩
    · rw [Run.goto_session, Run.publish_session]; rfl
    · rw [Run.goto_execution, Run.publish_execution]; rfl
    · rw [Run.goto_execution, Run.publish_execution]; rfl
    · rw [Run.goto_execution, Run.publish_execution]; exact hnew.1
    · rw [Run.goto_execution, Run.publish_execution, Run.goto_started, Run.publish_started]
      exact hnew.2
    · have hnone : ∀ c ∈ ([] : List (Execution Ctx)), c.Running := nofun
      have hrow : (e.setRunning i.now).Running := ⟨rfl, rfl⟩
      exact OnlyRunning.snoc hnone hrow (by rw [Run.goto_commits, Run.publish_commits]; rfl)
  · intro c hc; cases hc
  · intro c hc; cases hc

theorem phase_startStep {e : Execution Ctx} {r : Run Ctx} (hl : Live r) (ho : OnlyRunning r)
    (i : Input) (step : StepSchema) : Phase m e (r.startStep i step) := by
  unfold Run.startStep
  rcases Run.commit_cases i.commit _ _ _ with ⟨hs, -, h⟩ | ⟨-, exc, -, h⟩ | ⟨hs, h⟩ <;> rw [h]
  · refine ⟨⟨?_, ?_, ?_, ?_, ?_⟩, ?_⟩
    · rw [Run.goto_session, Run.publish_session]; exact hs
    · rw [Run.goto_execution, Run.publish_execution]; exact hl.status
    · rw [Run.goto_execution, Run.publish_execution]; exact hl.startedAt
    · rw [Run.goto_execution, Run.publish_execution]; exact hl.completedAt
    · rw [Run.goto_execution, Run.publish_execution, Run.goto_started, Run.publish_started]
      simp [Run.setRow, Execution.setStep]
    · have hrow : (r.execution.setStep step.id).Running := hl.running
      exact OnlyRunning.snoc ho.2 hrow (by rw [Run.goto_commits, Run.publish_commits]; rfl)
  · exact ⟨nofun, ho⟩
  · exact absurd (hl.session.symm.trans hs) (by decide)

theorem phase_complete {e : Execution Ctx} {r : Run Ctx} (hl : Live r) (ho : OnlyRunning r)
    (i : Input) : Phase m e (r.complete i) := by
  unfold Run.complete
  rcases Run.commit_cases i.commit _ _ _ with ⟨-, -, h⟩ | ⟨-, exc, -, h⟩ | ⟨hs, h⟩ <;> rw [h]
  · exact ⟨r.commits, r.execution.setCompleted i.now,
      by rw [Run.goto_commits, Run.publish_commits]; rfl, ho.1, ho.2, .inl ⟨rfl, rfl, rfl⟩⟩
  · exact ⟨nofun, ho⟩
  · exact absurd (hl.session.symm.trans hs) (by decide)

theorem phase_loopHead {e : Execution Ctx} {r : Run Ctx} (hl : Live r) (ho : OnlyRunning r)
    (i : Input) (current : Json) : Phase m e (r.loopHead steps i current) := by
  unfold Run.loopHead
  split
  · split
    · exact phase_startStep hl ho i _
    · exact ⟨fun _ => ⟨hl.session, hl.status, hl.startedAt, hl.completedAt, hl.stepId⟩, ho⟩
  · exact phase_complete hl ho i

theorem phase_body {e : Execution Ctx} {r : Run Ctx} (hl : Live r) (ho : OnlyRunning r)
    (i : Input) (step : StepSchema) : Phase m e (r.body m i step) := by
  -- The body writes the context and the program point only, so `Live` is carried along.
  have hkeep : ∀ (context : Ctx) (pc : Pc),
      Live ((r.setRow (r.execution.setContext context)).goto pc) := fun _ _ =>
    ⟨hl.session, hl.status, hl.startedAt, hl.completedAt, hl.stepId⟩
  have hhandler : ∀ context exc,
      Phase m e ((r.setRow (r.execution.setContext context)).goto (.handler exc)) :=
    fun context exc => ⟨fun _ => hkeep context (.handler exc), ho⟩
  unfold Run.body
  split
  · split
    · exact ⟨hkeep r.execution.context (.loopHead _), ho⟩
    · exact hhandler r.execution.context _
  · split
    · exact ⟨hkeep _ _, ho⟩
    · exact hhandler _ _
  · split
    · exact ⟨hkeep _ _, ho⟩
    · exact hhandler r.execution.context _
  · exact ⟨hkeep r.execution.context (.advance _), ho⟩

theorem phase_advance {e : Execution Ctx} {r : Run Ctx} (hl : Live r) (ho : OnlyRunning r)
    (i : Input) (step : StepSchema) : Phase m e (r.advance i step) := by
  unfold Run.advance
  rcases Run.commit_cases i.commit _ _ _ with ⟨-, -, h⟩ | ⟨-, exc, -, h⟩ | ⟨hs, h⟩ <;> rw [h]
  · exact ⟨⟨hl.session, hl.status, hl.startedAt, hl.completedAt, hl.stepId⟩,
      OnlyRunning.snoc ho.2 hl.running rfl⟩
  · exact ⟨nofun, ho⟩
  · exact absurd (hl.session.symm.trans hs) (by decide)

theorem phase_fail {e : Execution Ctx} {r : Run Ctx} (hl : r.session = .active → Live r)
    (ho : OnlyRunning r) (i : Input) (exc : PyExc) : Phase m e (r.fail m i exc) := by
  unfold Run.fail
  rcases Run.commit_cases i.commit _ _ _ with ⟨hs, -, h⟩ | ⟨-, exc', -, h⟩ | ⟨-, h⟩ <;> rw [h]
  · have hlive := hl hs
    refine ⟨r.commits, r.execution.setFailed _,
      by rw [Run.goto_commits, Run.publish_commits]; rfl, ho.1, ho.2,
      .inr ⟨rfl, hlive.completedAt, ?_, (m.hasKey_insert _ _ _ _).mpr (.inl rfl)⟩⟩
    rw [Run.goto_started, Run.publish_started]
    exact hlive.stepId
  · exact ho.2
  · exact ho.2

-- Every step keeps `Phase`.
theorem phase_step {e : Execution Ctx} (hnew : e.completedAt = none ∧ e.currentStepId = none)
    (i : Input) (r : Run Ctx) (h : Phase m e r) : Phase m e (executeWorkflow m steps i r) := by
  unfold executeWorkflow
  split <;> rename_i hpc
  · simp only [Phase, hpc] at h
    rw [h]
    exact phase_begin e hnew i
  · simp only [Phase, hpc] at h
    exact phase_loopHead h.1 h.2 i _
  · simp only [Phase, hpc] at h
    exact phase_body h.1 h.2 i _
  · simp only [Phase, hpc] at h
    exact phase_advance h.1 h.2 i _
  · simp only [Phase, hpc] at h
    exact phase_fail h.1 h.2 i _
  · exact h

/-- `Phase` holds in every run of a new execution. -/
theorem phase_of_run (m : ContextModel Ctx) (steps : List StepSchema) (e : Execution Ctx)
    (hnew : e.completedAt = none ∧ e.currentStepId = none)
    (inputs : Nat → Input) (n : Nat) : Phase m e (runOf m steps e inputs n) := by
  have hinit : Phase m e (Run.start e) := rfl
  exact Reasoning.trace_invariant (I := fun _ r => Phase m e r) hinit
    (fun k r h => phase_step hnew (inputs k) r h) n

/-! ## 3. Runs whose commits succeed -/

/-- The session of a run whose commits succeed stays usable, and no exception leaves the run. -/
structure Healthy (r : Run Ctx) : Prop where
  session : r.session = .active
  noException : ∀ exc, r.pc ≠ .ended (some exc)

theorem Healthy.commit {r : Run Ctx} {ok : Run Ctx → Run Ctx} {fail : PyExc → Run Ctx → Run Ctx}
    (hs : r.session = .active)
    (hok : Healthy (ok { r with commits := r.commits ++ [r.execution] })) :
    Healthy (r.commit (.ok ()) ok fail) := by
  rcases Run.commit_cases (.ok ()) r ok fail with ⟨-, -, h⟩ | ⟨-, exc, h, -⟩ | ⟨h, -⟩
  · rw [h]; exact hok
  · cases h
  · rw [hs] at h; cases h

theorem Healthy.step {r : Run Ctx} (h : Healthy r) {i : Input} (hi : i.commit = .ok ()) :
    Healthy (executeWorkflow m steps i r) := by
  have hs := h.session
  unfold executeWorkflow
  split
  · rw [Run.begin, hi]
    exact .commit hs ⟨by simpa using hs, by simp⟩
  · unfold Run.loopHead
    split
    · split
      · rw [Run.startStep, hi]
        exact .commit hs ⟨by simpa using hs, by simp⟩
      · exact ⟨hs, by simp⟩
    · rw [Run.complete, hi]
      exact .commit hs ⟨by simpa using hs, by simp⟩
  · unfold Run.body
    split
    · split <;> exact ⟨hs, by simp⟩
    · split <;> exact ⟨hs, by simp⟩
    · split <;> exact ⟨hs, by simp⟩
    · exact ⟨hs, by simp⟩
  · rw [Run.advance, hi]
    exact .commit hs ⟨by simpa using hs, by simp⟩
  · rw [Run.fail, hi]
    exact .commit hs ⟨by simpa using hs, by simp⟩
  · exact h

theorem healthy_of_run (m : ContextModel Ctx) (steps : List StepSchema) (e : Execution Ctx)
    (inputs : Nat → Input)
    (hcommit : ∀ n, (inputs n).commit = .ok ()) (n : Nat) :
    Healthy (runOf m steps e inputs n) := by
  have hinit : Healthy (Run.start e) := ⟨rfl, nofun⟩
  have hstep : ∀ k r, Healthy r → Healthy (executeWorkflow m steps (inputs k) r) :=
    fun k r h => h.step (hcommit k)
  exact Reasoning.trace_invariant (I := fun _ => Healthy) hinit hstep n

/-! ## 4. The life cycle -/

theorem EndsWith.head {P : Execution Ctx → Prop} {commits : List (Execution Ctx)}
    (h : EndsWith P commits) : ∃ c, commits.head? = some c ∧ c.Running := by
  obtain ⟨before, last, rfl, hne, hrunning, -⟩ := h
  obtain ⟨c, rest, rfl⟩ := List.exists_cons_of_ne_nil hne
  exact ⟨c, rfl, hrunning c List.mem_cons_self⟩

theorem OnlyRunning.head {r : Run Ctx} (h : OnlyRunning r) :
    ∃ c, r.commits.head? = some c ∧ c.Running := by
  obtain ⟨c, rest, hc⟩ := List.exists_cons_of_ne_nil h.1
  exact ⟨c, by rw [hc]; rfl, h.2 c (by rw [hc]; exact List.mem_cons_self)⟩

-- Away from both ends a run has committed running rows only.
theorem Phase.onlyRunning {e : Execution Ctx} {r : Run Ctx} (h : Phase m e r)
    (hbegin : r.pc ≠ .begin) (hended : ∀ exc, r.pc ≠ .ended exc) : OnlyRunning r := by
  unfold Phase at h
  split at h <;> rename_i hpc
  · exact absurd hpc hbegin
  · exact h.2
  · exact h.2
  · exact h.2
  · exact h.2
  · exact absurd hpc (hended _)
  · exact absurd hpc (hended _)

theorem Phase.untilEnd {e : Execution Ctx} {r : Run Ctx} (h : Phase m e r)
    (hended : ∀ exc, r.pc ≠ .ended exc) : ∀ c ∈ r.commits, c.status = .running := by
  intro c hc
  by_cases hbegin : r.pc = .begin
  · simp only [Phase, hbegin] at h
    rw [h] at hc
    cases hc
  · exact ((h.onlyRunning hbegin hended).2 c hc).1

-- A row that is not running is committed at the end only.
theorem Phase.ended_of_mem {e row : Execution Ctx} {r : Run Ctx} (h : Phase m e r)
    (hrow : row ∈ r.commits) (hstatus : row.status ≠ .running) : r.pc = .ended none := by
  by_contra hpc
  refine hstatus ?_
  cases hpc' : r.pc with
  | ended exc =>
      cases exc with
      | none => exact absurd hpc' hpc
      | some exc =>
          simp only [Phase, hpc'] at h
          exact (h row hrow).1
  | _ => exact h.untilEnd (by simp [hpc']) row hrow

theorem Phase.ended {e : Execution Ctx} {r : Run Ctx} (h : Phase m e r) (hpc : r.pc = .ended none) :
    EndsWith (fun c => c.Completed ∨ c.Failed m r.started) r.commits := by
  simpa only [Phase, hpc] using h

def notifyDefinition : ProcessDefinition where
  steps := [⟨"ask", "agent", [], .id "tell", 60⟩, ⟨"tell", "notify", [], .none, 60⟩]
  accepted := by decide

/-- The step commits, and the `try` block holds that commit. -/
def Run.commitsInTry (steps : List StepSchema) (r : Run Ctx) : Bool :=
  match r.pc with
  | .loopHead current => !current.truthy || (lookupStep steps current).isOk
  | .advance _ => true
  | _ => false

/-- The `k`-th step is a commit inside the `try` that fails. -/
def FailsInTry (m : ContextModel Ctx) (steps : List StepSchema) (e : Execution Ctx)
    (inputs : Nat → Input) (k : Nat) : Prop :=
  (runOf m steps e inputs k).commitsInTry steps = true ∧ ∃ exc, (inputs k).commit = .error exc

/-- The last committed status is a terminal one. -/
def Run.Settled (r : Run Ctx) : Prop :=
  ∃ c, r.commits.getLast? = some c ∧ (c.status = .completed ∨ c.status = .failed)

theorem Run.commit_failed {outcome : Except PyExc Unit} {exc : PyExc} {r : Run Ctx}
    {ok : Run Ctx → Run Ctx} {fail : PyExc → Run Ctx → Run Ctx} (hfail : outcome = .error exc)
    (hs : r.session = .active) :
    r.commit outcome ok fail = fail exc { r with session := .inactive } := by
  simp only [Run.commit, hs, hfail]

-- The failed commit leaves the `try` with a session that no longer works.
theorem Run.failed_commit {e : Execution Ctx} {r : Run Ctx} (hphase : Phase m e r)
    (htry : r.commitsInTry steps = true) {i : Input} {exc : PyExc} (hfail : i.commit = .error exc) :
    (executeWorkflow m steps i r).pc = .handler exc ∧
      (executeWorkflow m steps i r).session = .inactive := by
  -- The session is usable at every point from which the `try` commits.
  unfold Run.commitsInTry at htry
  split at htry
  · rename_i current hpc
    simp only [Phase, hpc] at hphase
    have hs := hphase.1.session
    simp only [executeWorkflow, hpc, Run.loopHead]
    cases htrue : current.truthy with
    | false =>
        rw [if_neg (by decide), Run.complete, Run.commit_failed hfail]
        · exact ⟨rfl, rfl⟩
        · exact hs
    | true =>
        rw [htrue] at htry
        rw [if_pos rfl]
        cases hfound : lookupStep steps current with
        | error e => rw [hfound] at htry; cases htry
        | ok step =>
            simp only [Run.startStep]
            rw [Run.commit_failed hfail]
            · exact ⟨rfl, rfl⟩
            · exact hs
  · rename_i step hpc
    simp only [Phase, hpc] at hphase
    simp only [executeWorkflow, hpc, Run.advance]
    rw [Run.commit_failed hfail hphase.1.session]
    exact ⟨rfl, rfl⟩
  · cases htry

-- The handler cannot commit in a session that waits for a rollback.
theorem Run.handler_refused {r : Run Ctx} {exc : PyExc} (hpc : r.pc = .handler exc)
    (hs : r.session = .inactive) (i : Input) :
    (executeWorkflow m steps i r).pc = .ended (some pendingRollback) := by
  have hs' : ∀ e, (r.setRow e).session = .inactive := fun _ => hs
  simp only [executeWorkflow, hpc, Run.fail, Run.commit, hs', Run.goto_pc]

theorem Phase.not_settled {e : Execution Ctx} {r : Run Ctx} {exc : PyExc} (h : Phase m e r)
    (hpc : r.pc = .ended (some exc)) : ¬ r.Settled := by
  simp only [Phase, hpc] at h
  rintro ⟨c, hc, hstatus⟩
  have hrunning := (h c (List.mem_of_getLast? hc)).1
  rw [hrunning] at hstatus
  rcases hstatus with h | h <;> cases h

/-- Whichever commit of the `try` fails, the run ends with an exception two steps later and the
execution is never settled. -/
theorem commit_failure_strands (m : ContextModel Ctx) (definition : ProcessDefinition)
    (id tenantId : UUID) (context : Ctx) (inputs : Nat → Input) (k : Nat)
    (hfail : FailsInTry m definition.steps (.create id tenantId context) inputs k) (n : Nat)
    (hn : k + 2 ≤ n) :
    (runOf m definition.steps (.create id tenantId context) inputs n).pc =
        .ended (some pendingRollback) ∧
      ¬ (runOf m definition.steps (.create id tenantId context) inputs n).Settled := by
  have hphase := phase_of_run m definition.steps
    (.create id tenantId context) ⟨rfl, rfl⟩ inputs
  obtain ⟨htry, exc, hexc⟩ := hfail
  have hfailed := Run.failed_commit (hphase k) htry hexc
  have hended : (runOf m definition.steps (.create id tenantId context) inputs (k + 2)).pc =
      .ended (some pendingRollback) := Run.handler_refused hfailed.1 hfailed.2 (inputs (k + 1))
  have hstay : runOf m definition.steps (.create id tenantId context) inputs n =
      runOf m definition.steps (.create id tenantId context) inputs (k + 2) := by
    obtain ⟨d, rfl⟩ := Nat.exists_eq_add_of_le hn
    refine Reasoning.trace_stable (fun i => ?_) d
    show executeWorkflow m definition.steps i (runOf m _ _ _ _) = _
    simp only [executeWorkflow, hended]
    rfl
  rw [hstay]
  exact ⟨hended, (hphase (k + 2)).not_settled hended⟩

/-- The database refuses the first commit of the loop, as it does for an id of 256 characters. -/
def refusedStep (n : Nat) : Input :=
  { Input.steady n with
    commit := if n = 1 then .error ⟨.database, "value too long for type character varying(255)"⟩
      else .ok () }

theorem commit_failure_strands_ask :
    ¬ (runOf (contextModel identifierSearch) notifyDefinition.steps (.create 1 7 (.ofDict []))
        refusedStep 3).Settled :=
  (commit_failure_strands (contextModel identifierSearch) notifyDefinition 1 7 (.ofDict [])
    refusedStep 1 ⟨by decide, _, rfl⟩ 3 (by decide)).2

/-- One commit fails, the execution ends, and its committed status is `running`. -/
theorem commit_failure_leaves_running :
    ¬ ∀ (definition : ProcessDefinition) (context : PyContext) (inputs : Nat → Input) (k : Nat),
      FailsInTry (contextModel identifierSearch) definition.steps (.create 1 7 context) inputs k →
      (∀ j, j ≠ k → ¬ FailsInTry (contextModel identifierSearch) definition.steps
        (.create 1 7 context) inputs j) →
      ∀ (n : Nat) (exc : Option PyExc),
        (runOf (contextModel identifierSearch) definition.steps (.create 1 7 context) inputs
          n).pc = .ended exc →
        (runOf (contextModel identifierSearch) definition.steps (.create 1 7 context) inputs
          n).Settled := by
  intro h
  have honly : ∀ j, j ≠ 1 → ¬ FailsInTry (contextModel identifierSearch) notifyDefinition.steps
      (.create 1 7 (.ofDict [])) refusedStep j := by
    rintro j hj ⟨-, exc, hexc⟩
    simp only [refusedStep, if_neg hj] at hexc
    cases hexc
  obtain ⟨c, hc, hstatus⟩ := h notifyDefinition (.ofDict []) refusedStep 1 ⟨by decide, _, rfl⟩
    honly 3 (some pendingRollback) rfl
  have hlast : ((runOf (contextModel identifierSearch) notifyDefinition.steps
      (.create 1 7 (.ofDict [])) refusedStep 3).commits.getLast?).map Execution.status =
      some .running := by decide
  rw [hc] at hlast
  rcases hstatus with h | h <;> rw [Option.map_some, h] at hlast <;> cases hlast

end ConstructorPlatform
