import ConstructorPlatform.PlatformApi.References
import ConstructorPlatform.Reasoning.Flow

/-!
# Meaning — a definition as a program

A definition is a program over the context: its labels are the references, an empty one is the exit
and each step is a node.  `workflow` gives this program without rows, commits, events and clocks.

`executeWorkflow_meaning` says that the executor runs exactly this program: what it commits last is
what an execution of the program ends with, and every execution of the program is a run of the
executor.  The rules of annotated flowcharts then hold of the executor (`annotated_run`).
-/

namespace ConstructorPlatform

open Reasoning

variable {Ctx : Type}

/-! ## 1. The program -/

/-- The text stored when a step fails. -/
def StepSchema.errorText (step : StepSchema) (exc : PyExc) : String :=
  if exc.kind = .timeoutError then "Timeout on step '" ++ step.id ++ "'" else exc.text

/-- One visit to a step; `agent` is the end of its agent task. -/
def StepSchema.visit (m : ContextModel Ctx) (agent : Except PyExc Json) (step : StepSchema)
    (c : Ctx) : NodeEnd Json Ctx String :=
  match step.type with
  | "condition" =>
      match evaluateCondition (fun e => m.search e c) step.config with
      | .ok next => .goto next c
      | .error e => .error (step.errorText e) c
  | "transform" =>
      match m.applyTransform step.config c with
      | .ok c' => .goto step.next.toJson c'
      | .error (e, c') => .error (step.errorText e) c'
  | "agent" =>
      match agent with
      | .ok result => .goto step.next.toJson (m.insert c step.id result)
      | .error e => .error (step.errorText e) c
  | _ => .goto step.next.toJson c

/-- A node: the lookup of the reference and the visit to the step it finds. -/
inductive NodeOf (m : ContextModel Ctx) (steps : List StepSchema) (ref : Json) (c : Ctx) :
    NodeEnd Json Ctx String → Prop where
  | visit {step : StepSchema} (agent : Except PyExc Json) : lookupStep steps ref = .ok step →
      NodeOf m steps ref c (step.visit m agent c)
  | unknown {e : PyExc} : lookupStep steps ref = .error e →
      NodeOf m steps ref c (.error e.text c)

/-- The program of a definition. -/
def workflow (m : ContextModel Ctx) (steps : List StepSchema) : Flow Json Ctx String where
  exit ref := ref.truthy = false
  node := NodeOf m steps

/-- The steps that the references find. -/
def stepsAt (steps : List StepSchema) (visits : List Json) : List StepSchema :=
  visits.filterMap fun ref => (lookupStep steps ref).toOption

/-- The status and the context that are stored at an end. -/
def storedAt (m : ContextModel Ctx) : Ending Ctx String → Status × Ctx
  | .done c => (.completed, c)
  | .error text c => (.failed, m.insert c "_error" (.str text))

/-! ## 2. Lookups -/

section Lookup

variable {steps : List StepSchema}

theorem stepsAt_append (visits visits' : List Json) :
    stepsAt steps (visits ++ visits') = stepsAt steps visits ++ stepsAt steps visits' :=
  List.filterMap_append

theorem stepsAt_found {ref : Json} {step : StepSchema} (h : lookupStep steps ref = .ok step) :
    stepsAt steps [ref] = [step] := by
  simp [stepsAt, h, Except.toOption]

theorem stepsAt_unknown {ref : Json} {e : PyExc} (h : lookupStep steps ref = .error e) :
    stepsAt steps [ref] = [] := by
  simp [stepsAt, h, Except.toOption]

theorem stepsAt_length_le (visits : List Json) :
    (stepsAt steps visits).length ≤ visits.length :=
  List.length_filterMap_le _ visits

-- A lookup that fails is no timeout.
theorem lookupStep_error {ref : Json} {exc : PyExc} (h : lookupStep steps ref = .error exc) :
    exc.kind ≠ .timeoutError := by
  unfold lookupStep at h
  split at h
  · split at h
    · cases h
    · cases h
      intro hkind
      cases hkind
  · split at h <;> cases h <;> intro hkind <;> cases hkind

end Lookup

-- In the `except` blocks the current step is the one that failed.
theorem errorText_of_step {e : Execution Ctx} {step : StepSchema} (exc : PyExc)
    (h : e.currentStepId = some step.id) : errorText e exc = step.errorText exc := by
  rw [errorText, StepSchema.errorText, h]
  rfl

theorem errorText_of_kind {e : Execution Ctx} {exc : PyExc} (h : exc.kind ≠ .timeoutError) :
    errorText e exc = exc.text :=
  if_neg h

/-! ## 3. Visits of the executor -/

section Visit

variable {m : ContextModel Ctx} {r : Run Ctx} {step : StepSchema} {c : Ctx}

/-- What the executor does in a step is what the visit of the step says.  After a condition it is at
the loop head, after the other steps at the commit before it, and after a failure in the `except`
blocks. -/
theorem Run.body_visit (m : ContextModel Ctx) (r : Run Ctx) (step : StepSchema) (i : Input) :
    ((r.body m i step).session = r.session ∧ (r.body m i step).started = r.started ∧
      (r.body m i step).execution.currentStepId = r.execution.currentStepId) ∧
    match step.visit m i.agent r.execution.context with
    | .goto next c => (r.body m i step).execution.context = c ∧
        ((r.body m i step).pc = .loopHead next ∨
          (r.body m i step).pc = .advance step ∧ next = step.next.toJson)
    | .error text c => (r.body m i step).execution.context = c ∧
        ∃ exc, (r.body m i step).pc = .handler exc ∧ step.errorText exc = text := by
  unfold Run.body
  split
  · rename_i htype
    simp only [StepSchema.visit, htype]
    cases evaluateCondition (fun e => m.search e r.execution.context) step.config with
    | ok next => exact ⟨⟨rfl, rfl, rfl⟩, rfl, .inl rfl⟩
    | error e => exact ⟨⟨rfl, rfl, rfl⟩, rfl, _, rfl, rfl⟩
  · rename_i htype
    simp only [StepSchema.visit, htype]
    cases m.applyTransform step.config r.execution.context with
    | ok context => exact ⟨⟨rfl, rfl, rfl⟩, rfl, .inr ⟨rfl, rfl⟩⟩
    | error failure => exact ⟨⟨rfl, rfl, rfl⟩, rfl, _, rfl, rfl⟩
  · rename_i htype
    simp only [StepSchema.visit, htype]
    cases i.agent with
    | ok result => exact ⟨⟨rfl, rfl, rfl⟩, rfl, .inr ⟨rfl, rfl⟩⟩
    | error e => exact ⟨⟨rfl, rfl, rfl⟩, rfl, _, rfl, rfl⟩
  · rename_i hcondition htransform hagent
    have hvisit : step.visit m i.agent r.execution.context =
        .goto step.next.toJson r.execution.context := by
      unfold StepSchema.visit
      split
      · rename_i htype
        exact absurd htype hcondition
      · rename_i htype
        exact absurd htype htransform
      · rename_i htype
        exact absurd htype hagent
      · rfl
    rw [hvisit]
    exact ⟨⟨rfl, rfl, rfl⟩, rfl, .inr ⟨rfl, rfl⟩⟩

theorem Run.body_goto (i : Input) {next : Json}
    (h : step.visit m i.agent r.execution.context = .goto next c) :
    ((r.body m i step).pc = .loopHead next ∨
      (r.body m i step).pc = .advance step ∧ next = step.next.toJson) ∧
    (r.body m i step).execution.context = c ∧ (r.body m i step).session = r.session ∧
    (r.body m i step).started = r.started := by
  obtain ⟨⟨hsession, hstarted, -⟩, hvisit⟩ := Run.body_visit m r step i
  rw [h] at hvisit
  exact ⟨hvisit.2, hvisit.1, hsession, hstarted⟩

theorem Run.body_error (i : Input) {text : String}
    (hid : r.execution.currentStepId = some step.id)
    (h : step.visit m i.agent r.execution.context = .error text c) :
    ∃ exc, (r.body m i step).pc = .handler exc ∧
      errorText (r.body m i step).execution exc = text ∧
      (r.body m i step).execution.context = c ∧ (r.body m i step).session = r.session ∧
      (r.body m i step).started = r.started := by
  obtain ⟨⟨hsession, hstarted, hcurrent⟩, hvisit⟩ := Run.body_visit m r step i
  rw [h] at hvisit
  obtain ⟨hcontext, exc, hpc, htext⟩ := hvisit
  exact ⟨exc, hpc, (errorText_of_step exc (hcurrent.trans hid)).trans htext, hcontext, hsession,
    hstarted⟩

end Visit

/-! ## 4. The executor follows the program -/

section Follows

variable {m : ContextModel Ctx} {steps : List StepSchema} {ref : Json} {c : Ctx}

/-- The path that leads to a program point of the executor. -/
def Run.Follows (m : ContextModel Ctx) (steps : List StepSchema) (ref : Json) (c : Ctx)
    (r : Run Ctx) : Prop :=
  match r.pc with
  | .begin => ref = firstRef steps ∧ r.execution.context = c ∧ r.started = []
  | .loopHead current => ∃ visits, r.started = stepsAt steps visits ∧
      (workflow m steps).Path ref c visits current r.execution.context
  | .body step => r.execution.currentStepId = some step.id ∧ ∃ visits current,
      r.started = stepsAt steps (visits ++ [current]) ∧
      (workflow m steps).Path ref c visits current r.execution.context ∧
      current.truthy = true ∧ lookupStep steps current = .ok step
  | .advance step => ∃ visits, r.started = stepsAt steps visits ∧
      (workflow m steps).Path ref c visits step.next.toJson r.execution.context
  | .handler exc => r.session = .active → ∃ visits, r.started = stepsAt steps visits ∧
      (workflow m steps).Exec ref c visits
        (.error (errorText r.execution exc) r.execution.context)
  | .ended none => ∃ visits ending, r.started = stepsAt steps visits ∧
      (workflow m steps).Exec ref c visits ending ∧
      ∃ row, r.commits.getLast? = some row ∧ storedAt m ending = (row.status, row.context)
  | .ended (some _) => True

-- An exception of the program.
theorem Run.Follows.raise {r : Run Ctx} {exc : PyExc} {text : String} {visits : List Json}
    (hstarted : r.started = stepsAt steps visits) (htext : errorText r.execution exc = text)
    (hexec : (workflow m steps).Exec ref c visits (.error text r.execution.context)) :
    (r.goto (.handler exc)).Follows m steps ref c :=
  fun _ => ⟨visits, hstarted, htext ▸ hexec⟩

-- A commit that has been refused: the `except` block cannot store anything.
theorem Run.Follows.refused {r : Run Ctx} (exc : PyExc) (h : r.session = .inactive) :
    (r.goto (.handler exc)).Follows m steps ref c := by
  intro hactive
  rw [Run.goto_session, h] at hactive
  cases hactive

-- The lines before the `try`.
theorem Run.Follows.begin {r : Run Ctx} (hpc : r.pc = .begin) (i : Input)
    (h : r.Follows m steps ref c) : (r.begin steps i).Follows m steps ref c := by
  simp only [Run.Follows, hpc] at h
  obtain ⟨rfl, hc, hstarted⟩ := h
  unfold Run.begin
  rcases Run.commit_cases i.commit _ _ _ with ⟨-, -, heq⟩ | ⟨-, e, -, heq⟩ | ⟨-, heq⟩ <;> rw [heq]
  · simp only [Run.Follows, Run.goto_pc, Run.goto_started, Run.publish_started, Run.goto_execution,
      Run.publish_execution]
    refine ⟨[], by simpa [stepsAt] using hstarted, ?_⟩
    rw [show ((r.setRow (r.execution.setRunning i.now)).execution).context = c from hc]
    exact .nil _ _
  · trivial
  · trivial

-- `while current_step_id:` down to the `match`.
theorem Run.Follows.loopHead {r : Run Ctx} {current : Json} (hpc : r.pc = .loopHead current)
    (i : Input) (h : r.Follows m steps ref c) :
    (r.loopHead steps i current).Follows m steps ref c := by
  simp only [Run.Follows, hpc] at h
  obtain ⟨visits, hstarted, hpath⟩ := h
  unfold Run.loopHead
  split
  · rename_i htrue
    split
    · rename_i step hfound
      have hnew : r.started ++ [step] = stepsAt steps (visits ++ [current]) := by
        rw [stepsAt_append, stepsAt_found hfound, hstarted]
      unfold Run.startStep
      rcases Run.commit_cases i.commit _ _ _ with ⟨-, -, heq⟩ | ⟨-, e, -, heq⟩ | ⟨hs, heq⟩ <;>
        rw [heq]
      · simp only [Run.Follows, Run.goto_pc, Run.goto_started, Run.publish_started,
          Run.goto_execution, Run.publish_execution]
        exact ⟨rfl, visits, current, hnew, hpath, htrue, hfound⟩
      · exact .refused e rfl
      · exact .refused _ hs
    · rename_i e hunknown
      have hnew : r.started = stepsAt steps (visits ++ [current]) := by
        rw [stepsAt_append, stepsAt_unknown hunknown, List.append_nil, hstarted]
      exact .raise hnew (errorText_of_kind (lookupStep_error hunknown))
        (hpath.error (by simp [workflow, htrue]) (.unknown hunknown))
  · rename_i hfalse
    unfold Run.complete
    rcases Run.commit_cases i.commit _ _ _ with ⟨-, -, heq⟩ | ⟨-, e, -, heq⟩ | ⟨hs, heq⟩ <;>
      rw [heq]
    · simp only [Run.Follows, Run.goto_pc, Run.goto_started, Run.publish_started,
        Run.goto_commits, Run.publish_commits]
      exact ⟨visits, _, hstarted, hpath.done (by simpa [workflow] using hfalse), _,
        List.getLast?_concat, rfl⟩
    · exact .refused e rfl
    · exact .refused _ hs

-- `match step["type"]:`.
theorem Run.Follows.body {r : Run Ctx} {step : StepSchema} (hpc : r.pc = .body step) (i : Input)
    (h : r.Follows m steps ref c) : (r.body m i step).Follows m steps ref c := by
  simp only [Run.Follows, hpc] at h
  obtain ⟨hid, visits, current, hstarted, hpath, htrue, hfound⟩ := h
  have hexit : ¬ (workflow m steps).exit current := by simp [workflow, htrue]
  have hnode : (workflow m steps).node current r.execution.context
      (step.visit m i.agent r.execution.context) := .visit i.agent hfound
  cases hvisit : step.visit m i.agent r.execution.context with
  | goto next c' =>
      rw [hvisit] at hnode
      obtain ⟨hpc', hcontext, -, hstarted'⟩ := Run.body_goto i hvisit
      rcases hpc' with hpc' | ⟨hpc', rfl⟩ <;> simp only [Run.Follows, hpc', hcontext, hstarted']
      · exact ⟨_, hstarted, hpath.snoc hexit hnode⟩
      · exact ⟨_, hstarted, hpath.snoc hexit hnode⟩
  | error text c' =>
      rw [hvisit] at hnode
      obtain ⟨exc, hpc', htext, hcontext, -, hstarted'⟩ := Run.body_error i hid hvisit
      simp only [Run.Follows, hpc', htext, hcontext, hstarted']
      exact fun _ => ⟨_, hstarted, hpath.error hexit hnode⟩

theorem Run.Follows.advance {r : Run Ctx} {step : StepSchema} (hpc : r.pc = .advance step)
    (i : Input) (h : r.Follows m steps ref c) : (r.advance i step).Follows m steps ref c := by
  simp only [Run.Follows, hpc] at h
  unfold Run.advance
  rcases Run.commit_cases i.commit _ _ _ with ⟨-, -, heq⟩ | ⟨-, e, -, heq⟩ | ⟨hs, heq⟩ <;> rw [heq]
  · exact h
  · exact .refused e rfl
  · exact .refused _ hs

-- The two `except` blocks.
theorem Run.Follows.fail {r : Run Ctx} {exc : PyExc} (hpc : r.pc = .handler exc) (i : Input)
    (h : r.Follows m steps ref c) : (r.fail m i exc).Follows m steps ref c := by
  simp only [Run.Follows, hpc] at h
  unfold Run.fail
  rcases Run.commit_cases i.commit _ _ _ with ⟨hactive, -, heq⟩ | ⟨-, e, -, heq⟩ | ⟨-, heq⟩ <;>
    rw [heq]
  · obtain ⟨visits, hstarted, hexec⟩ := h hactive
    simp only [Run.Follows, Run.goto_pc, Run.goto_started, Run.publish_started, Run.goto_commits,
      Run.publish_commits]
    exact ⟨visits, _, hstarted, hexec, _, List.getLast?_concat, rfl⟩
  · trivial
  · trivial

theorem Run.Follows.step (i : Input) {r : Run Ctx} (h : r.Follows m steps ref c) :
    (executeWorkflow m steps i r).Follows m steps ref c := by
  unfold executeWorkflow
  split <;> rename_i hpc
  · exact h.begin hpc i
  · exact h.loopHead hpc i
  · exact h.body hpc i
  · exact h.advance hpc i
  · exact h.fail hpc i
  · exact h

theorem follows_of_run (m : ContextModel Ctx) (steps : List StepSchema) (e : Execution Ctx)
    (inputs : Nat → Input) (n : Nat) :
    (runOf m steps e inputs n).Follows m steps (firstRef steps) e.context := by
  have hinit : (Run.start e).Follows m steps (firstRef steps) e.context := ⟨rfl, rfl, rfl⟩
  have hstep : ∀ k r, Run.Follows m steps (firstRef steps) e.context r →
      (executeWorkflow m steps (inputs k) r).Follows m steps (firstRef steps) e.context :=
    fun k r h => h.step (inputs k)
  exact trace_invariant (I := fun _ => Run.Follows m steps (firstRef steps) e.context) hinit hstep n

end Follows

/-! ## 5. The executor carries the program out -/

section CarriedOut

variable {m : ContextModel Ctx} {steps : List StepSchema}

/-- The machine after a list of inputs. -/
def Run.after (m : ContextModel Ctx) (steps : List StepSchema) (r : Run Ctx) (inputs : List Input) :
    Run Ctx :=
  inputs.foldl (fun r i => executeWorkflow m steps i r) r

theorem Run.after_append (r : Run Ctx) (inputs inputs' : List Input) :
    r.after m steps (inputs ++ inputs') = (r.after m steps inputs).after m steps inputs' :=
  List.foldl_append

/-- Nothing fails, and the agent task ends with `agent`. -/
def Input.answering (agent : Except PyExc Json) : Input := { Input.steady 0 with agent := agent }

/-- At the program point with the context, no commit refused so far. -/
structure Run.At (pc : Pc) (context : Ctx) (started : List StepSchema) (r : Run Ctx) : Prop where
  pc : r.pc = pc
  session : r.session = .active
  context : r.execution.context = context
  started : r.started = started

/-- Returned, with the last commit storing the end. -/
structure Run.Returned (m : ContextModel Ctx) (started : List StepSchema)
    (ending : Ending Ctx String) (r : Run Ctx) : Prop where
  pc : r.pc = .ended none
  started : r.started = started
  last : r.commits.getLast? = some r.execution
  stored : storedAt m ending = (r.execution.status, r.execution.context)

variable {r : Run Ctx} {current : Json} {c : Ctx} {started : List StepSchema} {step : StepSchema}

theorem Run.At.begin (e : Execution Ctx) (agent : Except PyExc Json) :
    (executeWorkflow m steps (.answering agent) (Run.start e)).At (.loopHead (firstRef steps))
      e.context [] := by
  have hstep : executeWorkflow m steps (.answering agent) (Run.start e) =
      (Run.start e).begin steps (.answering agent) := rfl
  rw [hstep, Run.begin]
  rw [show (Input.answering agent).commit = .ok () from rfl, Run.commit_ok rfl]
  exact ⟨rfl, by simp [Run.start], by simp [Run.start, Run.setRow, Execution.setRunning], by
    simp [Run.start]⟩

-- The step is committed as the current one.
theorem Run.At.start (h : r.At (.loopHead current) c started) (htrue : current.truthy = true)
    (hfound : lookupStep steps current = .ok step) (agent : Except PyExc Json) :
    (executeWorkflow m steps (.answering agent) r).At (.body step) c (started ++ [step]) ∧
      (executeWorkflow m steps (.answering agent) r).execution.currentStepId = some step.id := by
  have hstep : executeWorkflow m steps (.answering agent) r =
      r.startStep (.answering agent) step := by
    simp only [executeWorkflow, h.pc, Run.loopHead, htrue, if_true, hfound]
  have hactive : (r.setRow (r.execution.setStep step.id)).session = .active := h.session
  rw [hstep, Run.startStep, show (Input.answering agent).commit = .ok () from rfl, Run.commit_ok]
  · refine ⟨⟨rfl, ?_, ?_, ?_⟩, ?_⟩
    · simpa using hactive
    · simpa [Run.setRow, Execution.setStep] using h.context
    · simp [h.started]
    · simp [Run.setRow, Execution.setStep]
  · exact hactive

-- The commit after a step.
theorem Run.At.advance (h : r.At (.advance step) c started) (agent : Except PyExc Json) :
    (executeWorkflow m steps (.answering agent) r).At (.loopHead step.next.toJson) c started := by
  have hstep : executeWorkflow m steps (.answering agent) r =
      r.advance (.answering agent) step := by
    simp only [executeWorkflow, h.pc]
  rw [hstep, Run.advance, show (Input.answering agent).commit = .ok () from rfl,
    Run.commit_ok h.session]
  exact ⟨rfl, h.session, h.context, h.started⟩

theorem Run.At.body_eq (h : r.At (.body step) c started) (agent : Except PyExc Json) :
    executeWorkflow m steps (.answering agent) r = r.body m (.answering agent) step := by
  simp only [executeWorkflow, h.pc]

-- The loop ends.
theorem Run.At.complete (h : r.At (.loopHead current) c started) (hfalse : current.truthy = false)
    (agent : Except PyExc Json) :
    (executeWorkflow m steps (.answering agent) r).Returned m started (.done c) := by
  have hstep : executeWorkflow m steps (.answering agent) r = r.complete (.answering agent) := by
    simp only [executeWorkflow, h.pc, Run.loopHead, hfalse, Bool.false_eq_true, if_false]
  rw [hstep, Run.complete, show (Input.answering agent).commit = .ok () from rfl, Run.commit_ok]
  · refine ⟨rfl, by simp [h.started], by simp, ?_⟩
    simp [storedAt, Run.setRow, Execution.setCompleted, h.context]
  · exact h.session

-- The `except` blocks.
theorem Run.At.fail {exc : PyExc} (h : r.At (.handler exc) c started) (agent : Except PyExc Json) :
    (executeWorkflow m steps (.answering agent) r).Returned m started
      (.error (errorText r.execution exc) c) := by
  have hstep : executeWorkflow m steps (.answering agent) r = r.fail m (.answering agent) exc := by
    simp only [executeWorkflow, h.pc]
  rw [hstep, Run.fail, show (Input.answering agent).commit = .ok () from rfl, Run.commit_ok]
  · refine ⟨rfl, by simp [h.started], by simp, ?_⟩
    simp [storedAt, Run.setRow, Execution.setFailed, h.context]
  · exact h.session

-- A node that names the next reference.
theorem Run.At.goto {next : Json} {c' : Ctx} (h : r.At (.loopHead current) c started)
    (htrue : current.truthy = true) (hnode : (workflow m steps).node current c (.goto next c')) :
    ∃ inputs, (r.after m steps inputs).At (.loopHead next) c'
      (started ++ stepsAt steps [current]) := by
  generalize hend : NodeEnd.goto next c' = nodeEnd at hnode
  cases hnode with
  | unknown hunknown => cases hend
  | @visit step agent hfound =>
      obtain ⟨hat, -⟩ := h.start htrue hfound agent
      obtain ⟨hpc, hcontext, hsession, hstarted⟩ := Run.body_goto (.answering agent)
        (r := executeWorkflow m steps (.answering agent) r) (by rw [hat.context]; exact hend.symm)
      have hbody : executeWorkflow m steps _ _ = Run.body m _ step _ := hat.body_eq agent
      rw [stepsAt_found hfound]
      rw [hat.session] at hsession
      rw [hat.started] at hstarted
      rw [← hbody] at hpc hcontext hsession hstarted
      rcases hpc with hpc | ⟨hpc, rfl⟩
      · exact ⟨[.answering agent, .answering agent], hpc, hsession, hcontext, hstarted⟩
      · have hadvance : (executeWorkflow m steps (.answering agent) (executeWorkflow m steps
            (.answering agent) r)).At (.advance step) c' (started ++ [step]) :=
          ⟨hpc, hsession, hcontext, hstarted⟩
        exact ⟨[.answering agent, .answering agent, .answering agent], hadvance.advance agent⟩

-- A node that fails.
theorem Run.At.error {text : String} {c' : Ctx} (h : r.At (.loopHead current) c started)
    (htrue : current.truthy = true) (hnode : (workflow m steps).node current c (.error text c')) :
    ∃ inputs, (r.after m steps inputs).Returned m (started ++ stepsAt steps [current])
      (.error text c') := by
  generalize hend : NodeEnd.error text c' = nodeEnd at hnode
  cases hnode with
  | @unknown exc hunknown =>
      cases hend
      have hat : (executeWorkflow m steps (.steady 0) r).At (.handler exc) c started := by
        have hstep : executeWorkflow m steps (.steady 0) r = r.goto (.handler exc) := by
          simp only [executeWorkflow, h.pc, Run.loopHead, htrue, if_true, hunknown]
        rw [hstep]
        exact ⟨rfl, h.session, h.context, h.started⟩
      have hreturned : (executeWorkflow m steps _ _).Returned m _ _ := hat.fail (.ok (.obj []))
      rw [errorText_of_kind (lookupStep_error hunknown)] at hreturned
      rw [stepsAt_unknown hunknown, List.append_nil]
      exact ⟨[.steady 0, .answering (.ok (.obj []))], hreturned⟩
  | @visit step agent hfound =>
      obtain ⟨hat, hid⟩ := h.start htrue hfound agent
      obtain ⟨exc, hpc, htext, hcontext, hsession, hstarted⟩ := Run.body_error (.answering agent)
        hid (by rw [hat.context]; exact hend.symm)
      have hbody : executeWorkflow m steps _ _ = Run.body m _ step _ := hat.body_eq agent
      rw [hat.session] at hsession
      rw [hat.started] at hstarted
      rw [← hbody] at hpc htext hcontext hsession hstarted
      have hhandler : (executeWorkflow m steps (.answering agent) (executeWorkflow m steps
          (.answering agent) r)).At (.handler exc) c' (started ++ [step]) :=
        ⟨hpc, hsession, hcontext, hstarted⟩
      have hreturned : (executeWorkflow m steps _ _).Returned m _ _ := hhandler.fail agent
      rw [htext] at hreturned
      rw [stepsAt_found hfound]
      exact ⟨[.answering agent, .answering agent, .answering agent], hreturned⟩

-- An execution of the program, node by node.
theorem Run.At.exec {visits : List Json} {ending : Ending Ctx String}
    (hexec : (workflow m steps).Exec current c visits ending)
    (h : r.At (.loopHead current) c started) :
    ∃ inputs, (r.after m steps inputs).Returned m (started ++ stepsAt steps visits) ending := by
  induction hexec generalizing r started with
  | exit hexit =>
      refine ⟨[.steady 0], ?_⟩
      rw [show stepsAt steps [] = [] from rfl, List.append_nil]
      exact h.complete hexit (.ok (.obj []))
  | error hexit hnode => exact h.error (by simpa [workflow] using hexit) hnode
  | @step current next c c' visits ending hexit hnode _ ih =>
      obtain ⟨inputs, hat⟩ := h.goto (by simpa [workflow] using hexit) hnode
      obtain ⟨inputs', hreturned⟩ := ih hat
      refine ⟨inputs ++ inputs', ?_⟩
      rw [Run.after_append, show current :: visits = [current] ++ visits from rfl, stepsAt_append,
        ← List.append_assoc]
      exact hreturned

end CarriedOut

/-! ## 6. What the executor means -/

/-- What the executor commits last, and the steps it starts on the way, are those of an execution of
the program, and every execution of the program is carried out in some run.  A committed row is the
row as the session holds it. -/
theorem executeWorkflow_meaning (m : ContextModel Ctx) (steps : List StepSchema)
    (e : Execution Ctx) (started : List StepSchema) (status : Status) (context : Ctx) :
    (∃ inputs n row, (runOf m steps e inputs n).pc = .ended none ∧
      (runOf m steps e inputs n).started = started ∧
      (runOf m steps e inputs n).commits.getLast? = some row ∧
      row.status = status ∧ row.context = context) ↔
    ∃ visits ending, (workflow m steps).Exec (firstRef steps) e.context visits ending ∧
      started = stepsAt steps visits ∧ storedAt m ending = (status, context) := by
  constructor
  · rintro ⟨inputs, n, row, hpc, hstarted, hlast, rfl, rfl⟩
    have hfollows := follows_of_run m steps e inputs n
    simp only [Run.Follows, hpc, hstarted] at hfollows
    obtain ⟨visits, ending, hvisits, hexec, row', hlast', hstored⟩ := hfollows
    cases hlast.symm.trans hlast'
    exact ⟨visits, ending, hexec, hvisits, hstored⟩
  · rintro ⟨visits, ending, hexec, rfl, hstored⟩
    have hbegin : (executeWorkflow m steps (.steady 0) (Run.start e)).At
        (.loopHead (firstRef steps)) e.context [] := Run.At.begin e (.ok (.obj []))
    obtain ⟨inputs, hpc, hstarted, hlast, hstored'⟩ := hbegin.exec hexec
    rw [hstored, Prod.mk.injEq] at hstored'
    let all : List Input := .steady 0 :: inputs
    have hrun : runOf m steps e (fun n => all.getD n (.steady 0)) all.length =
        (executeWorkflow m steps (.steady 0) (Run.start e)).after m steps inputs := by
      rw [runOf, trace_ofList]
      rfl
    rw [← hrun] at hpc hstarted hlast hstored'
    exact ⟨_, _, _, hpc, hstarted, hlast, hstored'.1.symm, hstored'.2.symm⟩

section Annotated

variable {m : ContextModel Ctx} {steps : List StepSchema} {A : Json → Ctx → Prop} {Q : Ctx → Prop}
  {R : String → Ctx → Prop}

/-- Assertions about the context at the references that every step keeps hold in every run, whatever
the commits, the publications and the agents do: at the loop head the one of the reference, of the
context of a completed row the one of the exit, of a failed row the one of the failure.  The rows
are those that the session commits. -/
theorem annotated_run (hA : (workflow m steps).Annotated A Q R) (id tenantId : UUID)
    (context : Ctx) (hstart : A (firstRef steps) context) (inputs : Nat → Input) (n : Nat) :
    (∀ current, (runOf m steps (.create id tenantId context) inputs n).pc = .loopHead current →
      A current (runOf m steps (.create id tenantId context) inputs n).execution.context) ∧
    (∀ row ∈ (runOf m steps (.create id tenantId context) inputs n).commits,
      row.status = .completed → Q row.context) ∧
    (∀ row ∈ (runOf m steps (.create id tenantId context) inputs n).commits,
      row.status = .failed → ∃ text c, R text c ∧
        row.context = m.insert c "_error" (.str text)) := by
  have hfollows := follows_of_run m steps (.create id tenantId context) inputs n
  have hphase := phase_of_run m steps (.create id tenantId context) ⟨rfl, rfl⟩ inputs n
  generalize runOf m steps (.create id tenantId context) inputs n = r at hfollows hphase
  -- A row that is no longer running is the last one, and the machine has returned.
  have hended : ∀ row ∈ r.commits, row.status ≠ .running → ∃ ending,
      Flow.Ending.Meets Q R ending ∧ storedAt m ending = (row.status, row.context) := by
    intro row hrow hstatus
    have hpc : r.pc = .ended none := Phase.ended_of_mem hphase hrow hstatus
    obtain ⟨before, last, hcommits, -, hbefore, -⟩ := Phase.ended hphase hpc
    simp only [Run.Follows, hpc] at hfollows
    obtain ⟨visits, ending, -, hexec, row', hlast, hstored⟩ := hfollows
    rw [hcommits, List.getLast?_concat, Option.some.injEq] at hlast
    rw [hcommits, List.mem_append, List.mem_singleton] at hrow
    rcases hrow with hrow | rfl
    · exact absurd (hbefore row hrow).1 hstatus
    · exact ⟨ending, hA.exec hexec hstart, hlast ▸ hstored⟩
  refine ⟨fun current hpc => ?_, fun row hrow hstatus => ?_, fun row hrow hstatus => ?_⟩
  · simp only [Run.Follows, hpc] at hfollows
    obtain ⟨visits, -, hpath⟩ := hfollows
    exact hA.path hpath hstart
  · obtain ⟨ending, hmeets, hstored⟩ := hended row hrow (by rw [hstatus]; decide)
    cases ending with
    | done c =>
        rw [← (Prod.mk.inj hstored).2]
        exact hmeets
    | error text c =>
        rw [hstatus] at hstored
        cases (Prod.mk.inj hstored).1
  · obtain ⟨ending, hmeets, hstored⟩ := hended row hrow (by rw [hstatus]; decide)
    cases ending with
    | done c =>
        rw [hstatus] at hstored
        cases (Prod.mk.inj hstored).1
    | error text c => exact ⟨text, c, hmeets, (Prod.mk.inj hstored).2.symm⟩

-- The variant bounds the steps started.
theorem started_length_le {V : Json → Ctx → Nat} (hA : (workflow m steps).Annotated A Q R)
    (hV : (workflow m steps).Lowers A V) (e : Execution Ctx) (hstart : A (firstRef steps) e.context)
    (inputs : Nat → Input) (n : Nat) :
    (runOf m steps e inputs n).started.length ≤ V (firstRef steps) e.context + 1 := by
  induction n with
  | zero => exact Nat.zero_le _
  | succ n ih =>
      obtain ⟨new, hmoves, hstarted⟩ :=
        executeWorkflow_moves m steps (inputs n) (runOf m steps e inputs n)
      rw [runOf, trace_succ]
      rw [runOf] at hstarted
      rw [hstarted]
      rcases hmoves.new_cases with rfl | ⟨current, step, hpc, -, rfl⟩
      · rw [List.append_nil]
        exact ih
      -- The step is started at the end of a path.
      · have hfollows := follows_of_run m steps e inputs n
        simp only [Run.Follows, hpc] at hfollows
        obtain ⟨visits, hvisits, hpath⟩ := hfollows
        have hle := hV.path hA hpath hstart
        have hsteps : (stepsAt steps visits).length ≤ visits.length := stepsAt_length_le visits
        rw [runOf] at hvisits
        rw [List.length_append, List.length_singleton, hvisits]
        omega

-- A run that has made more steps than the steps it has started allow has returned.
theorem Run.Paced.ended {n : Nat} {r : Run Ctx} (h : r.Paced n)
    (hn : 3 * r.started.length + 3 ≤ n) : ∃ exc, r.pc = .ended exc := by
  unfold Run.Paced at h
  split at h
  · omega
  · omega
  · omega
  · omega
  · omega
  · rename_i exc hpc
    exact ⟨exc, hpc⟩

/-- A workflow with a variant that every step lowers ends, whatever the environment does, within
three steps of the machine for each unit of the variant. -/
theorem annotated_run_ends {V : Json → Ctx → Nat} (hA : (workflow m steps).Annotated A Q R)
    (hV : (workflow m steps).Lowers A V) (e : Execution Ctx) (hstart : A (firstRef steps) e.context)
    (inputs : Nat → Input) (n : Nat) (hn : 3 * V (firstRef steps) e.context + 6 ≤ n) :
    ∃ exc, (runOf m steps e inputs n).pc = .ended exc := by
  have hle := started_length_le hA hV e hstart inputs n
  exact (paced_of_run m steps e inputs n).ended (by omega)

end Annotated

/-! The definition that asks an agent and then notifies. -/

-- Its two nodes.
theorem notify_goto {m : ContextModel Ctx} {ref next : Json} {c c' : Ctx}
    (h : (workflow m notifyDefinition.steps).node ref c (.goto next c')) :
    (ref = .str "ask" ∧ next = .str "tell" ∧ ∃ result, c' = m.insert c "ask" result) ∨
      (ref = .str "tell" ∧ next = .null ∧ c' = c) := by
  generalize hend : NodeEnd.goto next c' = nodeEnd at h
  cases h with
  | unknown hunknown => cases hend
  | @visit step agent hfound =>
      obtain ⟨hmem, rfl⟩ := lookupStep_ok hfound
      rcases List.mem_cons.mp hmem with rfl | hmem
      · cases agent with
        | ok result =>
            cases hend
            exact .inl ⟨rfl, rfl, result, rfl⟩
        | error e => cases hend
      · rw [List.mem_singleton.mp hmem] at hend ⊢
        cases hend
        exact .inr ⟨rfl, rfl, rfl⟩

/-- The answer is in the context once the first step is left. -/
theorem notify_annotated (m : ContextModel Ctx) :
    (workflow m notifyDefinition.steps).Annotated
      (fun ref c => ref = .str "ask" ∨ m.HasKey c "ask") (fun c => m.HasKey c "ask")
      fun _ _ => True where
  exit ref c hexit h := by
    rcases h with rfl | h
    · cases hexit
    · exact h
  goto ref c next c' _ h hnode := by
    rcases notify_goto hnode with ⟨-, rfl, result, rfl⟩ | ⟨rfl, -, rfl⟩
    · exact .inr ((m.hasKey_insert c "ask" result "ask").mpr (.inl rfl))
    · exact .inr (h.resolve_left (by simp))
  error _ _ _ _ _ _ _ := trivial

/-- The number of steps left. -/
def notifyVariant : Json → Ctx → Nat
  | .str "ask", _ => 2
  | .str "tell", _ => 1
  | _, _ => 0

theorem notify_lowers (m : ContextModel Ctx) (A : Json → Ctx → Prop) :
    (workflow m notifyDefinition.steps).Lowers A notifyVariant := by
  intro ref c next c' _ _ hnode
  rcases notify_goto hnode with ⟨rfl, rfl, -⟩ | ⟨rfl, rfl, -⟩
  · exact Nat.lt_succ_self 1
  · exact Nat.lt_succ_self 0

theorem annotated_run_notify :
    ∃ row ∈ (runOf (contextModel identifierSearch) notifyDefinition.steps
      (.create 1 7 (.ofDict [])) .steady 9).commits,
      row.status = .completed ∧ (contextModel identifierSearch).HasKey row.context "ask" := by
  have hcompleted : Status.completed ∈
      (runOf (contextModel identifierSearch) notifyDefinition.steps (.create 1 7 (.ofDict []))
        .steady 9).commits.map Execution.status := by decide +kernel
  obtain ⟨row, hrow, hstatus⟩ := List.mem_map.mp hcompleted
  have hannotated := annotated_run (notify_annotated (contextModel identifierSearch)) 1 7
    (.ofDict []) (.inl rfl) .steady 9
  exact ⟨row, hrow, hstatus, hannotated.2.1 row hrow hstatus⟩

theorem annotated_run_ends_notify :
    ∃ exc, (runOf (contextModel identifierSearch) notifyDefinition.steps
      (.create 1 7 (.ofDict [])) .steady 12).pc = .ended exc :=
  annotated_run_ends (notify_annotated (contextModel identifierSearch))
    (notify_lowers (contextModel identifierSearch) _) (.create 1 7 (.ofDict [])) (.inl rfl) .steady
    12 (by simp [notifyVariant, firstRef, notifyDefinition])

end ConstructorPlatform
