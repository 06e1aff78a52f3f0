import Mathlib.Logic.Function.Basic
import ConstructorPlatform.Events

/-!
# Dispatcher — `src/executions/dispatcher.py`

The map `_pending` and the futures it holds.  A future is named by its number in the order of
creation.
-/

namespace ConstructorPlatform

inductive Future where
  | pending
  | result (output : Dict)
  | exception (error : String)  -- a `RuntimeError`
  | cancelled

def Future.done : Future → Bool
  | .pending => false
  | _ => true

structure Dispatcher where
  futures : List Future
  -- `_pending`; the key is `str(execution_id)`, and `str` keeps different ids apart.
  pending : UUID → Option Nat

def Dispatcher.empty : Dispatcher := ⟨[], fun _ => none⟩

/-- Nobody has set a result or an exception, and nobody has cancelled it. -/
def Dispatcher.Open (d : Dispatcher) (f : Nat) : Prop := d.futures[f]? = some .pending

def registerPending (executionId : UUID) (d : Dispatcher) : Nat × Dispatcher :=
  (d.futures.length,
    { futures := d.futures ++ [.pending]
      pending := Function.update d.pending executionId (some d.futures.length) })

/-- `_pending.pop(execution_id, None)`. -/
def Dispatcher.pop (executionId : UUID) (d : Dispatcher) : Dispatcher :=
  { d with pending := Function.update d.pending executionId none }

/-- `future.set_result` and `future.set_exception`. -/
def Dispatcher.settle (f : Nat) (value : Future) (d : Dispatcher) : Except PyExc Dispatcher :=
  match d.futures[f]? with
  | some .pending => .ok { d with futures := d.futures.set f value }
  | _ => .error ⟨.invalidState, "invalid state"⟩

/-- `future.cancel()`; a done future is left alone. -/
def Dispatcher.cancel (f : Nat) (d : Dispatcher) : Dispatcher :=
  match d.futures[f]? with
  | some .pending => { d with futures := d.futures.set f .cancelled }
  | _ => d

/-- The common body of `resolve_pending` and `reject_pending`. -/
def settlePending (executionId : UUID) (value : Future) (d : Dispatcher) :
    Except PyExc (Bool × Dispatcher) :=
  match d.pending executionId with
  | none => .ok (false, d.pop executionId)
  | some f =>
      match d.futures[f]? with
      | some .pending => ((d.pop executionId).settle f value).map fun d => (true, d)
      | _ => .ok (false, d.pop executionId)

def resolvePending (executionId : UUID) (output : Dict) (d : Dispatcher) :
    Except PyExc (Bool × Dispatcher) :=
  settlePending executionId (.result output) d

def rejectPending (executionId : UUID) (error : String) (d : Dispatcher) :
    Except PyExc (Bool × Dispatcher) :=
  settlePending executionId (.exception error) d

/-- `result.error or f"Agent {result.status}"`. -/
def AgentResult.errorText (r : AgentResult) : String :=
  match r.error with
  | some "" => "Agent " ++ r.status.text
  | some error => error
  | none => "Agent " ++ r.status.text

/-- What `start_result_consumer` does with a result. -/
def handleResult (r : AgentResult) (d : Dispatcher) : Except PyExc (Bool × Dispatcher) :=
  if r.status = .completed then resolvePending r.executionId r.output d
  else rejectPending r.executionId r.errorText d

/-- The state in which a result leaves the future that it settles. -/
def AgentResult.future (r : AgentResult) : Future :=
  if r.status = .completed then .result r.output else .exception r.errorText

theorem handleResult_eq (r : AgentResult) (d : Dispatcher) :
    handleResult r d = settlePending r.executionId r.future d := by
  unfold handleResult AgentResult.future
  split <;> rfl

theorem AgentResult.future_done (r : AgentResult) : r.future.done = true := by
  unfold AgentResult.future
  split <;> rfl

/-- A result either settles the open future that waits for its execution or changes no future. -/
theorem handleResult_cases (r : AgentResult) (d : Dispatcher) :
    (∃ f, d.pending r.executionId = some f ∧ d.Open f ∧ handleResult r d =
      .ok (true, { futures := d.futures.set f r.future
                   pending := Function.update d.pending r.executionId none })) ∨
    ((∀ f, d.pending r.executionId = some f → ¬ d.Open f) ∧
      handleResult r d = .ok (false, d.pop r.executionId)) := by
  rw [handleResult_eq, settlePending]
  cases hpending : d.pending r.executionId with
  | none => exact .inr ⟨nofun, rfl⟩
  | some f =>
      by_cases hopen : d.Open f
      · refine .inl ⟨f, rfl, hopen, ?_⟩
        have hget : d.futures[f]? = some .pending := hopen
        simp only [hget, Dispatcher.settle, Dispatcher.pop]
        rfl
      · refine .inr ⟨?_, ?_⟩
        · intro g hg
          cases hg
          exact hopen
        · simp only
          split
          · rename_i hget
            exact absurd hget hopen
          · rfl

-- `set_result` and `set_exception` are only called on a future that is not done.
theorem handleResult_ne_error (r : AgentResult) (d : Dispatcher) (e : PyExc) :
    handleResult r d ≠ .error e := by
  rcases handleResult_cases r d with ⟨f, -, -, h⟩ | ⟨-, h⟩ <;> rw [h] <;> exact nofun

/-! ## 1. Open futures under each operation -/

theorem Dispatcher.Open.lt {d : Dispatcher} {f : Nat} (h : d.Open f) :
    f < d.futures.length :=
  (List.getElem?_eq_some_iff.mp h).1

theorem Dispatcher.open_register {d : Dispatcher} {executionId : UUID} {f : Nat} :
    (registerPending executionId d).2.Open f ↔ d.Open f ∨ f = d.futures.length := by
  unfold Dispatcher.Open registerPending
  simp only
  by_cases hlt : f < d.futures.length
  · rw [List.getElem?_append_left hlt]
    simp only [or_iff_left (Nat.ne_of_lt hlt)]
  · have hnone : d.futures[f]? = none := List.getElem?_eq_none (by omega)
    rw [List.getElem?_append_right (by omega), hnone]
    by_cases heq : f = d.futures.length
    · simp [heq]
    · rw [List.getElem?_eq_none (by simp only [List.length_singleton]; omega)]
      simp [heq]

theorem Dispatcher.open_cancel {d : Dispatcher} {f g : Nat} :
    (d.cancel f).Open g ↔ d.Open g ∧ g ≠ f := by
  unfold Dispatcher.cancel
  split
  · rename_i h
    unfold Dispatcher.Open
    by_cases heq : f = g
    · subst heq
      simp [List.getElem?_set_self (List.getElem?_eq_some_iff.mp h).1]
    · simp only [List.getElem?_set_ne heq, ne_eq, Ne.symm heq, not_false_eq_true, and_true]
  · rename_i h
    refine ⟨fun hopen => ⟨hopen, ?_⟩, fun hopen => hopen.1⟩
    intro hsame
    subst hsame
    exact h hopen

@[simp] theorem Dispatcher.cancel_pending (f : Nat) (d : Dispatcher) :
    (d.cancel f).pending = d.pending := by
  unfold Dispatcher.cancel
  split <;> rfl

@[simp] theorem Dispatcher.cancel_length (f : Nat) (d : Dispatcher) :
    (d.cancel f).futures.length = d.futures.length := by
  unfold Dispatcher.cancel
  split
  · exact List.length_set
  · rfl

theorem Dispatcher.open_set {d : Dispatcher} {f : Nat} {value : Future}
    (hdone : value.done = true) (hf : f < d.futures.length) (pending : UUID → Option Nat)
    (g : Nat) : (Dispatcher.mk (d.futures.set f value) pending).Open g ↔ d.Open g ∧ g ≠ f := by
  unfold Dispatcher.Open
  by_cases heq : f = g
  · subst heq
    rw [List.getElem?_set_self hf]
    cases value <;> simp_all [Future.done]
  · simp only [List.getElem?_set_ne heq, ne_eq, Ne.symm heq, not_false_eq_true, and_true]

end ConstructorPlatform
