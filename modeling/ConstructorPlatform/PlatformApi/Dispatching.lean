import ConstructorPlatform.PlatformApi.Dispatcher
import ConstructorPlatform.Reasoning.System

/-!
# Dispatching — the calls of `dispatch_agent_step`

All the calls of one process, apart from the workflows that make them: which task each has built,
which future it waits for, and how far it has come.  Calls of different executions interleave with
each other and with the result consumer at every `await`.  `Dispatching.Consistent` is the invariant
that ties `_pending` to the calls.
-/

namespace ConstructorPlatform

/-! ## 1. The calls -/

inductive CallStage where
  | publishing
  | waiting (timedOut : Bool)
  deriving DecidableEq

/-- A call that has registered its future. -/
structure Call where
  task : AgentTask
  future : Nat
  stage : CallStage

structure Dispatching where
  dispatcher : Dispatcher
  calls : UUID → Option Call
  -- The task stream.
  tasks : List AgentTask
  -- History: the task for which each future was registered.
  registered : List AgentTask
  -- History: the futures for which `resolve_pending` or `reject_pending` returned `True`, each
  -- with the result that was handled.
  settledBy : List (Nat × AgentResult)
  -- History: the outputs and agent errors that calls have returned with, each with its task.
  answers : List (AgentTask × Future)

def Dispatching.empty : Dispatching := ⟨.empty, fun _ => none, [], [], [], []⟩

def Dispatching.setCall (executionId : UUID) (c : Option Call) (s : Dispatching) : Dispatching :=
  { s with calls := Function.update s.calls executionId c }

/-- `future = register_pending(execution.id)`. -/
def Dispatching.register (task : AgentTask) (s : Dispatching) : Dispatching :=
  let (future, dispatcher) := registerPending task.executionId s.dispatcher
  { s with
    dispatcher := dispatcher
    calls := Function.update s.calls task.executionId (some ⟨task, future, .publishing⟩)
    registered := s.registered ++ [task] }

/-- `await redis.xadd(TASK_STREAM, ...)`. -/
def Dispatching.publish (c : Call) (reply : Reply) (s : Dispatching) : Dispatching :=
  let tasks := if reply.carriedOut then s.tasks ++ [c.task] else s.tasks
  match reply with
  | .ok =>
      { s with tasks := tasks }.setCall c.task.executionId (some { c with stage := .waiting false })
  | .raised _ _ => { s with tasks := tasks }.setCall c.task.executionId none

/-- The timer of `asyncio.wait_for` fires: the task is cancelled, and with it the future that it
waits for. -/
def Dispatching.timeout (c : Call) (s : Dispatching) : Dispatching :=
  { s with dispatcher := s.dispatcher.cancel c.future }.setCall c.task.executionId
    (some { c with stage := .waiting true })

/-- What the call returns with, once it can go on. -/
def Dispatching.outcome (c : Call) (s : Dispatching) : Option (Except PyExc Json) :=
  match c.stage with
  | .publishing => none
  -- The timer wins over a result that arrived before the task could run again.
  | .waiting true => some (.error ⟨.timeoutError, ""⟩)
  | .waiting false =>
      match s.dispatcher.futures[c.future]? with
      | some (.result output) => some (.ok (.obj output))
      | some (.exception error) => some (.error ⟨.runtimeError, error⟩)
      | _ => none

/-- The call returns. -/
def Dispatching.wake (c : Call) (s : Dispatching) : Dispatching :=
  let answer :=
    if c.stage = .waiting false then s.dispatcher.futures[c.future]?.toList.map (c.task, ·) else []
  { s with answers := s.answers ++ answer }.setCall c.task.executionId none

/-- The result consumer handles a result. -/
def Dispatching.consume (r : AgentResult) (s : Dispatching) : Dispatching :=
  match handleResult r s.dispatcher with
  | .ok (true, dispatcher) =>
      { s with
        dispatcher := dispatcher
        settledBy := s.settledBy ++ (s.dispatcher.pending r.executionId).toList.map (·, r) }
  | .ok (false, dispatcher) => { s with dispatcher := dispatcher }
  | .error _ => s

inductive CallEvent where
  | register (task : AgentTask)
  | publish (executionId : UUID) (reply : Reply)
  | timeout (executionId : UUID)
  | wake (executionId : UUID)
  | consume (r : AgentResult)

/-- One step of the calls.  An execution makes one call at a time, and `uuid.uuid4()` never repeats
an id: the id of a task is the number of its call. -/
def Dispatching.step (s : Dispatching) : CallEvent → Option Dispatching
  | .register task =>
      match s.calls task.executionId with
      | none => if task.taskId = s.registered.length then some (s.register task) else none
      | some _ => none
  | .publish executionId reply =>
      match s.calls executionId with
      | some c => if c.stage = .publishing then some (s.publish c reply) else none
      | none => none
  | .timeout executionId =>
      match s.calls executionId with
      | some c => if c.stage = .waiting false then some (s.timeout c) else none
      | none => none
  | .wake executionId =>
      match s.calls executionId with
      | some c => if (s.outcome c).isSome then some (s.wake c) else none
      | none => none
  | .consume r => some (s.consume r)

/-! ## 2. What a step can do -/

/-- The steps, with what their guards say. -/
inductive Dispatching.Steps (s : Dispatching) : CallEvent → Dispatching → Prop where
  | register {task : AgentTask} (hnone : s.calls task.executionId = none)
      (hid : task.taskId = s.registered.length) : Steps s (.register task) (s.register task)
  | publish {executionId : UUID} {c : Call} (reply : Reply) (hcall : s.calls executionId = some c)
      (hstage : c.stage = .publishing) : Steps s (.publish executionId reply) (s.publish c reply)
  | timeout {executionId : UUID} {c : Call} (hcall : s.calls executionId = some c)
      (hstage : c.stage = .waiting false) : Steps s (.timeout executionId) (s.timeout c)
  | wake {executionId : UUID} {c : Call} (hcall : s.calls executionId = some c)
      (hdone : (s.outcome c).isSome = true) : Steps s (.wake executionId) (s.wake c)
  | consume (r : AgentResult) : Steps s (.consume r) (s.consume r)

theorem Dispatching.step_steps {s s' : Dispatching} {event : CallEvent}
    (h : s.step event = some s') : s.Steps event s' := by
  cases event with
  | register task =>
      simp only [Dispatching.step] at h
      split at h
      · rename_i hnone
        split at h
        · rename_i hid
          cases h
          exact .register hnone hid
        · cases h
      · cases h
  | publish executionId reply =>
      simp only [Dispatching.step] at h
      split at h
      · rename_i c hcall
        split at h
        · rename_i hstage
          cases h
          exact .publish reply hcall hstage
        · cases h
      · cases h
  | timeout executionId =>
      simp only [Dispatching.step] at h
      split at h
      · rename_i c hcall
        split at h
        · rename_i hstage
          cases h
          exact .timeout hcall hstage
        · cases h
      · cases h
  | wake executionId =>
      simp only [Dispatching.step] at h
      split at h
      · rename_i c hcall
        split at h
        · rename_i hdone
          cases h
          exact .wake hcall hdone
        · cases h
      · cases h
  | consume r =>
      cases h
      exact .consume r

-- A result settles the future that waits for its execution, or only empties its entry.
theorem Dispatching.consume_cases (r : AgentResult) (s : Dispatching) :
    (∃ f, s.dispatcher.pending r.executionId = some f ∧ s.dispatcher.Open f ∧
      s.consume r = { s with
        dispatcher := { futures := s.dispatcher.futures.set f r.future
                        pending := Function.update s.dispatcher.pending r.executionId none }
        settledBy := s.settledBy ++ [(f, r)] }) ∨
    ((∀ f, s.dispatcher.pending r.executionId = some f → ¬ s.dispatcher.Open f) ∧
      s.consume r = { s with dispatcher := s.dispatcher.pop r.executionId }) := by
  unfold Dispatching.consume
  rcases handleResult_cases r s.dispatcher with ⟨f, hpending, hopen, h⟩ | ⟨hclosed, h⟩
  · refine .inl ⟨f, hpending, hopen, ?_⟩
    rw [h, hpending]
    rfl
  · refine .inr ⟨hclosed, ?_⟩
    rw [h]

-- A result reaches the dispatcher alone.
theorem Dispatching.consume_frame (r : AgentResult) (s : Dispatching) :
    (s.consume r).tasks = s.tasks ∧ (s.consume r).calls = s.calls ∧
      (s.consume r).registered = s.registered ∧ (s.consume r).answers = s.answers := by
  rcases s.consume_cases r with ⟨f, -, -, h⟩ | ⟨-, h⟩ <;> rw [h] <;> exact ⟨rfl, rfl, rfl, rfl⟩

/-! ## 3. The invariant -/

/-- `_pending`, the futures and the calls agree. -/
structure Dispatching.Consistent (s : Dispatching) : Prop where
  length : s.registered.length = s.dispatcher.futures.length
  ids : ∀ (f : Nat) (task : AgentTask), s.registered[f]? = some task → task.taskId = f
  pending : ∀ e f, s.dispatcher.pending e = some f →
    ∃ task : AgentTask, s.registered[f]? = some task ∧ task.executionId = e
  calls : ∀ e (c : Call), s.calls e = some c →
    s.registered[c.future]? = some c.task ∧ c.task.executionId = e
  awaited : ∀ e (c : Call), s.calls e = some c → s.dispatcher.Open c.future →
    s.dispatcher.pending e = some c.future
  settled : ∀ f r, (f, r) ∈ s.settledBy → f < s.dispatcher.futures.length ∧
    ¬ s.dispatcher.Open f
  once : (s.settledBy.map Prod.fst).Nodup

theorem Dispatching.consistent_empty : Dispatching.empty.Consistent :=
  ⟨rfl, nofun, nofun, nofun, nofun, nofun, .nil⟩

-- A registered future belongs to one execution.
theorem Dispatching.Consistent.owner {s : Dispatching} (h : s.Consistent) {e : UUID} {c : Call}
    {e' : UUID} (hcall : s.calls e = some c) (hpending : s.dispatcher.pending e' = some c.future) :
    e' = e := by
  obtain ⟨task, htask, hid⟩ := h.pending e' c.future hpending
  obtain ⟨htask', hid'⟩ := h.calls e c hcall
  rw [htask] at htask'
  cases htask'
  exact hid.symm.trans hid'

theorem Dispatching.Consistent.register {s : Dispatching} (h : s.Consistent) {task : AgentTask}
    (hid : task.taskId = s.registered.length) :
    (s.register task).Consistent := by
  have hold : ∀ {f : Nat} {t : AgentTask}, s.registered[f]? = some t →
      (s.registered ++ [task])[f]? = some t := by
    intro f t ht
    rw [List.getElem?_append_left (List.getElem?_eq_some_iff.mp ht).1, ht]
  have hnew : (s.registered ++ [task])[s.dispatcher.futures.length]? = some task := by
    rw [← h.length]
    exact List.getElem?_concat_length
  refine ⟨?_, ?_, ?_, ?_, ?_, ?_, h.once⟩
  · simp [Dispatching.register, registerPending, h.length]
  · intro f t ht
    change (s.registered ++ [task])[f]? = some t at ht
    by_cases hlt : f < s.registered.length
    · rw [List.getElem?_append_left hlt] at ht
      exact h.ids f t ht
    · have hlast := (List.getElem?_eq_some_iff.mp ht).1
      rw [List.length_append, List.length_singleton] at hlast
      obtain rfl : f = s.registered.length := by omega
      rw [List.getElem?_concat_length] at ht
      cases ht
      exact hid
  · intro e f hpending
    rcases Reasoning.update_cases hpending with ⟨rfl, hself⟩ | ⟨-, hpending⟩
    · cases hself
      exact ⟨task, hnew, rfl⟩
    · obtain ⟨t, ht, hte⟩ := h.pending e f hpending
      exact ⟨t, hold ht, hte⟩
  · intro e c hcall
    rcases Reasoning.update_cases hcall with ⟨rfl, hself⟩ | ⟨-, hcall⟩
    · cases hself
      exact ⟨hnew, rfl⟩
    · exact ⟨hold (h.calls e c hcall).1, (h.calls e c hcall).2⟩
  · intro e c hcall hopen
    change Function.update s.calls task.executionId _ e = some c at hcall
    show Function.update s.dispatcher.pending task.executionId _ e = _
    by_cases he : e = task.executionId
    · subst he
      rw [Function.update_self] at hcall ⊢
      cases hcall
      rfl
    · rw [Function.update_of_ne he] at hcall ⊢
      apply h.awaited e c hcall
      rcases Dispatcher.open_register.mp hopen with hopen | hlast
      · exact hopen
      · -- The new future belongs to the call that has just registered it.
        have hlt := (List.getElem?_eq_some_iff.mp (h.calls e c hcall).1).1
        rw [h.length] at hlt
        omega
  · intro f r hmem
    obtain ⟨hlt, hclosed⟩ := h.settled f r hmem
    refine ⟨?_, fun hopen => ?_⟩
    · simp only [Dispatching.register, registerPending, List.length_append]
      omega
    · rcases Dispatcher.open_register.mp hopen with hopen | hlast
      · exact hclosed hopen
      · omega

-- A call that changes its stage, or ends, leaves no call with another future or another task.
theorem Dispatching.setCall_find {s : Dispatching} {e : UUID} {c : Call}
    (hcall : s.calls e = some c) {stage : Option CallStage} {e' : UUID} {c' : Call}
    (h : Function.update s.calls e (stage.map fun stage => { c with stage := stage }) e' =
      some c') : ∃ c₀, s.calls e' = some c₀ ∧ c₀.future = c'.future ∧ c₀.task = c'.task := by
  rcases Reasoning.update_cases h with ⟨rfl, hself⟩ | ⟨-, hold⟩
  · obtain ⟨stage, -, rfl⟩ := Option.map_eq_some_iff.mp hself
    exact ⟨c, hcall, rfl, rfl⟩
  · exact ⟨c', hold, rfl, rfl⟩

-- Changing what one call waits for, without opening a future, keeps the invariant.
theorem Dispatching.Consistent.setCall {s : Dispatching} (h : s.Consistent) {e : UUID} {c : Call}
    (hcall : s.calls e = some c) (stage : Option CallStage) :
    (s.setCall e (stage.map fun stage => { c with stage := stage })).Consistent := by
  refine ⟨h.length, h.ids, h.pending, ?_, ?_, h.settled, h.once⟩
  · intro e' c' hcall'
    obtain ⟨c₀, hc₀, hfuture, htask⟩ := Dispatching.setCall_find hcall hcall'
    rw [← hfuture, ← htask]
    exact h.calls e' c₀ hc₀
  · intro e' c' hcall' hopen
    obtain ⟨c₀, hc₀, hfuture, -⟩ := Dispatching.setCall_find hcall hcall'
    rw [← hfuture] at hopen ⊢
    exact h.awaited e' c₀ hc₀ hopen

theorem Dispatching.Consistent.cancel {s : Dispatching} (h : s.Consistent) (f : Nat) :
    Consistent { s with dispatcher := s.dispatcher.cancel f } := by
  refine ⟨?_, h.ids, ?_, h.calls, ?_, ?_, h.once⟩
  · rw [Dispatcher.cancel_length]
    exact h.length
  · rw [Dispatcher.cancel_pending]
    exact h.pending
  · intro e c hcall hopen
    rw [Dispatcher.cancel_pending]
    exact h.awaited e c hcall (Dispatcher.open_cancel.mp hopen).1
  · intro g r hmem
    rw [Dispatcher.cancel_length]
    exact ⟨(h.settled g r hmem).1, fun hopen => (h.settled g r hmem).2
      (Dispatcher.open_cancel.mp hopen).1⟩

theorem Dispatching.Consistent.consume {s : Dispatching} (h : s.Consistent) (r : AgentResult) :
    (s.consume r).Consistent := by
  have hpop : ∀ e f, Function.update s.dispatcher.pending r.executionId none e = some f →
      s.dispatcher.pending e = some f := by
    intro e f hpending
    rcases Reasoning.update_cases hpending with ⟨-, hself⟩ | ⟨-, hpending⟩
    · cases hself
    · exact hpending
  rcases s.consume_cases r with ⟨f, hpending, hopen, heq⟩ | ⟨hclosed, heq⟩ <;> rw [heq]
  · have hset := Dispatcher.open_set r.future_done hopen.lt
      (Function.update s.dispatcher.pending r.executionId none)
    refine ⟨?_, h.ids, fun e g hg => h.pending e g (hpop e g hg), h.calls, ?_, ?_, ?_⟩
    · rw [List.length_set]
      exact h.length
    · intro e c hcall hopen'
      obtain ⟨hopen', hne⟩ := (hset c.future).mp hopen'
      have hawaited := h.awaited e c hcall hopen'
      -- The entry that is popped is that of the settled future, which is not the call's.
      have he : e ≠ r.executionId := by
        intro hsame
        subst hsame
        rw [hpending] at hawaited
        exact hne (Option.some.inj hawaited).symm
      show Function.update s.dispatcher.pending r.executionId none e = _
      rw [Function.update_of_ne he]
      exact hawaited
    · intro g r' hmem
      rw [List.length_set]
      rcases List.mem_append.mp hmem with hmem | hmem
      · exact ⟨(h.settled g r' hmem).1, fun ho => (h.settled g r' hmem).2 ((hset g).mp ho).1⟩
      · cases List.mem_singleton.mp hmem
        exact ⟨hopen.lt, fun ho => ((hset f).mp ho).2 rfl⟩
    · rw [List.map_append, List.nodup_append]
      refine ⟨h.once, by simp, ?_⟩
      intro g hg g' hg' heq'
      obtain ⟨⟨g, r'⟩, hmem, rfl⟩ := List.mem_map.mp hg
      cases List.mem_singleton.mp hg'
      have hclosed := (h.settled g r' hmem).2
      change g = f at heq'
      rw [heq'] at hclosed
      exact hclosed hopen
  · refine ⟨h.length, h.ids, fun e g hg => h.pending e g (hpop e g hg), h.calls, ?_, h.settled,
      h.once⟩
    intro e c hcall hopen
    have hawaited := h.awaited e c hcall hopen
    have he : e ≠ r.executionId := by
      intro hsame
      subst hsame
      exact hclosed c.future hawaited hopen
    show Function.update s.dispatcher.pending r.executionId none e = _
    rw [Function.update_of_ne he]
    exact hawaited

/-- Every step keeps the invariant. -/
theorem Dispatching.Consistent.step {s s' : Dispatching} {event : CallEvent} (h : s.Consistent)
    (hstep : s.step event = some s') : s'.Consistent := by
  cases Dispatching.step_steps hstep with
  | register _ hid => exact h.register hid
  | publish reply hcall hstage =>
      rename_i e c
      obtain ⟨-, rfl⟩ := h.calls e c hcall
      -- The stream is not part of the invariant.
      have htasks : Consistent { s with
          tasks := if reply.carriedOut then s.tasks ++ [c.task] else s.tasks } :=
        ⟨h.length, h.ids, h.pending, h.calls, h.awaited, h.settled, h.once⟩
      cases reply with
      | ok => exact htasks.setCall hcall (some (.waiting false))
      | raised exc carriedOut => exact htasks.setCall hcall none
  | timeout hcall hstage =>
      rename_i e c
      obtain ⟨-, rfl⟩ := h.calls e c hcall
      exact (h.cancel c.future).setCall hcall (some (.waiting true))
  | wake hcall hdone =>
      rename_i e c
      obtain ⟨-, rfl⟩ := h.calls e c hcall
      have hkept := h.setCall hcall none
      exact ⟨hkept.length, hkept.ids, hkept.pending, hkept.calls, hkept.awaited, hkept.settled,
        hkept.once⟩
  | consume r => exact h.consume r

/-! ## 4. Wakeups -/

/-- No wakeup is lost and no future is settled twice. -/
structure Dispatching.NoLostWakeup (s : Dispatching) : Prop where
  -- A call whose future is not done finds that future in `_pending`.
  awaited : ∀ e (c : Call), s.calls e = some c → s.dispatcher.Open c.future →
    s.dispatcher.pending e = some c.future
  -- Any result for the execution settles it.
  delivered : ∀ c r, s.calls r.executionId = some c → s.dispatcher.Open c.future →
    ∃ d, handleResult r s.dispatcher = .ok (true, d) ∧ d.futures[c.future]? = some r.future
  -- An execution that may register replaces no future that a call waits for.
  replaced : ∀ e, s.calls e = none → ∀ e' c, s.calls e' = some c → s.dispatcher.Open c.future →
    s.dispatcher.pending e ≠ some c.future
  notDone : ∀ r exc, handleResult r s.dispatcher ≠ .error exc
  once : (s.settledBy.map Prod.fst).Nodup

theorem Dispatching.Consistent.noLostWakeup {s : Dispatching} (h : s.Consistent) :
    s.NoLostWakeup := by
  refine ⟨h.awaited, ?_, ?_, fun r exc => handleResult_ne_error r s.dispatcher exc, h.once⟩
  · intro c r hcall hopen
    have hawaited := h.awaited r.executionId c hcall hopen
    rcases handleResult_cases r s.dispatcher with ⟨f, hpending, -, heq⟩ | ⟨hclosed, -⟩
    · rw [hawaited] at hpending
      cases hpending
      exact ⟨_, heq, List.getElem?_set_self hopen.lt⟩
    · exact absurd hopen (hclosed c.future hawaited)
  · intro e hnone e' c hcall hopen hpending
    obtain rfl := h.owner hcall hpending
    rw [hnone] at hcall
    cases hcall

end ConstructorPlatform
