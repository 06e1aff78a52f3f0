import ConstructorPlatform.PlatformApi.CallOrder

/-!
# Waiters — the entries of `_pending` and the calls that wait

An entry is added when a call of `dispatch_agent_step` starts, and only the result consumer takes
it away.  A call that is ended by its timer, or by a publication that fails, leaves its entry
behind unless a result for the execution has been handled before: `run_noLeakedWaiter_iff`.
-/

namespace ConstructorPlatform

open Reasoning

/-! ## 1. The calls -/

/-- The entry of an execution that has a call is the call's future, which is open until the timer
fires. -/
def Dispatching.Held (s : Dispatching) : Prop :=
  ∀ e f (c : Call), s.dispatcher.pending e = some f → s.calls e = some c →
    c.future = f ∧ (c.stage ≠ .waiting true → s.dispatcher.Open f)

/-- Every entry belongs to an execution that has a call. -/
def Dispatching.NoLeak (s : Dispatching) : Prop :=
  ∀ e f, s.dispatcher.pending e = some f → (s.calls e).isSome = true

/-- No call ends by its timer or by a failed publication while its entry is in `_pending`. -/
def Dispatching.EndsClean (s : Dispatching) : CallEvent → Prop
  | .publish e (.raised _ _) => s.dispatcher.pending e = none
  | .wake e => ∀ c, s.calls e = some c → c.stage = .waiting true → s.dispatcher.pending e = none
  | _ => True

theorem Dispatching.held_empty : Dispatching.empty.Held := fun _ _ _ h => nomatch h

theorem Dispatching.noLeak_empty : Dispatching.empty.NoLeak := fun _ _ h => nomatch h

section Steps

variable {s : Dispatching}

-- Two entries never hold one future.
theorem Dispatching.Consistent.pending_inj (h : s.Consistent) {e e' : UUID} {f : Nat}
    (hpending : s.dispatcher.pending e = some f) (hpending' : s.dispatcher.pending e' = some f) :
    e = e' := by
  obtain ⟨task, htask, rfl⟩ := h.pending e f hpending
  obtain ⟨task', htask', rfl⟩ := h.pending e' f hpending'
  rw [htask] at htask'
  cases htask'
  rfl

theorem Dispatching.Held.register (h : s.Held) (task : AgentTask) : (s.register task).Held := by
  intro e f c hpending hcall
  rcases update_cases hpending with ⟨rfl, hself⟩ | ⟨hne, hpending⟩
  · rcases update_cases hcall with ⟨-, hnew⟩ | ⟨hne, -⟩
    · cases hself
      cases hnew
      exact ⟨rfl, fun _ => Dispatcher.open_register.mpr (.inr rfl)⟩
    · exact absurd rfl hne
  · rcases update_cases hcall with ⟨heq, -⟩ | ⟨-, hcall⟩
    · exact absurd heq hne
    · obtain ⟨hfuture, hopen⟩ := h e f c hpending hcall
      exact ⟨hfuture, fun hstage => Dispatcher.open_register.mpr (.inl (hopen hstage))⟩

-- A call that goes on to another stage, or ends, while the dispatcher stays as it is.
theorem Dispatching.Held.setCall (h : s.Held) {e : UUID} {c : Call} (hcall : s.calls e = some c)
    (hstage : c.stage ≠ .waiting true) (stage : Option CallStage) :
    (s.setCall e (stage.map fun stage => { c with stage := stage })).Held := by
  intro e' f c' hpending hcall'
  rcases update_cases hcall' with ⟨rfl, hself⟩ | ⟨-, hcall'⟩
  · obtain ⟨_, -, rfl⟩ := Option.map_eq_some_iff.mp hself
    obtain ⟨hfuture, hopen⟩ := h e' f c hpending hcall
    exact ⟨hfuture, fun _ => hopen hstage⟩
  · exact h e' f c' hpending hcall'

theorem Dispatching.Held.timeout (h : s.Held) (hconsistent : s.Consistent) {c : Call}
    (hcall : s.calls c.task.executionId = some c) : (s.timeout c).Held := by
  intro e f c' hpending hcall'
  have hpending' : s.dispatcher.pending e = some f :=
    (congrFun (Dispatcher.cancel_pending c.future s.dispatcher) e).symm.trans hpending
  rcases update_cases hcall' with ⟨rfl, hself⟩ | ⟨hne, hcall'⟩
  · cases hself
    exact ⟨(h _ f c hpending' hcall).1, fun hstage => absurd rfl hstage⟩
  · obtain ⟨hfuture, hopen⟩ := h e f c' hpending' hcall'
    refine ⟨hfuture, fun hstage => Dispatcher.open_cancel.mpr ⟨hopen hstage, ?_⟩⟩
    rintro rfl
    exact hne (hconsistent.owner hcall hpending')

theorem Dispatching.Held.consume (h : s.Held) (hconsistent : s.Consistent) (r : AgentResult) :
    (s.consume r).Held := by
  rcases s.consume_cases r with ⟨g, hsettled, hopen, heq⟩ | ⟨-, heq⟩ <;> rw [heq]
  · intro e f c hpending hcall
    rcases update_cases hpending with ⟨-, hself⟩ | ⟨hne, hkept⟩
    · cases hself
    · obtain ⟨hfuture, hstill⟩ := h e f c hkept hcall
      refine ⟨hfuture, fun hstage => ?_⟩
      refine (Dispatcher.open_set r.future_done hopen.lt _ f).mpr ⟨hstill hstage, ?_⟩
      rintro rfl
      exact hne (hconsistent.pending_inj hkept hsettled)
  · intro e f c hpending hcall
    rcases update_cases hpending with ⟨-, hself⟩ | ⟨-, hpending⟩
    · cases hself
    · exact h e f c hpending hcall

/-- Every step keeps the entries with their calls. -/
theorem Dispatching.Held.step {s' : Dispatching} {event : CallEvent} (h : s.Held)
    (hconsistent : s.Consistent) (hstep : s.step event = some s') : s'.Held := by
  cases Dispatching.step_steps hstep with
  | register _ _ => exact h.register _
  | @publish e c reply hcall hstage =>
      obtain ⟨-, rfl⟩ := hconsistent.calls e c hcall
      have hgoes : c.stage ≠ .waiting true := by rw [hstage]; exact fun h => nomatch h
      cases reply with
      | ok => exact h.setCall hcall hgoes (some (.waiting false))
      | raised exc carriedOut => exact h.setCall hcall hgoes none
  | @timeout e c hcall _ =>
      obtain ⟨-, rfl⟩ := hconsistent.calls e c hcall
      exact h.timeout hconsistent hcall
  | @wake e c hcall _ =>
      obtain ⟨-, rfl⟩ := hconsistent.calls e c hcall
      intro e' f c' hpending hcall'
      rcases update_cases hcall' with ⟨-, hself⟩ | ⟨-, hcall'⟩
      · cases hself
      · exact h e' f c' hpending hcall'
  | consume r => exact h.consume hconsistent r

-- A call that ends leaks its entry, and no other.
theorem Dispatching.noLeak_end (h : s.NoLeak) {s' : Dispatching} {e : UUID}
    (hpending : s'.dispatcher.pending = s.dispatcher.pending)
    (hcalls : s'.calls = Function.update s.calls e none) :
    s'.NoLeak ↔ s.dispatcher.pending e = none := by
  unfold Dispatching.NoLeak
  rw [hpending, hcalls]
  constructor
  · intro h'
    by_contra hentry
    obtain ⟨f, hf⟩ := Option.ne_none_iff_exists'.mp hentry
    have hcall := h' e f hf
    rw [Function.update_self] at hcall
    cases hcall
  · intro hnone e' f hf
    have hne : e' ≠ e := by
      rintro rfl
      exact nomatch hnone.symm.trans hf
    rw [Function.update_of_ne hne]
    exact h e' f hf

-- A call that goes on leaks nothing.
theorem Dispatching.noLeak_goesOn (h : s.NoLeak) {s' : Dispatching} {e : UUID} {c : Call}
    (hpending : s'.dispatcher.pending = s.dispatcher.pending)
    (hcalls : s'.calls = Function.update s.calls e (some c)) : s'.NoLeak := by
  intro e' f hf
  rw [hpending] at hf
  rw [hcalls]
  by_cases heq : e' = e
  · rw [heq, Function.update_self]
    rfl
  · rw [Function.update_of_ne heq]
    exact h e' f hf

/-- A call that ends with a result or an agent error has no entry any more. -/
theorem Dispatching.Held.wake_answered (h : s.Held) {e : UUID} {c : Call}
    (hcall : s.calls e = some c) (hstage : c.stage ≠ .waiting true)
    (hdone : (s.outcome c).isSome = true) : s.dispatcher.pending e = none := by
  by_contra hentry
  obtain ⟨f, hf⟩ := Option.ne_none_iff_exists'.mp hentry
  obtain ⟨rfl, hopen⟩ := h e f c hf hcall
  have hpending : s.dispatcher.futures[c.future]? = some .pending := hopen hstage
  unfold Dispatching.outcome at hdone
  cases hs : c.stage with
  | publishing => simp [hs] at hdone
  | waiting timedOut =>
      cases timedOut with
      | true => exact hstage hs
      | false => simp [hs, hpending] at hdone

/-- A step leaks an entry exactly when it ends a call that still has one. -/
theorem Dispatching.step_noLeak_iff {s' : Dispatching} {event : CallEvent} (h : s.NoLeak)
    (hconsistent : s.Consistent) (hheld : s.Held) (hstep : s.step event = some s') :
    s'.NoLeak ↔ s.EndsClean event := by
  cases Dispatching.step_steps hstep with
  | @register task _ _ =>
      refine iff_of_true (fun e f hf => ?_) trivial
      show (Function.update s.calls task.executionId _ e).isSome = true
      rcases update_cases hf with ⟨rfl, -⟩ | ⟨hne, hf⟩
      · rw [Function.update_self]
        rfl
      · rw [Function.update_of_ne hne]
        exact h e f hf
  | @publish e c reply hcall hstage =>
      obtain ⟨-, rfl⟩ := hconsistent.calls e c hcall
      cases reply with
      | ok => exact iff_of_true (Dispatching.noLeak_goesOn h rfl rfl) trivial
      | raised exc carriedOut => exact Dispatching.noLeak_end h rfl rfl
  | @timeout e c hcall _ =>
      obtain ⟨-, rfl⟩ := hconsistent.calls e c hcall
      refine iff_of_true (Dispatching.noLeak_goesOn h ?_ rfl) trivial
      exact Dispatcher.cancel_pending c.future s.dispatcher
  | @wake e c hcall hdone =>
      obtain ⟨-, rfl⟩ := hconsistent.calls e c hcall
      have hend : (s.wake c).NoLeak ↔ s.dispatcher.pending c.task.executionId = none :=
        Dispatching.noLeak_end h rfl rfl
      rw [hend]
      refine ⟨fun hnone _ _ _ => hnone, fun hclean => ?_⟩
      by_cases hstage : c.stage = .waiting true
      · exact hclean c hcall hstage
      · exact hheld.wake_answered hcall hstage hdone
  | consume r =>
      refine iff_of_true (fun e f hf => ?_) trivial
      obtain ⟨-, hcalls, -, -⟩ := s.consume_frame r
      rw [hcalls]
      rcases s.consume_cases r with ⟨g, -, -, heq⟩ | ⟨-, heq⟩ <;> rw [heq] at hf
      · rcases update_cases hf with ⟨-, hself⟩ | ⟨-, hf⟩
        · cases hself
        · exact h e f hf
      · rcases update_cases hf with ⟨-, hself⟩ | ⟨-, hf⟩
        · cases hself
        · exact h e f hf

end Steps

/-! ## 2. The process -/

variable {Ctx : Type}

/-- Every key of `_pending` belongs to an execution that is suspended in `dispatch_agent_step`, so
that none is left when no execution is. -/
structure Process.NoLeakedWaiter (p : Process Ctx) : Prop where
  suspended : ∀ e f, p.dispatching.dispatcher.pending e = some f →
    ∃ c a, p.dispatching.calls e = some c ∧ p.activities e = some a ∧
      a.run.agentStep.isSome = true
  empty : (∀ e, p.dispatching.calls e = none) → ∀ e, p.dispatching.dispatcher.pending e = none

/-- No step ends by its timer, and no publication of a task fails, while the entry of the execution
is in `_pending`. -/
def Process.EndsClean (m : ContextModel Ctx) (p : Process Ctx) : Action Ctx → Prop
  | .publish id reply =>
      ∀ a exc carriedOut, p.activities id = some a → a.send m reply = .raised exc carriedOut →
        p.dispatching.dispatcher.pending id = none
  | .wake id => ∀ c, p.dispatching.calls id = some c → c.stage = .waiting true →
      p.dispatching.dispatcher.pending id = none
  | _ => True

/-- The process gets into a state without a leaked waiter. -/
def Process.LeaksNone (m : ContextModel Ctx) (pydantic : Pydantic) (p : Process Ctx)
    (a : Action Ctx) : Prop :=
  ∀ p', p.step m pydantic a = some p' → p'.NoLeakedWaiter

variable {m : ContextModel Ctx} {pydantic : Pydantic}

theorem Process.Sequential.noLeakedWaiter_iff {p : Process Ctx} (h : p.Sequential) :
    p.NoLeakedWaiter ↔ p.dispatching.NoLeak := by
  constructor
  · intro hnone e f hf
    obtain ⟨c, -, hcall, -⟩ := hnone.suspended e f hf
    rw [hcall]
    rfl
  · intro hnone
    refine ⟨fun e f hf => ?_, fun hidle e => ?_⟩
    · obtain ⟨c, hcall⟩ := Option.isSome_iff_exists.mp (hnone e f hf)
      obtain ⟨a, hact, hstep⟩ := h.waiting e c hcall
      exact ⟨c, a, hcall, hact, hstep⟩
    · by_contra hentry
      obtain ⟨f, hf⟩ := Option.ne_none_iff_exists'.mp hentry
      have hcall := hnone e f hf
      rw [hidle e] at hcall
      cases hcall

/-- An action that takes a step of the calls meets the condition when the step does. -/
theorem Process.step_endsClean {p p' : Process Ctx} {a : Action Ctx}
    (h : p.step m pydantic a = some p') :
    (p'.dispatching = p.dispatching ∧ p.EndsClean m a) ∨
      ∃ event, p.dispatching.step event = some p'.dispatching ∧
        (p.EndsClean m a ↔ p.dispatching.EndsClean event) := by
  cases a with
  | publish id reply =>
      simp only [Process.step] at h
      split at h
      · rename_i a hact
        obtain ⟨d, hd, hp⟩ := Option.map_eq_some_iff.mp h
        refine .inr ⟨.publish id (a.send m reply), ?_, ?_⟩
        · rw [hd]
          cases hsend : a.send m reply <;> rw [hsend] at hp <;> cases hp <;> rfl
        · cases hsend : a.send m reply with
          | ok =>
              refine iff_of_true (fun a' exc carriedOut hact' hfails => ?_) trivial
              rw [hact] at hact'
              cases hact'
              cases hsend.symm.trans hfails
          | raised exc carriedOut =>
              exact ⟨fun hclean => hclean a exc carriedOut hact hsend,
                fun hnone _ _ _ _ _ => hnone⟩
      · cases h
  | wake id =>
      cases Process.step_steps h with
      | wake _ _ _ hd => exact .inr ⟨.wake id, hd, Iff.rfl⟩
  | launch id tenantId context definition =>
      cases Process.step_steps h with
      | launch _ _ _ _ => exact .inl ⟨rfl, trivial⟩
  | advance id i =>
      cases Process.step_steps h with
      | advance _ _ _ => exact .inl ⟨rfl, trivial⟩
  | dispatch id =>
      cases Process.step_steps h with
      | refuse _ _ _ _ => exact .inl ⟨rfl, trivial⟩
      | register _ _ _ hd => exact .inr ⟨_, hd, Iff.rfl⟩
  | timeout id =>
      cases Process.step_steps h with
      | timeout hd => exact .inr ⟨_, hd, Iff.rfl⟩
  | consume r =>
      cases Process.step_steps h with
      | consume _ => exact .inr ⟨.consume r, rfl, Iff.rfl⟩

/-! ## 3. The runs -/

/-- What the runs keep as long as nothing leaks. -/
structure Process.Tended (p : Process Ctx) : Prop where
  consistent : p.dispatching.Consistent
  sequential : p.Sequential
  held : p.dispatching.Held
  noLeak : p.dispatching.NoLeak

theorem Process.tended_empty : (Process.empty : Process Ctx).Tended :=
  ⟨Dispatching.consistent_empty, Process.sequential_empty, Dispatching.held_empty,
    Dispatching.noLeak_empty⟩

theorem Process.Tended.step_iff {p p' : Process Ctx} {a : Action Ctx} (h : p.Tended)
    (hstep : p.step m pydantic a = some p') :
    (p'.dispatching.NoLeak ↔ p.EndsClean m a) ∧ p'.dispatching.Consistent ∧
      p'.dispatching.Held := by
  rcases Process.step_endsClean hstep with ⟨hsame, hclean⟩ | ⟨event, hevent, hclean⟩
  · rw [hsame]
    exact ⟨iff_of_true h.noLeak hclean, h.consistent, h.held⟩
  · exact ⟨(Dispatching.step_noLeak_iff h.noLeak h.consistent h.held hevent).trans hclean.symm,
      h.consistent.step hevent, h.held.step h.consistent hevent⟩

/-- A run passes only through states without a leaked waiter exactly when no call of it ends by its
timer or by a failed publication with its entry in `_pending`. -/
theorem run_noLeakedWaiter_iff (m : ContextModel Ctx) (pydantic : Pydantic)
    {actions : List (Action Ctx)} {p : Process Ctx}
    (hrun : runActions (Process.step m pydantic) Process.empty actions = some p) :
    EachAllowed (Process.step m pydantic) (Process.LeaksNone m pydantic) Process.empty actions ↔
      EachAllowed (Process.step m pydantic) (Process.EndsClean m) Process.empty actions := by
  refine eachAllowed_iff (I := Process.Tended) ?_ ?_ Process.tended_empty hrun
  · intro p a p' h hleaks hstep
    obtain ⟨-, hconsistent, hheld⟩ := h.step_iff hstep
    have hsequential := h.sequential.step h.consistent hstep
    exact ⟨hconsistent, hsequential, hheld, hsequential.noLeakedWaiter_iff.mp (hleaks p' hstep)⟩
  · intro p a p' h hstep
    have hsequential := h.sequential.step h.consistent hstep
    rw [← (h.step_iff hstep).1, ← hsequential.noLeakedWaiter_iff]
    constructor
    · exact fun hleaks => hleaks p' hstep
    · intro hnone p'' hstep''
      cases hstep.symm.trans hstep''
      exact hnone

theorem run_noLeakedWaiter_twoWaiting : ∃ p, runActions
      (Process.step (contextModel identifierSearch) strictPydantic) Process.empty twoWaiting =
        some p ∧
    (EachAllowed (Process.step (contextModel identifierSearch) strictPydantic)
        (Process.LeaksNone (contextModel identifierSearch) strictPydantic) Process.empty
        twoWaiting ↔
      EachAllowed (Process.step (contextModel identifierSearch) strictPydantic)
        (Process.EndsClean (contextModel identifierSearch)) Process.empty twoWaiting) := by
  have hsome : (runActions (Process.step (contextModel identifierSearch) strictPydantic)
      Process.empty twoWaiting).isSome = true := by decide
  obtain ⟨p, hrun⟩ := Option.isSome_iff_exists.mp hsome
  exact ⟨p, hrun, run_noLeakedWaiter_iff _ _ hrun⟩

/-- An execution whose only step ends by its timer. -/
def oneTimedOut : List (Action PyContext) :=
  [.launch 1 7 (.ofDict []) askDefinition, .advance 1 (.steady 0), .advance 1 (.steady 1),
   .dispatch 1, .publish 1 .ok, .timeout 1, .wake 1]

theorem leakedWaiter_oneTimedOut : ∃ p, runActions
      (Process.step (contextModel identifierSearch) strictPydantic) Process.empty oneTimedOut =
        some p ∧ ¬ p.NoLeakedWaiter := by
  have hleft : (runActions (Process.step (contextModel identifierSearch) strictPydantic)
      Process.empty oneTimedOut).map (fun p => (p.dispatching.dispatcher.pending 1,
        (p.dispatching.calls 1).isSome)) = some (some 0, false) := by decide
  obtain ⟨p, hrun, hp⟩ := Option.map_eq_some_iff.mp hleft
  obtain ⟨hpending, hcall⟩ := Prod.mk.inj hp
  refine ⟨p, hrun, fun h => ?_⟩
  obtain ⟨c, -, hc, -⟩ := h.suspended 1 0 hpending
  rw [hc] at hcall
  cases hcall

end ConstructorPlatform
