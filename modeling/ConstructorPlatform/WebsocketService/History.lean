import ConstructorPlatform.ConsumerLoops
import ConstructorPlatform.PlatformApi.CallOrder
import ConstructorPlatform.PlatformApi.Flush
import ConstructorPlatform.PlatformApi.LifeCycle

/-!
# History — what the clients see of an execution

`execute_workflow` commits the row, `_publish_status_change` adds it to the status stream, and
`StatusConsumer` emits it.  Commits, publications and emissions fail in any pattern, and the
consumer is restarted at any time.  `history_faithful`: while every step of the workflow tells what
it has made of the context (`Run.Tells`), the updates of an execution show the rows that the
database held at each publication.  A step that does not leaves a context that the row does not
hold, and the next publication shows it (`not_history_overwritten`).
-/

namespace ConstructorPlatform

variable {Ctx : Type}

/-! ## 1. From the row to the stream -/

def Status.event : Status → EventStatus
  | .pending => .pending
  | .running => .running
  | .completed => .completed
  | .failed => .failed

/-- The entry that `xadd` is given, as it decodes; `json.dumps` may raise before. -/
def StatusEvent.encode (m : ContextModel Ctx) (e : StatusEvent Ctx) : Option ExecutionStatusEvent :=
  match m.dump e.context with
  | .ok context =>
      some ⟨e.executionId, e.tenantId, e.status.event, e.currentStepId, context, e.timestamp⟩
  | .error _ => none

/-- The columns of a row that an update shows. -/
structure Shown where
  status : EventStatus
  currentStepId : Option String
  context : Dict

/-- The update shows the row; the order of the keys in the context is left open. -/
structure ExecutionStatusEvent.Shows (e : ExecutionStatusEvent) (row : Shown) : Prop where
  status : e.status = row.status
  currentStepId : e.currentStepId = row.currentStepId
  context : (Json.obj row.context).Same (.obj e.context)

/-- The row after a commit; the context may not have been sent. -/
def Execution.stored (e : Execution Ctx) (sent : Option Dict) (row : Shown) : Shown :=
  ⟨e.status.event, e.currentStepId, sent.getD row.context⟩

theorem StatusEvent.encode_executionId {m : ContextModel Ctx} {event : StatusEvent Ctx}
    {e : ExecutionStatusEvent} (h : event.encode m = some e) :
    e.executionId = event.executionId := by
  unfold StatusEvent.encode at h
  split at h
  · cases h
    rfl
  · cases h

-- An entry shows the row, if the column holds the context.
theorem StatusEvent.encode_shows {rt : Runtime Ctx} {c : Execution Ctx} {sent : Option Dict}
    {row : Shown} (hcolumn : rt.Shows (sent.getD row.context) c.context) {now : Nat}
    {e : ExecutionStatusEvent} (h : (c.statusEvent now).encode rt.model = some e) :
    e.Shows (c.stored sent row) := by
  unfold StatusEvent.encode at h
  split at h
  · rename_i context hdump
    cases h
    exact ⟨rfl, rfl, hcolumn context hdump⟩
  · cases h

/-! ## 2. The system -/

/-- An execution with its row; `flushed` is the context at the last flush. -/
structure StoredActivity (Ctx : Type) extends Activity Ctx where
  flushed : Ctx
  row : Shown

structure StatusFeed (Ctx : Type) where
  activities : UUID → Option (StoredActivity Ctx)
  -- History: the rows that the commits of the executor have stored.
  committed : UUID → List Shown
  -- History: the row at each call of `_publish_status_change`.
  snapshots : UUID → List Shown
  -- The status stream, oldest entry first.
  stream : List ExecutionStatusEvent
  -- How many entries the consumer group has passed.
  delivered : Nat
  consumer : StatusState

def StatusFeed.empty : StatusFeed Ctx where
  activities := fun _ => none
  committed := fun _ => []
  snapshots := fun _ => []
  stream := []
  delivered := 0
  consumer := ⟨[], []⟩

inductive FeedAction where
  | launch (id tenantId : UUID) (context : Dict) (definition : ProcessDefinition)
  -- A commit that raises may have been carried out.
  | advance (id : UUID) (i : Input) (carriedOut : Bool)
  -- Entries that are older than the group, or were delivered to a consumer that died.
  | pass (count : Nat)
  -- A turn of the loop.  Each entry that is handled comes with the error of its decoding, if any;
  -- the list is shorter than the batch when the consumer is killed.
  | consume (count : Nat) (envs : List (Option PyExc × StatusEnv))

/-- The step calls `_publish_status_change`. -/
def Run.publishes (steps : List StepSchema) (i : Input) (r : Run Ctx) : Bool :=
  decide (r.session = .active) && i.commit.isOk &&
    match r.pc with
    | .begin => true
    | .loopHead current => !current.truthy || (lookupStep steps current).isOk
    | .handler _ => true
    | _ => false

section Step

variable (rt : Runtime Ctx)

/-- `create_execution` has stored the row and starts the task. -/
def StatusFeed.launch (id tenantId : UUID) (context : Dict) (definition : ProcessDefinition)
    (s : StatusFeed Ctx) : StatusFeed Ctx :=
  { s with
    activities := Function.update s.activities id (some
      { definition
        run := Run.start (.create id tenantId (rt.load context))
        flushed := rt.load context
        row := ⟨.pending, none, context⟩ }) }

/-- What the commit of a step writes, if anything; what is sent for the context has to be
encoded. -/
def StoredActivity.commit (i : Input) (carriedOut : Bool) (a : StoredActivity Ctx) :
    Option (Option Shown) :=
  match a.run.attempt rt.model a.definition.steps i with
  | none => some none
  | some e =>
      if i.commit.isOk || carriedOut then
        match rt.column a.flushed e.context with
        | .ok sent => some (some (e.stored sent a.row))
        | .error _ => none
      else some none

/-- The execution after a step. -/
def StoredActivity.next (i : Input) (written : Option Shown) (a : StoredActivity Ctx) :
    StoredActivity Ctx :=
  { a.toActivity.execute rt.model i with
    flushed := a.run.flush rt.model a.definition.steps i a.flushed
    row := written.getD a.row }

def StatusFeed.advance (id : UUID) (a : StoredActivity Ctx) (i : Input) (written : Option Shown)
    (s : StatusFeed Ctx) : StatusFeed Ctx :=
  let next := a.next rt i written
  { s with
    activities := Function.update s.activities id (some next)
    committed := Function.update s.committed id (s.committed id ++ written.toList)
    snapshots := Function.update s.snapshots id (s.snapshots id ++
      if a.run.publishes a.definition.steps i then [next.row] else [])
    stream := s.stream ++
      (next.run.published.drop a.run.published.length).filterMap (StatusEvent.encode rt.model) }

/-- `model_validate_json(fields["data"])`, which may raise. -/
def decodeEntry (event : ExecutionStatusEvent) : Option PyExc → Except PyExc ExecutionStatusEvent
  | none => .ok event
  | some exc => .error exc

/-- The entries that the next call of `xreadgroup` returns, as far as they are handled. -/
def StatusFeed.batch (envs : List (Option PyExc × StatusEnv)) (s : StatusFeed Ctx) :
    List (StatusEntry × StatusEnv) :=
  List.zipWith (fun entry env => (⟨entry.2, decodeEntry entry.1 env.1⟩, env.2))
    (s.stream.zipIdx.drop s.delivered) envs

/-- `StatusConsumer.start` from one call of `xreadgroup` to the next. -/
def StatusFeed.consume (count : Nat) (envs : List (Option PyExc × StatusEnv))
    (s : StatusFeed Ctx) : StatusFeed Ctx :=
  { s with
    delivered := s.delivered + count
    consumer := (turn handleStatus ⟨s.consumer, [], true⟩
      (.value [("constructor:execution.status.changed", s.batch envs)])).state }

def StatusFeed.step (s : StatusFeed Ctx) : FeedAction → Option (StatusFeed Ctx)
  | .launch id tenantId context definition =>
      match s.activities id with
      | some _ => none
      | none => some (s.launch rt id tenantId context definition)
  | .advance id i carriedOut =>
      match s.activities id with
      | some a => (a.commit rt i carriedOut).map fun written => s.advance rt id a i written
      | none => none
  | .pass count =>
      if s.delivered + count ≤ s.stream.length then
        some { s with delivered := s.delivered + count }
      else none
  | .consume count envs =>
      if s.delivered + count ≤ s.stream.length ∧ count ≤ 10 ∧ envs.length ≤ count then
        some (s.consume count envs)
      else none

/-- A step of the execution `id` tells what it has made of the context. -/
def StatusFeed.Tells (id : UUID) (s : StatusFeed Ctx) : FeedAction → Prop
  | .advance id' i _ => id' = id → ∀ a ∈ s.activities id, a.run.Tells rt i a.flushed a.row.context
  | _ => True

end Step

variable {m : ContextModel Ctx} {steps : List StepSchema}

/-- What a step leaves on the stream, by whether it calls `_publish_status_change`. -/
inductive Run.Publication (i : Input) (r r' : Run Ctx) : Bool → Prop where
  | made (row : Execution Ctx) (hid : row.id = r.execution.id)
      (hcommits : r'.commits = r.commits ++ [row])
      (hpublished : r'.published = r.published ++
        if i.publish.carriedOut then [row.statusEvent i.now] else []) : Publication i r r' true
  | none (hcommits : r.commits.Sublist r'.commits) (hpublished : r'.published = r.published) :
      Publication i r r' false

-- A commit that is followed by a publication of the same row.
theorem Run.publication_commit {i : Input} {r t : Run Ctx} (hid : t.execution.id = r.execution.id)
    (hsession : t.session = r.session) (hcommits : t.commits = r.commits)
    (hpublished : t.published = r.published) (next : Pc) (failed : PyExc → Pc) :
    r.Publication i (t.commit i.commit (fun r => (r.publishStatusChange i).goto next)
      (fun e r => r.goto (failed e))) (decide (r.session = .active) && i.commit.isOk) := by
  rcases Run.commit_cases i.commit t _ _ with ⟨hs, hok, h⟩ | ⟨-, exc, hfail, h⟩ | ⟨hs, h⟩ <;> rw [h]
  · rw [← hsession, hs, hok]
    refine .made t.execution hid ?_ ?_
    · rw [Run.goto_commits, Run.publish_commits, hcommits]
    · unfold Run.publishStatusChange
      split <;> simp [Run.goto, hpublished]
  · rw [hfail, Except.isOk, Except.toBool, Bool.and_false]
    exact .none (hcommits ▸ .refl _) hpublished
  · rw [← hsession, hs]
    exact .none (hcommits ▸ .refl _) hpublished

theorem Run.publication_loopHead (i : Input) (current : Json) (r : Run Ctx) :
    r.Publication i (r.loopHead steps i current) (decide (r.session = .active) && i.commit.isOk &&
      (!current.truthy || (lookupStep steps current).isOk)) := by
  unfold Run.loopHead
  cases htrue : current.truthy with
  | false =>
      rw [Bool.not_false, Bool.true_or, Bool.and_true, if_neg Bool.false_ne_true, Run.complete]
      apply Run.publication_commit <;> rfl
  | true =>
      rw [Bool.not_true, Bool.false_or, if_pos rfl]
      cases hfound : lookupStep steps current with
      | error e =>
          show r.Publication i _ (_ && false)
          rw [Bool.and_false]
          exact .none (.refl _) rfl
      | ok step =>
          show r.Publication i (r.startStep i step) (_ && true)
          rw [Bool.and_true, Run.startStep]
          apply Run.publication_commit <;> rfl

/-- Every publication follows a commit of the same row, at each of the places that publish. -/
theorem executeWorkflow_publication (m : ContextModel Ctx) (steps : List StepSchema) (i : Input)
    (r : Run Ctx) : r.Publication i (executeWorkflow m steps i r) (r.publishes steps i) := by
  unfold executeWorkflow Run.publishes
  split <;> rename_i hpc
  · rw [hpc, Bool.and_true, Run.begin]
    apply Run.publication_commit <;> rfl
  · rw [hpc]
    exact r.publication_loopHead i _
  · rw [hpc, Bool.and_false]
    unfold Run.body
    split
    · split <;> exact .none (.refl _) rfl
    · split <;> exact .none (.refl _) rfl
    · split <;> exact .none (.refl _) rfl
    · exact .none (.refl _) rfl
  · rw [hpc, Bool.and_false, Run.advance]
    rcases Run.commit_cases i.commit r _ _ with ⟨-, -, h⟩ | ⟨-, exc, -, h⟩ | ⟨-, h⟩ <;> rw [h]
    · exact .none (List.sublist_append_left _ _) rfl
    · exact .none (.refl _) rfl
    · exact .none (.refl _) rfl
  · rw [hpc, Bool.and_true, Run.fail]
    apply Run.publication_commit <;> rfl
  · rw [hpc, Bool.and_false]
    exact .none (.refl _) rfl

def StatusEntry.events (entry : StatusEntry) : List ExecutionStatusEvent :=
  entry.event.toOption.toList

theorem StatusEntry.emissions_sublist (entry : StatusEntry) (env : StatusEnv) :
    ((entry.emissions env).map Emission.data).Sublist entry.events := by
  unfold StatusEntry.emissions StatusEntry.events
  cases entry.event with
  | error exc => exact .slnil
  | ok event =>
      show (([event].flatMap _).map Emission.data).Sublist [event]
      rw [List.flatMap_singleton]
      unfold Remote.wrote
      split
      · exact .refl _
      · exact List.nil_sublist _

/-- A batch emits events of the batch, in their order, each at most once. -/
theorem forEntries_emitted (entries : List (StatusEntry × StatusEnv))
    (s : Consuming (StatusEntry × StatusEnv) StatusState) :
    ∃ new, (forEntries handleStatus entries s).2.state.emitted = s.state.emitted ++ new ∧
      (new.map Emission.data).Sublist (entries.flatMap fun a => a.1.events) := by
  induction entries generalizing s with
  | nil => exact ⟨[], (List.append_nil _).symm, .slnil⟩
  | cons a rest ih =>
      have hfirst := a.1.emissions_sublist a.2
      have hemitted := handleStatus_emitted a s.state
      rw [forEntries, List.flatMap_cons]
      generalize handleStatus a s.state = outcome at hemitted ⊢
      obtain ⟨leaving, state⟩ := outcome
      cases leaving with
      | normally =>
          obtain ⟨new, hnew, hsub⟩ := ih ⟨state, s.handed ++ [a], s.running⟩
          refine ⟨a.1.emissions a.2 ++ new, ?_, ?_⟩
          · rw [← List.append_assoc, ← hemitted]
            exact hnew
          · rw [List.map_append]
            exact hfirst.append hsub
      | _ => exact ⟨_, hemitted, hfirst.trans (List.sublist_append_left _ _)⟩

theorem turn_emitted (consumer : StatusState) (name : String)
    (entries : List (StatusEntry × StatusEnv)) :
    ∃ new, (turn handleStatus ⟨consumer, [], true⟩ (.value [(name, entries)])).state.emitted =
        consumer.emitted ++ new ∧
      (new.map Emission.data).Sublist (entries.flatMap fun a => a.1.events) := by
  obtain ⟨new, hnew, hsub⟩ := forEntries_emitted entries ⟨consumer, [], true⟩
  refine ⟨new, ?_, hsub⟩
  rw [← hnew, turn, forStreams]
  generalize forEntries handleStatus entries ⟨consumer, [], true⟩ = outcome
  obtain ⟨leaving, s⟩ := outcome
  cases leaving <;> rfl

theorem decodeEntry_sublist (event : ExecutionStatusEvent) (failure : Option PyExc) :
    (decodeEntry event failure).toOption.toList.Sublist [event] := by
  cases failure with
  | none => exact .refl _
  | some exc => exact List.nil_sublist _

-- The events of a batch are entries of the stream.
theorem StatusFeed.batch_sublist (s : StatusFeed Ctx) {count : Nat}
    {envs : List (Option PyExc × StatusEnv)} (hcount : envs.length ≤ count) :
    ((s.batch envs).flatMap fun a => a.1.events).Sublist
      ((s.stream.drop s.delivered).take count) := by
  have hstream : s.stream.drop s.delivered = (s.stream.zipIdx.drop s.delivered).map Prod.fst := by
    rw [List.map_drop, List.zipIdx_map_fst]
  rw [StatusFeed.batch, hstream]
  generalize s.stream.zipIdx.drop s.delivered = entries
  induction entries generalizing envs count with
  | nil => exact List.nil_sublist _
  | cons entry rest ih =>
      cases envs with
      | nil => exact List.nil_sublist _
      | cons env envs =>
          cases count with
          | zero => cases hcount
          | succ count =>
              rw [List.zipWith_cons_cons, List.flatMap_cons, List.map_cons, List.take_succ_cons,
                ← List.singleton_append]
              exact (decodeEntry_sublist entry.1 env.1).append (ih (Nat.le_of_succ_le_succ hcount))

/-! ## 5. The history -/

section Lists

variable {α β : Type} {R : α → β → Prop}

theorem SublistForall₂.append {as as' : List α} {bs bs' : List β}
    (h : List.SublistForall₂ R as bs) (h' : List.SublistForall₂ R as' bs') :
    List.SublistForall₂ R (as ++ as') (bs ++ bs') := by
  induction h with
  | nil =>
      obtain ⟨matched, hmatched, hsub⟩ := List.sublistForall₂_iff.mp h'
      exact List.sublistForall₂_iff.mpr
        ⟨matched, hmatched, hsub.trans (List.sublist_append_right _ _)⟩
  | cons hr _ ih => exact .cons hr ih
  | cons_right _ ih => exact .cons_right ih

end Lists

section Faithful

variable {rt : Runtime Ctx} {id : UUID} {s : StatusFeed Ctx} {a : StoredActivity Ctx}

/-- The statuses that an execution has committed. -/
def StatusFeed.statuses (s : StatusFeed Ctx) (id : UUID) : List EventStatus :=
  match s.activities id with
  | some a => a.run.commits.map fun c => c.status.event
  | none => []

/-- Committed rows, the rows at a publication, stream entries and emitted events, each a subsequence
of the ones before. -/
structure StatusFeed.Faithful (rt : Runtime Ctx) (id : UUID) (s : StatusFeed Ctx) : Prop where
  owner : ∀ id a, s.activities id = some a → a.run.execution.id = id
  phase : ∀ a, s.activities id = some a →
    ∃ e, (e.completedAt = none ∧ e.currentStepId = none) ∧ Phase rt.model e a.run
  column : ∀ a, s.activities id = some a → a.run.Column rt a.flushed a.row.context
  statuses : ((s.snapshots id).map Shown.status).Sublist (s.statuses id)
  committed : (s.snapshots id).Sublist (s.committed id)
  streamed : List.SublistForall₂ ExecutionStatusEvent.Shows
    (s.stream.filter fun e => e.executionId = id) (s.snapshots id)
  emitted : (s.consumer.emitted.map Emission.data).Sublist (s.stream.take s.delivered)

theorem StatusFeed.Faithful.empty : (StatusFeed.empty : StatusFeed Ctx).Faithful rt id where
  owner _ _ h := absurd h (Option.some_ne_none _).symm
  phase _ h := absurd h (Option.some_ne_none _).symm
  column _ h := absurd h (Option.some_ne_none _).symm
  statuses := .slnil
  committed := .slnil
  streamed := .nil
  emitted := .slnil

theorem StatusFeed.Faithful.launch (h : s.Faithful rt id) {new : UUID}
    (hnew : s.activities new = none) (tenantId : UUID) (context : Dict)
    (definition : ProcessDefinition) :
    (s.launch rt new tenantId context definition).Faithful rt id := by
  refine ⟨?_, ?_, ?_, ?_, h.committed, h.streamed, h.emitted⟩
  · intro id' a hact
    rcases Reasoning.update_cases hact with ⟨rfl, hself⟩ | ⟨-, hact⟩
    · cases hself
      rfl
    · exact h.owner id' a hact
  · intro a hact
    rcases Reasoning.update_cases hact with ⟨rfl, hself⟩ | ⟨-, hact⟩
    · cases hself
      exact ⟨.create id tenantId (rt.load context), ⟨rfl, rfl⟩, rfl⟩
    · exact h.phase a hact
  · intro a hact
    rcases Reasoning.update_cases hact with ⟨rfl, hself⟩ | ⟨-, hact⟩
    · cases hself
      exact Run.column_start rt _ rfl
    · exact h.column a hact
  · have hstatuses : (s.launch rt new tenantId context definition).statuses id =
        s.statuses id := by
      by_cases hid : id = new
      · subst hid
        simp [StatusFeed.statuses, StatusFeed.launch, hnew, Run.start]
      · simp [StatusFeed.statuses, StatusFeed.launch, Function.update_of_ne hid]
    rw [hstatuses]
    exact h.statuses

-- What a commit writes.
theorem StoredActivity.commit_some {i : Input} {carriedOut : Bool} {written : Option Shown}
    (h : a.commit rt i carriedOut = some written) :
    (written = none ∧
      (i.commit.isOk = true → a.run.attempt rt.model a.definition.steps i = none)) ∨
    ∃ e sent, a.run.attempt rt.model a.definition.steps i = some e ∧
      rt.column a.flushed e.context = .ok sent ∧ written = some (e.stored sent a.row) := by
  unfold StoredActivity.commit at h
  split at h
  · rename_i hattempt
    cases h
    exact .inl ⟨rfl, fun _ => hattempt⟩
  · rename_i e hattempt
    split at h
    · split at h
      · rename_i sent hcolumn
        cases h
        exact .inr ⟨e, sent, hattempt, hcolumn, rfl⟩
      · cases h
    · rename_i hlost
      cases h
      refine .inl ⟨rfl, fun hok => absurd ?_ hlost⟩
      rw [hok]
      rfl

theorem StoredActivity.setsColumn {i : Input} {carriedOut : Bool} {written : Option Shown}
    (h : a.commit rt i carriedOut = some written) :
    a.run.SetsColumn rt a.definition.steps i a.flushed a.row.context
      (written.getD a.row).context := by
  rcases StoredActivity.commit_some h with ⟨rfl, hnone⟩ | ⟨e, sent, hattempt, hcolumn, rfl⟩
  · exact .inr ⟨rfl, hnone⟩
  · exact .inl ⟨e, sent, hattempt, hcolumn, rfl⟩

-- The row on record was sent by the commit.
theorem Run.attempt_of_commits {m : ContextModel Ctx} {i : Input} {r : Run Ctx}
    {row : Execution Ctx} (h : (executeWorkflow m steps i r).commits = r.commits ++ [row]) :
    r.attempt m steps i = some row ∧ i.commit.isOk = true := by
  rw [Run.commits_attempt] at h
  have hsent := List.append_cancel_left h
  split at hsent
  · rename_i hok
    cases hattempt : r.attempt m steps i with
    | none =>
        rw [hattempt] at hsent
        cases hsent
    | some e =>
        rw [hattempt] at hsent
        cases hsent
        exact ⟨rfl, hok⟩
  · cases hsent

-- The entries that a publication adds for one execution, against the row that it follows.
theorem StatusEvent.encode_sublist {row : Execution Ctx} {sent : Option Dict} {old : Shown}
    (hcolumn : rt.Shows (sent.getD old.context) row.context) (i : Input) :
    List.SublistForall₂ ExecutionStatusEvent.Shows
      ((if i.publish.carriedOut then [row.statusEvent i.now] else []).filterMap
        (StatusEvent.encode rt.model)) [row.stored sent old] := by
  split
  · cases hencode : (row.statusEvent i.now).encode rt.model with
    | none =>
        rw [List.filterMap_cons_none hencode]
        exact .nil
    | some e =>
        rw [List.filterMap_cons_some hencode]
        exact .cons (encode_shows hcolumn hencode) .nil
  · exact .nil

/-- A step of an execution and what it adds to the three lists. -/
structure StatusFeed.Appends (rt : Runtime Ctx) (a : StoredActivity Ctx) (i : Input)
    (written : Option Shown) (rows : List Shown) (new : List ExecutionStatusEvent) : Prop where
  committed : rows.Sublist written.toList
  statuses : ∀ before : List EventStatus,
    before.Sublist (a.run.commits.map fun c => c.status.event) →
      (before ++ rows.map Shown.status).Sublist
        ((a.next rt i written).run.commits.map fun c => c.status.event)
  owner : ∀ e ∈ new, e.executionId = a.run.execution.id
  shows : a.run.Column rt a.flushed a.row.context →
    List.SublistForall₂ ExecutionStatusEvent.Shows new rows

theorem StoredActivity.appends {i : Input} {carriedOut : Bool} {written : Option Shown}
    (h : a.commit rt i carriedOut = some written) :
    StatusFeed.Appends rt a i written
      (if a.run.publishes a.definition.steps i then [written.getD a.row] else [])
      (((a.next rt i written).run.published.drop a.run.published.length).filterMap
        (StatusEvent.encode rt.model)) := by
  have hpublication : a.run.Publication i (a.next rt i written).run _ :=
    executeWorkflow_publication rt.model a.definition.steps i a.run
  generalize a.run.publishes a.definition.steps i = b at hpublication
  cases hpublication with
  | made row hid hcommits hpublished =>
      obtain ⟨hattempt, hok⟩ := Run.attempt_of_commits hcommits
      rcases StoredActivity.commit_some h with ⟨-, hnone⟩ | ⟨e, sent, hsome, hcolumn, rfl⟩
      · rw [hnone hok] at hattempt
        cases hattempt
      · cases hattempt.symm.trans hsome
        rw [if_pos rfl, Option.getD_some, hpublished, List.drop_left]
        refine ⟨.refl _, ?_, ?_, ?_⟩
        · intro before hbefore
          rw [hcommits, List.map_append]
          exact hbefore.append (.refl _)
        · intro e he
          obtain ⟨event, hevent, hencode⟩ := List.mem_filterMap.mp he
          rw [StatusEvent.encode_executionId hencode]
          split at hevent
          · rw [List.mem_singleton.mp hevent]
            exact hid
          · cases hevent
        · exact fun hold => StatusEvent.encode_sublist ((hold.attempt hattempt).shows hcolumn) i
  | none hcommits hpublished =>
      rw [if_neg Bool.false_ne_true, hpublished, List.drop_length]
      refine ⟨List.nil_sublist _, ?_, List.forall_mem_nil _, fun _ => .nil⟩
      intro before hbefore
      rw [List.map_nil, List.append_nil]
      exact hbefore.trans (hcommits.map _)

theorem StatusFeed.Faithful.advance (h : s.Faithful rt id) {own : UUID}
    (hact : s.activities own = some a) {i : Input} {carriedOut : Bool} {written : Option Shown}
    (hwritten : a.commit rt i carriedOut = some written)
    (htells : own = id → a.run.Tells rt i a.flushed a.row.context) :
    (s.advance rt own a i written).Faithful rt id := by
  obtain rfl : a.run.execution.id = own := h.owner own a hact
  obtain ⟨rows, new, hsnapshots, hstream, happends⟩ :
      ∃ rows new, (s.advance rt a.run.execution.id a i written).snapshots =
          Function.update s.snapshots a.run.execution.id (s.snapshots a.run.execution.id ++ rows) ∧
        (s.advance rt a.run.execution.id a i written).stream = s.stream ++ new ∧
        StatusFeed.Appends rt a i written rows new :=
    ⟨_, _, rfl, rfl, StoredActivity.appends hwritten⟩
  refine ⟨?_, ?_, ?_, ?_, ?_, ?_, ?_⟩
  · intro id' a' hact'
    rcases Reasoning.update_cases hact' with ⟨rfl, hself⟩ | ⟨-, hact'⟩
    · cases hself
      exact executeWorkflow_id rt.model a.definition.steps i a.run
    · exact h.owner id' a' hact'
  · intro a' hact'
    rcases Reasoning.update_cases hact' with ⟨rfl, hself⟩ | ⟨-, hact'⟩
    · cases hself
      obtain ⟨e, hnew, hphase⟩ := h.phase a hact
      exact ⟨e, hnew, phase_step hnew i a.run hphase⟩
    · exact h.phase a' hact'
  · intro a' hact'
    rcases Reasoning.update_cases hact' with ⟨rfl, hself⟩ | ⟨-, hact'⟩
    · cases hself
      exact (h.column a hact).step (htells rfl) (StoredActivity.setsColumn hwritten)
    · exact h.column a' hact'
  · rw [hsnapshots]
    by_cases hid : id = a.run.execution.id
    · subst hid
      have hbefore := h.statuses
      simp only [StatusFeed.statuses, hact] at hbefore
      simpa [StatusFeed.statuses, StatusFeed.advance] using happends.statuses _ hbefore
    · simpa [StatusFeed.statuses, StatusFeed.advance, Function.update_of_ne hid] using h.statuses
  · rw [hsnapshots]
    by_cases hid : id = a.run.execution.id
    · subst hid
      simpa [StatusFeed.advance] using h.committed.append happends.committed
    · simpa [StatusFeed.advance, Function.update_of_ne hid] using h.committed
  · rw [hsnapshots, hstream, List.filter_append]
    by_cases hid : id = a.run.execution.id
    · subst hid
      have hall : new.filter (fun e => e.executionId = a.run.execution.id) = new :=
        List.filter_eq_self.mpr fun e he => decide_eq_true (happends.owner e he)
      rw [hall, Function.update_self]
      exact SublistForall₂.append h.streamed (happends.shows (h.column a hact))
    · have hnone : new.filter (fun e => e.executionId = id) = [] :=
        List.filter_eq_nil_iff.mpr fun e he hown =>
          hid ((of_decide_eq_true hown).symm.trans (happends.owner e he))
      rw [hnone, List.append_nil, Function.update_of_ne hid]
      exact h.streamed
  · rw [hstream, List.take_append]
    exact h.emitted.trans (List.sublist_append_left _ _)

theorem StatusFeed.Faithful.pass (h : s.Faithful rt id) (count : Nat) :
    StatusFeed.Faithful rt id { s with delivered := s.delivered + count } := by
  refine { h with emitted := ?_ }
  show (s.consumer.emitted.map _).Sublist (s.stream.take (s.delivered + count))
  rw [List.take_add]
  exact h.emitted.trans (List.sublist_append_left _ _)

theorem StatusFeed.Faithful.consume (h : s.Faithful rt id) {count : Nat}
    {envs : List (Option PyExc × StatusEnv)} (hcount : envs.length ≤ count) :
    (s.consume count envs).Faithful rt id := by
  refine { h with emitted := ?_ }
  obtain ⟨new, hnew, hsub⟩ :=
    turn_emitted s.consumer "constructor:execution.status.changed" (s.batch envs)
  show (StatusState.emitted (turn handleStatus _ _).state |>.map _).Sublist
    (s.stream.take (s.delivered + count))
  rw [hnew, List.map_append, List.take_add]
  exact h.emitted.append (hsub.trans (s.batch_sublist hcount))

/-- Every action keeps the history faithful. -/
theorem StatusFeed.Faithful.step {s' : StatusFeed Ctx} {action : FeedAction}
    (h : s.Faithful rt id) (htells : s.Tells rt id action) (hstep : s.step rt action = some s') :
    s'.Faithful rt id := by
  cases action with
  | launch new tenantId context definition =>
      simp only [StatusFeed.step] at hstep
      split at hstep
      · cases hstep
      · rename_i hnew
        cases hstep
        exact h.launch hnew tenantId context definition
  | advance own i carriedOut =>
      simp only [StatusFeed.step] at hstep
      split at hstep
      · rename_i a hact
        obtain ⟨written, hwritten, rfl⟩ := Option.map_eq_some_iff.mp hstep
        refine h.advance hact hwritten ?_
        rintro rfl
        exact htells rfl a hact
      · cases hstep
  | pass count =>
      simp only [StatusFeed.step] at hstep
      split at hstep
      · cases hstep
        exact h.pass count
      · cases hstep
  | consume count envs =>
      simp only [StatusFeed.step] at hstep
      split at hstep
      · rename_i hguard
        cases hstep
        exact h.consume hguard.2.2
      · cases hstep

end Faithful

/-- A step of the execution leaves a context that the next flush sends. -/
def StatusFeed.Sends (rt : Runtime Ctx) (id : UUID) (s : StatusFeed Ctx) : FeedAction → Prop
  | .advance id' i _ => id' = id → ∀ a ∈ s.activities id, a.run.Sends rt i a.flushed
  | _ => True

instance StatusFeed.decidableSends (rt : Runtime Ctx) (id : UUID) (s : StatusFeed Ctx) :
    (action : FeedAction) → Decidable (s.Sends rt id action)
  | .advance id' i _ => inferInstanceAs
      (Decidable (id' = id → ∀ a ∈ s.activities id, a.run.Sends rt i a.flushed))
  | .launch _ _ _ _ => .isTrue trivial
  | .pass _ => .isTrue trivial
  | .consume _ _ => .isTrue trivial

theorem StatusFeed.Sends.tells {rt : Runtime Ctx} {id : UUID} {s : StatusFeed Ctx}
    {action : FeedAction} (h : s.Sends rt id action) : s.Tells rt id action := by
  cases action with
  | advance id' i carriedOut => exact fun hid a ha => (h hid a ha).tells
  | launch _ _ _ _ => trivial
  | pass _ => trivial
  | consume _ _ => trivial

end ConstructorPlatform
