import ConstructorPlatform.AgentOrchestration.Consumer
import ConstructorPlatform.PlatformApi.Dispatcher
import ConstructorPlatform.Reasoning.Drain

/-!
# ConsumerLoops — the three consumer loops

`RedisConsumer.start` (agent tasks), `start_result_consumer` (agent results) and
`StatusConsumer.start` (execution status) are one loop around three ways to handle an entry.  An
exception that leaves the handling of an entry is caught above the loops over the batch, so the rest
of the batch is never handled: `handed_once_iff`.
-/

namespace ConstructorPlatform

/-! ## 1. The loop -/

/-- How a call of `xreadgroup` ends: the entries come in one list for each stream. -/
abbrev Read (α : Type) := Awaited (List (String × List α))

def Read.entries {α : Type} : Read α → List α
  | .value streams => streams.flatMap Prod.snd
  | _ => []

def delivered {α : Type} (reads : List (Read α)) : List α := (reads.map Read.entries).flatten

structure Consuming (α σ : Type) where
  state : σ
  -- History: the entries that were handed to the code that handles them.
  handed : List α
  running : Bool

section Loop

variable {α σ : Type} (handle : α → σ → Leaving × σ)

/-- `for entry_id, fields in entries:` -/
def forEntries : List α → Consuming α σ → Leaving × Consuming α σ
  | [], s => (.normally, s)
  | entry :: rest, s =>
      let (leaving, state) := handle entry s.state
      let s := { s with state := state, handed := s.handed ++ [entry] }
      match leaving with
      | .normally => forEntries rest s
      | leaving => (leaving, s)

/-- `for _stream, entries in (messages or []):` -/
def forStreams : List (String × List α) → Consuming α σ → Leaving × Consuming α σ
  | [], s => (.normally, s)
  | (_, entries) :: rest, s =>
      match forEntries handle entries s with
      | (.normally, s) => forStreams rest s
      | left => left

/-- One turn of `while True:`. -/
def turn (s : Consuming α σ) : Read α → Consuming α σ
  | .value streams =>
      match forStreams handle streams s with
      | (.cancelled, s) => { s with running := false }
      | (_, s) => s  -- an exception is logged
  | .raised _ => s
  | .cancelled => { s with running := false }

def consumeLoop (reads : List (Read α)) (state : σ) : Consuming α σ :=
  reads.foldl (fun s read => if s.running then turn handle s read else s) ⟨state, [], true⟩

/-! ## 2. What a loop hands on -/

def Leaving.escapes : Leaving → Bool
  | .normally => false
  | _ => true

variable {handle}

/-- What a `for` statement over these entries does when nothing is cancelled. -/
structure HandsOn (leaves : α → Leaving) (entries : List α) (s : Consuming α σ)
    (left : Leaving × Consuming α σ) : Prop where
  handed : left.2.handed =
    s.handed ++ Reasoning.untilEscape (fun a => (leaves a).escapes) entries
  running : left.2.running = s.running
  uncancelled : left.1 ≠ .cancelled
  escapes : left.1.escapes = entries.any fun a => (leaves a).escapes

theorem forEntries_handsOn {leaves : α → Leaving} {entries : List α}
    (hleaves : ∀ a ∈ entries, leaves a ≠ .cancelled ∧ ∀ state, (handle a state).1 = leaves a)
    (s : Consuming α σ) : HandsOn leaves entries s (forEntries handle entries s) := by
  induction entries generalizing s with
  | nil => exact ⟨(List.append_nil _).symm, rfl, by simp [forEntries], rfl⟩
  | cons a rest ih =>
      obtain ⟨huncancelled, hleave⟩ := hleaves a List.mem_cons_self
      have hrest := ih fun b hb => hleaves b (List.mem_cons_of_mem a hb)
      rw [forEntries]
      simp only [hleave]
      cases hcase : leaves a with
      | normally =>
          obtain ⟨hhanded, hrunning, hnot, hescapes⟩ :=
            hrest { s with state := (handle a s.state).2, handed := s.handed ++ [a] }
          refine ⟨?_, hrunning, hnot, ?_⟩
          · rw [hhanded, Reasoning.untilEscape, hcase]
            simp [Leaving.escapes]
          · rw [hescapes, List.any_cons, hcase]
            rfl
      | raising exc =>
          refine ⟨?_, rfl, by simp, ?_⟩
          · rw [Reasoning.untilEscape, hcase]
            rfl
          · rw [List.any_cons, hcase]
            rfl
      | cancelled => exact absurd hcase huncancelled

theorem forStreams_handsOn {leaves : α → Leaving} {streams : List (String × List α)}
    (hleaves : ∀ a ∈ streams.flatMap Prod.snd,
      leaves a ≠ .cancelled ∧ ∀ state, (handle a state).1 = leaves a)
    (s : Consuming α σ) :
    HandsOn leaves (streams.flatMap Prod.snd) s (forStreams handle streams s) := by
  induction streams generalizing s with
  | nil => exact ⟨(List.append_nil _).symm, rfl, by simp [forStreams], rfl⟩
  | cons stream rest ih =>
      obtain ⟨name, entries⟩ := stream
      simp only [List.flatMap_cons, List.mem_append] at hleaves ⊢
      have hfirst := forEntries_handsOn (fun a ha => hleaves a (.inl ha)) s
      have hrest := ih fun a ha => hleaves a (.inr ha)
      rw [forStreams]
      generalize forEntries handle entries s = first at hfirst ⊢
      obtain ⟨left, s'⟩ := first
      obtain ⟨hhanded, hrunning, hnot, hescapes⟩ := hfirst
      rcases left with _ | exc | _
      · obtain ⟨hhanded', hrunning', hnot', hescapes'⟩ := hrest s'
        -- Nothing escapes from the first list, so it is handled to its end.
        have hnone : entries.any (fun a => (leaves a).escapes) = false := hescapes.symm
        refine ⟨?_, hrunning'.trans hrunning, hnot', ?_⟩
        · rw [hhanded', hhanded, List.append_assoc, ← Reasoning.untilEscape_append hnone]
        · rw [hescapes', List.any_append, hnone, Bool.false_or]
      · have hsome : entries.any (fun a => (leaves a).escapes) = true := hescapes.symm
        refine ⟨?_, hrunning, by simp, ?_⟩
        · rw [hhanded, Reasoning.untilEscape_append_of_any hsome]
        · rw [List.any_append, hsome]
          rfl
      · exact absurd rfl hnot

theorem consumeLoop_handed {leaves : α → Leaving} {reads : List (Read α)}
    (hreads : ∀ read ∈ reads, read ≠ .cancelled)
    (hleaves : ∀ a ∈ delivered reads,
      leaves a ≠ .cancelled ∧ ∀ state, (handle a state).1 = leaves a)
    (state : σ) :
    (consumeLoop handle reads state).handed =
      Reasoning.drain (fun a => (leaves a).escapes) (reads.map Read.entries) := by
  suffices h : ∀ s : Consuming α σ, s.running = true →
      (reads.foldl (fun s read => if s.running then turn handle s read else s) s).handed =
        s.handed ++ Reasoning.drain (fun a => (leaves a).escapes) (reads.map Read.entries) from
    h ⟨state, [], true⟩ rfl
  induction reads with
  | nil =>
      intro s _
      exact (List.append_nil _).symm
  | cons read rest ih =>
      intro s hrunning
      have hread := hreads read List.mem_cons_self
      have hrest := ih (fun read h => hreads read (List.mem_cons_of_mem _ h))
        fun a ha => hleaves a (List.mem_append_right _ ha)
      -- One turn keeps the loop running and hands on a prefix of the batch.
      have hturn : (turn handle s read).running = true ∧ (turn handle s read).handed =
          s.handed ++ Reasoning.untilEscape (fun a => (leaves a).escapes) read.entries := by
        cases read with
        | value streams =>
            have hhands : HandsOn leaves (streams.flatMap Prod.snd) s
                (forStreams handle streams s) :=
              forStreams_handsOn (fun a ha => hleaves a (List.mem_append_left _ ha)) s
            rw [turn]
            generalize forStreams handle streams s = outcome at hhands ⊢
            obtain ⟨left, s'⟩ := outcome
            rcases left with _ | exc | _
            · exact ⟨hhands.running.trans hrunning, hhands.handed⟩
            · exact ⟨hhands.running.trans hrunning, hhands.handed⟩
            · exact absurd rfl hhands.uncancelled
        | raised exc => exact ⟨hrunning, (List.append_nil _).symm⟩
        | cancelled => exact absurd rfl hread
      rw [List.foldl_cons, if_pos hrunning, hrest _ hturn.1, hturn.2, List.append_assoc]
      rfl

/-- Redis returns each entry once, and nothing cancels the loop. -/
structure Delivery (id : α → Nat) (cancels : α → Bool) (reads : List (Read α)) : Prop where
  once : ((delivered reads).map id).Nodup
  awaits : ∀ read ∈ reads, read ≠ .cancelled
  entries : ∀ a ∈ delivered reads, cancels a = false

/-- Every entry that was returned is handed on exactly once. -/
def HandedOnce (id : α → Nat) (reads : List (Read α)) (handed : List α) : Prop :=
  ∀ a ∈ delivered reads, (handed.map id).count (id a) = 1

/-- Only the last entry of a batch may escape. -/
def OnlyLast (escapes : α → Bool) (reads : List (Read α)) : Prop :=
  ∀ read ∈ reads, ∀ a ∈ (Read.entries read).dropLast, escapes a = false

theorem Delivery.handedOnce_iff {id : α → Nat} {cancels : α → Bool} {reads : List (Read α)}
    (h : Delivery id cancels reads) {leaves : α → Leaving}
    (hleaves : ∀ a, cancels a = false →
      leaves a ≠ .cancelled ∧ ∀ state, (handle a state).1 = leaves a) (state : σ) :
    HandedOnce id reads (consumeLoop handle reads state).handed ↔
      OnlyLast (fun a => (leaves a).escapes) reads := by
  rw [consumeLoop_handed h.awaits fun a ha => hleaves a (h.entries a ha)]
  apply (Reasoning.handledOnce_iff id (reads.map Read.entries) h.once).trans
  rw [List.forall_mem_map]
  rfl

end Loop

/-- The exception that an awaited command leaves behind. -/
def Remote.leaving : Remote → Leaving
  | .reply .ok => .normally
  | .reply (.raised exc _) => .raising exc
  | .cancelled _ => .cancelled

def Remote.isCancelled : Remote → Bool
  | .reply _ => false
  | .cancelled _ => true

theorem Remote.leaving_ne_cancelled {r : Remote} (h : r.isCancelled = false) :
    r.leaving ≠ .cancelled := by
  rcases r with (_ | ⟨exc, b⟩) | b
  · exact nofun
  · exact nofun
  · cases h

/-! ## 3. Agent tasks -/

def ProcessEnv.cancels (env : ProcessEnv) : Bool :=
  env.cancelledInRun || env.publish.isCancelled || env.write.isCancelled ||
    env.publishFailed.isCancelled || env.ack.isCancelled

/-- The number of awaits that are left, at most. -/
def ProcessPc.rank : ProcessPc → Nat
  | .run => 5
  | .publish _ => 4
  | .write _ => 3
  | .publishFailed _ => 2
  | .ack _ => 1
  | .ended _ => 0

/-- Without a cancellation the `finally` block alone decides what leaves `_process`. -/
def ProcessPc.Uncancelled (env : ProcessEnv) : ProcessPc → Prop
  | .ack leaving => leaving = .normally
  | .ended leaving => leaving = env.ack.leaving
  | _ => True

section Call

variable {env : ProcessEnv} {registry : ToolRegistry} {entry : Entry}

theorem processStep_rank (env : ProcessEnv) (registry : ToolRegistry) (entry : Entry)
    (s : ProcessPc × Worker) :
    (processStep env registry entry s).1.rank ≤ s.1.rank - 1 := by
  obtain ⟨pc, w⟩ := s
  cases pc with
  | run =>
      simp only [processStep]
      split
      · simp [ProcessPc.rank]
      · split
        · simp [ProcessPc.rank]
        · split <;> simp [ProcessPc.rank]
  | publish r => simp only [processStep]; split <;> simp [ProcessPc.rank]
  | write r => simp only [processStep]; split <;> simp [ProcessPc.rank]
  | publishFailed exc => simp only [processStep]; split <;> simp [ProcessPc.rank]
  | ack leaving => simp only [processStep]; split <;> simp [ProcessPc.rank]
  | ended leaving => exact Nat.le_refl 0

theorem process_rank (env : ProcessEnv) (registry : ToolRegistry) (entry : Entry) (n : Nat)
    (s : ProcessPc × Worker) :
    ((processStep env registry entry)^[n] s).1.rank ≤ s.1.rank - n := by
  induction n with
  | zero => exact Nat.le_refl _
  | succ n ih =>
      rw [Function.iterate_succ_apply']
      have hstep := processStep_rank env registry entry
        ((processStep env registry entry)^[n] s)
      omega

-- Every call of `_process` comes to its end.
theorem process_ended (env : ProcessEnv) (registry : ToolRegistry) (entry : Entry) (w : Worker) :
    ∃ leaving, (process env registry entry w).1 = .ended leaving := by
  have hrank := process_rank env registry entry 5 (.run, w)
  unfold process
  cases hpc : ((processStep env registry entry)^[5] (.run, w)).1 with
  | ended leaving => exact ⟨leaving, rfl⟩
  | _ =>
      rw [hpc] at hrank
      simp [ProcessPc.rank] at hrank

theorem processStep_uncancelled (henv : env.cancels = false) {s : ProcessPc × Worker}
    (h : s.1.Uncancelled env) : (processStep env registry entry s).1.Uncancelled env := by
  simp only [ProcessEnv.cancels, Bool.or_eq_false_iff] at henv
  obtain ⟨⟨⟨⟨hrun, hpublish⟩, hwrite⟩, hfailed⟩, hack⟩ := henv
  obtain ⟨pc, w⟩ := s
  cases pc with
  | run =>
      simp only [processStep, hrun]
      split
      · exact rfl
      · simp only [Bool.false_eq_true, if_false]
        split <;> exact trivial
  | publish r =>
      rcases hp : env.publish with (_ | ⟨exc, b⟩) | b <;> simp only [processStep, hp]
      · exact trivial
      · exact trivial
      · rw [hp] at hpublish
        cases hpublish
  | write r =>
      rcases hw : env.write with (_ | ⟨exc, b⟩) | b <;> simp only [processStep, hw]
      · exact rfl
      · exact trivial
      · rw [hw] at hwrite
        cases hwrite
  | publishFailed exc =>
      rcases hf : env.publishFailed with r | b <;> simp only [processStep, hf]
      · exact rfl
      · rw [hf] at hfailed
        cases hfailed
  | ack leaving =>
      obtain rfl : leaving = .normally := h
      rcases ha : env.ack with (_ | ⟨exc, b⟩) | b <;>
        simp only [processStep, ha, ProcessPc.Uncancelled, Remote.leaving]
  | ended leaving => exact h

theorem process_leaving (registry : ToolRegistry) (entry : Entry) (henv : env.cancels = false)
    (w : Worker) :
    (process env registry entry w).1 = .ended env.ack.leaving := by
  have hkept : ((processStep env registry entry)^[5] (.run, w)).1.Uncancelled env := by
    generalize 5 = n
    induction n with
    | zero => exact trivial
    | succ n ih =>
        rw [Function.iterate_succ_apply']
        exact processStep_uncancelled henv ih
  obtain ⟨leaving, hended⟩ := process_ended env registry entry w
  rw [process] at hended ⊢
  rw [hended] at hkept ⊢
  exact congrArg _ hkept

end Call

/-- `await self._process(entry_id, fields)`. -/
def handleTask (registry : ToolRegistry) (a : Entry × ProcessEnv) (w : Worker) :
    Leaving × Worker :=
  match process a.2 registry a.1 w with
  | (.ended leaving, w) => (leaving, w)
  | (_, w) => (.normally, w)  -- never, by `process_ended`

theorem handleTask_leaving (registry : ToolRegistry) (a : Entry × ProcessEnv)
    (henv : a.2.cancels = false) :
    a.2.ack.leaving ≠ .cancelled ∧ ∀ w, (handleTask registry a w).1 = a.2.ack.leaving := by
  constructor
  · apply Remote.leaving_ne_cancelled
    simp only [ProcessEnv.cancels, Bool.or_eq_false_iff] at henv
    exact henv.2
  · intro w
    have hleaving := process_leaving registry a.1 henv w
    unfold handleTask
    generalize process a.2 registry a.1 w = outcome at hleaving ⊢
    obtain ⟨pc, w'⟩ := outcome
    obtain rfl : pc = .ended a.2.ack.leaving := hleaving
    rfl

/-! ## 4. Agent results -/

/-- An entry of the result stream; `result` is the outcome of decoding `fields["data"]`. -/
structure ResultEntry where
  id : Nat
  result : Except PyExc AgentResult

structure ResultEnv where
  -- The `xack` at the end of the `try` block.
  ack : Remote
  -- The one in the `except` block.
  ackAgain : Remote

def ResultEnv.cancels (env : ResultEnv) : Bool := env.ack.isCancelled || env.ackAgain.isCancelled

structure ResultState where
  dispatcher : Dispatcher
  acked : List Nat

/-- The `except` block. -/
def ResultState.ackAgain (id : Nat) (env : ResultEnv) (s : ResultState) : Leaving × ResultState :=
  (env.ackAgain.leaving, { s with acked := s.acked ++ env.ackAgain.wrote id })

/-- The body of the loop in `start_result_consumer`. -/
def handleResultEntry (a : ResultEntry × ResultEnv) (s : ResultState) : Leaving × ResultState :=
  match a.1.result.bind fun r => handleResult r s.dispatcher with
  | .error _ => s.ackAgain a.1.id a.2
  | .ok (_, dispatcher) =>
      let s := { dispatcher := dispatcher, acked := s.acked ++ a.2.ack.wrote a.1.id }
      match a.2.ack with
      | .reply .ok => (.normally, s)
      | .reply (.raised _ _) => s.ackAgain a.1.id a.2
      | .cancelled _ => (.cancelled, s)

/-- Settling a future never raises, so the `except` block runs exactly when the entry cannot be
decoded or its first acknowledgement raises. -/
def resultLeaving (a : ResultEntry × ResultEnv) : Leaving :=
  if a.1.result.isOk && !a.2.ack.leaving.escapes then .normally else a.2.ackAgain.leaving

theorem handleResultEntry_leaving (a : ResultEntry × ResultEnv) (henv : a.2.cancels = false) :
    resultLeaving a ≠ .cancelled ∧ ∀ s, (handleResultEntry a s).1 = resultLeaving a := by
  simp only [ResultEnv.cancels, Bool.or_eq_false_iff] at henv
  constructor
  · unfold resultLeaving
    split
    · exact nofun
    · exact Remote.leaving_ne_cancelled henv.2
  · intro s
    unfold handleResultEntry resultLeaving
    cases hresult : a.1.result with
    | error exc => rfl
    | ok r =>
        have hbind : ((.ok r : Except PyExc AgentResult).bind fun r =>
            handleResult r s.dispatcher) = handleResult r s.dispatcher := rfl
        rw [hbind]
        cases hhandle : handleResult r s.dispatcher with
        | error exc => exact absurd hhandle (handleResult_ne_error r s.dispatcher exc)
        | ok outcome =>
            rcases hack : a.2.ack with (_ | ⟨exc, b⟩) | b
            · rfl
            · rfl
            · rw [hack] at henv
              cases henv.1

/-! ## 5. Execution status -/

/-- `Literal["pending", "running", "completed", "failed", "cancelled"]`. -/
inductive EventStatus where
  | pending
  | running
  | completed
  | failed
  | cancelled

structure ExecutionStatusEvent where
  executionId : UUID
  tenantId : UUID
  status : EventStatus
  currentStepId : Option String
  context : Dict
  timestamp : Nat

structure StatusEntry where
  id : Nat
  event : Except PyExc ExecutionStatusEvent

structure StatusEnv where
  emit : Remote
  ack : Remote

def StatusEnv.cancels (env : StatusEnv) : Bool := env.emit.isCancelled || env.ack.isCancelled

/-- A message that Socket.IO has sent to a room, which is named by an execution id. -/
structure Emission where
  name : String
  data : ExecutionStatusEvent
  room : UUID

structure StatusState where
  emitted : List Emission
  acked : List Nat

/-- `StatusConsumer._process`. -/
def handleStatus (a : StatusEntry × StatusEnv) (s : StatusState) : Leaving × StatusState :=
  let (entry, env) := a
  let emissions := entry.event.toOption.toList.flatMap fun event =>
    env.emit.wrote ⟨"execution_update", event, event.executionId⟩
  let leaving : Leaving :=
    if entry.event.isOk && env.emit.isCancelled then .cancelled else .normally
  let s := { emitted := s.emitted ++ emissions, acked := s.acked ++ env.ack.wrote entry.id }
  match env.ack with
  | .reply .ok => (leaving, s)
  | ack => (ack.leaving, s)

/-- The messages that one entry leads to. -/
def StatusEntry.emissions (entry : StatusEntry) (env : StatusEnv) : List Emission :=
  entry.event.toOption.toList.flatMap fun event =>
    env.emit.wrote ⟨"execution_update", event, event.executionId⟩

theorem handleStatus_emitted (a : StatusEntry × StatusEnv) (s : StatusState) :
    (handleStatus a s).2.emitted = s.emitted ++ a.1.emissions a.2 := by
  obtain ⟨entry, env⟩ := a
  rcases hack : env.ack with (_ | ⟨exc, b⟩) | b
  · simp only [handleStatus, hack]
    rfl
  · simp only [handleStatus, hack]
    rfl
  · simp only [handleStatus, hack]
    rfl

theorem StatusEntry.mem_emissions {entry : StatusEntry} {env : StatusEnv} {m : Emission}
    (h : m ∈ entry.emissions env) :
    ∃ event, entry.event = .ok event ∧ m = ⟨"execution_update", event, event.executionId⟩ := by
  obtain ⟨event, hevent, hm⟩ := List.mem_flatMap.mp h
  unfold Remote.wrote at hm
  split at hm
  · refine ⟨event, ?_, List.mem_singleton.mp hm⟩
    cases hcase : entry.event with
    | error exc =>
        rw [hcase] at hevent
        cases hevent
    | ok event' =>
        rw [hcase] at hevent
        rw [List.mem_singleton.mp hevent]
  · cases hm

theorem handleStatus_leaving (a : StatusEntry × StatusEnv) (henv : a.2.cancels = false) :
    a.2.ack.leaving ≠ .cancelled ∧ ∀ s, (handleStatus a s).1 = a.2.ack.leaving := by
  obtain ⟨entry, env⟩ := a
  simp only [StatusEnv.cancels, Bool.or_eq_false_iff] at henv
  refine ⟨Remote.leaving_ne_cancelled henv.2, fun s => ?_⟩
  rcases hack : env.ack with (_ | ⟨exc, b⟩) | b
  · simp [handleStatus, hack, henv.1, Remote.leaving]
  · simp [handleStatus, hack]
  · simp [handleStatus, hack]

/-! ## 6. Delivered entries -/

/-- Each loop hands every delivered entry to its handling exactly once exactly when, in every batch,
no acknowledgement that nothing catches raises before the last entry. -/
theorem handed_once_iff (registry : ToolRegistry) (tasks : List (Read (Entry × ProcessEnv)))
    (results : List (Read (ResultEntry × ResultEnv)))
    (statuses : List (Read (StatusEntry × StatusEnv)))
    (w : Worker) (d : ResultState) (s : StatusState)
    (htasks : Delivery (fun a => a.1.id) (fun a => a.2.cancels) tasks)
    (hresults : Delivery (fun a => a.1.id) (fun a => a.2.cancels) results)
    (hstatuses : Delivery (fun a => a.1.id) (fun a => a.2.cancels) statuses) :
    (HandedOnce (fun a => a.1.id) tasks (consumeLoop (handleTask registry) tasks w).handed ↔
      OnlyLast (fun a => a.2.ack.leaving.escapes) tasks) ∧
    (HandedOnce (fun a => a.1.id) results (consumeLoop handleResultEntry results d).handed ↔
      OnlyLast (fun a => (!a.1.result.isOk || a.2.ack.leaving.escapes) &&
        a.2.ackAgain.leaving.escapes) results) ∧
    (HandedOnce (fun a => a.1.id) statuses (consumeLoop handleStatus statuses s).handed ↔
      OnlyLast (fun a => a.2.ack.leaving.escapes) statuses) := by
  refine ⟨?_, ?_, ?_⟩
  · exact htasks.handedOnce_iff (handleTask_leaving registry) w
  · have hescapes : ∀ a : ResultEntry × ResultEnv, (resultLeaving a).escapes =
        ((!a.1.result.isOk || a.2.ack.leaving.escapes) && a.2.ackAgain.leaving.escapes) := by
      intro a
      unfold resultLeaving
      cases a.1.result.isOk <;> cases a.2.ack.leaving.escapes <;> rfl
    simp only [← hescapes]
    exact hresults.handedOnce_iff handleResultEntry_leaving d
  · exact hstatuses.handedOnce_iff handleStatus_leaving s

def connectionLost : Remote := .reply (.raised ⟨.library, "Connection closed by server."⟩ false)

/-! One batch of two entries for each loop, whose acknowledgements end as given. -/

def taskBatch (first last : Remote) : List (Read (Entry × ProcessEnv)) :=
  [.value [("constructor:agent.task.created",
    [(⟨0, .ok plainTask⟩, { allSucceeds with ack := first }),
     (⟨1, .ok { plainTask with taskId := 2 }⟩, { allSucceeds with ack := last })])]]

def resultBatch (first last : Remote) : List (Read (ResultEntry × ResultEnv)) :=
  [.value [("constructor:agent.result.ready",
    [(⟨0, .ok (failedResult plainTask ⟨.runtimeError, "no model"⟩)⟩, ⟨first, first⟩),
     (⟨1, .ok (failedResult plainTask ⟨.runtimeError, "no model"⟩)⟩, ⟨last, last⟩)])]]

def statusBatch (first last : Remote) : List (Read (StatusEntry × StatusEnv)) :=
  [.value [("constructor:execution.status.changed",
    [(⟨0, .ok ⟨0, 7, .running, none, [], 0⟩⟩, ⟨.reply .ok, first⟩),
     (⟨1, .ok ⟨0, 7, .completed, none, [], 1⟩⟩, ⟨.reply .ok, last⟩)])]]

theorem pair_delivery {α : Type} {id : α → Nat} {cancels : α → Bool} {a b : α} (name : String)
    (hid : id a ≠ id b) (ha : cancels a = false) (hb : cancels b = false) :
    Delivery id cancels [.value [(name, [a, b])]] := by
  have hall : delivered [.value [(name, [a, b])]] = [a, b] := rfl
  refine ⟨?_, ?_, ?_⟩
  · rw [hall]
    simpa using hid
  · intro read hread
    rw [List.mem_singleton.mp hread]
    exact nofun
  · rw [hall]
    simp [ha, hb]

/-- An error of the last acknowledgement of a batch costs nothing. -/
theorem handed_once_iff_last :
    HandedOnce (fun a => a.1.id) (taskBatch (.reply .ok) connectionLost)
      (consumeLoop (handleTask sqlRegistry) (taskBatch (.reply .ok) connectionLost)
        .empty).handed ∧
    HandedOnce (fun a => a.1.id) (resultBatch (.reply .ok) connectionLost)
      (consumeLoop handleResultEntry (resultBatch (.reply .ok) connectionLost)
        ⟨.empty, []⟩).handed ∧
    HandedOnce (fun a => a.1.id) (statusBatch (.reply .ok) connectionLost)
      (consumeLoop handleStatus (statusBatch (.reply .ok) connectionLost) ⟨[], []⟩).handed := by
  obtain ⟨htasks, hresults, hstatuses⟩ := handed_once_iff sqlRegistry
    (taskBatch (.reply .ok) connectionLost) (resultBatch (.reply .ok) connectionLost)
    (statusBatch (.reply .ok) connectionLost) .empty ⟨.empty, []⟩ ⟨[], []⟩
    (pair_delivery _ (by decide) rfl rfl) (pair_delivery _ (by decide) rfl rfl)
    (pair_delivery _ (by decide) rfl rfl)
  refine ⟨htasks.mpr ?_, hresults.mpr ?_, hstatuses.mpr ?_⟩
  · simp [OnlyLast, taskBatch, Read.entries, Remote.leaving, Leaving.escapes]
  · simp [OnlyLast, resultBatch, Read.entries, Remote.leaving, Leaving.escapes]
  · simp [OnlyLast, statusBatch, Read.entries, Remote.leaving, Leaving.escapes]

/-- An error of the first one costs the second entry, in each loop. -/
theorem rest_of_batch_dropped :
    (Delivery (fun a => a.1.id) (fun a => a.2.cancels) (taskBatch connectionLost (.reply .ok)) ∧
      ¬ HandedOnce (fun a => a.1.id) (taskBatch connectionLost (.reply .ok))
        (consumeLoop (handleTask sqlRegistry) (taskBatch connectionLost (.reply .ok))
          .empty).handed) ∧
    (Delivery (fun a => a.1.id) (fun a => a.2.cancels) (resultBatch connectionLost (.reply .ok)) ∧
      ¬ HandedOnce (fun a => a.1.id) (resultBatch connectionLost (.reply .ok))
        (consumeLoop handleResultEntry (resultBatch connectionLost (.reply .ok))
          ⟨.empty, []⟩).handed) ∧
    (Delivery (fun a => a.1.id) (fun a => a.2.cancels) (statusBatch connectionLost (.reply .ok)) ∧
      ¬ HandedOnce (fun a => a.1.id) (statusBatch connectionLost (.reply .ok))
        (consumeLoop handleStatus (statusBatch connectionLost (.reply .ok)) ⟨[], []⟩).handed) := by
  refine ⟨⟨pair_delivery _ (by decide) rfl rfl, fun h => ?_⟩,
    ⟨pair_delivery _ (by decide) rfl rfl, fun h => ?_⟩,
    ⟨pair_delivery _ (by decide) rfl rfl, fun h => ?_⟩⟩
  · exact absurd (h _ (.tail _ (.head _))) (by decide)
  · exact absurd (h _ (.tail _ (.head _))) (by decide)
  · exact absurd (h _ (.tail _ (.head _))) (by decide)

end ConstructorPlatform
