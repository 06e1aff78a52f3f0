import ConstructorPlatform.PlatformApi.Accumulation
import ConstructorPlatform.PlatformApi.Assignment

/-!
# Flush — what a commit of the executor sends

A flush sends the column `context` if the session finds the attribute unequal to the object that it
was at the flush before.  A transform may have changed that object in place, and Python finds `1`
and `True` equal, so the session can go on with a context that the column does not hold.
`Run.Column.step`: this never happens while every step of the workflow leaves a context that is
sent or that the column holds already (`Run.Tells`).
-/

namespace ConstructorPlatform

open Reasoning

/-! ## 1. The comparison -/

def recursionExceeded : PyExc :=
  ⟨.runtimeError, "maximum recursion depth exceeded in comparison"⟩

/-- `v == w`, with at most `fuel` comparisons in one another.  An object is equal to itself, which
ends the comparison of objects that contain themselves. -/
def Heap.equal (heap : Heap) : Nat → PyValue → PyValue → Except PyExc Bool
  | 0, _, _ => .error recursionExceeded
  | fuel + 1, v, w =>
      if v = w then .ok true
      else
        match heap.cell v, heap.cell w with
        | some (_, .list xs), some (_, .list ys) =>
            if xs.length = ys.length then (xs.zip ys).allM fun pair => heap.equal fuel pair.1 pair.2
            else .ok false
        | some (_, .dict d), some (_, .dict e) =>
            if d.length = e.length then
              d.allM fun entry =>
                match e.lookup entry.1 with
                | some w => heap.equal fuel entry.2 w
                | none => .ok false
            else .ok false
        | none, none => .ok (pyEq v.leaf w.leaf)
        | _, _ => .ok false

/-- `context != flushed`, for the object of an earlier flush as it is by now.  On a path with more
comparisons than there are pairs of cells one comes back, and Python gives up too. -/
def PyContext.sends (flushed context : PyContext) : Except PyExc Bool :=
  (context.heap.equal (context.heap.length * context.heap.length + 2) (.ref context.root)
    (.ref flushed.root)).map (!·)

theorem allM_ok_true {α : Type} {p : α → Except PyExc Bool} {as : List α}
    (h : as.allM p = .ok true) : ∀ a ∈ as, p a = .ok true := by
  induction as with
  | nil => exact nofun
  | cons a as ih =>
      rw [List.allM] at h
      cases hp : p a with
      | error e => rw [hp] at h; cases h
      | ok b =>
          cases b with
          | false => rw [hp] at h; cases h
          | true =>
              rw [hp] at h
              intro a' ha'
              rcases List.mem_cons.mp ha' with rfl | ha'
              · exact hp
              · exact ih h a' ha'

-- Dictionaries that compare equal: every entry of the first has an equal one in the second.
theorem Heap.equal_dict {heap : Heap} {fuel a b : Nat} {d e : List (String × PyValue)}
    (hne : a ≠ b) (ha : heap[a]? = some (.dict d)) (hb : heap[b]? = some (.dict e))
    (h : heap.equal (fuel + 1) (.ref a) (.ref b) = .ok true) :
    ∀ entry ∈ d, ∃ w, e.lookup entry.1 = some w ∧ heap.equal fuel entry.2 w = .ok true := by
  rw [Heap.equal, if_neg (by simpa using hne), Heap.cell_ref, Heap.cell_ref, ha, hb] at h
  simp only [Option.map_some] at h
  split at h
  · intro entry hentry
    have hequal := allM_ok_true h entry hentry
    split at hequal
    · rename_i w hw
      exact ⟨w, hw, hequal⟩
    · cases hequal
  · cases h

theorem Heap.equal_str {heap : Heap} {fuel : Nat} {s : String} {w : PyValue}
    (h : heap.equal fuel (.str s) w = .ok true) : w = .str s := by
  cases fuel with
  | zero => cases h
  | succ fuel =>
      rw [Heap.equal] at h
      split at h
      · rename_i heq
        exact heq.symm
      · cases w with
        | str t =>
            have hst : pyEq (.str s) (.str t) = true := Except.ok.inj h
            rw [of_decide_eq_true hst]
        | ref b =>
            rw [Heap.cell_ref] at h
            cases hb : heap[b]? with
            | none => rw [hb] at h; cases h
            | some o => rw [hb] at h; cases h
        | _ => cases h

-- A new dictionary with the fields of an old one encodes to the same document.
theorem Heap.contents_of_snoc {heap : Heap} {a : Nat} {entries : List (String × PyValue)}
    (ha : heap[a]? = some (.dict entries)) {j : Json}
    (h : Heap.Contents (heap ++ [.dict entries]) (.ref heap.length) j) :
    heap.Contents (.ref a) j := by
  have hcell : (heap ++ [PyObject.dict entries])[heap.length]? = some (.dict entries) :=
    List.getElem?_concat_length
  have hlt := (List.getElem?_eq_some_iff.mp ha).1
  obtain ⟨kvs, rfl, hfields⟩ := (Heap.contents_dict_iff hcell).mp h
  obtain ⟨hkeys, hvalues⟩ := Heap.fields_iff.mp hfields
  refine (Heap.contents_dict_iff ha).mpr ⟨kvs, rfl, Heap.fields_iff.mpr ⟨hkeys, ?_⟩⟩
  intro i v x hv hx
  -- The new dictionary is no part of its own values.
  have hout : ¬ Heap.Holds (heap ++ [.dict entries]) v heap.length :=
    Layout.Denotes.not_holds_child h rfl
      (Layout.child_eq_some_iff.mpr ⟨heap.length, _, rfl, hcell, hv⟩)
  have hcontents := hvalues i v x hv hx
  refine Layout.Denotes.congr hcontents fun b hb => ?_
  have hb' := Layout.Denotes.lt_length hcontents hb
  have hne : b ≠ heap.length := fun heq => hout (heq ▸ hb)
  rw [List.length_append, List.length_singleton] at hb'
  exact (List.getElem?_append_left (by omega)).symm

theorem PyContext.equal_of_sends {flushed context : PyContext}
    (h : flushed.sends context = .ok false) :
    context.heap.equal (context.heap.length * context.heap.length + 2) (.ref context.root)
      (.ref flushed.root) = .ok true := by
  unfold PyContext.sends at h
  revert h
  generalize Heap.equal _ _ _ _ = outcome
  intro h
  cases outcome with
  | error e => cases h
  | ok b =>
      cases b with
      | true => rfl
      | false => cases h

theorem PyContext.dump_eq_ok_iff {c : PyContext} {doc : Dict} : c.dump = .ok doc ↔ c.Holds doc := by
  refine ⟨fun h => ?_, PyContext.Holds.dump⟩
  unfold PyContext.dump at h
  cases hj : c.heap.toJson (.ref c.root) with
  | error e => rw [hj] at h; cases h
  | ok j =>
      rw [hj] at h
      cases j with
      | obj kvs =>
          cases h
          exact Heap.toJson_eq_ok_iff.mp hj
      | _ => cases h

/-- A text that goes unsent has been there before. -/
theorem PyContext.dump_unsent {c : PyContext} {key text : String} {doc : Dict}
    (hsends : c.sends (c.insert key (.str text)) = .ok false)
    (hdump : (c.insert key (.str text)).dump = .ok doc) : c.dump = .ok doc := by
  obtain ⟨entries, ho⟩ := c.isDict
  have hentries : c.entries = entries := by rw [PyContext.entries, ho]
  have hlt := (List.getElem?_eq_some_iff.mp ho).1
  have hheap : (c.insert key (.str text)).heap =
      c.heap ++ [.dict (dictSet key (.str text) entries)] := by rw [← hentries]; rfl
  have hroot : (c.insert key (.str text)).root = c.heap.length := rfl
  have hequal := PyContext.equal_of_sends hsends
  rw [hheap, hroot] at hequal
  have hall := Heap.equal_dict (by omega : c.heap.length ≠ c.root) List.getElem?_concat_length
    ((List.getElem?_append_left hlt).trans ho) hequal
  have hset : (dictSet key (PyValue.str text) entries).lookup key = some (.str text) := by
    rw [lookup_dictSet, if_pos rfl]
  obtain ⟨i, hi, -⟩ := lookup_position hset
  obtain ⟨w, hw, htext⟩ := hall (key, .str text) (List.mem_of_getElem? hi)
  rw [Heap.equal_str htext] at hw
  have hholds := PyContext.dump_eq_ok_iff.mp hdump
  rw [PyContext.Holds, hheap, hroot, dictSet_lookup hw] at hholds
  exact PyContext.dump_eq_ok_iff.mpr (Heap.contents_of_snoc ho hholds)

/-! ## 2. What a commit sends -/

/-- The contexts that the executor works on, and the column that holds them. -/
structure Runtime (Ctx : Type) where
  model : ContextModel Ctx
  -- The object that the driver builds from the column.
  load : Dict → Ctx
  -- Whether a flush sends the column: the session compares the attribute with the object that it
  -- was at the flush before, which a transform may have changed in place.
  sends : Ctx → Ctx → Except PyExc Bool
  dump_load : ∀ doc, model.dump (load doc) = .ok doc
  dump_unsent : ∀ {context : Ctx} {key text : String} {doc : Dict},
    sends context (model.insert context key (.str text)) = .ok false →
    model.dump (model.insert context key (.str text)) = .ok doc → model.dump context = .ok doc

/-- Python objects in a session of SQLAlchemy. -/
def pyRuntime (jmespath : JMESPath) : Runtime PyContext where
  model := contextModel jmespath
  load := PyContext.ofDict
  sends := PyContext.sends
  dump_load doc := (PyContext.holds_ofDict doc).dump
  dump_unsent := PyContext.dump_unsent

variable {Ctx : Type}

/-- What a flush sends for the column `context`, if it sends anything. -/
def Runtime.column (rt : Runtime Ctx) (flushed context : Ctx) : Except PyExc (Option Dict) := do
  if ← rt.sends flushed context then (rt.model.dump context).map some else .ok none

/-- The row that the commit of a step of `execute_workflow` sends, if the session lets it. -/
def Run.attempt (m : ContextModel Ctx) (steps : List StepSchema) (i : Input) (r : Run Ctx) :
    Option (Execution Ctx) :=
  match r.session with
  | .inactive => none
  | .active =>
      match r.pc with
      | .begin => some (r.execution.setRunning i.now)
      | .loopHead current =>
          if current.truthy then
            match lookupStep steps current with
            | .ok step => some (r.execution.setStep step.id)
            | .error _ => none
          else some (r.execution.setCompleted i.now)
      | .body _ => none
      | .advance _ => some r.execution
      | .handler exc => some (r.execution.setFailed
          (m.insert r.execution.context "_error" (.str (errorText r.execution exc))))
      | .ended _ => none

/-- The context at the last flush after a step. -/
def Run.flush (m : ContextModel Ctx) (steps : List StepSchema) (i : Input) (flushed : Ctx)
    (r : Run Ctx) : Ctx :=
  match r.attempt m steps i, i.commit with
  | some e, .ok () => e.context
  | _, _ => flushed

section Attempt

variable {m : ContextModel Ctx} {steps : List StepSchema} {i : Input} {r : Run Ctx}
  {e : Execution Ctx}

theorem Run.attempt_id (h : r.attempt m steps i = some e) : e.id = r.execution.id := by
  unfold Run.attempt at h
  split at h
  · cases h
  · split at h
    · cases h; rfl
    · split at h
      · split at h
        · cases h; rfl
        · cases h
      · cases h; rfl
    · cases h
    · cases h; rfl
    · cases h; rfl
    · cases h

theorem Run.body_record (m : ContextModel Ctx) (i : Input) (step : StepSchema) (r : Run Ctx) :
    (r.body m i step).session = r.session ∧ (r.body m i step).commits = r.commits := by
  unfold Run.body
  split
  · split <;> exact ⟨rfl, rfl⟩
  · split <;> exact ⟨rfl, rfl⟩
  · split <;> exact ⟨rfl, rfl⟩
  · exact ⟨rfl, rfl⟩

/-- What a step does with the row that it sends, if it sends one. -/
inductive Run.Sending (i : Input) (r r' : Run Ctx) : Option (Execution Ctx) → Prop where
  | silent (hsession : r'.session = r.session) (hcommits : r'.commits = r.commits) :
      Sending i r r' none
  | refused {e : Execution Ctx} (hcommit : i.commit.isOk = false)
      (hsession : r'.session = .inactive) (hcommits : r'.commits = r.commits) :
      Sending i r r' (some e)
  | stored {e : Execution Ctx} (hcommit : i.commit = .ok ()) (hsession : r.session = .active)
      (hcommits : r'.commits = r.commits ++ [e]) (hexecution : r'.execution = e)
      (hpc : (∃ current, r'.pc = .loopHead current) ∨ (∃ step, r'.pc = .body step) ∨
        r'.pc = .ended none) : Sending i r r' (some e)

-- A commit of the row in memory, when what follows it leaves the row and the record alone.
theorem Run.sending_commit {i : Input} {r t : Run Ctx} {ok : Run Ctx → Run Ctx} {next : Pc}
    {failed : PyExc → Pc} (hsession : t.session = r.session) (hcommits : t.commits = r.commits)
    (hok : ∀ u, (ok u).execution = u.execution ∧ (ok u).commits = u.commits ∧ (ok u).pc = next)
    (hnext : (∃ current, next = .loopHead current) ∨ (∃ step, next = .body step) ∨
      next = .ended none) :
    r.Sending i (t.commit i.commit ok fun e r => r.goto (failed e))
      (match r.session with | .inactive => none | .active => some t.execution) := by
  rw [← hsession]
  rcases Run.commit_cases i.commit t ok _ with ⟨hs, hc, h⟩ | ⟨hs, e, hc, h⟩ | ⟨hs, h⟩
  · obtain ⟨hexecution, hrecord, hpc⟩ := hok { t with commits := t.commits ++ [t.execution] }
    rw [← h] at hexecution hrecord hpc
    rw [hcommits] at hrecord
    simp only [hs]
    exact .stored hc (hsession ▸ hs) hrecord hexecution (hpc ▸ hnext)
  · rw [h]
    simp only [hs]
    exact .refused (by rw [hc]; rfl) rfl hcommits
  · rw [h]
    simp only [hs]
    exact .silent hsession hcommits

/-- Every step sends nothing, or is refused the commit, or stores the row as it is in memory. -/
theorem executeWorkflow_sending (m : ContextModel Ctx) (steps : List StepSchema) (i : Input)
    (r : Run Ctx) : r.Sending i (executeWorkflow m steps i r) (r.attempt m steps i) := by
  have hsilent : ∀ {r' : Run Ctx}, r'.session = r.session → r'.commits = r.commits →
      r.Sending i r' (match r.session with | .inactive => none | .active => none) := by
    intro r' hsession hcommits
    cases r.session with
    | inactive => exact .silent hsession hcommits
    | active => exact .silent hsession hcommits
  unfold executeWorkflow Run.attempt
  cases hpc : r.pc with
  | begin =>
      exact Run.sending_commit rfl rfl (fun u => ⟨by simp, by simp, rfl⟩) (.inl ⟨_, rfl⟩)
  | loopHead current =>
      simp only [Run.loopHead]
      split
      · cases lookupStep steps current with
        | ok step =>
            exact Run.sending_commit rfl rfl (fun u => ⟨by simp, by simp, rfl⟩)
              (.inr (.inl ⟨_, rfl⟩))
        | error e => exact hsilent rfl rfl
      · exact Run.sending_commit rfl rfl (fun u => ⟨by simp, by simp, rfl⟩) (.inr (.inr rfl))
  | body step => exact hsilent (Run.body_record m i step r).1 (Run.body_record m i step r).2
  | advance step =>
      exact Run.sending_commit rfl rfl (fun u => ⟨rfl, rfl, rfl⟩) (.inl ⟨_, rfl⟩)
  | handler exc =>
      exact Run.sending_commit rfl rfl (fun u => ⟨by simp, by simp, rfl⟩) (.inr (.inr rfl))
  | ended exc => exact hsilent rfl rfl

-- The session survives a step only if it does not refuse a commit.
theorem Run.session_attempt (m : ContextModel Ctx) (steps : List StepSchema) (i : Input)
    (r : Run Ctx) (h : (executeWorkflow m steps i r).session = .active) :
    r.session = .active ∧ (r.attempt m steps i = none ∨ i.commit = .ok ()) := by
  have hsending := executeWorkflow_sending m steps i r
  revert hsending
  generalize r.attempt m steps i = sent
  intro hsending
  cases hsending with
  | silent hsession _ => exact ⟨hsession ▸ h, .inl rfl⟩
  | refused _ hsession _ => cases hsession.symm.trans h
  | stored hcommit hsession _ _ _ => exact ⟨hsession, .inr hcommit⟩

/-- What a step sends is what the machine puts on record as committed, if the commit succeeds. -/
theorem Run.commits_attempt (m : ContextModel Ctx) (steps : List StepSchema) (i : Input)
    (r : Run Ctx) : (executeWorkflow m steps i r).commits =
      r.commits ++ if i.commit.isOk then (r.attempt m steps i).toList else [] := by
  have hsending := executeWorkflow_sending m steps i r
  revert hsending
  generalize r.attempt m steps i = sent
  intro hsending
  cases hsending with
  | silent _ hcommits =>
      rw [hcommits]
      split <;> exact (List.append_nil _).symm
  | refused hcommit _ hcommits =>
      rw [hcommits, hcommit]
      exact (List.append_nil _).symm
  | stored hcommit _ hcommits _ _ =>
      rw [hcommits, hcommit]
      rfl

-- After a commit that succeeds, the row in memory is what was sent.
theorem Run.attempt_committed (h : r.attempt m steps i = some e) (hcommit : i.commit = .ok ()) :
    (executeWorkflow m steps i r).execution = e ∧
      ((∃ current, (executeWorkflow m steps i r).pc = .loopHead current) ∨
        (∃ step, (executeWorkflow m steps i r).pc = .body step) ∨
        (executeWorkflow m steps i r).pc = .ended none) := by
  have hsending := executeWorkflow_sending m steps i r
  rw [h] at hsending
  cases hsending with
  | refused hfail _ _ =>
      rw [hcommit] at hfail
      cases hfail
  | stored _ _ _ hexecution hpc => exact ⟨hexecution, hpc⟩

end Attempt

/-! ## 3. The column -/

/-- The column holds the document of the context, if the context has one. -/
def Runtime.Shows (rt : Runtime Ctx) (column : Dict) (context : Ctx) : Prop :=
  ∀ doc, rt.model.dump context = .ok doc → (Json.obj column).Same (.obj doc)

/-- A flush that sends nothing for the context leaves the column with its document. -/
def Runtime.Agrees (rt : Runtime Ctx) (flushed : Ctx) (column : Dict) (context : Ctx) : Prop :=
  rt.sends flushed context = .ok false → rt.Shows column context

/-- The context that a step of the workflow leaves for the flush after it, if it makes one.  A
transform that raises has made its changes in place. -/
def Run.remade (m : ContextModel Ctx) (i : Input) (r : Run Ctx) : Option Ctx :=
  match r.pc with
  | .body step =>
      match step.type with
      | "transform" =>
          match m.applyTransform step.config r.execution.context with
          | .ok context => some context
          | .error (e, context) => some (m.insert context "_error" (.str (errorText r.execution e)))
      | "agent" =>
          match i.agent with
          | .ok result => some (m.insert r.execution.context step.id result)
          | .error _ => none
      | _ => none
  | _ => none

/-- The step of the workflow leaves a context that the next flush sends or that the column holds
already. -/
def Run.Tells (rt : Runtime Ctx) (i : Input) (flushed : Ctx) (column : Dict) (r : Run Ctx) : Prop :=
  ∀ context ∈ r.remade rt.model i, rt.Agrees flushed column context

/-- The step of the workflow leaves a context that the next flush sends. -/
def Run.Sends (rt : Runtime Ctx) (i : Input) (flushed : Ctx) (r : Run Ctx) : Prop :=
  ∀ context ∈ r.remade rt.model i, rt.sends flushed context = .ok true

instance Run.decidableSends (rt : Runtime Ctx) (i : Input) (flushed : Ctx) (r : Run Ctx) :
    Decidable (r.Sends rt i flushed) :=
  inferInstanceAs (Decidable (∀ context ∈ r.remade rt.model i, _))

/-- The column after a step: what the step has sent, or as it was, which a commit that is answered
excludes. -/
def Run.SetsColumn (rt : Runtime Ctx) (steps : List StepSchema) (i : Input) (flushed : Ctx)
    (r : Run Ctx) (column column' : Dict) : Prop :=
  (∃ e sent, r.attempt rt.model steps i = some e ∧ rt.column flushed e.context = .ok sent ∧
    column' = sent.getD column) ∨
  (column' = column ∧ (i.commit.isOk = true → r.attempt rt.model steps i = none))

/-- The column holds the context at each program point but two, and there the next flush sends it
or need not. -/
def Run.Column (rt : Runtime Ctx) (flushed : Ctx) (column : Dict) (r : Run Ctx) : Prop :=
  r.session = .active →
    match r.pc with
    | .advance _ => rt.Agrees flushed column r.execution.context
    | .handler exc => rt.Agrees flushed column
        (rt.model.insert r.execution.context "_error" (.str (errorText r.execution exc)))
    | _ => r.execution.context = flushed ∧ rt.Shows column flushed

section Column

variable {rt : Runtime Ctx} {steps : List StepSchema} {i : Input} {r : Run Ctx} {flushed : Ctx}
  {column column' : Dict}

theorem Runtime.Shows.load (rt : Runtime Ctx) (doc : Dict) : rt.Shows doc (rt.load doc) := by
  intro doc' hdoc'
  cases (rt.dump_load doc).symm.trans hdoc'
  exact .refl _

-- The column after what was sent for the context.
theorem Runtime.Agrees.shows {context : Ctx} {sent : Option Dict}
    (h : rt.Agrees flushed column context) (hcolumn : rt.column flushed context = .ok sent) :
    rt.Shows (sent.getD column) context := by
  unfold Runtime.column at hcolumn
  cases hsends : rt.sends flushed context with
  | error e => rw [hsends] at hcolumn; cases hcolumn
  | ok b =>
      rw [hsends] at hcolumn
      cases b with
      | false =>
          cases hcolumn
          exact h hsends
      | true =>
          cases hdump : rt.model.dump context with
          | error e => simp only [hdump] at hcolumn; cases hcolumn
          | ok doc =>
              simp only [hdump] at hcolumn
              cases hcolumn
              intro doc' hdoc'
              cases hdump.symm.trans hdoc'
              exact .refl _

-- An error text that goes unsent changes nothing.
theorem Runtime.Shows.insert (h : rt.Shows column flushed) (key text : String) :
    rt.Agrees flushed column (rt.model.insert flushed key (.str text)) :=
  fun hsends _ hdoc => h _ (rt.dump_unsent hsends hdoc)

theorem Run.Sends.tells (h : r.Sends rt i flushed) : r.Tells rt i flushed column :=
  fun context hcontext hsends => nomatch (h context hcontext).symm.trans hsends

theorem Run.Column.attempt {e : Execution Ctx} (h : r.Column rt flushed column)
    (hattempt : r.attempt rt.model steps i = some e) : rt.Agrees flushed column e.context := by
  unfold Run.attempt at hattempt
  cases hsession : r.session with
  | inactive => simp only [hsession] at hattempt; cases hattempt
  | active =>
      have hcolumn := h hsession
      simp only [hsession] at hattempt
      cases hpc : r.pc with
      | begin =>
          simp only [hpc] at hattempt hcolumn
          cases hattempt
          exact fun _ => hcolumn.1 ▸ hcolumn.2
      | loopHead current =>
          simp only [hpc] at hattempt hcolumn
          split at hattempt
          · split at hattempt
            · cases hattempt
              exact fun _ => hcolumn.1 ▸ hcolumn.2
            · cases hattempt
          · cases hattempt
            exact fun _ => hcolumn.1 ▸ hcolumn.2
      | body step => simp only [hpc] at hattempt; cases hattempt
      | advance step =>
          simp only [hpc] at hattempt hcolumn
          cases hattempt
          exact hcolumn
      | handler exc =>
          simp only [hpc] at hattempt hcolumn
          cases hattempt
          exact hcolumn
      | ended exc => simp only [hpc] at hattempt; cases hattempt

-- The steps of the workflow: what they leave for the next flush.
theorem Run.Column.body {step : StepSchema} (hsession : r.session = .active)
    (hpc : r.pc = .body step) (h : r.Column rt flushed column)
    (htells : r.Tells rt i flushed column) :
    (r.body rt.model i step).Column rt flushed column := by
  have hcolumn := h hsession
  simp only [hpc] at hcolumn
  obtain ⟨hcontext, hshows⟩ := hcolumn
  simp only [Run.Tells, Run.remade, hpc] at htells
  have hhandler : ∀ exc, rt.Agrees flushed column
      (rt.model.insert r.execution.context "_error" (.str (errorText r.execution exc))) :=
    fun exc => hcontext ▸ hshows.insert _ _
  unfold Run.body
  split
  · split
    · exact fun _ => ⟨hcontext, hshows⟩
    · exact fun _ => hhandler _
  · rename_i htype
    simp only [htype] at htells
    split
    · rename_i hrun
      simp only [hrun] at htells
      exact fun _ => htells _ rfl
    · rename_i hrun
      simp only [hrun] at htells
      exact fun _ => htells _ rfl
  · rename_i htype
    simp only [htype] at htells
    split
    · rename_i hrun
      simp only [hrun] at htells
      exact fun _ => htells _ rfl
    · exact fun _ => hhandler _
  · exact fun _ _ => hcontext ▸ hshows

-- A commit that is answered: the column holds the context that was sent.
theorem Run.Column.stored {e : Execution Ctx} {sent : Option Dict} (h : r.Column rt flushed column)
    (hattempt : r.attempt rt.model steps i = some e) (hcommit : i.commit = .ok ())
    (hsent : rt.column flushed e.context = .ok sent) :
    (executeWorkflow rt.model steps i r).Column rt e.context (sent.getD column) := by
  intro _
  obtain ⟨hexecution, hpc⟩ := Run.attempt_committed hattempt hcommit
  have hholds : (executeWorkflow rt.model steps i r).execution.context = e.context ∧
      rt.Shows (sent.getD column) e.context :=
    ⟨congrArg Execution.context hexecution, (h.attempt hattempt).shows hsent⟩
  rcases hpc with ⟨current, hpc⟩ | ⟨step, hpc⟩ | hpc
  · simpa only [hpc] using hholds
  · simpa only [hpc] using hholds
  · simpa only [hpc] using hholds

-- A step that sends nothing: a step of the workflow, or a reference to no step.
theorem Run.Column.silent (h : r.Column rt flushed column) (hsession : r.session = .active)
    (hnone : r.attempt rt.model steps i = none) (htells : r.Tells rt i flushed column) :
    (executeWorkflow rt.model steps i r).Column rt flushed column := by
  have hcolumn := h hsession
  unfold executeWorkflow
  unfold Run.attempt at hnone
  simp only [hsession] at hnone
  cases hpc : r.pc with
  | begin => simp only [hpc] at hnone; cases hnone
  | loopHead current =>
      simp only [hpc] at hnone hcolumn
      simp only [Run.loopHead]
      cases htrue : current.truthy with
      | false =>
          simp only [htrue, Bool.false_eq_true, if_false] at hnone
          cases hnone
      | true =>
          simp only [htrue, if_true] at hnone
          rw [if_pos rfl]
          cases hfound : lookupStep steps current with
          | ok step =>
              simp only [hfound] at hnone
              cases hnone
          | error e =>
              intro _
              obtain ⟨hcontext, hshows⟩ := hcolumn
              show rt.Agrees flushed column
                (rt.model.insert r.execution.context "_error" (.str (errorText r.execution e)))
              rw [hcontext]
              exact hshows.insert _ _
  | body step => exact h.body hsession hpc htells
  | advance step => simp only [hpc] at hnone; cases hnone
  | handler exc => simp only [hpc] at hnone; cases hnone
  | ended exc => exact h

/-- Every step keeps the column, if it is one that tells. -/
theorem Run.Column.step (h : r.Column rt flushed column) (htells : r.Tells rt i flushed column)
    (hsets : r.SetsColumn rt steps i flushed column column') :
    (executeWorkflow rt.model steps i r).Column rt (r.flush rt.model steps i flushed) column' := by
  intro hactive
  obtain ⟨hsession, hattempt⟩ := Run.session_attempt rt.model steps i r hactive
  rcases hsets with ⟨e, sent, hsome, hsent, rfl⟩ | ⟨rfl, hnone⟩
  · have hcommit := hattempt.resolve_left fun hnone => nomatch hnone.symm.trans hsome
    have hflush : r.flush rt.model steps i flushed = e.context := by
      simp only [Run.flush, hsome, hcommit]
    rw [hflush]
    exact h.stored hsome hcommit hsent hactive
  · have hsilent : r.attempt rt.model steps i = none :=
      hattempt.elim (fun hnone => hnone) fun hcommit => hnone (by rw [hcommit]; rfl)
    have hflush : r.flush rt.model steps i flushed = flushed := by simp only [Run.flush, hsilent]
    rw [hflush]
    exact h.silent hsession hsilent htells hactive

theorem Run.column_start (rt : Runtime Ctx) (e : Execution Ctx) {doc : Dict}
    (hcontext : e.context = rt.load doc) : (Run.start e).Column rt (rt.load doc) doc :=
  fun _ => ⟨hcontext, .load rt doc⟩

end Column

end ConstructorPlatform
