import Mathlib.Data.Fintype.Basic
import ConstructorPlatform.Reasoning.System
import ConstructorPlatform.SchedulerService.Retries

/-!
# Lock — `dispatch` in several scheduler instances

Any number of calls of `dispatch` for one workflow, in any instances and at any times.  An action is
what a call does between two awaits.  The entry `scheduler:lock:{workflow_id}` has the value "1"
whoever creates it, so the delete in the `finally` block removes whatever entry is there.
-/

namespace ConstructorPlatform

/-! ## 1. The calls -/

inductive DispatchStage where
  -- Before `redis.set`.
  | idle
  -- In `_dispatch_with_retry`, before an attempt.
  | posting (attempt : Nat)
  -- At `redis.delete`.
  | releasing
  -- Past `redis.delete`.
  | released
  -- The lock was not acquired, or `redis.set` has raised.
  | skipped
  deriving DecidableEq

/-- The entry that a call has created, until the call deletes it. -/
inductive LockEntry where
  | absent
  | present
  | expired
  deriving DecidableEq

structure DispatchCall where
  stage : DispatchStage
  -- History.
  entry : LockEntry

structure Scheduling (ι : Type) where
  -- The call that created the entry in Redis.
  lock : Option ι
  calls : ι → DispatchCall
  -- The database of the platform.
  db : Database

variable {ι : Type}

def Scheduling.start (db : Database) : Scheduling ι := ⟨none, fun _ => ⟨.idle, .absent⟩, db⟩

inductive DispatchAction (ι : Type) where
  -- `redis.set(lock_key, "1", nx=True, ex=_LOCK_TTL)`
  | setNx (i : ι) (reply : Reply)
  | post (i : ι) (env : PostEnv)
  -- The task is cancelled in `_dispatch_with_retry`.
  | cancel (i : ι)
  -- `redis.delete(lock_key)`
  | delete (i : ι) (reply : Reply)
  | expire

section Step

variable [DecidableEq ι]

def Scheduling.setCall (i : ι) (c : DispatchCall) (s : Scheduling ι) : Scheduling ι :=
  { s with calls := Function.update s.calls i c }

/-- `redis.set`; when it raises, `dispatch` is left before the `try`. -/
def Scheduling.setNx (i : ι) (reply : Reply) (s : Scheduling ι) : Scheduling ι :=
  match s.lock with
  | some _ => s.setCall i ⟨.skipped, .absent⟩
  | none =>
      let stage : DispatchStage := if reply = .ok then .posting 0 else .skipped
      if reply.carriedOut then { s with lock := some i }.setCall i ⟨stage, .present⟩
      else s.setCall i ⟨stage, .absent⟩

/-- An attempt, and whether the loop goes on. -/
def Scheduling.post (target : DispatchTarget) (i : ι) (attempt : Nat) (env : PostEnv)
    (s : Scheduling ι) : Scheduling ι :=
  let outcome := ConstructorPlatform.post target env s.db
  let stage : DispatchStage :=
    if outcome.1 || decide (maxRetries ≤ attempt + 1) then .releasing else .posting (attempt + 1)
  { s with db := outcome.2 }.setCall i { s.calls i with stage := stage }

def Scheduling.delete (i : ι) (reply : Reply) (s : Scheduling ι) : Scheduling ι :=
  if reply.carriedOut then { s with lock := none }.setCall i ⟨.released, .absent⟩
  else s.setCall i { s.calls i with stage := .released }

def Scheduling.expire (i : ι) (s : Scheduling ι) : Scheduling ι :=
  { s with lock := none }.setCall i { s.calls i with entry := .expired }

def Scheduling.step (target : DispatchTarget) (s : Scheduling ι) :
    DispatchAction ι → Option (Scheduling ι)
  | .setNx i reply =>
      match (s.calls i).stage with
      | .idle => some (s.setNx i reply)
      | _ => none
  | .post i env =>
      match (s.calls i).stage with
      | .posting attempt => some (s.post target i attempt env)
      | _ => none
  | .cancel i =>
      match (s.calls i).stage with
      | .posting _ => some (s.setCall i { s.calls i with stage := .releasing })
      | _ => none
  | .delete i reply =>
      match (s.calls i).stage with
      | .releasing => some (s.delete i reply)
      | _ => none
  | .expire =>
      match s.lock with
      | some i => some (s.expire i)
      | none => none

end Step

/-! ## 2. What an action can do -/

/-- The actions, with what their guards say. -/
inductive Scheduling.Steps [DecidableEq ι] (target : DispatchTarget) (s : Scheduling ι) :
    DispatchAction ι → Scheduling ι → Prop where
  | setNx {i : ι} (reply : Reply) (hstage : (s.calls i).stage = .idle) :
      Steps target s (.setNx i reply) (s.setNx i reply)
  | post {i : ι} {attempt : Nat} (env : PostEnv) (hstage : (s.calls i).stage = .posting attempt) :
      Steps target s (.post i env) (s.post target i attempt env)
  | cancel {i : ι} {attempt : Nat} (hstage : (s.calls i).stage = .posting attempt) :
      Steps target s (.cancel i) (s.setCall i { s.calls i with stage := .releasing })
  | delete {i : ι} (reply : Reply) (hstage : (s.calls i).stage = .releasing) :
      Steps target s (.delete i reply) (s.delete i reply)
  | expire {i : ι} (hlock : s.lock = some i) : Steps target s .expire (s.expire i)

section Runs

variable [DecidableEq ι] {target : DispatchTarget} {s s' : Scheduling ι} {a : DispatchAction ι}

theorem Scheduling.step_steps (h : s.step target a = some s') : s.Steps target a s' := by
  cases a with
  | setNx i reply =>
      simp only [Scheduling.step] at h
      split at h
      · rename_i hstage
        cases h
        exact .setNx reply hstage
      · cases h
  | post i env =>
      simp only [Scheduling.step] at h
      split at h
      · rename_i attempt hstage
        cases h
        exact .post env hstage
      · cases h
  | cancel i =>
      simp only [Scheduling.step] at h
      split at h
      · rename_i attempt hstage
        cases h
        exact .cancel hstage
      · cases h
  | delete i reply =>
      simp only [Scheduling.step] at h
      split at h
      · rename_i hstage
        cases h
        exact .delete reply hstage
      · cases h
  | expire =>
      simp only [Scheduling.step] at h
      split at h
      · rename_i i hlock
        cases h
        exact .expire hlock
      · cases h

@[simp] theorem Scheduling.setCall_lock (i : ι) (c : DispatchCall) (s : Scheduling ι) :
    (s.setCall i c).lock = s.lock := rfl
@[simp] theorem Scheduling.setCall_db (i : ι) (c : DispatchCall) (s : Scheduling ι) :
    (s.setCall i c).db = s.db := rfl
@[simp] theorem Scheduling.setCall_self (i : ι) (c : DispatchCall) (s : Scheduling ι) :
    (s.setCall i c).calls i = c := Function.update_self ..
theorem Scheduling.setCall_of_ne {i j : ι} (h : j ≠ i) (c : DispatchCall) (s : Scheduling ι) :
    (s.setCall i c).calls j = s.calls j := Function.update_of_ne h _ _

/-! ## 3. Whose entry a delete removes -/

/-- The creator of the lock is the one call whose entry is present; a call has created its entry
before it posts. -/
structure Scheduling.Owned (s : Scheduling ι) : Prop where
  lock_iff : ∀ j, s.lock = some j ↔ (s.calls j).entry = .present
  idle : ∀ j, (s.calls j).stage = .idle → (s.calls j).entry = .absent
  entered : ∀ j, (∃ attempt, (s.calls j).stage = .posting attempt) ∨
    (s.calls j).stage = .releasing → (s.calls j).entry ≠ .absent

/-- The delete removes no entry that another call has created. -/
def OwnDelete (s : Scheduling ι) : DispatchAction ι → Prop
  | .delete i reply => reply.carriedOut = true → s.lock = none ∨ s.lock = some i
  | _ => True

/-- When a call deletes after its own entry has expired, every entry of another call has expired
too. -/
def ExpiredAlone (s : Scheduling ι) : DispatchAction ι → Prop
  | .delete i reply => reply.carriedOut = true → (s.calls i).entry = .expired →
      ∀ j, (s.calls j).entry ≠ .present
  | _ => True

instance (s : Scheduling ι) (a : DispatchAction ι) : Decidable (OwnDelete s a) :=
  match a with
  | .delete i reply =>
      inferInstanceAs (Decidable (reply.carriedOut = true → s.lock = none ∨ s.lock = some i))
  | .setNx _ _ => isTrue trivial
  | .post _ _ => isTrue trivial
  | .cancel _ => isTrue trivial
  | .expire => isTrue trivial

instance [Fintype ι] (s : Scheduling ι) (a : DispatchAction ι) : Decidable (ExpiredAlone s a) :=
  match a with
  | .delete i reply =>
      inferInstanceAs (Decidable (reply.carriedOut = true → (s.calls i).entry = .expired →
        ∀ j, (s.calls j).entry ≠ .present))
  | .setNx _ _ => isTrue trivial
  | .post _ _ => isTrue trivial
  | .cancel _ => isTrue trivial
  | .expire => isTrue trivial

omit [DecidableEq ι] in
theorem Scheduling.Owned.start (db : Database) : (Scheduling.start db : Scheduling ι).Owned where
  lock_iff _ := ⟨nofun, nofun⟩
  idle _ _ := rfl
  entered j h := by
    rcases h with ⟨attempt, h⟩ | h <;> cases h

-- An action changes one call, and the lock as far as it is that call's.
theorem Scheduling.Owned.setCall (h : s.Owned) (i : ι) (c : DispatchCall) (lock : Option ι)
    (db : Database) (hlock : lock = some i ↔ c.entry = .present)
    (hother : ∀ j, j ≠ i → (lock = some j ↔ s.lock = some j))
    (hidle : c.stage = .idle → c.entry = .absent)
    (hentered : (∃ attempt, c.stage = .posting attempt) ∨ c.stage = .releasing →
      c.entry ≠ .absent) :
    (Scheduling.setCall i c { s with lock := lock, db := db }).Owned := by
  refine ⟨fun j => ?_, fun j => ?_, fun j => ?_⟩
  all_goals
    by_cases hj : j = i
    · subst hj
      rw [setCall_self]
      assumption
    · rw [setCall_of_ne hj]
      first
        | exact (hother j hj).trans (h.lock_iff j)
        | exact h.idle j
        | exact h.entered j

theorem Scheduling.Owned.setNx (h : s.Owned) {i : ι} (hidle : (s.calls i).stage = .idle)
    (reply : Reply) : (s.setNx i reply).Owned := by
  have hnot : s.lock ≠ some i := by
    intro hlock
    have hpresent := (h.lock_iff i).mp hlock
    rw [h.idle i hidle] at hpresent
    cases hpresent
  unfold Scheduling.setNx
  split
  · refine h.setCall i ⟨.skipped, .absent⟩ s.lock s.db ⟨fun hlock => absurd hlock hnot, nofun⟩
      (fun _ _ => Iff.rfl) nofun ?_
    rintro (⟨attempt, hstage⟩ | hstage) <;> cases hstage
  · rename_i hfree
    have hstage : (if reply = .ok then DispatchStage.posting 0 else .skipped) ≠ .idle := by
      split <;> exact nofun
    dsimp only
    split
    · refine h.setCall i ⟨_, .present⟩ (some i) s.db ⟨fun _ => rfl, fun _ => rfl⟩ ?_
        (fun hidle => absurd hidle hstage) (fun _ => nofun)
      intro j hj
      rw [hfree]
      exact ⟨fun hsame => absurd (Option.some.inj hsame).symm hj, nofun⟩
    · rename_i hlost
      have hraised : reply ≠ .ok := by
        rintro rfl
        exact hlost rfl
      refine h.setCall i ⟨_, .absent⟩ s.lock s.db ⟨fun hlock => absurd hlock hnot, nofun⟩
        (fun _ _ => Iff.rfl) (fun hidle => absurd hidle hstage) ?_
      rw [if_neg hraised]
      rintro (⟨attempt, hposting⟩ | hposting) <;> cases hposting

-- A step of `_dispatch_with_retry`.
theorem Scheduling.Owned.setStage (h : s.Owned) {i : ι} (hentry : (s.calls i).entry ≠ .absent)
    (stage : DispatchStage) (hstage : stage ≠ .idle) (db : Database) :
    (Scheduling.setCall i { s.calls i with stage := stage } { s with db := db }).Owned :=
  h.setCall i { s.calls i with stage := stage } s.lock db (h.lock_iff i) (fun _ _ => Iff.rfl)
    (fun hidle => absurd hidle hstage) (fun _ => hentry)

theorem Scheduling.Owned.delete (h : s.Owned) {i : ι} {reply : Reply}
    (hown : OwnDelete s (.delete i reply)) : (s.delete i reply).Owned := by
  unfold Scheduling.delete
  split
  · rename_i hcarried
    refine h.setCall i ⟨.released, .absent⟩ none s.db ⟨nofun, nofun⟩ ?_ nofun ?_
    · intro j hj
      refine ⟨nofun, fun hlock => ?_⟩
      rcases hown hcarried with hnone | hself
      · rw [hnone] at hlock
        cases hlock
      · rw [hself] at hlock
        exact absurd (Option.some.inj hlock).symm hj
    · rintro (⟨attempt, hstage⟩ | hstage) <;> cases hstage
  · refine h.setCall i { s.calls i with stage := .released } s.lock s.db (h.lock_iff i)
      (fun _ _ => Iff.rfl) nofun ?_
    rintro (⟨attempt, hstage⟩ | hstage) <;> cases hstage

theorem Scheduling.Owned.expire (h : s.Owned) {i : ι} (hlock : s.lock = some i) :
    (s.expire i).Owned := by
  refine h.setCall i { s.calls i with entry := .expired } none s.db ⟨nofun, nofun⟩ ?_ ?_
    (fun _ => nofun)
  · intro j hj
    rw [hlock]
    exact ⟨nofun, fun hsame => absurd (Option.some.inj hsame).symm hj⟩
  · intro hidle
    have hpresent := (h.lock_iff i).mp hlock
    rw [h.idle i hidle] at hpresent
    cases hpresent

/-- As long as every delete is one of an own entry, the lock is owned. -/
theorem Scheduling.Owned.step (h : s.Owned) (hown : OwnDelete s a)
    (hstep : s.step target a = some s') : s'.Owned := by
  cases Scheduling.step_steps hstep with
  | setNx reply hidle => exact h.setNx hidle reply
  | @post i attempt env hstage =>
      refine h.setStage (h.entered i (.inl ⟨attempt, hstage⟩)) _ ?_ _
      split <;> exact nofun
  | @cancel i attempt hstage =>
      exact h.setStage (h.entered i (.inl ⟨attempt, hstage⟩)) .releasing nofun s.db
  | delete reply _ => exact h.delete hown
  | expire hlock => exact h.expire hlock

/-- Under the invariant a delete removes another call's entry exactly when its own has expired and
another one is there. -/
theorem Scheduling.Owned.ownDelete_iff (h : s.Owned) (hstep : s.step target a = some s') :
    OwnDelete s a ↔ ExpiredAlone s a := by
  cases Scheduling.step_steps hstep with
  | @delete i reply hstage =>
      have hentered := h.entered i (.inr hstage)
      constructor
      · intro hown hcarried hexpired j hpresent
        have hlock := (h.lock_iff j).mpr hpresent
        rcases hown hcarried with hnone | hself
        · rw [hnone] at hlock
          cases hlock
        · have hself' := (h.lock_iff i).mp hself
          rw [hexpired] at hself'
          cases hself'
      · intro halone hcarried
        cases hentry : (s.calls i).entry with
        | absent => exact absurd hentry hentered
        | present => exact .inr ((h.lock_iff i).mpr hentry)
        | expired =>
            refine .inl ?_
            by_contra hsome
            obtain ⟨j, hlock⟩ := Option.ne_none_iff_exists'.mp hsome
            exact halone hcarried hentry j ((h.lock_iff j).mp hlock)
  | _ => exact Iff.rfl

/-- In every run each delete removes nothing or the call's own entry exactly when each delete after
the expiry of the own entry finds every other entry expired. -/
theorem deletes_own_iff (target : DispatchTarget) (db : Database) (as : List (DispatchAction ι))
    (s : Scheduling ι)
    (hrun : Reasoning.runActions (Scheduling.step target) (.start db) as = some s) :
    Reasoning.EachAllowed (Scheduling.step target) OwnDelete (.start db) as ↔
      Reasoning.EachAllowed (Scheduling.step target) ExpiredAlone (.start db) as :=
  Reasoning.eachAllowed_iff (I := Scheduling.Owned)
    (fun _ _ _ h hown hstep => h.step hown hstep) (fun _ _ _ h hstep => h.ownDelete_iff hstep)
    (.start db) hrun

/-! Two calls of `dispatch`. -/

inductive TwoCalls where
  | first
  | second
  deriving DecidableEq

instance : Fintype TwoCalls := ⟨{.first, .second}, fun i => by cases i <;> decide⟩

/-- The entry of the first call expires before its delete; the second one has acquired the lock
by then or only asks for it afterwards. -/
def expiryRun (acquiredByThen : Bool) : List (DispatchAction TwoCalls) :=
  [.setNx .first .ok, .expire] ++ (if acquiredByThen then [.setNx .second .ok] else []) ++
    [.post .first (answeredPost 20), .delete .first .ok] ++
    if acquiredByThen then [] else [.setNx .second .ok]

theorem deletes_own_iff_late :
    Reasoning.EachAllowed (Scheduling.step nightlyTarget) OwnDelete
      (.start nightlyDatabase : Scheduling TwoCalls) (expiryRun false) := by
  have hruns : (Reasoning.runActions (Scheduling.step nightlyTarget)
      (.start nightlyDatabase : Scheduling TwoCalls) (expiryRun false)).isSome = true := by decide
  obtain ⟨s, hrun⟩ := Option.isSome_iff_exists.mp hruns
  exact (deletes_own_iff nightlyTarget nightlyDatabase (expiryRun false) s hrun).mpr (by decide)

/-- The delete of the first call removes the entry of the second. -/
theorem foreign_entry_deleted :
    ¬ ∀ (as : List (DispatchAction TwoCalls)) (s : Scheduling TwoCalls),
      Reasoning.runActions (Scheduling.step nightlyTarget) (.start nightlyDatabase) as = some s →
      Reasoning.EachAllowed (Scheduling.step nightlyTarget) OwnDelete (.start nightlyDatabase)
        as := by
  intro h
  have hruns : (Reasoning.runActions (Scheduling.step nightlyTarget)
      (.start nightlyDatabase : Scheduling TwoCalls) (expiryRun true)).isSome = true := by decide
  obtain ⟨s, hrun⟩ := Option.isSome_iff_exists.mp hruns
  exact absurd (h (expiryRun true) s hrun) (by decide)

/-! ## 4. One tick -/

/-- Between `redis.set` and `redis.delete`, having acquired the lock. -/
def DispatchStage.holds : DispatchStage → Bool
  | .posting _ => true
  | .releasing => true
  | _ => false

def DispatchStage.posted : DispatchStage → Bool
  | .releasing => true
  | .released => true
  | _ => false

/-- The Redis commands are carried out, no entry expires, and every attempt gets its answer. -/
def Tick (target : DispatchTarget) (s : Scheduling ι) : DispatchAction ι → Prop
  | .setNx _ reply => reply = .ok
  | .post _ env => env.answered target s.db = true
  | .cancel _ => False
  | .delete _ reply => reply = .ok
  | .expire => False

/-- No call asks for the lock after another one has deleted it. -/
def NoneReleased (s : Scheduling ι) : DispatchAction ι → Prop
  | .setNx _ _ => ∀ j, (s.calls j).stage ≠ .released
  | _ => True

instance (s : Scheduling ι) (a : DispatchAction ι) : Decidable (Tick target s a) :=
  match a with
  | .setNx _ reply => inferInstanceAs (Decidable (reply = .ok))
  | .post _ env => inferInstanceAs (Decidable (env.answered target s.db = true))
  | .cancel _ => isFalse id
  | .delete _ reply => inferInstanceAs (Decidable (reply = .ok))
  | .expire => isFalse id

instance [Fintype ι] (s : Scheduling ι) (a : DispatchAction ι) : Decidable (NoneReleased s a) :=
  match a with
  | .setNx _ _ => inferInstanceAs (Decidable (∀ j, (s.calls j).stage ≠ .released))
  | .post _ _ => isTrue trivial
  | .cancel _ => isTrue trivial
  | .delete _ _ => isTrue trivial
  | .expire => isTrue trivial

def Scheduling.Acquired (s : Scheduling ι) (i : ι) : Prop :=
  (s.calls i).stage.holds = true ∨ (s.calls i).stage = .released

def Scheduling.OneAcquired (s : Scheduling ι) : Prop :=
  ∀ i j, s.Acquired i → s.Acquired j → i = j

/-- The lock is the call's that holds it, and every call that has posted has created an
execution. -/
structure Scheduling.Ticking (workflowId : UUID) (before : Nat) (s : Scheduling ι) : Prop where
  holder : ∀ i, s.lock = some i ↔ (s.calls i).stage.holds = true
  created : ∃ calls : List ι, calls.Nodup ∧
    (∀ i, i ∈ calls ↔ (s.calls i).stage.posted = true) ∧
    (s.db.executionsOf workflowId).length = before + calls.length

-- What a call may do to the lock.
theorem Scheduling.Ticking.holder_setCall {workflowId : UUID} {before : Nat}
    (h : s.Ticking workflowId before) (i : ι) (c : DispatchCall) (lock : Option ι) (db : Database)
    (hlock : lock = some i ↔ c.stage.holds = true)
    (hother : ∀ j, j ≠ i → (lock = some j ↔ s.lock = some j)) (j : ι) :
    lock = some j ↔
      ((Scheduling.setCall i c { s with lock := lock, db := db }).calls j).stage.holds = true := by
  by_cases hj : j = i
  · subst hj
    rw [setCall_self]
    exact hlock
  · rw [setCall_of_ne hj]
    exact (hother j hj).trans (h.holder j)

-- The calls that have posted, when none is added.
theorem Scheduling.Ticking.created_setCall {workflowId : UUID} {before : Nat}
    (h : s.Ticking workflowId before) (i : ι) (c : DispatchCall) (lock : Option ι)
    (hposted : c.stage.posted = (s.calls i).stage.posted) :
    ∃ calls : List ι, calls.Nodup ∧
      (∀ j, j ∈ calls ↔ ((Scheduling.setCall i c { s with lock := lock }).calls j).stage.posted =
        true) ∧
      (s.db.executionsOf workflowId).length = before + calls.length := by
  obtain ⟨calls, hnodup, hcalls, hcount⟩ := h.created
  refine ⟨calls, hnodup, fun j => (hcalls j).trans ?_, hcount⟩
  by_cases hj : j = i
  · subst hj
    rw [setCall_self, hposted]
  · rw [setCall_of_ne hj]

theorem Scheduling.Ticking.setNx {workflowId : UUID} {before : Nat}
    (h : s.Ticking workflowId before) {i : ι} (hidle : (s.calls i).stage = .idle) :
    (s.setNx i .ok).Ticking workflowId before := by
  have hnot : s.lock ≠ some i := by
    intro hlock
    have hholds := (h.holder i).mp hlock
    rw [hidle] at hholds
    cases hholds
  have hposted : (s.calls i).stage.posted = false := by rw [hidle]; rfl
  unfold Scheduling.setNx
  split
  · exact ⟨h.holder_setCall i ⟨.skipped, .absent⟩ s.lock s.db
      ⟨fun hlock => absurd hlock hnot, nofun⟩ (fun _ _ => Iff.rfl),
      h.created_setCall i ⟨.skipped, .absent⟩ s.lock hposted.symm⟩
  · rename_i hfree
    refine ⟨h.holder_setCall i ⟨.posting 0, .present⟩ (some i) s.db ⟨fun _ => rfl, fun _ => rfl⟩ ?_,
      h.created_setCall i ⟨.posting 0, .present⟩ (some i) hposted.symm⟩
    intro j hj
    rw [hfree]
    exact ⟨fun hsame => absurd (Option.some.inj hsame).symm hj, nofun⟩

theorem Scheduling.Ticking.post {before : Nat} (h : s.Ticking target.workflowId before) {i : ι}
    {attempt : Nat} (hstage : (s.calls i).stage = .posting attempt) {env : PostEnv}
    (hanswered : env.answered target s.db = true) :
    (s.post target i attempt env).Ticking target.workflowId before := by
  have hreleasing : s.post target i attempt env = Scheduling.setCall i
      { s.calls i with stage := .releasing }
      { s with db := (ConstructorPlatform.post target env s.db).2 } := by
    have hstop : (ConstructorPlatform.post target env s.db).1 = true := hanswered
    simp only [Scheduling.post, hstop, Bool.true_or, if_true]
  rw [hreleasing]
  refine ⟨h.holder_setCall i { s.calls i with stage := .releasing } s.lock _ ?_
    (fun _ _ => Iff.rfl), ?_⟩
  · have hholder := h.holder i
    rw [hstage] at hholder
    exact hholder
  · obtain ⟨calls, hnodup, hcalls, hcount⟩ := h.created
    have hnew : i ∉ calls := by
      rw [hcalls, hstage]
      exact Bool.false_ne_true
    rcases post_database target env s.db with ⟨-, row, hrow, -, hdb⟩ | ⟨-, hlost⟩
    · refine ⟨i :: calls, List.nodup_cons.mpr ⟨hnew, hnodup⟩, fun j => ?_, ?_⟩
      · rw [List.mem_cons]
        by_cases hj : j = i
        · subst hj
          rw [setCall_self]
          exact ⟨fun _ => rfl, fun _ => .inl rfl⟩
        · rw [setCall_of_ne hj]
          exact ⟨fun hmem => (hcalls j).mp (hmem.resolve_left hj),
            fun hp => .inr ((hcalls j).mpr hp)⟩
      · rw [setCall_db]
        show ((ConstructorPlatform.post target env s.db).2.executionsOf _).length = _
        rw [hdb, Database.executionsOf_insert hrow, List.length_append, hcount,
          List.length_singleton, List.length_cons]
        omega
    · rw [PostEnv.answered, hlost] at hanswered
      cases hanswered

theorem Scheduling.Ticking.delete {workflowId : UUID} {before : Nat}
    (h : s.Ticking workflowId before) {i : ι} (hstage : (s.calls i).stage = .releasing) :
    (s.delete i .ok).Ticking workflowId before := by
  have hlock : s.lock = some i := (h.holder i).mpr (by rw [hstage]; rfl)
  refine ⟨h.holder_setCall i ⟨.released, .absent⟩ none s.db ⟨nofun, nofun⟩ ?_,
    h.created_setCall i ⟨.released, .absent⟩ none (by rw [hstage]; rfl)⟩
  intro j hj
  rw [hlock]
  exact ⟨nofun, fun hsame => absurd (Option.some.inj hsame).symm hj⟩

theorem Scheduling.Ticking.step {before : Nat} (h : s.Ticking target.workflowId before)
    (htick : Tick target s a) (hstep : s.step target a = some s') :
    s'.Ticking target.workflowId before := by
  cases Scheduling.step_steps hstep with
  | setNx reply hidle =>
      obtain rfl : reply = .ok := htick
      exact h.setNx hidle
  | post env hstage => exact h.post hstage htick
  | cancel _ => exact htick.elim
  | delete reply hstage =>
      obtain rfl : reply = .ok := htick
      exact h.delete hstage
  | expire _ => exact htick.elim

-- An action on a call that has acquired the lock before and after, or neither.
theorem Scheduling.acquired_setCall {i : ι} {c : DispatchCall} (lock : Option ι) (db : Database)
    (hc : (c.stage.holds = true ∨ c.stage = .released) ↔ s.Acquired i) (j : ι) :
    (Scheduling.setCall i c { s with lock := lock, db := db }).Acquired j ↔ s.Acquired j := by
  unfold Scheduling.Acquired
  by_cases hj : j = i
  · subst hj
    rw [setCall_self]
    exact hc
  · rw [setCall_of_ne hj]

/-- A call acquires the lock when it is free; nothing else changes who has acquired it. -/
theorem Scheduling.acquired_step (htick : Tick target s a) (hstep : s.step target a = some s') :
    (∃ i, a = .setNx i .ok ∧ s.lock = none ∧ (s.calls i).stage = .idle ∧
      ∀ j, s'.Acquired j ↔ j = i ∨ s.Acquired j) ∨
    ((∀ i reply, a = .setNx i reply → ∃ k, s.lock = some k) ∧
      ∀ j, s'.Acquired j ↔ s.Acquired j) := by
  cases Scheduling.step_steps hstep with
  | @setNx i reply hidle =>
      obtain rfl : reply = .ok := htick
      have hnot : ¬ s.Acquired i := by
        rintro (h | h) <;> rw [hidle] at h <;> cases h
      unfold Scheduling.setNx
      split
      · rename_i k hlock
        refine .inr ⟨fun _ _ _ => ⟨k, hlock⟩,
          acquired_setCall s.lock s.db ⟨?_, fun h => absurd h hnot⟩⟩
        rintro (h | h) <;> cases h
      · rename_i hfree
        refine .inl ⟨i, rfl, hfree, hidle, fun j => ?_⟩
        show (Scheduling.setCall i ⟨.posting 0, .present⟩ { s with lock := some i }).Acquired j ↔ _
        unfold Scheduling.Acquired
        by_cases hj : j = i
        · subst hj
          rw [setCall_self]
          exact ⟨fun _ => .inl rfl, fun _ => .inl rfl⟩
        · rw [setCall_of_ne hj, or_iff_right hj]
  | @post i attempt env hstage =>
      refine .inr ⟨fun _ _ h => (by cases h), acquired_setCall s.lock _ ⟨fun _ => ?_, fun _ => ?_⟩⟩
      · exact .inl (by rw [hstage]; rfl)
      · dsimp only
        split <;> exact .inl rfl
  | cancel _ => exact htick.elim
  | @delete i reply hstage =>
      obtain rfl : reply = .ok := htick
      refine .inr ⟨fun _ _ h => (by cases h), acquired_setCall none s.db ⟨fun _ => ?_, fun _ => ?_⟩⟩
      · exact .inl (by rw [hstage]; rfl)
      · exact .inr rfl
  | expire _ => exact htick.elim

/-- The lock is acquired a second time exactly when a call asks for it after a delete. -/
theorem Scheduling.Ticking.oneAcquired_step {workflowId : UUID} {before : Nat}
    (h : s.Ticking workflowId before) (hone : s.OneAcquired) (htick : Tick target s a)
    (hstep : s.step target a = some s') : s'.OneAcquired ↔ NoneReleased s a := by
  rcases Scheduling.acquired_step htick hstep with ⟨i, rfl, hfree, hidle, hacquired⟩ |
    ⟨hheld, hacquired⟩
  · constructor
    · intro hone' j hreleased
      have hsame := hone' j i ((hacquired j).mpr (.inr (.inr hreleased)))
        ((hacquired i).mpr (.inl rfl))
      rw [hsame, hidle] at hreleased
      cases hreleased
    · intro hnone
      -- Nobody has acquired the free lock before.
      have hfirst : ∀ j, ¬ s.Acquired j := by
        rintro j (hholds | hreleased)
        · have hlock := (h.holder j).mpr hholds
          rw [hfree] at hlock
          cases hlock
        · exact hnone j hreleased
      have honly : ∀ j, s'.Acquired j → j = i := fun j hj =>
        ((hacquired j).mp hj).resolve_right (hfirst j)
      exact fun j k hj hk => (honly j hj).trans (honly k hk).symm
  · have hone' : s'.OneAcquired := fun j k hj hk =>
      hone j k ((hacquired j).mp hj) ((hacquired k).mp hk)
    refine ⟨fun _ => ?_, fun _ => hone'⟩
    cases a with
    | setNx i reply =>
        obtain ⟨k, hlock⟩ := hheld i reply rfl
        have hholds := (h.holder k).mp hlock
        intro j hreleased
        have hsame := hone j k (.inr hreleased) (.inl hholds)
        rw [← hsame, hreleased] at hholds
        cases hholds
    | _ => trivial

omit [DecidableEq ι] in
-- When every attempt is over, executions and acquisitions are the same number.
theorem Scheduling.Ticking.created_le_iff {workflowId : UUID} {before : Nat}
    (h : s.Ticking workflowId before) :
    (s.OneAcquired → (s.db.executionsOf workflowId).length ≤ before + 1) ∧
    ((∀ i attempt, (s.calls i).stage ≠ .posting attempt) →
      (s.db.executionsOf workflowId).length ≤ before + 1 → s.OneAcquired) := by
  obtain ⟨calls, hnodup, hcalls, hcount⟩ := h.created
  rw [hcount, Nat.add_le_add_iff_left]
  constructor
  · intro hone
    have hacquired : ∀ i ∈ calls, s.Acquired i := by
      intro i hi
      have hposted := (hcalls i).mp hi
      unfold Scheduling.Acquired
      cases hstage : (s.calls i).stage <;> rw [hstage] at hposted
      · cases hposted
      · exact .inl rfl
      · exact .inl rfl
      · exact .inr rfl
      · cases hposted
    match calls, hnodup with
    | [], _ => exact Nat.zero_le _
    | [_], _ => exact Nat.le_refl _
    | i :: j :: _, hnodup =>
        have hsame := hone i j (hacquired i List.mem_cons_self)
          (hacquired j (List.mem_cons_of_mem _ List.mem_cons_self))
        rw [hsame] at hnodup
        exact absurd List.mem_cons_self (List.nodup_cons.mp hnodup).1
  · intro hover hle
    have hmem : ∀ i, s.Acquired i → i ∈ calls := by
      intro i hi
      rw [hcalls]
      rcases hi with hholds | hreleased
      · cases hstage : (s.calls i).stage <;> rw [hstage] at hholds
        · cases hholds
        · exact absurd hstage (hover i _)
        · rfl
        · rfl
        · cases hholds
      · rw [hreleased]
        rfl
    intro i j hi hj
    match calls, hle, hmem i hi, hmem j hj with
    | [_], _, hi, hj => exact (List.mem_singleton.mp hi).trans (List.mem_singleton.mp hj).symm

/-- The calls of one tick create at most one execution when none asks for the lock after another one
has deleted it; and only then, once no call has an attempt left to make. -/
theorem tick_created_iff (target : DispatchTarget) (db : Database) (as : List (DispatchAction ι))
    (s : Scheduling ι)
    (hrun : Reasoning.runActions (Scheduling.step target) (.start db) as = some s)
    (htick : Reasoning.EachAllowed (Scheduling.step target) (Tick target) (.start db) as) :
    (Reasoning.EachAllowed (Scheduling.step target) NoneReleased (.start db) as →
      (s.db.executionsOf target.workflowId).length ≤
        (db.executionsOf target.workflowId).length + 1) ∧
    ((∀ i attempt, (s.calls i).stage ≠ .posting attempt) →
      (s.db.executionsOf target.workflowId).length ≤
        (db.executionsOf target.workflowId).length + 1 →
      Reasoning.EachAllowed (Scheduling.step target) NoneReleased (.start db) as) := by
  have hstart : (Scheduling.start db : Scheduling ι).Ticking target.workflowId
      (db.executionsOf target.workflowId).length :=
    ⟨fun _ => ⟨nofun, nofun⟩, [], List.nodup_nil, fun _ => ⟨nofun, nofun⟩, rfl⟩
  have hnone : ∀ i, ¬ (Scheduling.start db : Scheduling ι).Acquired i := by
    rintro i (h | h) <;> cases h
  have hticking : s.Ticking target.workflowId (db.executionsOf target.workflowId).length :=
    (Reasoning.Reachable.of_eachAllowed .start htick hrun).invariant hstart
      fun _ _ _ _ ha hstep h => h.step ha hstep
  have hexact : s.OneAcquired ↔
      Reasoning.EachAllowed (Scheduling.step target) NoneReleased (.start db) as := by
    refine Reasoning.runActions_exact_given (I := fun _ => True)
      (fun _ _ _ h ha hstep => Scheduling.Ticking.step h ha hstep) ?_
      (fun _ _ _ _ _ _ _ _ _ => trivial)
      (fun _ _ _ h _ hone ha hstep => h.oneAcquired_step hone ha hstep) hstart trivial
      (fun i j hi => absurd hi (hnone i)) htick hrun
    intro t a t' _ ha hstep hone i j hi hj
    have hgrows : ∀ k, t.Acquired k → t'.Acquired k := by
      intro k hk
      rcases Scheduling.acquired_step ha hstep with ⟨_, _, _, _, hacquired⟩ | ⟨_, hacquired⟩
      · exact (hacquired k).mpr (.inr hk)
      · exact (hacquired k).mpr hk
    exact hone i j (hgrows i hi) (hgrows j hj)
  rw [← hexact]
  exact hticking.created_le_iff

/-- Two calls of one tick: the second one asks for the lock while the first one holds it, or after
the first one has deleted it. -/
def tickRun (afterwards : Bool) : List (DispatchAction TwoCalls) :=
  if afterwards then
    [.setNx .first .ok, .post .first (answeredPost 20), .delete .first .ok,
     .setNx .second .ok, .post .second (answeredPost 21), .delete .second .ok]
  else [.setNx .first .ok, .setNx .second .ok, .post .first (answeredPost 20), .delete .first .ok]

theorem tick_created_iff_overlap : ∃ s : Scheduling TwoCalls,
    Reasoning.runActions (Scheduling.step nightlyTarget) (.start nightlyDatabase)
      (tickRun false) = some s ∧
    (s.db.executionsOf nightlyTarget.workflowId).length ≤
      (nightlyDatabase.executionsOf nightlyTarget.workflowId).length + 1 := by
  have hruns : (Reasoning.runActions (Scheduling.step nightlyTarget)
      (.start nightlyDatabase : Scheduling TwoCalls) (tickRun false)).isSome = true := by decide
  obtain ⟨s, hrun⟩ := Option.isSome_iff_exists.mp hruns
  exact ⟨s, hrun, (tick_created_iff nightlyTarget nightlyDatabase (tickRun false) s hrun
    (by decide)).1 (by decide)⟩

/-- An instance whose timer fires a little later creates a second execution. -/
theorem late_instance_repeats :
    ¬ ∀ (as : List (DispatchAction TwoCalls)) (s : Scheduling TwoCalls),
      Reasoning.runActions (Scheduling.step nightlyTarget) (.start nightlyDatabase) as = some s →
      Reasoning.EachAllowed (Scheduling.step nightlyTarget) (Tick nightlyTarget)
        (.start nightlyDatabase) as →
      (s.db.executionsOf nightlyTarget.workflowId).length ≤
        (nightlyDatabase.executionsOf nightlyTarget.workflowId).length + 1 := by
  intro h
  have htwo : (Reasoning.runActions (Scheduling.step nightlyTarget)
      (.start nightlyDatabase : Scheduling TwoCalls) (tickRun true)).map
        (fun s => (s.db.executionsOf nightlyTarget.workflowId).length) = some 2 := by decide
  obtain ⟨s, hrun, hs⟩ := Option.map_eq_some_iff.mp htwo
  have hone := h (tickRun true) s hrun (by decide)
  rw [hs] at hone
  exact absurd hone (by decide)

end Runs

end ConstructorPlatform
