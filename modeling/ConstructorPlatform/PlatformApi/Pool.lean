import ConstructorPlatform.Value
import ConstructorPlatform.Reasoning.System
import Mathlib.Logic.Function.Basic

/-!
# Pool — `src/database.py` and the places that scope a session

The sessions of one platform-api process share a pool of database connections.  A session takes a
connection with the first statement of a transaction and gives it back when the transaction ends,
so its next statement may run on another one.  The tenant scope is the setting
`app.current_tenant`, and a setting belongs to a connection: `set_config(..., false)` changes it
until the next `set_config` on the same connection, or until a rollback of the transaction it was
made in.

What the handlers do with a scoped session is left open: any statements and commits, in any order,
ended by a return or by an exception.
-/

namespace ConstructorPlatform

/-! ## 1. Connections and sessions -/

/-- The setting `app.current_tenant` of a connection; `none` is the empty string, which is also what
a new connection reads. -/
structure Connection where
  -- What the next statement sees.
  current : Option UUID
  -- What a rollback goes back to.
  committed : Option UUID

/-- `SELECT set_config('app.current_tenant', :tenant_id, false)`. -/
def Connection.setConfig (tenant : Option UUID) (c : Connection) : Connection :=
  { c with current := tenant }

def Connection.commit (c : Connection) : Connection := { c with committed := c.current }

def Connection.rollback (c : Connection) : Connection := { c with current := c.committed }

/-- The code that scopes a session to a tenant. -/
inductive Site where
  -- `get_scoped_db`, on the session of `get_db`.
  | getScopedDb
  -- `trigger` of the webhook router, on the session of `get_db`.
  | webhookTrigger
  -- `internal_trigger`, on the session of `get_db`.
  | internalTrigger
  -- `_run_workflow`, on a session of its own.
  | runWorkflow
  deriving DecidableEq

/-- Where the code around a session stands. -/
inductive Stage where
  -- Before `set_config`: the lookups of the request.
  | opened
  -- The body: the handler, the rest of the trigger or `execute_workflow`.
  | scoped (tenant : UUID)
  -- In the `finally` block of `get_scoped_db`.
  | resetting (tenant : UUID)
  -- At the end of `async with AsyncSessionFactory()`, with the tenant if there was one.
  | closing (tenant : Option UUID)
  | closed (tenant : Option UUID)
  deriving DecidableEq

structure DbSession (κ : Type) where
  site : Site
  stage : Stage
  -- The connection of the open transaction.
  connection : Option κ
  -- History: the connections it has used, the last one first.
  used : List κ

/-- `AsyncSessionFactory()`. -/
def DbSession.create {κ : Type} (site : Site) : DbSession κ := ⟨site, .opened, none, []⟩

def DbSession.goto {κ : Type} (stage : Stage) (d : DbSession κ) : DbSession κ :=
  { d with stage := stage }

/-- After a statement on `c`. -/
def DbSession.onConnection {κ : Type} (c : κ) (stage : Stage) (d : DbSession κ) : DbSession κ :=
  { d with stage := stage, connection := some c, used := c :: d.used }

/-- After the end of a transaction. -/
def DbSession.offConnection {κ : Type} (stage : Stage) (d : DbSession κ) : DbSession κ :=
  { d with stage := stage, connection := none }

/-- A statement of a session that is scoped. -/
structure Statement where
  session : Nat
  tenant : UUID
  -- `app.current_tenant` on the connection when the statement starts.
  setting : Option UUID
  deriving DecidableEq

/-- The connections of type `κ` with the sessions that share them. -/
structure Pool (κ : Type) where
  connection : κ → Connection
  -- The session that holds a connection; the others are in the pool.
  holder : κ → Option Nat
  session : Nat → Option (DbSession κ)
  -- History: what scoped sessions have issued, oldest first.
  statements : List Statement

/-- No session yet; the connections may carry settings from before. -/
def Pool.idle {κ : Type} (setting : κ → Option UUID) : Pool κ where
  connection := fun c => ⟨setting c, setting c⟩
  holder := fun _ => none
  session := fun _ => none
  statements := []

/-! ## 2. What a session does -/

inductive SessionOp (κ : Type) where
  -- `AsyncSessionFactory()`.
  | create (site : Site)
  -- A statement before the scope is set.
  | lookup (c : κ)
  -- `set_config` with the tenant.
  | scope (tenant : UUID) (c : κ)
  -- Any statement of the body, also one that `flush` sends before a commit.
  | statement (c : κ)
  | commit
  -- The body ends, with an exception or without.
  | leave (raised : Bool)
  -- The `set_config` of the `finally` block; its exceptions are dropped.
  | reset (c : κ) (ok : Bool)
  -- It raises before it has a connection.
  | skipReset
  | close

/-- The connection that a statement of a scoped session is given. -/
def SessionOp.statementOn {κ : Type} : SessionOp κ → Option κ
  | .statement c => some c
  | .reset c _ => some c
  | _ => none

/-- The tenant whose scope should be in force. -/
def Stage.scope : Stage → Option UUID
  | .scoped tenant => some tenant
  | .resetting tenant => some tenant
  | _ => none

section Step

variable {κ : Type} [DecidableEq κ]

def Pool.setSession (n : Nat) (d : DbSession κ) (p : Pool κ) : Pool κ :=
  { p with session := Function.update p.session n (some d) }

/-- A statement: it runs on the connection of the open transaction, or it opens one on a connection
`c` from the pool. -/
def Pool.execute (n : Nat) (d : DbSession κ) (c : κ) (sql : Connection → Connection) (stage : Stage)
    (p : Pool κ) : Option (Pool κ) :=
  if d.connection = some c ∨ (d.connection = none ∧ p.holder c = none) then
    some (
      { p with
        connection := Function.update p.connection c (sql (p.connection c))
        holder := Function.update p.holder c (some n) }.setSession n (d.onConnection c stage))
  else none

/-- The end of the open transaction, if there is one: its connection goes back to the pool. -/
def Pool.finish (n : Nat) (d : DbSession κ) (outcome : Connection → Connection) (stage : Stage)
    (p : Pool κ) : Pool κ :=
  match d.connection with
  | none => p.setSession n (d.offConnection stage)
  | some c =>
      { p with
        connection := Function.update p.connection c (outcome (p.connection c))
        holder := Function.update p.holder c none }.setSession n (d.offConnection stage)

/-- A statement of a scoped session goes on record before it runs. -/
def Pool.record (n : Nat) (tenant : UUID) (c : κ) (p : Pool κ) : Pool κ :=
  { p with statements := p.statements ++ [⟨n, tenant, (p.connection c).current⟩] }

/-- The code that follows the body at each site; a rollback changes nothing that the close, which
rolls back too, would not change, except before the statement of `get_scoped_db`. -/
def Pool.leave (n : Nat) (d : DbSession κ) (tenant : UUID) (raised : Bool) (p : Pool κ) : Pool κ :=
  match d.site, raised with
  | .getScopedDb, true => p.finish n d .rollback (.resetting tenant)
  | .getScopedDb, false => p.setSession n (d.goto (.resetting tenant))
  | .runWorkflow, _ => p.setSession n (d.goto (.closing (some tenant)))
  | _, true => p.finish n d .rollback (.closing (some tenant))  -- `get_db`
  | _, false => p.setSession n (d.goto (.closing (some tenant)))

def Pool.perform (n : Nat) (d : DbSession κ) (op : SessionOp κ) (p : Pool κ) : Option (Pool κ) :=
  match d.stage, op with
  | .opened, .lookup c => p.execute n d c id .opened
  | .opened, .scope tenant c => p.execute n d c (.setConfig (some tenant)) (.scoped tenant)
  | .opened, .leave _ => some (p.setSession n (d.goto (.closing none)))  -- 401 or 404
  | .scoped tenant, .statement c => (p.record n tenant c).execute n d c id (.scoped tenant)
  | .scoped tenant, .commit => some (p.finish n d .commit (.scoped tenant))
  | .scoped tenant, .leave raised => some (p.leave n d tenant raised)
  | .resetting tenant, .reset c ok =>
      (p.record n tenant c).execute n d c (if ok then .setConfig none else id)
        (.closing (some tenant))
  | .resetting tenant, .skipReset => some (p.setSession n (d.goto (.closing (some tenant))))
  | .closing tenant, .close => some (p.finish n d .rollback (.closed tenant))
  | _, _ => none

/-- One step of session `a.1`. -/
def Pool.step (p : Pool κ) (a : Nat × SessionOp κ) : Option (Pool κ) :=
  match p.session a.1, a.2 with
  | none, .create site => some (p.setSession a.1 (.create site))
  | none, _ => none
  | some d, op => p.perform a.1 d op

end Step

/-! ## 3. What a step does -/

section Effects

variable {κ : Type}

/-- The part of a step that the session sees: the operation, what it does to the connection of the
transaction, and the session afterwards. -/
inductive SessionStep : DbSession κ → SessionOp κ → (Connection → Connection) → DbSession κ → Prop
    where
  | create (site : Site) : SessionStep (.create site) (.create site) id (.create site)
  | lookup {d : DbSession κ} (c : κ) (hs : d.stage = .opened) :
      SessionStep d (.lookup c) id (d.onConnection c .opened)
  | scope {d : DbSession κ} (tenant : UUID) (c : κ) (hs : d.stage = .opened) :
      SessionStep d (.scope tenant c) (.setConfig (some tenant)) (d.onConnection c (.scoped tenant))
  | refuse {d : DbSession κ} (raised : Bool) (hs : d.stage = .opened) :
      SessionStep d (.leave raised) id (d.goto (.closing none))
  | statement {d : DbSession κ} {tenant : UUID} (c : κ) (hs : d.stage = .scoped tenant) :
      SessionStep d (.statement c) id (d.onConnection c (.scoped tenant))
  | commit {d : DbSession κ} {tenant : UUID} (hs : d.stage = .scoped tenant) :
      SessionStep d .commit .commit (d.offConnection (.scoped tenant))
  | unwind {d : DbSession κ} {tenant : UUID} (hs : d.stage = .scoped tenant) :
      SessionStep d (.leave true) .rollback (d.offConnection (.resetting tenant))
  | toReset {d : DbSession κ} {tenant : UUID} (hs : d.stage = .scoped tenant) :
      SessionStep d (.leave false) id (d.goto (.resetting tenant))
  | raise {d : DbSession κ} {tenant : UUID} (hs : d.stage = .scoped tenant) :
      SessionStep d (.leave true) .rollback (d.offConnection (.closing (some tenant)))
  | leave {d : DbSession κ} {tenant : UUID} (raised : Bool) (hs : d.stage = .scoped tenant) :
      SessionStep d (.leave raised) id (d.goto (.closing (some tenant)))
  | reset {d : DbSession κ} {tenant : UUID} (c : κ) (ok : Bool) (hs : d.stage = .resetting tenant) :
      SessionStep d (.reset c ok) (if ok then .setConfig none else id)
        (d.onConnection c (.closing (some tenant)))
  | skipReset {d : DbSession κ} {tenant : UUID} (hs : d.stage = .resetting tenant) :
      SessionStep d .skipReset id (d.goto (.closing (some tenant)))
  | close {d : DbSession κ} {tenant : Option UUID} (hs : d.stage = .closing tenant) :
      SessionStep d .close .rollback (d.offConnection (.closed tenant))

/-- The part of a step that the pool sees: session `n` goes from `d` to `d'`, the connection of its
transaction is changed by `f`, and nothing else happens. -/
structure Pool.Turn (p : Pool κ) (n : Nat) (d d' : DbSession κ) (f : Connection → Connection)
    (p' : Pool κ) : Prop where
  self : p'.session n = some d'
  others : ∀ m, m ≠ n → p'.session m = p.session m
  takes : ∀ c, d'.connection = some c →
    (d.connection = some c ∨ (d.connection = none ∧ p.holder c = none)) ∧
      p'.holder c = some n ∧ p'.connection c = f (p.connection c)
  gives : ∀ c, d.connection = some c → d'.connection = none →
    p'.holder c = none ∧ p'.connection c = f (p.connection c)
  frame : ∀ c, d.connection ≠ some c → d'.connection ≠ some c →
    p'.holder c = p.holder c ∧ p'.connection c = p.connection c

/-- The session that acts: it exists, or it is the one that the step creates. -/
def Pool.Acts (p : Pool κ) (n : Nat) (op : SessionOp κ) (d : DbSession κ) : Prop :=
  p.session n = some d ∨ (p.session n = none ∧ ∃ site, op = .create site ∧ d = .create site)

/-- What goes on record. -/
def Pool.issued (p : Pool κ) (n : Nat) (d : DbSession κ) (op : SessionOp κ) : List Statement :=
  match d.stage.scope, op.statementOn with
  | some tenant, some c => [⟨n, tenant, (p.connection c).current⟩]
  | _, _ => []

theorem Pool.turn_goto {p : Pool κ} {n : Nat} {d : DbSession κ}
    (hlink : ∀ c, d.connection = some c → p.holder c = some n) (stage : Stage) :
    p.Turn n d (d.goto stage) id (p.setSession n (d.goto stage)) := by
  refine ⟨Function.update_self .., fun m hm => Function.update_of_ne hm .., ?_, ?_, ?_⟩
  · intro c hc
    exact ⟨.inl hc, hlink c hc, rfl⟩
  · intro c hc hnone
    rw [show d.connection = none from hnone] at hc
    cases hc
  · intro c _ _
    exact ⟨rfl, rfl⟩

variable {p p' : Pool κ} {n : Nat} {d d' : DbSession κ} {op : SessionOp κ} {c : κ}
  {f : Connection → Connection}

/-- A connection after a step: the session has its transaction open on it, or has just given it
back, or has nothing to do with it. -/
theorem Pool.Turn.cases (h : p.Turn n d d' f p') (c : κ) :
    (d'.connection = some c ∧ (d.connection = some c ∨ (d.connection = none ∧ p.holder c = none)) ∧
      p'.holder c = some n ∧ p'.connection c = f (p.connection c)) ∨
    (d.connection = some c ∧ d'.connection = none ∧
      p'.holder c = none ∧ p'.connection c = f (p.connection c)) ∨
    (d.connection ≠ some c ∧ d'.connection ≠ some c ∧
      p'.holder c = p.holder c ∧ p'.connection c = p.connection c) := by
  by_cases hnew : d'.connection = some c
  · exact .inl ⟨hnew, h.takes c hnew⟩
  · by_cases hold : d.connection = some c
    · cases hcase : d'.connection with
      | none => exact .inr (.inl ⟨hold, rfl, h.gives c hold hcase⟩)
      | some c' =>
          -- A session keeps the connection it has.
          rcases (h.takes c' hcase).1 with hown | ⟨hnone, -⟩
          · cases hold.symm.trans hown
            exact absurd hcase hnew
          · cases hold.symm.trans hnone
    · exact .inr (.inr ⟨hold, hnew, h.frame c hold hnew⟩)

theorem Pool.Turn.connection_cases (h : p.Turn n d d' f p') (c : κ) :
    p'.connection c = f (p.connection c) ∨ p'.connection c = p.connection c := by
  rcases h.cases c with ⟨-, -, -, hconn⟩ | ⟨-, -, -, hconn⟩ | ⟨-, -, -, hconn⟩
  · exact .inl hconn
  · exact .inl hconn
  · exact .inr hconn

-- A transaction ends in a commit or a rollback.
theorem SessionStep.settles (h : SessionStep d op f d') (hc : d.connection = some c)
    (hnone : d'.connection = none) (x : Connection) : (f x).current = (f x).committed := by
  have hgoto : ∀ stage, (d.goto stage).connection ≠ none := by
    intro stage hn
    rw [show d.connection = none from hn] at hc
    cases hc
  cases h with
  | create => cases hc
  | lookup | scope | statement | reset => cases hnone
  | refuse | toReset | leave | skipReset => exact absurd hnone (hgoto _)
  | commit | unwind | raise | close => rfl

/-! ## 4. Connections and their holders -/

/-- A connection is held by the session that has a transaction open on it; in the pool its two
values agree. -/
structure Pool.Linked (p : Pool κ) : Prop where
  holds : ∀ n d c, p.session n = some d → d.connection = some c → p.holder c = some n
  held : ∀ n c, p.holder c = some n → ∃ d, p.session n = some d ∧ d.connection = some c
  idle : ∀ c, p.holder c = none → (p.connection c).current = (p.connection c).committed

theorem Pool.linked_idle (setting : κ → Option UUID) : (Pool.idle setting).Linked := by
  refine ⟨?_, ?_, fun c _ => rfl⟩
  · intro n d c hs
    cases hs
  · intro n c hc
    cases hc

theorem Pool.Acts.holder_iff (hacts : p.Acts n op d) (hlink : p.Linked) :
    p.holder c = some n ↔ d.connection = some c := by
  rcases hacts with hd | ⟨hnone, site, -, rfl⟩
  · constructor
    · intro hc
      obtain ⟨e, he, hcon⟩ := hlink.held n c hc
      cases hd.symm.trans he
      exact hcon
    · exact hlink.holds n d c hd
  · constructor
    · intro hc
      obtain ⟨e, he, -⟩ := hlink.held n c hc
      cases hnone.symm.trans he
    · intro hc
      cases hc

-- A scoped session that acts exists already.
theorem Pool.Acts.session_of_scope (h : p.Acts n op d) {tenant : UUID}
    (hscope : d.stage.scope = some tenant) :
    p.session n = some d := by
  rcases h with hd | ⟨-, site, -, rfl⟩
  · exact hd
  · cases hscope

theorem Pool.Acts.eq_of_session (h : p.Acts n op d) (hd : p.session n = some d') : d' = d := by
  rcases h with hsome | ⟨hnone, -⟩
  · exact Option.some.inj (hd.symm.trans hsome)
  · cases hnone.symm.trans hd

/-- A step of one session changes nothing on the connection that another one holds. -/
theorem Pool.Turn.of_held (hturn : p.Turn n d d' f p') (hlink : p.Linked) (hacts : p.Acts n op d)
    {m : Nat} (hm : m ≠ n) (hc : p.holder c = some m) :
    p'.holder c = some m ∧ p'.connection c = p.connection c := by
  have hown : d.connection ≠ some c := by
    intro hcon
    rw [(hacts.holder_iff hlink).mpr hcon] at hc
    exact hm (Option.some.inj hc).symm
  rcases hturn.cases c with ⟨-, hown' | ⟨-, hfree⟩, -⟩ | ⟨hown', -⟩ | ⟨-, -, hholder, hconn⟩
  · exact absurd hown' hown
  · rw [hfree] at hc
    cases hc
  · exact absurd hown' hown
  · exact ⟨hholder.trans hc, hconn⟩

theorem Pool.Linked.turn (hlink : p.Linked) (hacts : p.Acts n op d) (hstep : SessionStep d op f d')
    (hturn : p.Turn n d d' f p') : p'.Linked := by
  refine ⟨?_, ?_, ?_⟩
  · intro m e c hm hc
    by_cases hmn : m = n
    · subst hmn
      cases hturn.self.symm.trans hm
      exact (hturn.takes c hc).2.1
    · rw [hturn.others m hmn] at hm
      exact (hturn.of_held hlink hacts hmn (hlink.holds m e c hm hc)).1
  · intro m c hc
    rcases hturn.cases c with ⟨hnew, -, hholder, -⟩ | ⟨-, -, hholder, -⟩ | ⟨hold, -, hholder, -⟩
    · cases hholder.symm.trans hc
      exact ⟨d', hturn.self, hnew⟩
    · cases hholder.symm.trans hc
    · rw [hholder] at hc
      have hmn : m ≠ n := by
        intro heq
        subst heq
        exact hold ((hacts.holder_iff hlink).mp hc)
      obtain ⟨e, he, hec⟩ := hlink.held m c hc
      exact ⟨e, (hturn.others m hmn).trans he, hec⟩
  · intro c hc
    rcases hturn.cases c with ⟨-, -, hholder, -⟩ | ⟨hold, hnone, -, hconn⟩ | ⟨-, -, hholder, hconn⟩
    · cases hholder.symm.trans hc
    · rw [hconn]
      exact hstep.settles hold hnone _
    · rw [hconn]
      exact hlink.idle c (hholder.symm.trans hc)

/-! ## 5. Every step is a turn of its session -/

variable [DecidableEq κ]

theorem Pool.turn_execute {sql : Connection → Connection} {stage : Stage}
    (h : p.execute n d c sql stage = some p') :
    p.Turn n d (d.onConnection c stage) sql p' ∧ p'.statements = p.statements := by
  unfold Pool.execute at h
  split at h
  · rename_i hguard
    cases h
    refine ⟨⟨Function.update_self .., fun m hm => Function.update_of_ne hm .., ?_, ?_, ?_⟩, rfl⟩
    · intro c' hc
      cases hc
      exact ⟨hguard, Function.update_self .., Function.update_self ..⟩
    · intro c' _ hnone
      cases hnone
    · intro c' _ hc
      have hne : c' ≠ c := fun heq => hc (heq ▸ rfl)
      exact ⟨Function.update_of_ne hne .., Function.update_of_ne hne ..⟩
  · cases h

theorem Pool.turn_finish (outcome : Connection → Connection) (stage : Stage) :
    p.Turn n d (d.offConnection stage) outcome (p.finish n d outcome stage) ∧
      (p.finish n d outcome stage).statements = p.statements := by
  unfold Pool.finish
  split
  · rename_i hnone
    refine ⟨⟨Function.update_self .., fun m hm => Function.update_of_ne hm .., ?_, ?_, ?_⟩, rfl⟩
    · intro c' hc
      cases hc
    · intro c' hc
      rw [hnone] at hc
      cases hc
    · intro c' _ _
      exact ⟨rfl, rfl⟩
  · rename_i c hsome
    refine ⟨⟨Function.update_self .., fun m hm => Function.update_of_ne hm .., ?_, ?_, ?_⟩, rfl⟩
    · intro c' hc
      cases hc
    · intro c' hc _
      cases hsome.symm.trans hc
      exact ⟨Function.update_self .., Function.update_self ..⟩
    · intro c' hc _
      have hne : c' ≠ c := fun heq => hc (heq ▸ hsome)
      exact ⟨Function.update_of_ne hne .., Function.update_of_ne hne ..⟩

-- A statement on record has the same effect.
theorem Pool.turn_record {tenant : UUID} {sql : Connection → Connection} {stage : Stage}
    (h : (p.record n tenant c).execute n d c sql stage = some p') :
    p.Turn n d (d.onConnection c stage) sql p' ∧
      p'.statements = p.statements ++ [⟨n, tenant, (p.connection c).current⟩] := by
  obtain ⟨hturn, hst⟩ := Pool.turn_execute h
  exact ⟨⟨hturn.self, hturn.others, hturn.takes, hturn.gives, hturn.frame⟩, hst⟩

theorem Pool.turn_leave {tenant : UUID} {raised : Bool} (hs : d.stage = .scoped tenant)
    (hlink : ∀ c, d.connection = some c → p.holder c = some n) :
    ∃ d' f, SessionStep d (.leave raised) f d' ∧ p.Turn n d d' f (p.leave n d tenant raised) ∧
      (p.leave n d tenant raised).statements = p.statements := by
  unfold Pool.leave
  split
  · obtain ⟨hturn, hst⟩ := Pool.turn_finish (p := p) (n := n) (d := d) .rollback (.resetting tenant)
    exact ⟨_, _, .unwind hs, hturn, hst⟩
  · exact ⟨_, _, .toReset hs, Pool.turn_goto hlink _, rfl⟩
  · exact ⟨_, _, .leave _ hs, Pool.turn_goto hlink _, rfl⟩
  · obtain ⟨hturn, hst⟩ :=
      Pool.turn_finish (p := p) (n := n) (d := d) .rollback (.closing (some tenant))
    exact ⟨_, _, .raise hs, hturn, hst⟩
  · exact ⟨_, _, .leave _ hs, Pool.turn_goto hlink _, rfl⟩

theorem Pool.turn_perform (hlink : ∀ c, d.connection = some c → p.holder c = some n)
    (h : p.perform n d op = some p') :
    ∃ d' f, SessionStep d op f d' ∧ p.Turn n d d' f p' ∧
      p'.statements = p.statements ++ p.issued n d op := by
  unfold Pool.issued
  unfold Pool.perform at h
  split at h <;> rename_i hs
  · obtain ⟨hturn, hst⟩ := Pool.turn_execute h
    exact ⟨_, _, .lookup _ hs, hturn, by simp [hst, hs, Stage.scope]⟩
  · obtain ⟨hturn, hst⟩ := Pool.turn_execute h
    exact ⟨_, _, .scope _ _ hs, hturn, by simp [hst, hs, Stage.scope]⟩
  · cases h
    exact ⟨_, _, .refuse _ hs, Pool.turn_goto hlink _, by simp [hs, Stage.scope, Pool.setSession]⟩
  · obtain ⟨hturn, hst⟩ := Pool.turn_record h
    exact ⟨_, _, .statement _ hs, hturn, by simp [hst, hs, Stage.scope, SessionOp.statementOn]⟩
  · cases h
    obtain ⟨hturn, hst⟩ := Pool.turn_finish (p := p) (n := n) (d := d) .commit _
    exact ⟨_, _, .commit hs, hturn, by simp [hst, hs, Stage.scope, SessionOp.statementOn]⟩
  · cases h
    obtain ⟨d', f, hstep, hturn, hst⟩ := Pool.turn_leave hs hlink
    exact ⟨d', f, hstep, hturn, by simp [hst, hs, Stage.scope, SessionOp.statementOn]⟩
  · obtain ⟨hturn, hst⟩ := Pool.turn_record h
    exact ⟨_, _, .reset _ _ hs, hturn, by simp [hst, hs, Stage.scope, SessionOp.statementOn]⟩
  · cases h
    exact ⟨_, _, .skipReset hs, Pool.turn_goto hlink _,
      by simp [hs, Stage.scope, SessionOp.statementOn, Pool.setSession]⟩
  · cases h
    obtain ⟨hturn, hst⟩ := Pool.turn_finish (p := p) (n := n) (d := d) .rollback _
    exact ⟨_, _, .close hs, hturn, by simp [hst, hs, Stage.scope]⟩
  · cases h

theorem Pool.step_turn (hlink : p.Linked) (h : p.step (n, op) = some p') :
    ∃ d d' f, p.Acts n op d ∧ SessionStep d op f d' ∧ p.Turn n d d' f p' ∧
      p'.statements = p.statements ++ p.issued n d op := by
  unfold Pool.step at h
  split at h
  · rename_i site hnone hop
    cases hop
    cases h
    refine ⟨_, _, _, .inr ⟨hnone, site, rfl, rfl⟩, .create site, ?_, ?_⟩
    · exact Pool.turn_goto (d := .create site) (fun c hc => nomatch hc) .opened
    · exact (List.append_nil _).symm
  · cases h
  · rename_i d hd
    obtain ⟨d', f, hstep, hturn, hst⟩ := Pool.turn_perform (fun c => hlink.holds n d c hd) h
    exact ⟨d, d', f, .inl hd, hstep, hturn, hst⟩

theorem Pool.Linked.step {a : Nat × SessionOp κ} (hlink : p.Linked) (h : p.step a = some p') :
    p'.Linked := by
  obtain ⟨d, d', f, hacts, hstep, hturn, -⟩ := Pool.step_turn hlink h
  exact hlink.turn hacts hstep hturn

end Effects

end ConstructorPlatform
