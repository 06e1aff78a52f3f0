import ConstructorPlatform.PlatformApi.Pool

/-!
# TenantScope — the tenant a statement runs under

`get_scoped_db` and `_run_workflow` set `app.current_tenant` once for a session.  The setting holds
in the transaction it was made in; a later transaction of the session runs on whatever connection
the pool gives it, under the setting of that connection.
-/

namespace ConstructorPlatform

variable {κ : Type}

/-- Every statement of a scoped session has run under the tenant of the session. -/
def Pool.Covered (p : Pool κ) : Prop := ∀ q ∈ p.statements, q.setting = some q.tenant

/-- When a scoped session begins another transaction, the connection it is given carries its tenant
already. -/
def Pool.BeginsInScope (p : Pool κ) (a : Nat × SessionOp κ) : Prop :=
  ∀ d tenant c, p.session a.1 = some d → d.stage.scope = some tenant →
    a.2.statementOn = some c → d.connection = none → (p.connection c).current = some tenant

/-- An open transaction of a scoped session is on a connection that carries the tenant. -/
structure Pool.InScope (p : Pool κ) : Prop where
  linked : p.Linked
  carries : ∀ n d c tenant, p.session n = some d → d.connection = some c →
    d.stage.scope = some tenant → (p.connection c).current = some tenant

section

variable {p p' : Pool κ} {n : Nat} {d d' : DbSession κ} {op : SessionOp κ} {c : κ}
  {f : Connection → Connection} {tenant : UUID}

-- What a session keeps of its scope: `set_config` makes it, a statement and the way to the
-- `finally` block leave it as it is.
theorem SessionStep.scope_cases (h : SessionStep d op f d') (hc : d'.connection = some c)
    (hscope : d'.stage.scope = some tenant) :
    (∀ x, (f x).current = some tenant) ∨
    (d.stage.scope = some tenant ∧ f = id ∧
      (d.connection = some c ∨ op.statementOn = some c)) := by
  cases h with
  | create => cases hc
  | lookup _ hs => cases hscope
  | scope =>
      cases hscope
      exact .inl fun x => rfl
  | refuse => cases hscope
  | statement c' hs =>
      cases hscope
      cases hc
      exact .inr ⟨by rw [hs]; rfl, rfl, .inr rfl⟩
  | commit => cases hc
  | unwind => cases hc
  | toReset hs =>
      cases hscope
      exact .inr ⟨by rw [hs]; rfl, rfl, .inl hc⟩
  | raise => cases hc
  | leave => cases hscope
  | reset => cases hscope
  | skipReset => cases hscope
  | close => cases hscope

-- What a step puts on record.
theorem Pool.mem_issued {q : Statement} (hq : q ∈ p.issued n d op) :
    ∃ c, op.statementOn = some c ∧ d.stage.scope = some q.tenant ∧
      q.setting = (p.connection c).current := by
  unfold Pool.issued at hq
  split at hq
  · rename_i t c hscope hop
    rw [List.mem_singleton] at hq
    subst hq
    exact ⟨c, hop, hscope, rfl⟩
  · cases hq

theorem SessionStep.connection_of_statement (h : SessionStep d op f d')
    (hop : op.statementOn = some c) : d'.connection = some c := by
  cases h with
  | statement | reset => exact hop
  | create | lookup | scope | refuse | commit | unwind | toReset | raise | leave | skipReset
  | close => cases hop

variable [DecidableEq κ]

theorem Pool.InScope.step {a : Nat × SessionOp κ} (h : p.InScope) (hbegin : p.BeginsInScope a)
    (hstep : p.step a = some p') : p'.InScope := by
  obtain ⟨n, op⟩ := a
  obtain ⟨d, d', f, hacts, hsession, hturn, -⟩ := Pool.step_turn h.linked hstep
  refine ⟨h.linked.turn hacts hsession hturn, ?_⟩
  intro m e c tenant hm hc hscope
  by_cases hmn : m = n
  · subst hmn
    cases hturn.self.symm.trans hm
    rw [(hturn.takes c hc).2.2]
    rcases hsession.scope_cases hc hscope with hset | ⟨hold, rfl, hcon⟩
    · exact hset _
    · have hd := hacts.session_of_scope hold
      rcases hcon with hcon | hop
      · exact h.carries m d c tenant hd hcon hold
      · rcases (hturn.takes c hc).1 with hcon | ⟨hnone, -⟩
        · exact h.carries m d c tenant hd hcon hold
        · exact hbegin d tenant c hd hold hop hnone
  · rw [hturn.others m hmn] at hm
    rw [(hturn.of_held h.linked hacts hmn (h.linked.holds m e c hm hc)).2]
    exact h.carries m e c tenant hm hc hscope

theorem Pool.covered_step_iff {a : Nat × SessionOp κ} (h : p.InScope) (hcov : p.Covered)
    (hstep : p.step a = some p') : p'.Covered ↔ p.BeginsInScope a := by
  obtain ⟨n, op⟩ := a
  obtain ⟨d, d', f, hacts, hsession, hturn, hst⟩ := Pool.step_turn h.linked hstep
  unfold Pool.Covered
  rw [hst]
  constructor
  · intro hall e tenant c he hscope hop _
    cases hacts.eq_of_session he
    have hissued : p.issued n d op = [⟨n, tenant, (p.connection c).current⟩] := by
      unfold Pool.issued
      rw [hscope, show op.statementOn = some c from hop]
    have hmem : (⟨n, tenant, (p.connection c).current⟩ : Statement) ∈
        p.statements ++ p.issued n d op := by
      rw [hissued]
      exact List.mem_append_right _ (List.mem_singleton.mpr rfl)
    exact hall _ hmem
  · intro hbegin q hq
    rcases List.mem_append.mp hq with hold | hnew
    · exact hcov q hold
    · obtain ⟨c, hop, hscope, hsetting⟩ := Pool.mem_issued hnew
      have hd := hacts.session_of_scope hscope
      rw [hsetting]
      rcases (hturn.takes c (hsession.connection_of_statement hop)).1 with hcon | ⟨hnone, -⟩
      · exact h.carries n d c q.tenant hd hcon hscope
      · exact hbegin d q.tenant c hd hscope hop hnone

/-- Every statement of every scoped session runs under its tenant exactly when each transaction that
a scoped session begins after the one it was scoped in gets a connection that carries the tenant
already. -/
theorem statements_covered_iff (setting : κ → Option UUID) (as : List (Nat × SessionOp κ))
    (p : Pool κ)
    (hrun : Reasoning.runActions Pool.step (Pool.idle setting) as = some p) :
    p.Covered ↔ Reasoning.EachAllowed Pool.step Pool.BeginsInScope (Pool.idle setting) as := by
  have hlink : ∀ (p : Pool κ) a p', p.Linked → p.step a = some p' → p'.Linked :=
    fun p a p' h hstep => h.step hstep
  -- Nothing goes off record.
  have hmono : ∀ (p : Pool κ) a p', p.Linked → p.step a = some p' → p'.Covered → p.Covered := by
    intro p a p' h hstep hcov q hq
    obtain ⟨_, _, _, -, -, -, hst⟩ := Pool.step_turn h hstep
    exact hcov q (hst ▸ List.mem_append_left _ hq)
  have hkeep : ∀ (p : Pool κ) a p', p.Linked → p.InScope → p.Covered → p.BeginsInScope a →
      p.step a = some p' → p'.InScope :=
    fun p a p' _ h _ hbegin hstep => h.step hbegin hstep
  have hexact : ∀ (p : Pool κ) a p', p.Linked → p.InScope → p.Covered → p.step a = some p' →
      (p'.Covered ↔ p.BeginsInScope a) :=
    fun p a p' _ h hcov hstep => Pool.covered_step_iff h hcov hstep
  have hinit : (Pool.idle setting).InScope := by
    refine ⟨Pool.linked_idle setting, ?_⟩
    intro n d c tenant hd
    cases hd
  have hcov : (Pool.idle setting).Covered := by
    intro q hq
    cases hq
  exact Reasoning.runActions_exact hlink hmono hkeep hexact hinit.linked hinit hcov hrun

end

/-! A run of two sessions on two connections. -/

/-- `_run_workflow` for tenant 1 and a handler for tenant 2 work in turn; each commits, and goes on
in a second transaction on the connection that it had. -/
def ownConnectionsRun : List (Nat × SessionOp (Fin 2)) :=
  [(0, .create .runWorkflow), (0, .scope 1 0), (0, .statement 0), (0, .commit),
   (1, .create .getScopedDb), (1, .lookup 1), (1, .scope 2 1), (1, .statement 1), (1, .commit),
   (0, .statement 0), (1, .statement 1), (1, .commit), (0, .commit),
   (1, .leave false), (1, .reset 1 true), (1, .close), (0, .leave false), (0, .close)]

theorem statements_covered_iff_ownConnections :
    ∃ p, Reasoning.runActions Pool.step (Pool.idle fun _ => none) ownConnectionsRun = some p ∧
      p.statements = [⟨0, 1, some 1⟩, ⟨1, 2, some 2⟩, ⟨0, 1, some 1⟩, ⟨1, 2, some 2⟩,
        ⟨1, 2, some 2⟩] ∧
      Reasoning.EachAllowed Pool.step Pool.BeginsInScope (Pool.idle fun _ => none)
        ownConnectionsRun := by
  refine ⟨_, rfl, by decide, ?_⟩
  refine (statements_covered_iff (fun _ => none) ownConnectionsRun _ rfl).mp ?_
  unfold Pool.Covered
  decide

/-- `_run_workflow` for tenant 1 commits `running`; a handler for tenant 2 gets its connection and
commits too; then the workflow goes on, on that connection. -/
def interleavedRun : List (Nat × SessionOp (Fin 2)) :=
  [(0, .create .runWorkflow), (0, .scope 1 0), (0, .statement 0), (0, .commit),
   (1, .create .getScopedDb), (1, .lookup 0), (1, .scope 2 0), (1, .statement 0), (1, .commit),
   (0, .statement 0)]

/-- Its statement runs under tenant 2. -/
theorem workflow_runs_under_other_tenant :
    ∃ p, Reasoning.runActions Pool.step (Pool.idle fun _ => none) interleavedRun = some p ∧
      ⟨0, 1, some 2⟩ ∈ p.statements ∧ ¬ p.Covered := by
  refine ⟨_, rfl, by decide, fun h => ?_⟩
  exact absurd (h ⟨0, 1, some 2⟩ (by decide)) (by decide)

end ConstructorPlatform
