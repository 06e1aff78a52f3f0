import ConstructorPlatform.PlatformApi.Pool

/-!
# TenantResidue — what a closed session leaves in the pool

The `finally` block of `get_scoped_db` empties the setting, and the other three sites leave it as it
is.  In both cases nothing is committed after it, so the close, which rolls back, decides: a setting
goes back into the pool exactly when the transaction it was made in has been committed.
-/

namespace ConstructorPlatform

/-- The tenant a session was scoped to. -/
def Stage.tenant : Stage → Option UUID
  | .opened => none
  | .scoped tenant => some tenant
  | .resetting tenant => some tenant
  | .closing tenant => tenant
  | .closed tenant => tenant

variable {κ : Type}

/-- No connection the session used is in the pool with its tenant still set. -/
def Pool.NoResidue (p : Pool κ) (d : DbSession κ) (tenant : UUID) : Prop :=
  ∀ c ∈ d.used, p.holder c = none → (p.connection c).current ≠ some tenant

/-! ## 1. What one operation does -/

section

variable {p p' : Pool κ} {n : Nat} {d d' : DbSession κ} {op : SessionOp κ} {c : κ}
  {f : Connection → Connection} {tenant : UUID}

-- Only a commit changes what a rollback goes back to.
theorem SessionStep.keeps_committed (h : SessionStep d op f d') (hop : op ≠ .commit)
    (x : Connection) :
    (f x).committed = x.committed := by
  cases h with
  | commit => exact absurd rfl hop
  | reset c ok => cases ok <;> rfl
  | create | lookup | scope | refuse | statement | unwind | toReset | raise | leave | skipReset
  | close => rfl

theorem SessionStep.keeps_used (h : SessionStep d op f d') (hc : c ∈ d.used) : c ∈ d'.used := by
  cases h with
  | lookup | scope | statement | reset => exact List.mem_cons_of_mem _ hc
  | create | refuse | commit | unwind | toReset | raise | leave | skipReset | close => exact hc

-- A session that is scoped keeps its tenant to the end.
theorem SessionStep.keeps_tenant (h : SessionStep d op f d') (ht : d.stage.tenant = some tenant) :
    d'.stage.tenant = some tenant := by
  cases h with
  | create => cases ht
  | lookup _ hs | scope _ _ hs | refuse _ hs => rw [hs] at ht; cases ht
  | statement _ hs | commit hs | unwind hs | toReset hs | raise hs | leave _ hs | reset _ _ hs
  | skipReset hs | close hs => rw [hs] at ht; exact ht

-- The body leaves the setting alone.
theorem SessionStep.scoped_cases (h : SessionStep d op f d') (hs' : d'.stage = .scoped tenant) :
    d.stage = .opened ∨ (d.stage = .scoped tenant ∧ ∀ x, (f x).current = x.current) := by
  cases h with
  | scope t c hs => exact .inl hs
  | statement c hs =>
      cases hs'
      exact .inr ⟨hs, fun x => rfl⟩
  | commit hs =>
      cases hs'
      exact .inr ⟨hs, fun x => rfl⟩
  | create | lookup | refuse | unwind | toReset | raise | leave | reset | skipReset | close =>
      cases hs'

theorem SessionStep.closed_connection {t : Option UUID} (h : SessionStep d op f d')
    (hs' : d'.stage = .closed t) : d'.connection = none := by
  cases h with
  | close => rfl
  | create | lookup | scope | refuse | statement | commit | unwind | toReset | raise | leave
  | reset | skipReset => cases hs'

/-! ## 2. Without a commit -/

/-- The connections go back to what they carried at the start. -/
structure Pool.Kept (setting : κ → Option UUID) (p : Pool κ) : Prop where
  linked : p.Linked
  committed : ∀ c, (p.connection c).committed = setting c

variable [DecidableEq κ]

theorem Pool.Kept.step {setting : κ → Option UUID} {a : Nat × SessionOp κ} (h : p.Kept setting)
    (hop : a.2 ≠ .commit) (hstep : p.step a = some p') : p'.Kept setting := by
  obtain ⟨n, op⟩ := a
  obtain ⟨d, d', f, hacts, hsession, hturn, -⟩ := Pool.step_turn h.linked hstep
  refine ⟨h.linked.turn hacts hsession hturn, fun c => ?_⟩
  rcases hturn.connection_cases c with hconn | hconn
  · rw [hconn, hsession.keeps_committed hop]
    exact h.committed c
  · rw [hconn]
    exact h.committed c

omit [DecidableEq κ] in
theorem Pool.kept_idle (setting : κ → Option UUID) : (Pool.idle setting).Kept setting :=
  ⟨Pool.linked_idle setting, fun _ => rfl⟩

omit [DecidableEq κ] in
theorem Pool.Kept.current {setting : κ → Option UUID} (h : p.Kept setting)
    (hc : p.holder c = none) : (p.connection c).current = setting c := by
  rw [h.linked.idle c hc]
  exact h.committed c

/-! ## 3. A session alone -/

/-- Session `n` is the only one. -/
structure Pool.Alone (n : Nat) (p : Pool κ) : Prop where
  linked : p.Linked
  only : ∀ m, m ≠ n → p.session m = none
  closed : ∀ d t, p.session n = some d → d.stage = .closed t → d.connection = none

theorem Pool.Alone.step (h : p.Alone n) (hstep : p.step (n, op) = some p') : p'.Alone n := by
  obtain ⟨d, d', f, hacts, hsession, hturn, -⟩ := Pool.step_turn h.linked hstep
  refine ⟨h.linked.turn hacts hsession hturn, ?_, ?_⟩
  · intro m hm
    rw [hturn.others m hm]
    exact h.only m hm
  · intro e t he hclosed
    cases hturn.self.symm.trans he
    exact hsession.closed_connection hclosed

omit [DecidableEq κ] in
theorem Pool.alone_idle (n : Nat) (setting : κ → Option UUID) : (Pool.idle setting).Alone n := by
  refine ⟨Pool.linked_idle setting, fun m _ => rfl, ?_⟩
  intro d t hd
  cases hd

omit [DecidableEq κ] in
-- When it is closed, all connections are in the pool.
theorem Pool.Alone.holder {t : Option UUID} (h : p.Alone n) (hd : p.session n = some d)
    (hs : d.stage = .closed t) (c : κ) : p.holder c = none := by
  cases hc : p.holder c with
  | none => rfl
  | some m =>
      obtain ⟨e, he, hec⟩ := h.linked.held m c hc
      by_cases hm : m = n
      · subst hm
        cases hd.symm.trans he
        rw [h.closed d t hd hs] at hec
        cases hec
      · rw [h.only m hm] at he
        cases he

/-- Up to its first commit a scoped session has the transaction open in which it was scoped. -/
def Pool.Opening (n : Nat) (p : Pool κ) : Prop :=
  ∀ d tenant, p.session n = some d → d.stage = .scoped tenant →
    ∃ c ∈ d.used, d.connection = some c ∧ (p.connection c).current = some tenant

theorem Pool.Opening.step (h : p.Opening n) (hlink : p.Linked) (hop : op ≠ .commit)
    (hstep : p.step (n, op) = some p') : p'.Opening n := by
  obtain ⟨d, d', f, hacts, hsession, hturn, -⟩ := Pool.step_turn hlink hstep
  intro e tenant he hs
  cases hturn.self.symm.trans he
  cases hsession with
  | scope t c hs₀ =>
      cases hs
      exact ⟨c, List.mem_cons_self, rfl, by rw [(hturn.takes c rfl).2.2]; rfl⟩
  | statement c hs₀ =>
      cases hs
      have hd : p.session n = some d := hacts.session_of_scope (by rw [hs₀]; rfl)
      obtain ⟨c₀, -, hcon, hcur⟩ := h d tenant hd hs₀
      obtain ⟨hguard, -, hconn⟩ := hturn.takes c rfl
      have heq : c₀ = c := by
        rcases hguard with hown | ⟨hnone, -⟩
        · exact Option.some.inj (hcon.symm.trans hown)
        · cases hcon.symm.trans hnone
      subst heq
      exact ⟨c₀, List.mem_cons_self, rfl, by rw [hconn]; exact hcur⟩
  | commit => exact absurd rfl hop
  | create | lookup | refuse | unwind | toReset | raise | leave | reset | skipReset | close =>
      cases hs

/-- A commit has put the tenant on a connection, and the session cannot take it off any more. -/
def Pool.Stained (n : Nat) (tenant : UUID) (p : Pool κ) : Prop :=
  ∃ d c, p.session n = some d ∧ c ∈ d.used ∧ d.stage.tenant = some tenant ∧
    (p.connection c).committed = some tenant ∧
    (d.stage = .scoped tenant → (p.connection c).current = some tenant)

theorem Pool.Opening.commit (h : p.Opening n) (hlink : p.Linked)
    (hstep : p.step (n, .commit) = some p') : ∃ tenant, p'.Stained n tenant := by
  obtain ⟨d, d', f, hacts, hsession, hturn, -⟩ := Pool.step_turn hlink hstep
  cases hsession with
  | @commit _ tenant hs =>
      have hd : p.session n = some d := hacts.session_of_scope (by rw [hs]; rfl)
      obtain ⟨c, hused, hcon, hcur⟩ := h d tenant hd hs
      have hconn := (hturn.gives c hcon rfl).2
      refine ⟨tenant, _, c, hturn.self, hused, rfl, ?_, fun _ => ?_⟩
      · rw [hconn]
        exact hcur
      · rw [hconn]
        exact hcur

theorem Pool.Stained.step (h : p.Stained n tenant) (hlink : p.Linked)
    (hstep : p.step (n, op) = some p') : p'.Stained n tenant := by
  obtain ⟨d, c, hd, hused, htenant, hcommitted, hcur⟩ := h
  obtain ⟨e, d', f, hacts, hsession, hturn, -⟩ := Pool.step_turn hlink hstep
  cases hacts.eq_of_session hd
  have hconn := hturn.connection_cases c
  refine ⟨d', c, hturn.self, hsession.keeps_used hused, hsession.keeps_tenant htenant, ?_, ?_⟩
  · rcases hconn with hc | hc <;> rw [hc]
    · by_cases hop : op = .commit
      · subst hop
        cases hsession with
        | commit hs =>
            rw [hs] at htenant
            cases htenant
            exact hcur hs
      · rw [hsession.keeps_committed hop]
        exact hcommitted
    · exact hcommitted
  · intro hs'
    rcases hsession.scoped_cases hs' with hs | ⟨hs, hf⟩
    · rw [hs] at htenant
      cases htenant
    · rcases hconn with hc | hc <;> rw [hc]
      · rw [hf]
        exact hcur hs
      · exact hcur hs

omit [DecidableEq κ] in
theorem Pool.Stained.residue (h : p.Stained n tenant) (halone : p.Alone n)
    (hd : p.session n = some d) {t : UUID} (hs : d.stage = .closed (some t)) :
    ¬ p.NoResidue d t := by
  obtain ⟨e, c, he, hused, htenant, hcommitted, -⟩ := h
  cases hd.symm.trans he
  rw [hs] at htenant
  cases htenant
  have hfree := halone.holder hd hs c
  intro hno
  exact hno c hused hfree ((halone.linked.idle c hfree).trans hcommitted)

theorem Pool.Alone.run {ops : List (SessionOp κ)} (h : p.Alone n)
    (hrun : Reasoning.runActions Pool.step p (ops.map (Prod.mk n)) = some p') : p'.Alone n := by
  refine Reasoning.runActions_invariant (I := Pool.Alone n) ?_ h hrun
  intro a ha q q' hq hstep
  obtain ⟨op, -, rfl⟩ := List.mem_map.mp ha
  exact hq.step hstep

theorem Pool.Stained.run {ops : List (SessionOp κ)} (h : p.Stained n tenant) (halone : p.Alone n)
    (hrun : Reasoning.runActions Pool.step p (ops.map (Prod.mk n)) = some p') :
    p'.Stained n tenant := by
  refine (Reasoning.runActions_invariant (I := fun q => q.Alone n ∧ q.Stained n tenant) ?_
    ⟨halone, h⟩ hrun).2
  intro a ha q q' hq hstep
  obtain ⟨op, -, rfl⟩ := List.mem_map.mp ha
  exact ⟨hq.1.step hstep, hq.2.step hq.1.linked hstep⟩

theorem Pool.Opening.run {ops : List (SessionOp κ)} (hops : .commit ∉ ops) (h : p.Opening n)
    (halone : p.Alone n)
    (hrun : Reasoning.runActions Pool.step p (ops.map (Prod.mk n)) = some p') : p'.Opening n := by
  refine (Reasoning.runActions_invariant (I := fun q => q.Alone n ∧ q.Opening n) ?_
    ⟨halone, h⟩ hrun).2
  intro a ha q q' hq hstep
  obtain ⟨op, hop, rfl⟩ := List.mem_map.mp ha
  exact ⟨hq.1.step hstep, hq.2.step hq.1.linked (fun heq => hops (heq ▸ hop)) hstep⟩

/-- A session alone, at whichever site: it leaves its tenant in the pool exactly when it commits, or
when a connection it used had come with that tenant. -/
theorem alone_noResidue_iff {setting : κ → Option UUID} {ops : List (SessionOp κ)}
    (hrun : Reasoning.runActions Pool.step (Pool.idle setting) (ops.map (Prod.mk n)) = some p)
    (hd : p.session n = some d) (hs : d.stage = .closed (some tenant)) :
    p.NoResidue d tenant ↔ .commit ∉ ops ∧ ∀ c ∈ d.used, setting c ≠ some tenant := by
  have hinit := Pool.alone_idle n setting
  have hend := hinit.run hrun
  by_cases hops : .commit ∈ ops
  · -- The first commit comes in the transaction in which the session was scoped.
    obtain ⟨before, rest, rfl, hbefore⟩ := List.eq_append_cons_of_mem hops
    rw [List.map_append, Reasoning.runActions_append] at hrun
    obtain ⟨p₁, hrun₁, hrun⟩ := Option.bind_eq_some_iff.mp hrun
    obtain ⟨p₂, hstep, hrun₂⟩ := Option.bind_eq_some_iff.mp hrun
    have hopening : (Pool.idle setting).Opening n := by
      intro d tenant hd
      cases hd
    have halone₁ := hinit.run hrun₁
    obtain ⟨t, hstained⟩ := (hopening.run hbefore hinit hrun₁).commit halone₁.linked hstep
    have hresidue := (hstained.run (halone₁.step hstep) hrun₂).residue hend hd hs
    constructor
    · intro hno
      exact absurd hno hresidue
    · intro hno
      exact absurd hops hno.1
  · have hkept : p.Kept setting := by
      refine Reasoning.runActions_invariant (I := Pool.Kept setting) ?_ (Pool.kept_idle setting)
        hrun
      intro a ha q q' hq hstep
      obtain ⟨op, hop, rfl⟩ := List.mem_map.mp ha
      exact hq.step (fun heq => hops (heq ▸ hop)) hstep
    have hcur : ∀ c, (p.connection c).current = setting c :=
      fun c => hkept.current (hend.holder hd hs c)
    constructor
    · intro hno
      refine ⟨hops, fun c hc => ?_⟩
      rw [← hcur c]
      exact hno c hc (hend.holder hd hs c)
    · intro hno c hc _
      rw [hcur c]
      exact hno.2 c hc

end

/-- A session alone leaves its tenant in the pool exactly when it commits, or when a connection it
used had come with that tenant; and in a run of any sessions on new connections, none of which
commits, no session leaves its tenant. -/
theorem no_residue_iff (κ : Type) [DecidableEq κ] :
    (∀ (setting : κ → Option UUID) (n : Nat) (ops : List (SessionOp κ)) (p : Pool κ)
      (d : DbSession κ) (tenant : UUID),
      Reasoning.runActions Pool.step (Pool.idle setting) (ops.map (Prod.mk n)) = some p →
      p.session n = some d → d.stage = .closed (some tenant) →
      (p.NoResidue d tenant ↔ .commit ∉ ops ∧ ∀ c ∈ d.used, setting c ≠ some tenant)) ∧
    (∀ (p : Pool κ) (n : Nat) (d : DbSession κ) (tenant : UUID),
      Reasoning.Reachable Pool.step (fun _ a => a.2 ≠ .commit) (Pool.idle fun _ => none) p →
      p.session n = some d → d.stage = .closed (some tenant) → p.NoResidue d tenant) := by
  constructor
  · intro setting n ops p d tenant hrun hd hs
    exact alone_noResidue_iff hrun hd hs
  · intro p n d tenant hreach _ _ c _ hfree
    have hkept : p.Kept fun _ => none :=
      hreach.invariant (Pool.kept_idle _) fun _ _ _ _ hop hstep h => h.step hop hstep
    rw [hkept.current hfree]
    exact nofun

/-! A session of each site for tenant 1, on a pool of one connection. -/

/-- The operations around a body. -/
def sessionOps (site : Site) (body : List (SessionOp (Fin 1))) : List (SessionOp (Fin 1)) :=
  [.create site, .lookup 0, .scope 1 0] ++ body ++ [.leave false] ++
    (if site = .getScopedDb then [.reset 0 true] else []) ++ [.close]

/-- `create_execution`: the definition is read, the row inserted, committed and read again. -/
def createExecutionOps : List (SessionOp (Fin 1)) :=
  [.statement 0, .statement 0, .commit, .statement 0]

/-- Tenant 1 stays in the pool. -/
def LeavesTenant (ops : List (SessionOp (Fin 1))) : Prop :=
  ∃ p d, Reasoning.runActions Pool.step (Pool.idle fun _ => none) (ops.map (Prod.mk 0)) = some p ∧
    p.session 0 = some d ∧ d.stage = .closed (some 1) ∧ ¬ p.NoResidue d 1

theorem residue_at_every_site :
    LeavesTenant (sessionOps .getScopedDb createExecutionOps) ∧
    LeavesTenant (sessionOps .webhookTrigger createExecutionOps) ∧
    LeavesTenant (sessionOps .internalTrigger createExecutionOps) ∧
    LeavesTenant (sessionOps .runWorkflow [.statement 0, .commit]) := by
  refine ⟨⟨_, _, rfl, rfl, rfl, fun h => ?_⟩, ⟨_, _, rfl, rfl, rfl, fun h => ?_⟩,
    ⟨_, _, rfl, rfl, rfl, fun h => ?_⟩, ⟨_, _, rfl, rfl, rfl, fun h => ?_⟩⟩
  · exact h 0 (by decide) rfl rfl
  · exact h 0 (by decide) rfl rfl
  · exact h 0 (by decide) rfl rfl
  · exact h 0 (by decide) rfl rfl

theorem no_residue_iff_read :
    ∃ p d, Reasoning.runActions Pool.step (Pool.idle fun _ => none)
        ((sessionOps .getScopedDb [.statement 0]).map (Prod.mk 0)) = some p ∧
      p.session 0 = some d ∧ p.NoResidue d 1 := by
  refine ⟨_, _, rfl, rfl, ?_⟩
  refine ((no_residue_iff (Fin 1)).1 (fun _ => none) 0 (sessionOps .getScopedDb [.statement 0])
    _ _ 1 rfl rfl rfl).mpr ⟨by simp [sessionOps], fun c _ => nofun⟩

end ConstructorPlatform
