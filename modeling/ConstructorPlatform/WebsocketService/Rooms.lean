import ConstructorPlatform.ConsumerLoops
import ConstructorPlatform.PlatformApi.Condition
import ConstructorPlatform.Reasoning.System
import ConstructorPlatform.UuidText

/-!
# Rooms — `src/main.py` of the websocket service

Clients connect with a token and join the rooms of executions.  The handlers of different clients
run interleaved, and `join_execution` waits between reading the session, asking the database and
entering the room.  A room is a name: `join_execution` uses the string the client sent, and
`StatusConsumer` the string `str(event.execution_id)`.
-/

namespace ConstructorPlatform

/-! ## 1. The server -/

/-- A client id over time; Socket.IO never gives one out twice. -/
inductive Presence where
  | unknown
  -- Registered, with the session of `sio.session(sid)`.
  | present (session : Dict)
  | gone

/-- A call of `join_execution` that waits for the database or has its answer. -/
structure JoinCall where
  sid : String
  executionId : Json
  -- `session.get("tenant_id")`.
  tenantId : Option Json
  -- The row that was found, if any, once the query is back.
  found : Option (Option UUID)

/-- An `execution_update` that a client has received. -/
structure Delivered where
  event : ExecutionStatusEvent
  sid : String
  -- History: the tenant in the session of the client at that moment.
  tenantId : Option Json

structure SocketServer where
  -- `process_executions`: the tenant of each execution.
  owner : UUID → Option UUID
  clients : String → Presence
  -- The members of each room; a client is also alone in the room that its id names.
  rooms : String → List String
  joins : Nat → Option JoinCall
  -- History: the `error` events, each with its client, code and message.
  errors : List (String × Nat × String)
  -- History: the updates sent to clients.
  delivered : List Delivered

def SocketServer.empty : SocketServer where
  owner := fun _ => none
  clients := fun _ => .unknown
  rooms := fun _ => []
  joins := fun _ => none
  errors := []
  delivered := []

/-! ## 2. The handlers -/

/-- How `connect` refuses a client. -/
inductive ConnectError where
  | refused (reason : String)
  | raised (exc : PyExc)

/-- The end of the `try` block of `connect` that raises. -/
def ConnectError.ofExc (exc : PyExc) : ConnectError :=
  if exc.kind = .valueError then .refused exc.text else .raised exc

/-- The body of `connect`: the session it leaves and the exception, if it raises.  `verified` is the
end of `verify_token(auth["token"])`. -/
def connect (auth : Json) (verified : Except PyExc Dict) (session : Dict) :
    Dict × Option ConnectError :=
  match if auth.truthy then pyIn (.str "token") auth else .ok false with
  | .error exc => (session, some (.raised exc))
  | .ok false => (session, some (.refused "Missing token"))
  | .ok true =>
      match auth.subscript "token", verified with
      | .error exc, _ => (session, some (.ofExc exc))
      | .ok _, .error exc => (session, some (.ofExc exc))
      | .ok _, .ok payload =>
          match Dict.item payload "tenant_id" with
          | .error exc => (session, some (.raised exc))
          | .ok tenantId =>
              match Dict.item payload "sub" with
              | .error exc => (dictSet "tenant_id" tenantId session, some (.raised exc))
              | .ok sub => (dictSet "user_id" sub (dictSet "tenant_id" tenantId session), none)

/-- `data.get("execution_id") if isinstance(data, dict) else None`. -/
def executionIdOf : Json → Json
  | .obj kvs => (kvs.lookup "execution_id").getD .null
  | _ => .null

def SocketServer.register (sid : String) (session : Dict) (s : SocketServer) : SocketServer :=
  { s with
    clients := Function.update s.clients sid (.present session)
    rooms := Function.update s.rooms sid (sid :: s.rooms sid) }

def SocketServer.enterRoom (sid room : String) (s : SocketServer) : SocketServer :=
  { s with rooms := Function.update s.rooms room (sid :: s.rooms room) }

def SocketServer.leaveRoom (sid room : String) (s : SocketServer) : SocketServer :=
  { s with rooms := Function.update s.rooms room ((s.rooms room).filter fun m => m ≠ sid) }

def SocketServer.disconnect (sid : String) (s : SocketServer) : SocketServer :=
  { s with
    clients := Function.update s.clients sid .gone
    rooms := fun room => (s.rooms room).filter fun m => m ≠ sid }

def SocketServer.setJoin (call : Nat) (j : Option JoinCall) (s : SocketServer) : SocketServer :=
  { s with joins := Function.update s.joins call j }

def SocketServer.error (sid : String) (code : Nat) (message : String) (s : SocketServer) :
    SocketServer :=
  { s with errors := s.errors ++ [(sid, code, message)] }

/-- `join_execution` until it asks the database. -/
def SocketServer.joinExecution (call : Nat) (sid : String) (session : Dict) (data : Json)
    (s : SocketServer) : SocketServer :=
  if (executionIdOf data).truthy then
    s.setJoin call (some ⟨sid, executionIdOf data, session.lookup "tenant_id", none⟩)
  else s.error sid 400 "execution_id required"

/-- `_get_execution_tenant`; the driver raises for what it cannot read as a UUID. -/
def SocketServer.getExecutionTenant (call : Nat) (j : JoinCall) (s : SocketServer) : SocketServer :=
  match j.executionId.str?.bind parseUuid with
  | some e => s.setJoin call (some { j with found := some (s.owner e) })
  | none => s.setJoin call none

/-- The ownership check. -/
def JoinCall.passes (j : JoinCall) (row : Option UUID) : Prop :=
  ∃ tenant, row = some tenant ∧ j.tenantId.bind Json.str? = some (uuidStr tenant)

instance (j : JoinCall) (row : Option UUID) : Decidable (j.passes row) :=
  match row with
  | none => isFalse fun ⟨_, h, _⟩ => nomatch h
  | some tenant =>
      if h : j.tenantId.bind Json.str? = some (uuidStr tenant) then isTrue ⟨tenant, rfl, h⟩
      else isFalse fun ⟨_, htenant, hstr⟩ => h (Option.some.inj htenant ▸ hstr)

/-- `join_execution` after the database has answered; a client that has gone cannot enter a room. -/
def SocketServer.finishJoin (call : Nat) (j : JoinCall) (row : Option UUID) (s : SocketServer) :
    SocketServer :=
  let s := s.setJoin call none
  if j.passes row then
    match s.clients j.sid, j.executionId.str? with
    | .present _, some room => s.enterRoom j.sid room
    | _, _ => s
  else s.error j.sid 403 "Forbidden"

/-- `leave_execution`; a room that is not named by a string has no members. -/
def SocketServer.leaveExecution (sid : String) (data : Json) (s : SocketServer) : SocketServer :=
  if (executionIdOf data).truthy then
    match (executionIdOf data).str? with
    | some room => s.leaveRoom sid room
    | none => s
  else s

/-- `session.get("tenant_id")` of a client. -/
def SocketServer.tenantOf (s : SocketServer) (sid : String) : Option Json :=
  match s.clients sid with
  | .present session => session.lookup "tenant_id"
  | _ => none

/-- What Socket.IO does with a message to a room. -/
def SocketServer.send (m : Emission) (s : SocketServer) : SocketServer :=
  { s with delivered := s.delivered ++
      (s.rooms (uuidStr m.room)).map fun sid => ⟨m.data, sid, s.tenantOf sid⟩ }

/-! ## 3. Steps -/

inductive SocketAction where
  -- A client is registered and `connect` runs.  Its transport may have a session already, and when
  -- `connect` raises the client may stay registered.
  | connect (sid : String) (session : Dict) (auth : Json) (verified : Except PyExc Dict)
      (stays : Bool)
  | disconnect (sid : String)
  | joinExecution (call : Nat) (sid : String) (data : Json)
  | getExecutionTenant (call : Nat)
  -- The query raises.
  | queryFails (call : Nat)
  | finishJoin (call : Nat)
  | leaveExecution (sid : String) (data : Json)
  -- The platform stores an execution.
  | createExecution (id tenantId : UUID)
  -- `StatusConsumer._process`.
  | consume (entry : StatusEntry) (env : StatusEnv)

def SocketServer.step (s : SocketServer) : SocketAction → Option SocketServer
  | .connect sid session auth verified stays =>
      match s.clients sid, ConstructorPlatform.connect auth verified session with
      | .unknown, (session, none) => some (s.register sid session)
      | .unknown, (session, some _) =>
          some (if stays then s.register sid session else (s.register sid session).disconnect sid)
      | _, _ => none
  | .disconnect sid =>
      match s.clients sid with
      | .present _ => some (s.disconnect sid)
      | _ => none
  | .joinExecution call sid data =>
      match s.joins call, s.clients sid with
      | none, .present session => some (s.joinExecution call sid session data)
      | _, _ => none
  | .getExecutionTenant call =>
      match s.joins call with
      | some ⟨sid, executionId, tenantId, none⟩ =>
          some (s.getExecutionTenant call ⟨sid, executionId, tenantId, none⟩)
      | _ => none
  | .queryFails call =>
      match s.joins call with
      | some ⟨_, _, _, none⟩ => some (s.setJoin call none)
      | _ => none
  | .finishJoin call =>
      match s.joins call with
      | some ⟨sid, executionId, tenantId, some row⟩ =>
          some (s.finishJoin call ⟨sid, executionId, tenantId, some row⟩ row)
      | _ => none
  | .leaveExecution sid data => some (s.leaveExecution sid data)
  | .createExecution id tenantId =>
      if id < uuidBound ∧ s.owner id = none then
        some { s with owner := Function.update s.owner id (some tenantId) }
      else none
  | .consume entry env =>
      some ((handleStatus (entry, env) ⟨[], []⟩).2.emitted.foldl (fun s m => s.send m) s)

theorem mem_update_rooms {rooms : String → List String} {room room' m : String}
    {members : List String} :
    m ∈ Function.update rooms room members room' ↔
      (room' = room ∧ m ∈ members) ∨ (room' ≠ room ∧ m ∈ rooms room') := by
  by_cases hroom : room' = room
  · rw [hroom, Function.update_self]
    simp
  · rw [Function.update_of_ne hroom]
    simp [hroom]

theorem SocketServer.mem_enterRoom {s : SocketServer} {sid room room' m : String} :
    m ∈ (s.enterRoom sid room).rooms room' ↔ (room' = room ∧ m = sid) ∨ m ∈ s.rooms room' := by
  rw [SocketServer.enterRoom, mem_update_rooms, List.mem_cons]
  by_cases hroom : room' = room <;> simp [hroom]

theorem SocketServer.mem_leaveRoom {s : SocketServer} {sid room room' m : String} :
    m ∈ (s.leaveRoom sid room).rooms room' ↔ ¬ (room' = room ∧ m = sid) ∧ m ∈ s.rooms room' := by
  rw [SocketServer.leaveRoom, mem_update_rooms, List.mem_filter, decide_eq_true_eq]
  by_cases hroom : room' = room
  · simp [hroom, and_comm]
  · simp [hroom]

/-! ## 4. Whose members a room has -/

/-- Client `sid` is connected for the tenant. -/
def SocketServer.ClientOf (s : SocketServer) (tenant : UUID) (sid : String) : Prop :=
  ∃ session, s.clients sid = .present session ∧
    session.lookup "tenant_id" = some (.str (uuidStr tenant))

/-- What is known of a waiting `join_execution`. -/
structure SocketServer.JoinKnown (s : SocketServer) (j : JoinCall) : Prop where
  client : s.clients j.sid ≠ .unknown
  session : ∀ session, s.clients j.sid = .present session →
    session.lookup "tenant_id" = j.tenantId
  row : ∀ tenant, j.found = some (some tenant) →
    ∃ e, j.executionId.str?.bind parseUuid = some e ∧ s.owner e = some tenant

/-- Every member of a room is there under its own id, or is a client of the tenant that owns the
execution the room's name denotes. -/
structure SocketServer.Owned (s : SocketServer) : Prop where
  members : ∀ room sid, sid ∈ s.rooms room → (∃ session, s.clients sid = .present session) ∧
    (room = sid ∨ ∃ e tenant, parseUuid room = some e ∧ s.owner e = some tenant ∧
      s.ClientOf tenant sid)
  plain : ∀ sid, s.clients sid ≠ .unknown → parseUuid sid = none
  joins : ∀ call j, s.joins call = some j → s.JoinKnown j
  delivered : ∀ d ∈ s.delivered, d.event.executionId < uuidBound →
    ∃ tenant, s.owner d.event.executionId = some tenant ∧
      d.tenantId = some (.str (uuidStr tenant))

/-- No client id can be read as a UUID. -/
def ClientIds (_ : SocketServer) : SocketAction → Prop
  | .connect sid _ _ _ _ => parseUuid sid = none
  | _ => True

section Owned

variable {s s' : SocketServer} {sid room : String} {session : Dict}

theorem SocketServer.Owned.empty : SocketServer.empty.Owned := by
  refine ⟨?_, ?_, ?_, ?_⟩
  · intro room sid h
    cases h
  · intro sid h
    exact absurd rfl h
  · intro call j h
    cases h
  · intro d h
    cases h

-- A change that leaves the clients alone and adds only what is as it should be.
theorem SocketServer.Owned.extend (h : s.Owned) (hclients : s'.clients = s.clients)
    (howner : ∀ e tenant, s.owner e = some tenant → s'.owner e = some tenant)
    (hrooms : ∀ room m, m ∈ s'.rooms room → m ∈ s.rooms room ∨
      ∃ e tenant, parseUuid room = some e ∧ s.owner e = some tenant ∧ s.ClientOf tenant m)
    (hjoins : ∀ call j, s'.joins call = some j → s.joins call = some j ∨ s.JoinKnown j)
    (hdelivered : ∀ d ∈ s'.delivered, d ∈ s.delivered ∨ (d.event.executionId < uuidBound →
      ∃ tenant, s.owner d.event.executionId = some tenant ∧
        d.tenantId = some (.str (uuidStr tenant)))) : s'.Owned := by
  refine ⟨?_, ?_, ?_, ?_⟩
  · intro room m hm
    unfold SocketServer.ClientOf
    rw [hclients]
    rcases hrooms room m hm with hold | ⟨e, tenant, hparse, he, session, hpresent, htenant⟩
    · obtain ⟨hpresent, hown⟩ := h.members room m hold
      refine ⟨hpresent, hown.imp_right ?_⟩
      rintro ⟨e, tenant, hparse, he, hclient⟩
      exact ⟨e, tenant, hparse, howner e tenant he, hclient⟩
    · exact ⟨⟨session, hpresent⟩,
        .inr ⟨e, tenant, hparse, howner e tenant he, session, hpresent, htenant⟩⟩
  · rw [hclients]
    exact h.plain
  · intro call j hj
    obtain ⟨hclient, hsession, hrow⟩ := (hjoins call j hj).elim (h.joins call j) id
    refine ⟨by rwa [hclients], by rwa [hclients], fun tenant htenant => ?_⟩
    obtain ⟨e, hparse, he⟩ := hrow tenant htenant
    exact ⟨e, hparse, howner e tenant he⟩
  · intro d hd hid
    obtain ⟨tenant, he, htenant⟩ := (hdelivered d hd).elim (fun hold => h.delivered d hold hid)
      fun hnew => hnew hid
    exact ⟨tenant, howner _ tenant he, htenant⟩

-- A change that concerns one client only: its memberships and its waiting joins are as they should
-- be, and so are everybody else's.
theorem SocketServer.Owned.setClient (h : s.Owned)
    (hother : ∀ m, m ≠ sid → s'.clients m = s.clients m) (howner : s'.owner = s.owner)
    (hjoins : s'.joins = s.joins) (hdelivered : s'.delivered = s.delivered)
    (hrooms : ∀ room m, m ∈ s'.rooms room → m ≠ sid → m ∈ s.rooms room)
    (hself : ∀ room, sid ∈ s'.rooms room →
      room = sid ∧ ∃ session, s'.clients sid = .present session)
    (hplain : parseUuid sid = none)
    (hknown : ∀ call j, s.joins call = some j → j.sid = sid → s'.clients sid = .gone) :
    s'.Owned := by
  refine ⟨?_, ?_, ?_, ?_⟩
  · intro room m hm
    by_cases heq : m = sid
    · subst heq
      obtain ⟨hroom, hpresent⟩ := hself room hm
      exact ⟨hpresent, .inl hroom⟩
    · unfold SocketServer.ClientOf
      rw [hother m heq, howner]
      exact h.members room m (hrooms room m hm heq)
  · intro m hm
    by_cases heq : m = sid
    · rw [heq]
      exact hplain
    · rw [hother m heq] at hm
      exact h.plain m hm
  · intro call j hj
    rw [hjoins] at hj
    obtain ⟨hclient, hsession, hrow⟩ := h.joins call j hj
    refine ⟨?_, ?_, by rwa [howner]⟩
    · by_cases heq : j.sid = sid
      · rw [heq, hknown call j hj heq]
        exact nofun
      · rwa [hother j.sid heq]
    · by_cases heq : j.sid = sid
      · intro session hpresent
        rw [heq, hknown call j hj heq] at hpresent
        cases hpresent
      · rwa [hother j.sid heq]
  · rw [hdelivered, howner]
    exact h.delivered

theorem SocketServer.Owned.register (h : s.Owned) (hnew : s.clients sid = .unknown)
    (hplain : parseUuid sid = none) : (s.register sid session).Owned := by
  have hpresent : (s.register sid session).clients sid = .present session :=
    Function.update_self ..
  refine h.setClient (fun m hm => Function.update_of_ne hm ..) rfl rfl rfl ?_ ?_ hplain ?_
  · intro room m hm hne
    rcases SocketServer.mem_enterRoom.mp hm with ⟨-, hself⟩ | hold
    · exact absurd hself hne
    · exact hold
  · intro room hm
    rcases SocketServer.mem_enterRoom.mp hm with ⟨hroom, -⟩ | hold
    · exact ⟨hroom, session, hpresent⟩
    · -- Who is unknown is in no room.
      obtain ⟨⟨session', hclient⟩, -⟩ := h.members room sid hold
      cases hnew.symm.trans hclient
  · intro call j hj heq
    exact absurd (heq ▸ hnew) (h.joins call j hj).client

theorem SocketServer.Owned.disconnect (h : s.Owned) (hknown : s.clients sid ≠ .unknown) :
    (s.disconnect sid).Owned := by
  refine h.setClient (fun m hm => Function.update_of_ne hm ..) rfl rfl rfl ?_ ?_
    (h.plain sid hknown) ?_
  · exact fun room m hm _ => List.mem_of_mem_filter hm
  · intro room hm
    exact absurd rfl (of_decide_eq_true (List.mem_filter.mp hm).2)
  · exact fun _ _ _ _ => Function.update_self ..

theorem SocketServer.Owned.setJoin (h : s.Owned) (call : Nat) {j : Option JoinCall}
    (hj : ∀ j', j = some j' → s.JoinKnown j') : (s.setJoin call j).Owned := by
  refine h.extend rfl (fun _ _ => id) (fun _ _ => .inl) ?_ (fun _ => .inl)
  intro call' j' hj'
  rcases Reasoning.update_cases hj' with ⟨-, hself⟩ | ⟨-, hold⟩
  · exact .inr (hj j' hself)
  · exact .inl hold

theorem SocketServer.Owned.error (h : s.Owned) (code : Nat) (message : String) :
    (s.error sid code message).Owned :=
  h.extend rfl (fun _ _ => id) (fun _ _ => .inl) (fun _ _ => .inl) (fun _ => .inl)

theorem SocketServer.Owned.enterRoom (h : s.Owned) {e tenant : UUID}
    (hparse : parseUuid room = some e) (howner : s.owner e = some tenant)
    (hclient : s.ClientOf tenant sid) : (s.enterRoom sid room).Owned := by
  refine h.extend rfl (fun _ _ => id) ?_ (fun _ _ => .inl) (fun _ => .inl)
  intro room' m hm
  rcases SocketServer.mem_enterRoom.mp hm with ⟨rfl, rfl⟩ | hold
  · exact .inr ⟨e, tenant, hparse, howner, hclient⟩
  · exact .inl hold

theorem SocketServer.Owned.leaveRoom (h : s.Owned) : (s.leaveRoom sid room).Owned :=
  h.extend rfl (fun _ _ => id) (fun _ _ hm => .inl (SocketServer.mem_leaveRoom.mp hm).2)
    (fun _ _ => .inl) (fun _ => .inl)

-- An execution that is new leaves the owners of the others alone.
theorem SocketServer.Owned.createExecution (h : s.Owned) {id tenantId : UUID}
    (hnew : s.owner id = none) :
    { s with owner := Function.update s.owner id (some tenantId) }.Owned := by
  refine h.extend rfl ?_ (fun _ _ => .inl) (fun _ _ => .inl) (fun _ => .inl)
  intro e tenant he
  have hne : e ≠ id := by
    intro heq
    rw [heq, hnew] at he
    cases he
  exact (Function.update_of_ne hne ..).trans he

/-- The members of the room that an execution's updates go to. -/
theorem SocketServer.Owned.clientOf_mem (h : s.Owned) {e : UUID} (he : e < uuidBound)
    (hm : sid ∈ s.rooms (uuidStr e)) :
    ∃ tenant, s.owner e = some tenant ∧ s.ClientOf tenant sid := by
  obtain ⟨⟨session, hpresent⟩, hown⟩ := h.members _ _ hm
  rcases hown with hself | ⟨e', tenant, hparse, howner, hclient⟩
  · -- The room of a client's own id is no execution's.
    have hplain := h.plain sid (by rw [hpresent]; exact nofun)
    rw [← hself, parseUuid_uuidStr he] at hplain
    cases hplain
  · rw [parseUuid_uuidStr he] at hparse
    cases hparse
    exact ⟨tenant, howner, hclient⟩

theorem SocketServer.Owned.send (h : s.Owned) {m : Emission}
    (hroom : m.room = m.data.executionId) : (s.send m).Owned := by
  refine h.extend rfl (fun _ _ => id) (fun _ _ => .inl) (fun _ _ => .inl) ?_
  intro d hd
  rcases List.mem_append.mp hd with hold | hnew
  · exact .inl hold
  · obtain ⟨sid, hmem, rfl⟩ := List.mem_map.mp hnew
    rw [hroom] at hmem
    refine .inr fun hid => ?_
    obtain ⟨tenant, howner, session, hpresent, htenant⟩ := h.clientOf_mem hid hmem
    refine ⟨tenant, howner, ?_⟩
    simp only [SocketServer.tenantOf, hpresent, htenant]

theorem SocketServer.Owned.sendAll {messages : List Emission}
    (hrooms : ∀ m ∈ messages, m.room = m.data.executionId) (h : s.Owned) :
    (messages.foldl (fun s m => s.send m) s).Owned := by
  induction messages generalizing s with
  | nil => exact h
  | cons m rest ih =>
      exact ih (fun m hm => hrooms m (List.mem_cons_of_mem _ hm))
        (h.send (hrooms m List.mem_cons_self))

-- The consumer names the room after the execution.
theorem SocketServer.Owned.consume (h : s.Owned) (entry : StatusEntry) (env : StatusEnv) :
    ((handleStatus (entry, env) ⟨[], []⟩).2.emitted.foldl (fun s m => s.send m) s).Owned := by
  apply SocketServer.Owned.sendAll _ h
  intro m hm
  rw [handleStatus_emitted] at hm
  obtain ⟨event, -, rfl⟩ := StatusEntry.mem_emissions hm
  rfl

theorem SocketServer.Owned.finishJoin (h : s.Owned) {call : Nat} {j : JoinCall}
    {row : Option UUID} (hj : s.JoinKnown j) (hrow : j.found = some row) :
    (s.finishJoin call j row).Owned := by
  have hset : (s.setJoin call none).Owned := h.setJoin call fun _ hnone => nomatch hnone
  unfold SocketServer.finishJoin
  simp only
  split
  · rename_i hpass
    split
    · rename_i session room hclient hroom
      obtain ⟨tenant, rfl, htenant⟩ := hpass
      obtain ⟨e, hparse, howner⟩ := hj.row tenant hrow
      rw [hroom] at hparse
      refine hset.enterRoom hparse howner ⟨session, hclient, ?_⟩
      -- The session is the one that was read.
      rw [hj.session session hclient]
      cases hread : j.tenantId with
      | none =>
          rw [hread] at htenant
          cases htenant
      | some value =>
          rw [hread, Option.bind_some] at htenant
          cases value with
          | str text => rw [show text = uuidStr tenant from Option.some.inj htenant]
          | null | bool | int | float | arr | obj => cases htenant
    · exact hset
  · exact hset.error 403 "Forbidden"

-- `connect` that raises may leave the client registered or not.
theorem SocketServer.Owned.connect (h : s.Owned) (hnew : s.clients sid = .unknown)
    (hplain : parseUuid sid = none) (stays : Bool) :
    (if stays then s.register sid session else (s.register sid session).disconnect sid).Owned := by
  have hregister : (s.register sid session).Owned := h.register hnew hplain
  split
  · exact hregister
  · apply hregister.disconnect
    rw [show (s.register sid session).clients sid = .present session from Function.update_self ..]
    exact nofun

theorem SocketServer.Owned.joinExecution (h : s.Owned) (hclient : s.clients sid = .present session)
    (call : Nat) (data : Json) : (s.joinExecution call sid session data).Owned := by
  unfold SocketServer.joinExecution
  split
  · apply h.setJoin
    intro j hj
    cases hj
    refine ⟨?_, ?_, fun tenant hnone => nomatch hnone⟩
    · rw [hclient]
      exact nofun
    · intro session' hsession
      cases hclient.symm.trans hsession
      rfl
  · exact h.error 400 "execution_id required"

theorem SocketServer.Owned.getExecutionTenant (h : s.Owned) (call : Nat) {j : JoinCall}
    (hj : s.JoinKnown j) : (s.getExecutionTenant call j).Owned := by
  unfold SocketServer.getExecutionTenant
  split
  · rename_i e hparse
    apply h.setJoin
    intro j' hj'
    cases hj'
    exact ⟨hj.client, hj.session, fun tenant hrow => ⟨e, hparse, Option.some.inj hrow⟩⟩
  · exact h.setJoin call fun _ hnone => nomatch hnone

theorem SocketServer.Owned.leaveExecution (h : s.Owned) (data : Json) :
    (s.leaveExecution sid data).Owned := by
  unfold SocketServer.leaveExecution
  split
  · split
    · exact h.leaveRoom
    · exact h
  · exact h

theorem SocketServer.Owned.step {a : SocketAction} (h : s.Owned) (hid : ClientIds s a)
    (hstep : s.step a = some s') : s'.Owned := by
  cases a with
  | connect sid session auth verified stays =>
      simp only [SocketServer.step] at hstep
      split at hstep
      · rename_i session' hclient _
        cases hstep
        exact h.register hclient hid
      · rename_i session' error hclient _
        cases hstep
        exact h.connect hclient hid stays
      · cases hstep
  | disconnect sid =>
      simp only [SocketServer.step] at hstep
      split at hstep
      · rename_i session hclient
        cases hstep
        apply h.disconnect
        rw [hclient]
        exact nofun
      · cases hstep
  | joinExecution call sid data =>
      simp only [SocketServer.step] at hstep
      split at hstep
      · rename_i session _ hclient
        cases hstep
        exact h.joinExecution hclient call data
      · cases hstep
  | getExecutionTenant call =>
      simp only [SocketServer.step] at hstep
      split at hstep
      · rename_i sid executionId tenantId hcall
        cases hstep
        exact h.getExecutionTenant call (h.joins call _ hcall)
      · cases hstep
  | queryFails call =>
      simp only [SocketServer.step] at hstep
      split at hstep
      · cases hstep
        exact h.setJoin call fun _ hnone => nomatch hnone
      · cases hstep
  | finishJoin call =>
      simp only [SocketServer.step] at hstep
      split at hstep
      · rename_i sid executionId tenantId row hcall
        cases hstep
        exact h.finishJoin (h.joins call _ hcall) rfl
      · cases hstep
  | leaveExecution sid data =>
      cases hstep
      exact h.leaveExecution data
  | createExecution id tenantId =>
      simp only [SocketServer.step] at hstep
      split at hstep
      · rename_i hnew
        cases hstep
        exact h.createExecution hnew.2
      · cases hstep
  | consume entry env =>
      cases hstep
      exact h.consume entry env

/-- In every reachable state the members of the room of an execution are clients of the tenant that
owns it, and every update has gone to such clients only. -/
theorem updates_reach_owner (s : SocketServer)
    (hr : Reasoning.Reachable SocketServer.step ClientIds .empty s) :
    (∀ e sid, e < uuidBound → sid ∈ s.rooms (uuidStr e) →
      ∃ tenant, s.owner e = some tenant ∧ s.ClientOf tenant sid) ∧
    (∀ d ∈ s.delivered, d.event.executionId < uuidBound →
      ∃ tenant, s.owner d.event.executionId = some tenant ∧
        d.tenantId = some (.str (uuidStr tenant))) := by
  have howned : s.Owned :=
    hr.invariant .empty fun _ _ _ _ hid hstep h => SocketServer.Owned.step h hid hstep
  exact ⟨fun e sid he hm => howned.clientOf_mem he hm, howned.delivered⟩

end Owned

/-! A client of tenant 7 joins an execution of its own. -/

/-- `verify_token` accepts the token, whose payload is this. -/
def verifiedPayload : Except PyExc Dict :=
  .ok [("sub", .str "user-1"), ("tenant_id", .str (uuidStr 7))]

/-- The client connects and execution `e` is stored, both for tenant 7. -/
def connectedRun (e : UUID) : List SocketAction :=
  [.connect "sid-1" [] (.obj [("token", .str "jwt")]) verifiedPayload false,
   .createExecution e 7]

/-- `join_execution` with the given string. -/
def joinRun (room : String) : List SocketAction :=
  [.joinExecution 0 "sid-1" (.obj [("execution_id", .str room)]), .getExecutionTenant 0,
   .finishJoin 0]

def allSent : StatusEnv := ⟨.reply .ok, .reply .ok⟩

/-- The whole run, with one event for the execution at its end. -/
def deliveryRun : List SocketAction :=
  connectedRun 10 ++ joinRun (uuidStr 10) ++
    [.consume ⟨0, .ok ⟨10, 7, .running, none, [], 0⟩⟩ allSent]

theorem updates_reach_owner_join :
    ∃ s, Reasoning.runActions SocketServer.step .empty deliveryRun = some s ∧
      s.delivered.length = 1 ∧
      ∀ d ∈ s.delivered, d.event.executionId < uuidBound →
        ∃ tenant, s.owner d.event.executionId = some tenant ∧
          d.tenantId = some (.str (uuidStr tenant)) := by
  have hlength : (Reasoning.runActions SocketServer.step .empty deliveryRun).map
      (fun s => s.delivered.length) = some 1 := by decide +kernel
  obtain ⟨s, hs, hlen⟩ := Option.map_eq_some_iff.mp hlength
  refine ⟨s, hs, hlen, (updates_reach_owner s (.of_run .start ?_ hs)).2⟩
  intro a ha s
  simp only [deliveryRun, connectedRun, joinRun, List.cons_append, List.nil_append, List.mem_cons,
    List.not_mem_nil, or_false] at ha
  rcases ha with rfl | rfl | rfl | rfl | rfl | rfl
  · show parseUuid "sid-1" = none
    decide
  all_goals trivial

end ConstructorPlatform
