import ConstructorPlatform.WebsocketService.Rooms

/-!
# Subscriptions — joining and leaving under any spelling

The ownership check compares UUIDs, because the database reads the client's string as one.  The room
is named by the string itself.  So a client that spells the id of an execution in another way than
`str` does passes the check and enters a room that no update is sent to.
-/

namespace ConstructorPlatform

variable {s : SocketServer} {sid text : String} {e : UUID}

-- What denotes an execution is not the empty string.
theorem truthy_of_parseUuid (h : parseUuid text = some e) : (Json.str text).truthy = true := by
  rw [Json.truthy_str]
  apply decide_eq_true
  intro hempty
  subst hempty
  cases h

/-- A client that passes the ownership check is in the room of the execution afterwards exactly when
it has sent the spelling of `str`, or was in the room before. -/
theorem finishJoin_member_iff {s' : SocketServer} {call : Nat} {tenantId : Option Json}
    {row : Option UUID} {session : Dict}
    (hcall : s.joins call = some ⟨sid, .str text, tenantId, some row⟩)
    (hpass : JoinCall.passes ⟨sid, .str text, tenantId, some row⟩ row)
    (hclient : s.clients sid = .present session) (hstep : s.step (.finishJoin call) = some s') :
    sid ∈ s'.rooms (uuidStr e) ↔ text = uuidStr e ∨ sid ∈ s.rooms (uuidStr e) := by
  have heq : s' = (s.setJoin call none).enterRoom sid text := by
    simp only [SocketServer.step, hcall, Option.some.injEq] at hstep
    rw [← hstep]
    simp only [SocketServer.finishJoin, if_pos hpass, SocketServer.setJoin, hclient, Json.str?]
  rw [heq, SocketServer.mem_enterRoom, and_iff_left rfl, eq_comm]
  rfl

/-- A client that leaves with a string that denotes the execution is out of its room afterwards
exactly when the string is the spelling of `str`, or the client was not in the room before. -/
theorem leaveExecution_member_iff {s' : SocketServer} {data : Json}
    (hdata : executionIdOf data = .str text) (hparse : parseUuid text = some e)
    (hstep : s.step (.leaveExecution sid data) = some s') :
    sid ∉ s'.rooms (uuidStr e) ↔ text = uuidStr e ∨ sid ∉ s.rooms (uuidStr e) := by
  have heq : s' = s.leaveRoom sid text := by
    simp only [SocketServer.step, Option.some.injEq] at hstep
    rw [← hstep]
    simp only [SocketServer.leaveExecution, hdata, if_pos (truthy_of_parseUuid hparse), Json.str?]
  rw [heq, SocketServer.mem_leaveRoom, not_and_or, not_not, and_iff_left rfl, eq_comm]

/-- Joining and leaving the room of an execution, for any two strings that denote it. -/
theorem subscription_iff (s s₁ t t₁ : SocketServer) (sid text text' : String) (e : UUID)
    (call : Nat) (tenantId : Option Json) (row : Option UUID) (session : Dict) (data : Json)
    (hcall : s.joins call = some ⟨sid, .str text, tenantId, some row⟩)
    (hpass : JoinCall.passes ⟨sid, .str text, tenantId, some row⟩ row)
    (hclient : s.clients sid = .present session)
    (hjoin : s.step (.finishJoin call) = some s₁)
    (hdata : executionIdOf data = .str text') (hparse : parseUuid text' = some e)
    (hleave : t.step (.leaveExecution sid data) = some t₁) :
    (sid ∈ s₁.rooms (uuidStr e) ↔ text = uuidStr e ∨ sid ∈ s.rooms (uuidStr e)) ∧
    (sid ∉ t₁.rooms (uuidStr e) ↔ text' = uuidStr e ∨ sid ∉ t.rooms (uuidStr e)) :=
  ⟨finishJoin_member_iff hcall hpass hclient hjoin, leaveExecution_member_iff hdata hparse hleave⟩

/-! The client of tenant 7 and its execution 10. -/

def executionData (text : String) : Json := .obj [("execution_id", .str text)]

/-- Its call of `join_execution` has passed the check with the spelling of `str`. -/
def checkedJoin : JoinCall := ⟨"sid-1", .str (uuidStr 10), some (.str (uuidStr 7)), some (some 7)⟩

/-- The client has connected, and its call has yet to finish. -/
def joiningServer : SocketServer :=
  (Reasoning.runActions SocketServer.step .empty
    (connectedRun 10 ++ [.joinExecution 0 "sid-1" (executionData (uuidStr 10)),
      .getExecutionTenant 0])).getD .empty

def joinedServer : SocketServer := joiningServer.finishJoin 0 checkedJoin (some 7)

theorem subscription_iff_canonical :
    "sid-1" ∈ joinedServer.rooms (uuidStr 10) ∧
    "sid-1" ∉ (joinedServer.leaveExecution "sid-1" (executionData (uuidStr 10))).rooms
      (uuidStr 10) := by
  have hcall : joiningServer.joins 0 = some checkedJoin := by rfl
  have hclient : joiningServer.clients "sid-1" =
      .present [("tenant_id", .str (uuidStr 7)), ("user_id", .str "user-1")] := by rfl
  have hjoin : joiningServer.step (.finishJoin 0) = some joinedServer := by
    simp only [SocketServer.step, hcall]
    rfl
  obtain ⟨hjoined, hleft⟩ := subscription_iff joiningServer joinedServer joinedServer
    (joinedServer.leaveExecution "sid-1" (executionData (uuidStr 10))) "sid-1" (uuidStr 10)
    (uuidStr 10) 10 0 (some (.str (uuidStr 7))) (some 7) _ (executionData (uuidStr 10)) hcall
    ⟨7, rfl, rfl⟩ hclient hjoin rfl (parseUuid_uuidStr (by decide)) rfl
  exact ⟨hjoined.mpr (.inl rfl), hleft.mpr (.inl rfl)⟩

/-- With an upper-case digit the check passes and the client misses the room; without the hyphens it
stays in the room that it leaves. -/
theorem other_spellings_miss :
    (Reasoning.runActions SocketServer.step .empty
        (connectedRun 10 ++ joinRun "00000000-0000-0000-0000-00000000000A")).map
      (fun s => (s.errors, s.rooms "00000000-0000-0000-0000-00000000000A",
        s.rooms (uuidStr 10))) = some ([], ["sid-1"], []) ∧
    (Reasoning.runActions SocketServer.step .empty
        (connectedRun 10 ++ joinRun (uuidStr 10) ++
          [.leaveExecution "sid-1" (executionData "0000000000000000000000000000000a")])).map
      (fun s => (s.errors, s.rooms (uuidStr 10))) = some ([], ["sid-1"]) := by
  constructor
  · decide +kernel
  · decide +kernel

end ConstructorPlatform
