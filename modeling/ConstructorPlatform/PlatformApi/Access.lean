import ConstructorPlatform.Value

/-!
# Access — `src/auth/dependencies.py` and `src/rbac`

Who a request comes from and what it may do.  A token names the user, the tenant and the roles; the
user is looked up in the tenant of the token, and the roles are taken from the token as they are.
-/

namespace ConstructorPlatform

/-- `HTTPException`, or the 500 that any other exception becomes. -/
structure HttpError where
  status : Nat
  detail : String
  deriving DecidableEq, Repr

def internalServerError : HttpError := ⟨500, "Internal Server Error"⟩

/-! ## 1. `src/rbac/permissions.py` -/

inductive Permission where
  | workflowCreate
  | workflowRead
  | workflowUpdate
  | workflowDelete
  | workflowTrigger
  | agentCreate
  | agentRead
  | agentUpdate
  | agentDelete
  | userManage
  | userRead
  | tenantConfig
  | approvalManage
  | auditRead
  | reportRead
  deriving DecidableEq, Repr

/-- The member of the `StrEnum` as a string. -/
def Permission.value : Permission → String
  | .workflowCreate => "workflow:create"
  | .workflowRead => "workflow:read"
  | .workflowUpdate => "workflow:update"
  | .workflowDelete => "workflow:delete"
  | .workflowTrigger => "workflow:trigger"
  | .agentCreate => "agent:create"
  | .agentRead => "agent:read"
  | .agentUpdate => "agent:update"
  | .agentDelete => "agent:delete"
  | .userManage => "user:manage"
  | .userRead => "user:read"
  | .tenantConfig => "tenant:config"
  | .approvalManage => "approval:manage"
  | .auditRead => "audit:read"
  | .reportRead => "report:read"

/-- `set(Permission)`. -/
def allPermissions : List Permission :=
  [.workflowCreate, .workflowRead, .workflowUpdate, .workflowDelete, .workflowTrigger,
   .agentCreate, .agentRead, .agentUpdate, .agentDelete, .userManage, .userRead, .tenantConfig,
   .approvalManage, .auditRead, .reportRead]

/-- `ROLE_PERMISSIONS.get(role, set())`. -/
def rolePermissions : String → List Permission
  | "super_admin" => allPermissions
  | "tenant_admin" =>
      [.workflowCreate, .workflowRead, .workflowUpdate, .workflowDelete, .workflowTrigger,
       .agentCreate, .agentRead, .agentUpdate, .agentDelete, .userManage, .userRead, .tenantConfig,
       .approvalManage, .auditRead, .reportRead]
  | "developer" =>
      [.workflowCreate, .workflowRead, .workflowUpdate, .workflowDelete, .workflowTrigger,
       .agentCreate, .agentRead, .agentUpdate, .agentDelete, .userRead, .reportRead]
  | "project_manager" =>
      [.workflowRead, .workflowTrigger, .agentRead, .approvalManage, .reportRead]
  | "analyst" => [.workflowRead, .approvalManage, .auditRead, .reportRead]
  | "viewer" => [.workflowRead, .reportRead]
  | _ => []

/-- `has_permission`. -/
def hasPermission (roles : List String) (permission : Permission) : Bool :=
  roles.any fun role => decide (permission ∈ rolePermissions role)

/-! ## 2. `get_current_user` and `require_permission` -/

/-- What the handlers use of a token's payload. -/
structure Claims where
  userId : UUID
  tenantId : UUID
  roles : List String

/-- The bearer token of a request as `decode_access_token` and the two calls of `uuid.UUID` leave
it; `none` without a header. -/
abbrev Credentials := Option (Except PyExc Claims)

/-- The columns of `users` that are read. -/
structure UserRow where
  id : UUID
  tenantId : UUID
  email : String
  isActive : Bool
  deriving DecidableEq

structure CurrentUser where
  id : UUID
  email : String
  tenantId : UUID
  roles : List String

/-- `get_current_user` on the rows of `users`. -/
def getCurrentUser (users : List UserRow) (credentials : Credentials) :
    Except HttpError CurrentUser :=
  match credentials with
  | none => .error ⟨401, "Not authenticated"⟩
  | some (.error exc) =>
      if exc.kind = .valueError ∨ exc.kind = .keyError then .error ⟨401, exc.text⟩
      else .error internalServerError
  | some (.ok claims) =>
      match users.find? fun u =>
        u.id = claims.userId ∧ u.tenantId = claims.tenantId ∧ u.isActive = true with
      | none => .error ⟨401, "User not found or inactive"⟩
      | some user => .ok ⟨claims.userId, user.email, claims.tenantId, claims.roles⟩

/-- `require_permission(permission)`. -/
def requirePermission (permission : Permission) (user : CurrentUser) :
    Except HttpError CurrentUser :=
  if hasPermission user.roles permission then .ok user
  else .error ⟨403, "Permission required: " ++ permission.value⟩

/-- What the database decides before a handler runs: the query of `get_current_user` and the call
of `set_config` in `get_scoped_db`. -/
structure SessionEnv where
  lookup : Except PyExc Unit
  setConfig : Except PyExc Unit

/-- The dependencies of a handler on `get_scoped_db` and on `require_permission(permission)`. -/
def authorize (permission : Permission) (env : SessionEnv) (users : List UserRow)
    (credentials : Credentials) : Except HttpError CurrentUser :=
  match env.lookup, credentials with
  | .error _, some (.ok _) => .error internalServerError
  | _, _ => do
      let user ← getCurrentUser users credentials
      match env.setConfig with
      | .error _ => .error internalServerError
      | .ok () => requirePermission permission user

/-! ## 3. The tenant of a user -/

theorem getCurrentUser_ok {users : List UserRow} {credentials : Credentials} {user : CurrentUser}
    (h : getCurrentUser users credentials = .ok user) :
    ∃ claims, credentials = some (.ok claims) ∧ user.tenantId = claims.tenantId ∧
      user.roles = claims.roles := by
  unfold getCurrentUser at h
  split at h
  · cases h
  · split at h <;> cases h
  · rename_i claims
    split at h
    · cases h
    · cases h
      exact ⟨claims, rfl, rfl, rfl⟩

/-- The lookup sees only the rows of the tenant that the token names. -/
theorem getCurrentUser_filter (users : List UserRow) {credentials : Credentials} {tenant : UUID}
    (htenant : ∀ claims, credentials = some (.ok claims) → claims.tenantId = tenant) :
    getCurrentUser (users.filter fun u => u.tenantId = tenant) credentials =
      getCurrentUser users credentials := by
  unfold getCurrentUser
  split
  · rfl
  · rfl
  · rename_i claims
    rw [List.find?_filter]
    have hsame : (fun u : UserRow => decide (decide (u.tenantId = tenant) = true ∧
        decide (u.id = claims.userId ∧ u.tenantId = claims.tenantId ∧ u.isActive = true) = true)) =
        fun u => decide (u.id = claims.userId ∧ u.tenantId = claims.tenantId ∧
          u.isActive = true) := by
      funext u
      have hclaims := htenant claims rfl
      simp only [decide_eq_true_eq, decide_eq_decide]
      constructor
      · intro h
        exact h.2
      · intro h
        exact ⟨h.2.1.trans hclaims, h⟩
    rw [hsame]

-- A user that is found is a row, of the tenant that the token names.
theorem getCurrentUser_mem {users : List UserRow} {credentials : Credentials} {user : CurrentUser}
    (h : getCurrentUser users credentials = .ok user) :
    ∃ row ∈ users, row.id = user.id ∧ row.tenantId = user.tenantId := by
  unfold getCurrentUser at h
  split at h
  · cases h
  · split at h <;> cases h
  · rename_i claims
    split at h
    · cases h
    · rename_i row hrow
      cases h
      have hfound := List.find?_some hrow
      simp only [decide_eq_true_eq] at hfound
      exact ⟨row, List.mem_of_find?_eq_some hrow, hfound.1, hfound.2.1⟩

theorem authorize_ok {permission : Permission} {env : SessionEnv} {users : List UserRow}
    {credentials : Credentials} {user : CurrentUser}
    (h : authorize permission env users credentials = .ok user) :
    getCurrentUser users credentials = .ok user ∧ hasPermission user.roles permission = true := by
  unfold authorize at h
  cases huser : getCurrentUser users credentials with
  | error e =>
      rw [huser] at h
      split at h <;> cases h
  | ok found =>
      rw [huser] at h
      split at h
      · cases h
      · simp only [Bind.bind, Except.bind] at h
        split at h
        · cases h
        · unfold requirePermission at h
          split at h
          · rename_i hperm
            cases h
            exact ⟨rfl, hperm⟩
          · cases h

theorem requirePermission_eq {permission : Permission} {user : CurrentUser}
    (h : hasPermission user.roles permission = true) :
    requirePermission permission user = .ok user := if_pos h

end ConstructorPlatform
