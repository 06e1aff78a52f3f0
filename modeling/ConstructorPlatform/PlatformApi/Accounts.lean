import Mathlib.Data.List.Nodup
import ConstructorPlatform.Reasoning.System
import ConstructorPlatform.PlatformApi.Access

/-!
# Accounts — `POST /users` and `POST /auth/login`

A login looks a user up by tenant and e-mail and takes the first row that the database returns.
Neither `create_user` nor the schema keeps a tenant from having two users with one e-mail, so a user
that was created may not be able to log in: `Accounts.run_allLogIn_iff`.
-/

namespace ConstructorPlatform

open Reasoning

/-! ## 1. The tables -/

structure TenantRow where
  id : UUID
  slug : String

structure RoleRow where
  id : UUID
  name : String

/-- A row of `users` with the column that a login reads as well. -/
structure UserRecord extends UserRow where
  hashedPassword : String
  deriving DecidableEq

structure UserRoleRow where
  userId : UUID
  tenantId : UUID
  roleId : UUID

structure AccountTables where
  tenants : List TenantRow
  roles : List RoleRow
  users : List UserRecord
  userRoles : List UserRoleRow

/-- The constraints of the initial migration that concern these tables. -/
structure AccountTables.Constrained (db : AccountTables) : Prop where
  users : (db.users.map fun u => u.id).Nodup
  tenants : (db.tenants.map TenantRow.id).Nodup
  slugs : (db.tenants.map TenantRow.slug).Nodup
  ofUser : ∀ u ∈ db.users, ∃ t ∈ db.tenants, t.id = u.tenantId

/-! ## 2. `create_user` -/

/-- The package passlib with bcrypt.  The first argument of `hash` is the salt. -/
structure Passwords where
  hash : Nat → String → Except PyExc String
  verify : String → String → Except PyExc Bool

/-- `UserCreate` as pydantic leaves it. -/
structure UserCreate where
  email : String
  password : String
  role : String

/-- What the environment decides while a user is created. -/
structure UserCreateEnv where
  lookup : Except PyExc Unit
  salt : Nat
  userId : UUID
  -- The two flushes and the refresh.
  flush : Except PyExc Unit
  commit : Reply

/-- `User(...)`, with the defaults of the columns. -/
def newUser (env : UserCreateEnv) (data : UserCreate) (hashedPassword : String) (tenantId : UUID) :
    UserRecord where
  id := env.userId
  tenantId := tenantId
  email := data.email
  isActive := true
  hashedPassword := hashedPassword

/-- `create_user`: the rows that are flushed. -/
def createUser (passwords : Passwords) (env : UserCreateEnv) (data : UserCreate) (tenantId : UUID)
    (db : AccountTables) : Except PyExc (UserRecord × UserRoleRow) :=
  match env.lookup with
  | .error exc => .error exc
  | .ok () =>
      match db.roles.find? fun r => r.name = data.role with
      | none => .error ⟨.valueError, "Role " ++ quoted data.role ++ " not found"⟩
      | some role =>
          match passwords.hash env.salt data.password with
          | .error exc => .error exc
          | .ok hashedPassword =>
              -- The primary key refuses an id that is taken.
              if env.userId ∈ db.users.map fun u => u.id then
                .error ⟨.database, "IntegrityError"⟩
              else
                match env.flush with
                | .error exc => .error exc
                | .ok () =>
                    .ok (newUser env data hashedPassword tenantId, ⟨env.userId, tenantId, role.id⟩)

structure UserRead where
  id : UUID
  email : String
  tenantId : UUID
  isActive : Bool

def UserRecord.read (u : UserRecord) : UserRead := ⟨u.id, u.email, u.tenantId, u.isActive⟩

def AccountTables.insertUser (rows : UserRecord × UserRoleRow) (db : AccountTables) :
    AccountTables :=
  { db with users := db.users ++ [rows.1], userRoles := db.userRoles ++ [rows.2] }

structure UserRequest where
  session : SessionEnv
  env : UserCreateEnv
  credentials : Credentials
  body : UserCreate

/-- The clause `except ValueError` of the handler. -/
def userError (exc : PyExc) : HttpError :=
  if exc.kind = .valueError then ⟨400, exc.text⟩ else internalServerError

/-- `create` of `src/users/router.py`: the answer, and the rows that are committed. -/
def createUserRoute (passwords : Passwords) (request : UserRequest) (db : AccountTables) :
    Except HttpError UserRead × Option (UserRecord × UserRoleRow) :=
  match authorize .userManage request.session (db.users.map UserRecord.toUserRow)
      request.credentials with
  | .error e => (.error e, none)
  | .ok caller =>
      match createUser passwords request.env request.body caller.tenantId db with
      | .error exc => (.error (userError exc), none)
      | .ok rows =>
          match request.env.commit with
          | .raised exc carriedOut =>
              (.error (userError exc), if carriedOut then some rows else none)
          | .ok => (.ok rows.1.read, some rows)

/-! ## 3. `login` -/

/-- `LoginRequest` as pydantic leaves it. -/
structure LoginRequest where
  email : String
  password : String
  tenantSlug : String

/-- What the environment decides while a user logs in. -/
structure LoginEnv where
  -- The order in which a query without `ORDER BY` returns its rows.
  order : List UserRecord → List UserRecord
  dummyHash : String
  lookup : Except PyExc Unit
  commit : Reply

/-- `authenticate_user`. -/
def authenticateUser (passwords : Passwords) (env : LoginEnv) (body : LoginRequest)
    (db : AccountTables) : Except PyExc (Option UserRecord) :=
  match env.lookup with
  | .error exc => .error exc
  | .ok () =>
      let tenant := db.tenants.find? fun t => t.slug = body.tenantSlug
      let user := tenant.bind fun tenant =>
        (env.order (db.users.filter fun u =>
          u.email = body.email ∧ u.tenantId = tenant.id ∧ u.isActive = true)).head?
      let candidateHash := (user.map UserRecord.hashedPassword).getD env.dummyHash
      match passwords.verify body.password candidateHash with
      | .error exc => .error exc
      | .ok false => .ok none
      | .ok true => .ok user

/-- `get_user_roles`. -/
def getUserRoles (userId tenantId : UUID) (db : AccountTables) : List String :=
  (db.userRoles.filter fun ur => ur.userId = userId ∧ ur.tenantId = tenantId).flatMap fun ur =>
    (db.roles.filter fun r => r.id = ur.roleId).map RoleRow.name

/-- `login`: the payload of the access token. -/
def login (passwords : Passwords) (env : LoginEnv) (body : LoginRequest) (db : AccountTables) :
    Except HttpError Claims :=
  match authenticateUser passwords env body db with
  | .error _ => .error internalServerError
  | .ok none => .error ⟨401, "Invalid credentials"⟩
  | .ok (some user) =>
      match env.commit with
      | .raised _ _ => .error internalServerError
      | .ok => .ok ⟨user.id, user.tenantId, getUserRoles user.id user.tenantId db⟩

/-! ## 4. Requests one after the other -/

structure Accounts where
  db : AccountTables
  -- History: the users that were created, each with the password of its request.
  created : List (UserRecord × String)

def Accounts.start (db : AccountTables) : Accounts := ⟨db, []⟩

/-- `POST /users`. -/
def Accounts.create (passwords : Passwords) (s : Accounts) (request : UserRequest) :
    Option Accounts :=
  match (createUserRoute passwords request s.db).2 with
  | none => some s
  | some rows =>
      some ⟨s.db.insertUser rows, s.created ++ [(rows.1, request.body.password)]⟩

/-- Whatever the order of the rows, a login as the user gives a token of that very user. -/
def LogsIn (passwords : Passwords) (db : AccountTables) (user : UserRecord) (password : String) :
    Prop :=
  ∀ order : List UserRecord → List UserRecord, (∀ rows, (order rows).Perm rows) →
    ∀ dummyHash, ∀ tenant ∈ db.tenants, tenant.id = user.tenantId →
      ∃ roles, login passwords ⟨order, dummyHash, .ok (), .ok⟩
        ⟨user.email, password, tenant.slug⟩ db = .ok ⟨user.id, user.tenantId, roles⟩

/-- Every user that was created and is active can log in. -/
def Accounts.AllLogIn (passwords : Passwords) (s : Accounts) : Prop :=
  ∀ user password, (user, password) ∈ s.created → user.isActive = true →
    LogsIn passwords s.db user password

/-- Verification accepts exactly the password that was hashed. -/
def Passwords.Faithful (passwords : Passwords) : Prop :=
  ∀ salt password hashed, passwords.hash salt password = .ok hashed →
    ∀ other, passwords.verify other hashed = .ok (decide (other = password))

/-- The request gets as far as a commit that is carried out. -/
def UserRequest.stored (passwords : Passwords) (request : UserRequest) (db : AccountTables) :
    Bool :=
  request.env.lookup.isOk && (db.roles.find? fun r => r.name = request.body.role).isSome &&
    (passwords.hash request.env.salt request.body.password).isOk &&
    decide (request.env.userId ∉ db.users.map fun u => u.id) && request.env.flush.isOk &&
    request.env.commit.carriedOut

/-- A request that is let through and stored names an e-mail that no active user of the caller's
tenant has. -/
def Accounts.NamesFreshEmail (passwords : Passwords) (s : Accounts) (request : UserRequest) :
    Prop :=
  ∀ caller, authorize .userManage request.session (s.db.users.map UserRecord.toUserRow)
      request.credentials = .ok caller → request.stored passwords s.db = true →
    ∀ u ∈ s.db.users, u.isActive = true → u.tenantId = caller.tenantId →
      u.email ≠ request.body.email

/-! ## 5. What a request stores -/

theorem createUser_ok {passwords : Passwords} {env : UserCreateEnv} {data : UserCreate}
    {tenantId : UUID} {db : AccountTables} {rows : UserRecord × UserRoleRow}
    (h : createUser passwords env data tenantId db = .ok rows) :
    env.lookup.isOk = true ∧ (db.roles.find? fun r => r.name = data.role).isSome = true ∧
      env.userId ∉ (db.users.map fun u => u.id) ∧ env.flush.isOk = true ∧
      ∃ hashed, passwords.hash env.salt data.password = .ok hashed ∧
        rows.1 = newUser env data hashed tenantId := by
  unfold createUser at h
  split at h
  · cases h
  · rename_i hlookup
    split at h
    · cases h
    · rename_i role hrole
      split at h
      · cases h
      · rename_i hashed hhash
        split at h
        · cases h
        · rename_i hfresh
          split at h
          · cases h
          · rename_i hflush
            cases h
            rw [hlookup, hrole, hflush]
            exact ⟨rfl, rfl, hfresh, rfl, hashed, hhash, rfl⟩

theorem createUser_stores {passwords : Passwords} {request : UserRequest} {db : AccountTables}
    (h : request.stored passwords db = true) (tenantId : UUID) :
    ∃ rows, createUser passwords request.env request.body tenantId db = .ok rows := by
  simp only [UserRequest.stored, Bool.and_eq_true, decide_eq_true_eq] at h
  obtain ⟨⟨⟨⟨⟨hlookup, hrole⟩, hhash⟩, hfresh⟩, hflush⟩, -⟩ := h
  obtain ⟨role, hrole⟩ := Option.isSome_iff_exists.mp hrole
  unfold createUser
  cases hl : request.env.lookup with
  | error exc => rw [hl] at hlookup; cases hlookup
  | ok u =>
      cases hh : passwords.hash request.env.salt request.body.password with
      | error exc => rw [hh] at hhash; cases hhash
      | ok hashed =>
          cases hf : request.env.flush with
          | error exc => rw [hf] at hflush; cases hflush
          | ok u => simp only [hrole, if_neg hfresh, Except.ok.injEq, exists_eq']

/-- The row that a request commits. -/
theorem createUserRoute_some {passwords : Passwords} {request : UserRequest} {db : AccountTables}
    {rows : UserRecord × UserRoleRow} (h : (createUserRoute passwords request db).2 = some rows) :
    request.stored passwords db = true ∧ ∃ caller hashed,
      authorize .userManage request.session (db.users.map UserRecord.toUserRow)
        request.credentials = .ok caller ∧
      passwords.hash request.env.salt request.body.password = .ok hashed ∧
      rows.1 = newUser request.env request.body hashed caller.tenantId := by
  unfold createUserRoute at h
  split at h
  · cases h
  · rename_i caller hcaller
    split at h
    · cases h
    · rename_i created hcreated
      obtain ⟨hlookup, hrole, hfresh, hflush, hashed, hhash, hrow⟩ := createUser_ok hcreated
      have hcommitted : request.env.commit.carriedOut = true ∧ created = rows := by
        cases hcommit : request.env.commit with
        | ok =>
            simp only [hcommit] at h
            exact ⟨rfl, Option.some.inj h⟩
        | raised exc carriedOut =>
            simp only [hcommit] at h
            cases carriedOut with
            | true => exact ⟨rfl, Option.some.inj h⟩
            | false => cases h
      obtain ⟨hcarried, rfl⟩ := hcommitted
      refine ⟨?_, caller, hashed, hcaller, hhash, hrow⟩
      simp only [UserRequest.stored, hlookup, hrole, hhash, hfresh, hflush, hcarried,
        not_false_eq_true, decide_true, Bool.and_self]
      rfl

theorem createUserRoute_stores {passwords : Passwords} {request : UserRequest} {db : AccountTables}
    {caller : CurrentUser}
    (hcaller : authorize .userManage request.session (db.users.map UserRecord.toUserRow)
      request.credentials = .ok caller) (h : request.stored passwords db = true) :
    ∃ rows, (createUserRoute passwords request db).2 = some rows := by
  obtain ⟨rows, hrows⟩ := createUser_stores h caller.tenantId
  simp only [UserRequest.stored, Bool.and_eq_true] at h
  refine ⟨rows, ?_⟩
  unfold createUserRoute
  simp only [hcaller, hrows]
  cases hcommit : request.env.commit with
  | ok => rfl
  | raised exc carriedOut =>
      have hcarried := h.2
      rw [hcommit] at hcarried
      exact if_pos hcarried

/-! ## 6. Who logs in -/

-- An order that puts one row first.
theorem perm_first {α : Type} [DecidableEq α] (a : α) (rows : List α) :
    (rows.filter (fun b => decide (b = a)) ++ rows.filter fun b => !decide (b = a)).Perm rows :=
  List.filter_append_perm _ rows

theorem head?_first {α : Type} [DecidableEq α] {a : α} {rows : List α} (h : a ∈ rows) :
    (rows.filter (fun b => decide (b = a)) ++ rows.filter fun b => !decide (b = a)).head? =
      some a := by
  have hmem : a ∈ rows.filter fun b => decide (b = a) :=
    List.mem_filter.mpr ⟨h, decide_eq_true rfl⟩
  cases hfirst : rows.filter (fun b => decide (b = a)) with
  | nil => rw [hfirst] at hmem; cases hmem
  | cons b rest =>
      have hb : b ∈ rows.filter fun b => decide (b = a) := by
        rw [hfirst]
        exact List.mem_cons_self
      rw [List.cons_append, List.head?_cons, of_decide_eq_true (List.mem_filter.mp hb).2]

theorem AccountTables.Constrained.find_slug {db : AccountTables} (h : db.Constrained)
    {tenant : TenantRow} (htenant : tenant ∈ db.tenants) :
    (db.tenants.find? fun t => t.slug = tenant.slug) = some tenant := by
  have hsome : (db.tenants.find? fun t => t.slug = tenant.slug).isSome = true := by
    rw [List.find?_isSome]
    exact ⟨tenant, htenant, decide_eq_true rfl⟩
  obtain ⟨found, hfound⟩ := Option.isSome_iff_exists.mp hsome
  have hslug : found.slug = tenant.slug := by simpa using List.find?_some hfound
  rw [hfound, List.inj_on_of_nodup_map h.slugs (List.mem_of_find?_eq_some hfound) htenant hslug]

/-- The rows among which a login as the user takes the first. -/
def AccountTables.sameLogin (db : AccountTables) (user : UserRecord) : List UserRecord :=
  db.users.filter fun u => u.email = user.email ∧ u.tenantId = user.tenantId ∧ u.isActive = true

theorem mem_sameLogin {db : AccountTables} {user v : UserRecord} :
    v ∈ db.sameLogin user ↔ v ∈ db.users ∧ v.email = user.email ∧ v.tenantId = user.tenantId ∧
      v.isActive = true := by
  rw [AccountTables.sameLogin, List.mem_filter, decide_eq_true_eq]

-- The user that the query returns.
theorem authenticateUser_eq {passwords : Passwords} {db : AccountTables} (h : db.Constrained)
    {user found : UserRecord} {tenant : TenantRow} (htenant : tenant ∈ db.tenants)
    (hid : tenant.id = user.tenantId) {order : List UserRecord → List UserRecord}
    (hfound : (order (db.sameLogin user)).head? = some found) (dummyHash password : String) :
    authenticateUser passwords ⟨order, dummyHash, .ok (), .ok⟩
        ⟨user.email, password, tenant.slug⟩ db =
      match passwords.verify password found.hashedPassword with
      | .error exc => .error exc
      | .ok false => .ok none
      | .ok true => .ok (some found) := by
  rw [AccountTables.sameLogin] at hfound
  simp only [authenticateUser, h.find_slug htenant, Option.bind_some, hid, hfound, Option.map_some,
    Option.getD_some]

/-- A user can log in exactly when no other active user of the tenant has the e-mail. -/
theorem logsIn_iff {passwords : Passwords} {db : AccountTables} (h : db.Constrained)
    {user : UserRecord} (huser : user ∈ db.users) (hactive : user.isActive = true)
    {password : String}
    (hverify : passwords.verify password user.hashedPassword = .ok true) :
    LogsIn passwords db user password ↔ ∀ v ∈ db.sameLogin user, v = user := by
  obtain ⟨tenant, htenant, hid⟩ := h.ofUser user huser
  have hself : user ∈ db.sameLogin user := mem_sameLogin.mpr ⟨huser, rfl, rfl, hactive⟩
  constructor
  · intro hlogs v hv
    -- The database may return the row of `v` first.
    obtain ⟨roles, hlogin⟩ := hlogs _ (perm_first v) "" tenant htenant hid
    unfold login at hlogin
    rw [authenticateUser_eq h htenant hid (head?_first hv)] at hlogin
    cases hv' : passwords.verify password v.hashedPassword with
    | error exc => simp [hv'] at hlogin
    | ok accepted =>
        cases accepted with
        | false => simp [hv'] at hlogin
        | true =>
            simp only [hv', Except.ok.injEq, Claims.mk.injEq] at hlogin
            exact List.inj_on_of_nodup_map h.users (mem_sameLogin.mp hv).1 huser hlogin.1
  · intro honly order horder dummyHash tenant' htenant' hid'
    have hfirst : (order (db.sameLogin user)).head? = some user := by
      cases hrows : order (db.sameLogin user) with
      | nil =>
          have hmem := (horder (db.sameLogin user)).mem_iff.mpr hself
          rw [hrows] at hmem
          cases hmem
      | cons v rest =>
          have hv : v ∈ order (db.sameLogin user) := by
            rw [hrows]
            exact List.mem_cons_self
          rw [List.head?_cons, honly v ((horder _).mem_iff.mp hv)]
    refine ⟨getUserRoles user.id user.tenantId db, ?_⟩
    unfold login
    rw [authenticateUser_eq h htenant' hid' hfirst, hverify]

/-! ## 7. The runs -/

/-- The constraints hold, and the created users are rows with the hashes of their passwords. -/
structure Accounts.Kept (passwords : Passwords) (s : Accounts) : Prop where
  constrained : s.db.Constrained
  created : ∀ user password, (user, password) ∈ s.created →
    user ∈ s.db.users ∧ user.isActive = true ∧
      passwords.verify password user.hashedPassword = .ok true

theorem Accounts.Kept.allLogIn_iff {passwords : Passwords} {s : Accounts} (h : s.Kept passwords) :
    s.AllLogIn passwords ↔ ∀ user password, (user, password) ∈ s.created →
      ∀ v ∈ s.db.sameLogin user, v = user := by
  constructor
  · intro hall user password hmem
    obtain ⟨huser, hactive, hverify⟩ := h.created user password hmem
    exact (logsIn_iff h.constrained huser hactive hverify).mp (hall user password hmem hactive)
  · intro hall user password hmem hactive
    obtain ⟨huser, -, hverify⟩ := h.created user password hmem
    exact (logsIn_iff h.constrained huser hactive hverify).mpr (hall user password hmem)

/-- A request stores nothing, or a new row that is active and has the hash of its password. -/
theorem Accounts.create_cases {passwords : Passwords} {s s' : Accounts} {request : UserRequest}
    (hstep : s.create passwords request = some s') :
    (s' = s ∧ (createUserRoute passwords request s.db).2 = none) ∨
    ∃ caller hashed role, authorize .userManage request.session
        (s.db.users.map UserRecord.toUserRow) request.credentials = .ok caller ∧
      request.stored passwords s.db = true ∧
      passwords.hash request.env.salt request.body.password = .ok hashed ∧
      s' = ⟨s.db.insertUser (newUser request.env request.body hashed caller.tenantId, role),
        s.created ++ [(newUser request.env request.body hashed caller.tenantId,
          request.body.password)]⟩ := by
  unfold Accounts.create at hstep
  split at hstep
  · rename_i hnone
    cases hstep
    exact .inl ⟨rfl, hnone⟩
  · rename_i rows hrows
    obtain ⟨hstored, caller, hashed, hcaller, hhash, hrow⟩ := createUserRoute_some hrows
    obtain ⟨row, role⟩ := rows
    cases hrow
    cases hstep
    exact .inr ⟨caller, hashed, role, hcaller, hstored, hhash, rfl⟩

theorem UserRequest.stored_fresh {passwords : Passwords} {request : UserRequest}
    {db : AccountTables} (h : request.stored passwords db = true) :
    request.env.userId ∉ db.users.map fun u => u.id := by
  simp only [UserRequest.stored, Bool.and_eq_true, decide_eq_true_eq] at h
  exact h.1.1.2

-- The tenant of a caller is a row.
theorem AccountTables.Constrained.ofCaller {db : AccountTables} (h : db.Constrained)
    {session : SessionEnv} {credentials : Credentials} {caller : CurrentUser}
    (hcaller : authorize .userManage session (db.users.map UserRecord.toUserRow) credentials =
      .ok caller) : ∃ t ∈ db.tenants, t.id = caller.tenantId := by
  obtain ⟨row, hrow, -, htenant⟩ := getCurrentUser_mem (authorize_ok hcaller).1
  obtain ⟨u, hu, rfl⟩ := List.mem_map.mp hrow
  obtain ⟨t, ht, hid⟩ := h.ofUser u hu
  exact ⟨t, ht, hid.trans htenant⟩

theorem Accounts.Kept.step {passwords : Passwords} (hfaithful : passwords.Faithful)
    {s s' : Accounts} {request : UserRequest} (h : s.Kept passwords)
    (hstep : s.create passwords request = some s') : s'.Kept passwords := by
  rcases Accounts.create_cases hstep with
    ⟨rfl, -⟩ | ⟨caller, hashed, role, hcaller, hstored, hhash, rfl⟩
  · exact h
  · refine ⟨⟨?_, h.constrained.tenants, h.constrained.slugs, ?_⟩, ?_⟩
    · rw [AccountTables.insertUser, List.map_append, List.map_singleton, List.nodup_append]
      refine ⟨h.constrained.users, List.nodup_singleton _, ?_⟩
      rintro id hid _ hnew rfl
      rw [List.mem_singleton.mp hnew] at hid
      exact UserRequest.stored_fresh hstored hid
    · intro u hu
      rcases List.mem_append.mp hu with hu | hu
      · exact h.constrained.ofUser u hu
      · rw [List.mem_singleton.mp hu]
        exact h.constrained.ofCaller hcaller
    · intro user password hmem
      rcases List.mem_append.mp hmem with hmem | hmem
      · obtain ⟨huser, hrest⟩ := h.created user password hmem
        exact ⟨List.mem_append_left _ huser, hrest⟩
      · cases List.mem_singleton.mp hmem
        refine ⟨List.mem_append_right _ (List.mem_singleton.mpr rfl), rfl, ?_⟩
        show passwords.verify request.body.password hashed = _
        rw [hfaithful _ _ _ hhash, decide_eq_true rfl]

-- Users that share a login go on to share it.
theorem Accounts.create_mono {passwords : Passwords} {s s' : Accounts} {request : UserRequest}
    (hstep : s.create passwords request = some s') :
    s.created ⊆ s'.created ∧ ∀ user, s.db.sameLogin user ⊆ s'.db.sameLogin user := by
  rcases Accounts.create_cases hstep with ⟨rfl, -⟩ | ⟨_, _, _, -, -, -, rfl⟩
  · exact ⟨List.Subset.refl _, fun _ => List.Subset.refl _⟩
  · refine ⟨List.subset_append_left _ _, fun user v hv => ?_⟩
    obtain ⟨hmem, hsame⟩ := mem_sameLogin.mp hv
    exact mem_sameLogin.mpr ⟨List.mem_append_left _ hmem, hsame⟩

/-- A request keeps the created users apart exactly when the e-mail that it stores is fresh. -/
theorem Accounts.Kept.create_iff {passwords : Passwords} {s s' : Accounts} {request : UserRequest}
    (h : s.Kept passwords) (hstep : s.create passwords request = some s')
    (hapart : ∀ user password, (user, password) ∈ s.created →
      ∀ v ∈ s.db.sameLogin user, v = user) :
    (∀ user password, (user, password) ∈ s'.created → ∀ v ∈ s'.db.sameLogin user, v = user) ↔
      s.NamesFreshEmail passwords request := by
  rcases Accounts.create_cases hstep with
    ⟨rfl, hnone⟩ | ⟨caller, hashed, role, hcaller, hstored, -, rfl⟩
  · refine iff_of_true hapart fun caller hcaller hstored => ?_
    obtain ⟨rows, hsome⟩ := createUserRoute_stores hcaller hstored
    exact nomatch hnone.symm.trans hsome
  · have hfresh := UserRequest.stored_fresh hstored
    constructor
    · intro hall caller' hcaller' _ v hv hactive htenant hemail
      cases hcaller.symm.trans hcaller'
      have hsame := hall _ request.body.password
        (List.mem_append_right _ (List.mem_singleton.mpr rfl)) v
        (mem_sameLogin.mpr ⟨List.mem_append_left _ hv, hemail, htenant, hactive⟩)
      exact hfresh (List.mem_map.mpr ⟨v, hv, congrArg (fun u => u.id) hsame⟩)
    · intro hnew user password hmem v hsame
      obtain ⟨hv, hemail, htenant, hactive⟩ := mem_sameLogin.mp hsame
      rcases List.mem_append.mp hmem with hmem | hmem
      · rcases List.mem_append.mp hv with hold | hlast
        · exact hapart user password hmem v (mem_sameLogin.mpr ⟨hold, hemail, htenant, hactive⟩)
        · -- The new row would have the e-mail of a user that is there already.
          cases List.mem_singleton.mp hlast
          obtain ⟨huser, hstill, -⟩ := h.created user password hmem
          exact absurd hemail.symm (hnew caller hcaller hstored user huser hstill htenant.symm)
      · cases List.mem_singleton.mp hmem
        rcases List.mem_append.mp hv with hold | hlast
        · exact absurd hemail (hnew caller hcaller hstored v hold hactive htenant)
        · exact List.mem_singleton.mp hlast

/-- Every user that was created can log in exactly when no request has stored an e-mail that an
active user of the tenant had. -/
theorem Accounts.run_allLogIn_iff {passwords : Passwords} (hfaithful : passwords.Faithful)
    {db : AccountTables} (hdb : db.Constrained) {requests : List UserRequest} {s : Accounts}
    (hrun : runActions (Accounts.create passwords) (Accounts.start db) requests = some s) :
    s.AllLogIn passwords ↔
      EachAllowed (Accounts.create passwords) (Accounts.NamesFreshEmail passwords)
        (Accounts.start db) requests := by
  have hstart : (Accounts.start db).Kept passwords := ⟨hdb, fun _ _ h => nomatch h⟩
  have hkept : s.Kept passwords :=
    runActions_invariant (fun _ _ _ _ h hstep => h.step hfaithful hstep) hstart hrun
  rw [hkept.allLogIn_iff]
  refine runActions_exact (J := fun s => s.Kept passwords) (I := fun _ => True)
    (P := fun s => ∀ user password, (user, password) ∈ s.created →
      ∀ v ∈ s.db.sameLogin user, v = user) ?_ ?_ ?_ ?_ hstart trivial
    (fun _ _ hmem => absurd hmem List.not_mem_nil) hrun
  · exact fun s request s' h hstep => h.step hfaithful hstep
  · intro s request s' _ hstep hapart user password hmem v hv
    obtain ⟨hcreated, hsame⟩ := Accounts.create_mono hstep
    exact hapart user password (hcreated hmem) v (hsame user hv)
  · exact fun _ _ _ _ _ _ _ _ => trivial
  · exact fun s request s' h _ hapart hstep => h.create_iff hstep hapart

/-! ## 8. A tenant with an administrator -/

/-- Passwords that are kept as they are. -/
def plainPasswords : Passwords where
  hash _ password := .ok password
  verify password hashed := .ok (decide (password = hashed))

theorem plainPasswords_faithful : plainPasswords.Faithful := by
  intro salt password hashed hhash other
  cases hhash
  rfl

def acmeTables : AccountTables where
  tenants := [⟨1, "acme"⟩]
  roles := [⟨1, "developer"⟩]
  users := [⟨⟨10, 1, "root@acme.example", true⟩, "root"⟩]
  userRoles := []

theorem acmeTables_constrained : acmeTables.Constrained where
  users := by decide
  tenants := by decide
  slugs := by decide
  ofUser u hu := ⟨⟨1, "acme"⟩, List.mem_singleton.mpr rfl, by rw [List.mem_singleton.mp hu]⟩

/-- `POST /users` by the administrator. -/
def hire (userId : UUID) (email password : String) : UserRequest where
  session := ⟨.ok (), .ok ()⟩
  env := ⟨.ok (), 0, userId, .ok (), .ok⟩
  credentials := some (.ok ⟨10, 1, ["tenant_admin"]⟩)
  body := ⟨email, password, "developer"⟩

def twoHires : List UserRequest :=
  [hire 11 "sam@acme.example" "one", hire 12 "kim@acme.example" "two"]

theorem run_allLogIn_twoHires :
    ∃ s, runActions (Accounts.create plainPasswords) (Accounts.start acmeTables) twoHires = some s ∧
      s.created.length = 2 ∧
      (s.AllLogIn plainPasswords ↔ EachAllowed (Accounts.create plainPasswords)
        (Accounts.NamesFreshEmail plainPasswords) (Accounts.start acmeTables) twoHires) :=
  ⟨_, rfl, by decide, Accounts.run_allLogIn_iff plainPasswords_faithful acmeTables_constrained rfl⟩

/-- The second user has the e-mail of the first. -/
def sameEmailHires : List UserRequest :=
  [hire 11 "sam@acme.example" "one", hire 12 "sam@acme.example" "two"]

theorem not_allLogIn_sameEmailHires :
    ∃ s, runActions (Accounts.create plainPasswords) (Accounts.start acmeTables) sameEmailHires =
      some s ∧ ¬ s.AllLogIn plainPasswords := by
  refine ⟨_, rfl, fun h => ?_⟩
  obtain ⟨roles, hlogin⟩ := h ⟨⟨12, 1, "sam@acme.example", true⟩, "two"⟩ "two"
    (List.mem_cons_of_mem _ List.mem_cons_self) rfl (fun rows => rows)
    (fun rows => List.Perm.refl rows) "" ⟨1, "acme"⟩ (List.mem_singleton.mpr rfl) rfl
  cases hlogin

end ConstructorPlatform
