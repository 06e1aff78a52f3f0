import ConstructorPlatform.PlatformApi.Tokens

/-!
# Authority — who may act, and for how long

Logins, the creation of users and the other requests that ask for a permission, in any order and
with any time between them.  A request carries a token that a login has given out, or one that is
refused.

`AuthState.Reached.authority`: whoever acts has shown the password of the user since the time an
access token lasts, and acts with the roles that are stored for the user.
`AuthState.Reached.closed_tenant`: in a tenant where nobody may manage users, no user is ever added.
-/

namespace ConstructorPlatform

open Reasoning

variable {Token : Type}

/-! ## 1. The system -/

/-- A token that a login has given out, with the time and the password of the login. -/
structure Issued (Token : Type) where
  token : Token
  claims : Claims
  time : Nat
  password : String

/-- A request that was let through. -/
structure Acted where
  user : CurrentUser
  permission : Permission
  time : Nat

structure AuthState (Token : Type) where
  db : AccountTables
  refreshTokens : List RefreshTokenRow
  now : Nat
  -- History, oldest first.
  issued : List (Issued Token)
  acted : List Acted

def AuthState.start (db : AccountTables) : AuthState Token := ⟨db, [], 0, [], []⟩

inductive AuthAction (Token : Type) where
  | wait (duration : Nat)
  -- `POST /auth/login`.
  | login (env : LoginEnv) (tokenEnv : TokenEnv) (body : LoginRequest)
  -- `POST /users`.
  | createUser (session : SessionEnv) (env : UserCreateEnv) (header : Option Token)
      (body : UserCreate)
  -- Any other endpoint that depends on `require_permission(permission)`.
  | act (permission : Permission) (session : SessionEnv) (header : Option Token)

/-- `require_permission(permission)` for the token of a request. -/
def AuthState.authorize (sys : AuthSystem Token) (s : AuthState Token) (permission : Permission)
    (session : SessionEnv) (header : Option Token) : Except HttpError CurrentUser :=
  ConstructorPlatform.authorize permission session (s.db.users.map UserRecord.toUserRow)
    (credentialsOf sys.jwt s.now header)

/-- Puts the request on record if it is let through. -/
def AuthState.record (sys : AuthSystem Token) (s : AuthState Token) (permission : Permission)
    (session : SessionEnv) (header : Option Token) : List Acted :=
  match s.authorize sys permission session header with
  | .error _ => s.acted
  | .ok user => s.acted ++ [⟨user, permission, s.now⟩]

def AuthState.login (sys : AuthSystem Token) (s : AuthState Token) (env : LoginEnv)
    (tokenEnv : TokenEnv) (body : LoginRequest) : AuthState Token :=
  let (answer, row) := loginRoute sys env tokenEnv s.now body s.db
  { s with
    refreshTokens := s.refreshTokens ++ row.toList
    issued :=
      match answer, ConstructorPlatform.login sys.passwords env body s.db with
      | .ok (response, _), .ok claims =>
          s.issued ++ [⟨response.accessToken, claims, s.now, body.password⟩]
      | _, _ => s.issued }

def AuthState.createUser (sys : AuthSystem Token) (s : AuthState Token) (session : SessionEnv)
    (env : UserCreateEnv) (header : Option Token) (body : UserCreate) : AuthState Token :=
  let request : UserRequest := ⟨session, env, credentialsOf sys.jwt s.now header, body⟩
  { s with
    db := (createUserRoute sys.passwords request s.db).2.elim s.db fun rows => s.db.insertUser rows
    acted := s.record sys .userManage session header }

def AuthState.step (sys : AuthSystem Token) (s : AuthState Token) :
    AuthAction Token → Option (AuthState Token)
  | .wait duration => some { s with now := s.now + duration }
  | .login env tokenEnv body => some (s.login sys env tokenEnv body)
  | .createUser session env header body => some (s.createUser sys session env header body)
  | .act permission session header =>
      some { s with acted := s.record sys permission session header }

/-- The token comes from a login, or it is refused: nobody else can sign. -/
def AuthState.Known (sys : AuthSystem Token) (s : AuthState Token) (header : Option Token) : Prop :=
  ∀ token, header = some token →
    token ∈ s.issued.map Issued.token ∨ ∃ e, sys.jwt.decode s.now token = .error e

/-- A query returns the rows that it selects, an id is a UUID, and tokens are not forged. -/
def AuthState.Allowed (sys : AuthSystem Token) (s : AuthState Token) : AuthAction Token → Prop
  | .wait _ => True
  | .login env _ _ => ∀ rows, (env.order rows).Perm rows
  | .createUser _ env header _ => env.userId < uuidBound ∧ s.Known sys header
  | .act _ _ header => s.Known sys header

abbrev AuthState.Reached (sys : AuthSystem Token) (db : AccountTables) : AuthState Token → Prop :=
  Reachable (AuthState.step sys) (AuthState.Allowed sys) (AuthState.start db)

/-! ## 2. The rows -/

/-- Ids are UUIDs and roles are given to users. -/
structure AccountTables.Sound (db : AccountTables) : Prop where
  users : (db.users.map fun u => u.id).Nodup
  ids : ∀ u ∈ db.users, u.id < uuidBound ∧ u.tenantId < uuidBound
  ofRole : ∀ ur ∈ db.userRoles, ∃ u ∈ db.users, u.id = ur.userId

-- A new user does not change the roles of the others.
theorem getUserRoles_insertUser {db : AccountTables} {rows : UserRecord × UserRoleRow}
    {userId tenantId : UUID} (h : rows.2.userId ≠ userId) :
    getUserRoles userId tenantId (db.insertUser rows) = getUserRoles userId tenantId db := by
  unfold getUserRoles AccountTables.insertUser
  rw [List.filter_append, List.filter_singleton]
  simp [h]

theorem createUser_role {passwords : Passwords} {env : UserCreateEnv} {data : UserCreate}
    {tenantId : UUID} {db : AccountTables} {rows : UserRecord × UserRoleRow}
    (h : createUser passwords env data tenantId db = .ok rows) : rows.2.userId = env.userId := by
  unfold createUser at h
  split at h
  · cases h
  · split at h
    · cases h
    · split at h
      · cases h
      · split at h
        · cases h
        · split at h
          · cases h
          · cases h
            rfl

/-- What `POST /users` stores: a user of the tenant of a caller who may manage users, under an id
that was free. -/
theorem createUserRoute_rows {passwords : Passwords} {request : UserRequest} {db : AccountTables}
    {rows : UserRecord × UserRoleRow} (h : (createUserRoute passwords request db).2 = some rows) :
    ∃ caller, authorize .userManage request.session (db.users.map UserRecord.toUserRow)
        request.credentials = .ok caller ∧
      rows.1.id = request.env.userId ∧ rows.1.tenantId = caller.tenantId ∧
      rows.2.userId = request.env.userId ∧
      request.env.userId ∉ db.users.map fun u => u.id := by
  unfold createUserRoute at h
  split at h
  · cases h
  · rename_i caller hcaller
    split at h
    · cases h
    · rename_i created hcreated
      have hrows : created = rows := by
        cases hcommit : request.env.commit with
        | ok => simp only [hcommit] at h; exact Option.some.inj h
        | raised exc carriedOut =>
            simp only [hcommit] at h
            cases carriedOut with
            | true => exact Option.some.inj h
            | false => cases h
      subst hrows
      obtain ⟨-, -, hfresh, -, hashed, -, hrow⟩ := createUser_ok hcreated
      refine ⟨caller, hcaller, by rw [hrow]; rfl, by rw [hrow]; rfl, ?_, hfresh⟩
      exact createUser_role hcreated

/-! ## 3. The invariant -/

/-- The token is what a login of an active user with the password has signed, with the roles that
are stored for the user. -/
structure Issued.Backed (sys : AuthSystem Token) (db : AccountTables) (i : Issued Token) :
    Prop where
  signed : sys.jwt.encode (tokenPayload i.claims (sys.settings.expiry i.time)) = .ok i.token
  roles : i.claims.roles = getUserRoles i.claims.userId i.claims.tenantId db
  user : ∃ u ∈ db.users, u.id = i.claims.userId ∧ u.tenantId = i.claims.tenantId ∧
    u.isActive = true ∧ sys.passwords.verify i.password u.hashedPassword = .ok true

/-- The request came with the token, while it was valid. -/
structure Acted.With (sys : AuthSystem Token) (a : Acted) (i : Issued Token) : Prop where
  claims : i.claims = ⟨a.user.id, a.user.tenantId, a.user.roles⟩
  after : i.time ≤ a.time
  before : a.time < i.time + sys.settings.accessTime

structure AuthState.Kept (sys : AuthSystem Token) (s : AuthState Token) : Prop where
  sound : s.db.Sound
  past : ∀ i ∈ s.issued, i.time ≤ s.now
  issued : ∀ i ∈ s.issued, i.Backed sys s.db
  acted : ∀ a ∈ s.acted, hasPermission a.user.roles a.permission = true ∧
    ∃ i ∈ s.issued, a.With sys i

section Invariant

variable {sys : AuthSystem Token} {s s' : AuthState Token} {db : AccountTables}

theorem getCurrentUser_claims {users : List UserRow} {claims : Claims} {user : CurrentUser}
    (h : getCurrentUser users (some (.ok claims)) = .ok user) :
    claims = ⟨user.id, user.tenantId, user.roles⟩ := by
  unfold getCurrentUser at h
  simp only at h
  split at h
  · cases h
  · cases h
    rfl

-- A refused token gives no claims.
theorem credentialsOf_error {jwt : Jwt Token} {now : Nat} {token : Token} {e : JwtError}
    (h : jwt.decode now token = .error e) (claims : Claims) :
    credentialsOf jwt now (some token) ≠ some (.ok claims) := by
  have hdecode : ∃ exc, decodeAccessToken jwt now token = .error exc := by
    unfold decodeAccessToken
    rw [h]
    cases e with
    | expired => exact ⟨_, rfl⟩
    | invalid text => exact ⟨_, rfl⟩
  obtain ⟨exc, hexc⟩ := hdecode
  unfold credentialsOf
  simp only [hexc]
  intro hclaims
  cases hclaims

/-- Who is let through brings a token of a login that has not expired. -/
theorem AuthState.Kept.authorized (h : s.Kept sys) (hjwt : sys.jwt.Faithful)
    {permission : Permission} {session : SessionEnv} {header : Option Token}
    (hknown : s.Known sys header) {user : CurrentUser}
    (huser : s.authorize sys permission session header = .ok user) :
    hasPermission user.roles permission = true ∧
      ∃ i ∈ s.issued, (Acted.mk user permission s.now).With sys i := by
  obtain ⟨hcurrent, hperm⟩ := authorize_ok huser
  obtain ⟨claims, hcredentials, -, -⟩ := getCurrentUser_ok hcurrent
  rw [hcredentials] at hcurrent
  have hclaims := getCurrentUser_claims hcurrent
  refine ⟨hperm, ?_⟩
  cases header with
  | none => cases hcredentials
  | some token =>
      rcases hknown token rfl with hissued | ⟨e, he⟩
      · obtain ⟨i, hi, rfl⟩ := List.mem_map.mp hissued
        obtain ⟨u, hu, hid, htenant, -, -⟩ := (h.issued i hi).user
        obtain ⟨hidBound, htenantBound⟩ := h.sound.ids u hu
        rw [credentialsOf_token hjwt (hid ▸ hidBound) (htenant ▸ htenantBound)
          (h.issued i hi).signed s.now] at hcredentials
        by_cases hvalid : s.now < sys.settings.expiry i.time * microseconds
        · rw [if_pos hvalid, Option.some.injEq, Except.ok.injEq] at hcredentials
          have hexpiry : sys.settings.expiry i.time * microseconds ≤
              i.time + sys.settings.accessTime := Nat.div_mul_le_self _ _
          exact ⟨i, hi, hcredentials.trans hclaims, h.past i hi, hvalid.trans_le hexpiry⟩
        · rw [if_neg hvalid] at hcredentials
          cases hcredentials
      · exact absurd hcredentials (credentialsOf_error he claims)

theorem AuthState.Kept.record (h : s.Kept sys) (hjwt : sys.jwt.Faithful) {permission : Permission}
    {session : SessionEnv} {header : Option Token} (hknown : s.Known sys header) :
    ∀ a ∈ s.record sys permission session header, hasPermission a.user.roles a.permission = true ∧
      ∃ i ∈ s.issued, a.With sys i := by
  intro a ha
  unfold AuthState.record at ha
  split at ha
  · exact h.acted a ha
  · rename_i user huser
    rcases List.mem_append.mp ha with ha | ha
    · exact h.acted a ha
    · rw [List.mem_singleton.mp ha]
      exact h.authorized hjwt hknown huser

-- A user that is added leaves the tokens backed.
theorem Issued.Backed.insertUser {i : Issued Token} (h : i.Backed sys db)
    {rows : UserRecord × UserRoleRow} (hfresh : rows.2.userId ∉ db.users.map fun u => u.id) :
    i.Backed sys (db.insertUser rows) := by
  obtain ⟨u, hu, hid, hrest⟩ := h.user
  refine ⟨h.signed, ?_, u, List.mem_append_left _ hu, hid, hrest⟩
  rw [h.roles, getUserRoles_insertUser]
  intro hsame
  exact hfresh (List.mem_map.mpr ⟨u, hu, hid.trans hsame.symm⟩)

theorem AccountTables.Sound.insertUser (h : db.Sound) {rows : UserRecord × UserRoleRow}
    (hfresh : rows.1.id ∉ db.users.map fun u => u.id) (hsame : rows.2.userId = rows.1.id)
    (hid : rows.1.id < uuidBound) (htenant : rows.1.tenantId < uuidBound) :
    (db.insertUser rows).Sound := by
  refine ⟨?_, fun u hu => ?_, fun ur hur => ?_⟩
  · rw [AccountTables.insertUser, List.map_append, List.map_singleton, List.nodup_append]
    refine ⟨h.users, List.nodup_singleton _, ?_⟩
    rintro id hold _ hnew rfl
    exact hfresh (List.mem_singleton.mp hnew ▸ hold)
  · rcases List.mem_append.mp hu with hu | hu
    · exact h.ids u hu
    · rw [List.mem_singleton.mp hu]
      exact ⟨hid, htenant⟩
  · rcases List.mem_append.mp hur with hur | hur
    · obtain ⟨u, hu, hown⟩ := h.ofRole ur hur
      exact ⟨u, List.mem_append_left _ hu, hown⟩
    · rw [List.mem_singleton.mp hur]
      exact ⟨rows.1, List.mem_append_right _ List.mem_cons_self, hsame.symm⟩

/-- What `POST /users` does to the tables: nothing, or one more user of the tenant of a caller who
was let through. -/
theorem AuthState.createUser_cases (sys : AuthSystem Token) (s : AuthState Token)
    (session : SessionEnv) (env : UserCreateEnv) (header : Option Token) (body : UserCreate) :
    (s.createUser sys session env header body).db = s.db ∨
    ∃ rows caller, (s.createUser sys session env header body).db = s.db.insertUser rows ∧
      s.authorize sys .userManage session header = .ok caller ∧ rows.1.id = env.userId ∧
      rows.1.tenantId = caller.tenantId ∧ rows.2.userId = env.userId ∧
      env.userId ∉ s.db.users.map fun u => u.id := by
  simp only [AuthState.createUser]
  cases hrows : (createUserRoute sys.passwords ⟨session, env, credentialsOf sys.jwt s.now header,
      body⟩ s.db).2 with
  | none => exact .inl rfl
  | some rows =>
      obtain ⟨caller, hcaller, hid, htenant, hrole, hfresh⟩ := createUserRoute_rows hrows
      exact .inr ⟨rows, caller, rfl, hcaller, hid, htenant, hrole, hfresh⟩

-- A login issues nothing, or one token that is backed.
theorem AuthState.login_cases (sys : AuthSystem Token) (s : AuthState Token) {env : LoginEnv}
    (tokenEnv : TokenEnv) (body : LoginRequest) (horder : ∀ rows, (env.order rows).Perm rows) :
    (s.login sys env tokenEnv body).issued = s.issued ∨
    ∃ i, (s.login sys env tokenEnv body).issued = s.issued ++ [i] ∧ i.time = s.now ∧
      i.Backed sys s.db := by
  simp only [AuthState.login]
  cases hanswer : (loginRoute sys env tokenEnv s.now body s.db).1 with
  | error e => exact .inl rfl
  | ok answer =>
      obtain ⟨response, cookie⟩ := answer
      obtain ⟨user, huser, hlogin, htoken, -⟩ := loginRoute_ok hanswer
      obtain ⟨hmem, hactive, -, hverify⟩ := authenticateUser_some horder huser
      simp only [hlogin]
      exact .inr ⟨_, rfl, rfl, htoken, rfl, user, hmem, rfl, rfl, hactive, hverify⟩

theorem AuthState.Kept.step (h : s.Kept sys) (hjwt : sys.jwt.Faithful) {a : AuthAction Token}
    (hallowed : s.Allowed sys a) (hstep : s.step sys a = some s') : s'.Kept sys := by
  cases a with
  | wait duration =>
      cases hstep
      exact ⟨h.sound, fun i hi => (h.past i hi).trans (Nat.le_add_right _ _), h.issued, h.acted⟩
  | act permission session header =>
      cases hstep
      exact ⟨h.sound, h.past, h.issued, h.record hjwt hallowed⟩
  | login env tokenEnv body =>
      cases hstep
      rcases AuthState.login_cases sys s tokenEnv body hallowed with heq | ⟨i, heq, htime, hbacked⟩
      · refine ⟨h.sound, ?_, ?_, ?_⟩ <;> rw [heq]
        · exact h.past
        · exact h.issued
        · exact h.acted
      · refine ⟨h.sound, ?_, ?_, ?_⟩ <;> rw [heq]
        · intro j hj
          rcases List.mem_append.mp hj with hj | hj
          · exact h.past j hj
          · rw [List.mem_singleton.mp hj, htime]
            exact Nat.le_refl _
        · intro j hj
          rcases List.mem_append.mp hj with hj | hj
          · exact h.issued j hj
          · rw [List.mem_singleton.mp hj]
            exact hbacked
        · intro a ha
          obtain ⟨hperm, j, hj, hwith⟩ := h.acted a ha
          exact ⟨hperm, j, List.mem_append_left _ hj, hwith⟩
  | createUser session env header body =>
      cases hstep
      obtain ⟨hbound, hknown⟩ := hallowed
      have hrecord : ∀ a ∈ s.record sys .userManage session header, _ := h.record hjwt hknown
      rcases AuthState.createUser_cases sys s session env header body with
        heq | ⟨rows, caller, heq, hcaller, hid, htenant, hrole, hfresh⟩
      · refine ⟨heq ▸ h.sound, h.past, ?_, hrecord⟩
        rw [heq]
        exact h.issued
      · obtain ⟨-, i, hi, hwith⟩ := h.authorized hjwt hknown hcaller
        obtain ⟨u, hu, -, hutenant, -, -⟩ := (h.issued i hi).user
        have hcallerTenant : u.tenantId = caller.tenantId := by rw [hutenant, hwith.claims]
        refine ⟨?_, h.past, ?_, hrecord⟩
        · rw [heq]
          refine h.sound.insertUser (hid ▸ hfresh) (hrole.trans hid.symm) (hid ▸ hbound) ?_
          rw [htenant, ← hcallerTenant]
          exact (h.sound.ids u hu).2
        · rw [heq]
          exact fun j hj => (h.issued j hj).insertUser (hrole ▸ hfresh)

theorem AuthState.Reached.kept (hjwt : sys.jwt.Faithful) (hdb : db.Sound)
    (h : AuthState.Reached sys db s) : s.Kept sys := by
  refine h.invariant (I := fun s => s.Kept sys) ?_ ?_
  · exact ⟨hdb, List.forall_mem_nil _, List.forall_mem_nil _, List.forall_mem_nil _⟩
  · exact fun s a s' _ hallowed hstep hkept => hkept.step hjwt hallowed hstep

end Invariant

/-! ## 4. Runs -/

section Runs

variable {sys : AuthSystem Token} {s : AuthState Token} {db : AccountTables}

/-- Whoever acts is an active user, holds the permission by the roles that are stored for the user,
and has shown the password of the user in a login that is not longer ago than an access token
lasts. -/
theorem AuthState.Reached.authority (hjwt : sys.jwt.Faithful) (hdb : db.Sound)
    (h : AuthState.Reached sys db s) {a : Acted} (ha : a ∈ s.acted) :
    a.user.roles = getUserRoles a.user.id a.user.tenantId s.db ∧
    hasPermission a.user.roles a.permission = true ∧
    ∃ u ∈ s.db.users, u.id = a.user.id ∧ u.tenantId = a.user.tenantId ∧ u.isActive = true ∧
      ∃ i ∈ s.issued, i.claims.userId = a.user.id ∧
        sys.passwords.verify i.password u.hashedPassword = .ok true ∧
        i.time ≤ a.time ∧ a.time < i.time + sys.settings.accessTime := by
  have hkept := h.kept hjwt hdb
  obtain ⟨hperm, i, hi, hwith⟩ := hkept.acted a ha
  obtain ⟨-, hroles, u, hu, hid, htenant, hactive, hverify⟩ := hkept.issued i hi
  rw [hwith.claims] at hroles hid htenant
  exact ⟨hroles, hperm, u, hu, hid, htenant, hactive, i, hi, by rw [hwith.claims], hverify,
    hwith.after, hwith.before⟩

/-- Nobody of the tenant may manage users. -/
def AccountTables.Closed (db : AccountTables) (tenant : UUID) : Prop :=
  ∀ u ∈ db.users, u.tenantId = tenant →
    hasPermission (getUserRoles u.id u.tenantId db) .userManage = false

/-- The users of a tenant where nobody may manage users stay the same, whatever happens in other
tenants and whoever holds tokens of the tenant. -/
theorem AuthState.Reached.closed_tenant (hjwt : sys.jwt.Faithful) (hdb : db.Sound) {tenant : UUID}
    (hclosed : db.Closed tenant) (h : AuthState.Reached sys db s) :
    (s.db.users.filter fun u => u.tenantId = tenant) =
      db.users.filter fun u => u.tenantId = tenant := by
  suffices hinv : s.db.Closed tenant ∧ (s.db.users.filter fun u => u.tenantId = tenant) =
      db.users.filter fun u => u.tenantId = tenant from hinv.2
  refine h.invariant (I := fun s => s.db.Closed tenant ∧ (s.db.users.filter fun u =>
    u.tenantId = tenant) = db.users.filter fun u => u.tenantId = tenant) ⟨hclosed, rfl⟩ ?_
  rintro s a s' hreached hallowed hstep ⟨hclosed, hsame⟩
  have hkept : s.Kept sys := AuthState.Reached.kept hjwt hdb hreached
  cases a with
  | wait duration => cases hstep; exact ⟨hclosed, hsame⟩
  | act permission session header => cases hstep; exact ⟨hclosed, hsame⟩
  | login env tokenEnv body => cases hstep; exact ⟨hclosed, hsame⟩
  | createUser session env header body =>
      cases hstep
      obtain ⟨-, hknown⟩ := hallowed
      rcases AuthState.createUser_cases sys s session env header body with
        heq | ⟨rows, caller, heq, hcaller, hid, htenant, hrole, hfresh⟩
      · rw [heq]
        exact ⟨hclosed, hsame⟩
      · obtain ⟨hperm, i, hi, hwith⟩ := hkept.authorized hjwt hknown hcaller
        -- The caller is a user who may manage users, so of another tenant.
        have hother : caller.tenantId ≠ tenant := by
          intro hown
          obtain ⟨u, hu, huid, hutenant, -, -⟩ := (hkept.issued i hi).user
          have hroles := (hkept.issued i hi).roles
          rw [hwith.claims] at huid hutenant hroles
          have hnot := hclosed u hu (hutenant.trans hown)
          rw [huid, hutenant, ← hroles, hperm] at hnot
          cases hnot
        have hnew : rows.1.tenantId ≠ tenant := htenant ▸ hother
        rw [heq]
        refine ⟨fun u hu hutenant => ?_, ?_⟩
        · rcases List.mem_append.mp hu with hu | hu
          · rw [getUserRoles_insertUser]
            · exact hclosed u hu hutenant
            · rw [hrole]
              exact fun hsameId => hfresh (List.mem_map.mpr ⟨u, hu, hsameId.symm⟩)
          · rw [List.mem_singleton.mp hu] at hutenant
            exact absurd hutenant hnew
        · rw [AccountTables.insertUser, List.filter_append, hsame, List.filter_singleton]
          simp [hnew]

end Runs

/-! ## 5. A tenant with an administrator beside one with a developer only -/

/-- Tokens that are their payloads. -/
def plainJwt : Jwt Dict where
  encode payload := .ok payload
  decode now payload :=
    match payload.lookup "exp" with
    | some (.int exp) => if now < exp.toNat * microseconds then .ok payload else .error .expired
    | _ => .error (.invalid "Token is missing the \"exp\" claim")

theorem plainJwt_faithful : plainJwt.Faithful := by
  intro claims exp token htoken now
  cases htoken
  have hexp : (tokenPayload claims exp).lookup "exp" = some (.int exp) := rfl
  simp only [plainJwt, hexp, Int.toNat_natCast]

def plainAuth : AuthSystem Dict where
  passwords := plainPasswords
  jwt := plainJwt
  sha256 text := text
  settings := ⟨15, 7, "development"⟩

def twoCompanies : AccountTables where
  tenants := [⟨1, "acme"⟩, ⟨2, "bolt"⟩]
  roles := [⟨1, "developer"⟩, ⟨2, "tenant_admin"⟩]
  users := [⟨⟨10, 1, "root@acme.example", true⟩, "root"⟩, ⟨⟨20, 2, "bo@bolt.example", true⟩, "bo"⟩]
  userRoles := [⟨10, 1, 2⟩, ⟨20, 2, 1⟩]

theorem twoCompanies_sound : twoCompanies.Sound where
  users := by decide
  ids := by decide
  ofRole := by decide

theorem twoCompanies_closed : twoCompanies.Closed 2 := by
  unfold AccountTables.Closed
  decide

/-- The administrator logs in, and hires somebody five minutes later. -/
def loginAndHire : List (AuthAction Dict) :=
  [.login ⟨id, "", .ok (), .ok⟩ ⟨.ok (), 7, 0, .ok ()⟩ ⟨"root@acme.example", "root", "acme"⟩,
    .wait (300 * microseconds),
    .createUser ⟨.ok (), .ok ()⟩ ⟨.ok (), 0, 11, .ok (), .ok⟩
      (some (tokenPayload ⟨10, 1, ["tenant_admin"]⟩ 900)) ⟨"sam@acme.example", "one", "developer"⟩]

theorem loginAndHire_allowed :
    EachAllowed (AuthState.step plainAuth) (AuthState.Allowed plainAuth)
      (AuthState.start twoCompanies) loginAndHire := by
  refine ⟨fun rows => .refl rows, fun s hs => ?_⟩
  cases hs
  refine ⟨trivial, fun s hs => ?_⟩
  cases hs
  refine ⟨⟨by decide, fun token htoken => .inl ?_⟩, fun s _ => trivial⟩
  cases htoken
  exact List.mem_singleton.mpr rfl

theorem authority_loginAndHire :
    ∃ s, runActions (AuthState.step plainAuth) (AuthState.start twoCompanies) loginAndHire =
      some s ∧ ∃ a ∈ s.acted, a.permission = .userManage ∧
        a.user.roles = getUserRoles a.user.id a.user.tenantId s.db := by
  have hacted : (runActions (AuthState.step plainAuth) (AuthState.start twoCompanies)
      loginAndHire).map (fun s => s.acted.map fun a => a.permission) =
        some [.userManage] := by decide +kernel
  obtain ⟨s, hrun, hs⟩ := Option.map_eq_some_iff.mp hacted
  have hmem : Permission.userManage ∈ s.acted.map fun a => a.permission :=
    hs ▸ List.mem_singleton_self _
  obtain ⟨a, ha, hpermission⟩ := List.mem_map.mp hmem
  have hauthority := AuthState.Reached.authority plainJwt_faithful twoCompanies_sound
    (.of_eachAllowed .start loginAndHire_allowed hrun) ha
  exact ⟨s, hrun, a, ha, hpermission, hauthority.1⟩

theorem closed_tenant_loginAndHire :
    ∃ s, runActions (AuthState.step plainAuth) (AuthState.start twoCompanies) loginAndHire =
      some s ∧ s.db.users.length = 3 ∧
      (s.db.users.filter fun u => u.tenantId = 2) =
        [⟨⟨20, 2, "bo@bolt.example", true⟩, "bo"⟩] := by
  have hlength : (runActions (AuthState.step plainAuth) (AuthState.start twoCompanies)
      loginAndHire).map (fun s => s.db.users.length) = some 3 := by decide +kernel
  obtain ⟨s, hrun, hs⟩ := Option.map_eq_some_iff.mp hlength
  refine ⟨s, hrun, hs, ?_⟩
  rw [AuthState.Reached.closed_tenant plainJwt_faithful twoCompanies_sound twoCompanies_closed
    (.of_eachAllowed .start loginAndHire_allowed hrun)]
  decide

end ConstructorPlatform
