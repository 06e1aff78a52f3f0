import ConstructorPlatform.PlatformApi.Accounts
import ConstructorPlatform.UuidText

/-!
# Tokens — `src/auth/jwt.py`, `create_tokens` and what `get_current_user` reads

A login gives an access token, which every later request brings along, and stores the hash of a
refresh token.  `credentialsOf_token`: until it expires, the token gives back the user, the tenant
and the roles that it was made for, and after that nothing.
-/

namespace ConstructorPlatform

open Reasoning

variable {Token : Type}

/-! ## 1. `uuid.UUID` -/

/-- `text.replace(word, "")`; the number counts the characters of an occurrence still to be
dropped. -/
def dropWord (word : List Char) : Nat → List Char → List Char
  | _, [] => []
  | n + 1, _ :: cs => dropWord word n cs
  | 0, c :: cs =>
      if word <+: c :: cs then dropWord word (word.length - 1) cs else c :: dropWord word 0 cs

/-- `text.strip(...)` of the characters that are meant. -/
def stripOf (meant : Char → Bool) (cs : List Char) : List Char :=
  ((cs.dropWhile meant).reverse.dropWhile meant).reverse

def isBrace (c : Char) : Bool := decide (c = '{' ∨ c = '}')

/-- The blanks that `int` skips. -/
def isBlank (c : Char) : Bool :=
  decide (c.toNat ∈ [0x9, 0xa, 0xb, 0xc, 0xd, 0x20, 0x85, 0xa0, 0x1680, 0x2000, 0x2001, 0x2002,
    0x2003, 0x2004, 0x2005, 0x2006, 0x2007, 0x2008, 0x2009, 0x200a, 0x2028, 0x2029, 0x202f, 0x205f,
    0x3000])

/-- The digits, when single underscores stand between them at most. -/
def dropUnderscores : List Char → Option (List Char)
  | [] => none
  | c :: cs =>
      if c = '_' then none
      else
        match cs with
        | [] => some [c]
        | '_' :: cs => (dropUnderscores cs).map (c :: ·)
        | c' :: cs => (dropUnderscores (c' :: cs)).map (c :: ·)

/-- What follows `0x`; one underscore may come first. -/
def dropBasePrefix : List Char → List Char
  | '0' :: 'x' :: '_' :: cs | '0' :: 'X' :: '_' :: cs | '0' :: 'x' :: cs | '0' :: 'X' :: cs => cs
  | cs => cs

def dropPlus : List Char → List Char
  | '+' :: cs => cs
  | cs => cs

/-- `int(text, 16)` of a text without a minus; the digits of other scripts are left out. -/
def intBase16 (cs : List Char) : Option Nat :=
  (dropUnderscores (dropBasePrefix (dropPlus (stripOf isBlank cs)))).bind Hex.value

/-- `uuid.UUID(value)`. -/
def pyUuid : Json → Except PyExc UUID
  | .str s =>
      let cs := dropWord "uuid:".toList 0 (dropWord "urn:".toList 0 s.toList)
      let ds := (stripOf isBrace cs).filter fun c => c ≠ '-'
      if ds.length ≠ 32 then .error ⟨.valueError, "badly formed hexadecimal UUID string"⟩
      else
        match intBase16 ds with
        | some u => .ok u
        | none => .error ⟨.valueError, "invalid literal for int() with base 16: " ++
            quoted (String.ofList ds)⟩
  | .null => .error ⟨.typeError,
      "one of the hex, bytes, bytes_le, fields, or int arguments must be given"⟩
  | v => .error ⟨.attributeError, quoted v.typeName ++ " object has no attribute 'replace'"⟩

theorem dropWord_eq_self {word cs : List Char} {x : Char} (hword : x ∈ word) (hcs : x ∉ cs) :
    dropWord word 0 cs = cs := by
  induction cs with
  | nil => rfl
  | cons c cs ih =>
      have hprefix : ¬ word <+: c :: cs := fun h => hcs (h.subset hword)
      rw [dropWord, if_neg hprefix, ih fun h => hcs (List.mem_cons_of_mem c h)]

theorem stripOf_eq_self {meant : Char → Bool} {cs : List Char} (h : ∀ c ∈ cs, meant c = false) :
    stripOf meant cs = cs := by
  have hdrop : ∀ ds : List Char, (∀ c ∈ ds, c ∈ cs) → ds.dropWhile meant = ds := by
    intro ds hds
    cases ds with
    | nil => rfl
    | cons c ds =>
        rw [List.dropWhile_cons_of_neg]
        rw [h c (hds c List.mem_cons_self)]
        exact Bool.false_ne_true
  unfold stripOf
  rw [hdrop cs fun _ h => h, hdrop cs.reverse fun _ h => List.mem_reverse.mp h,
    List.reverse_reverse]

theorem dropUnderscores_eq_self {cs : List Char} (hne : cs ≠ []) (h : '_' ∉ cs) :
    dropUnderscores cs = some cs := by
  induction cs with
  | nil => exact absurd rfl hne
  | cons c cs ih =>
      rw [List.mem_cons, not_or] at h
      obtain ⟨hc, hrest⟩ := h
      rw [dropUnderscores.eq_def]
      simp only [if_neg (Ne.symm hc)]
      split
      · rfl
      · exact absurd List.mem_cons_self hrest
      · rename_i c' cs _
        rw [ih (List.cons_ne_nil c' cs) hrest]
        rfl

theorem dropBasePrefix_eq_self {cs : List Char} (hlower : 'x' ∉ cs) (hupper : 'X' ∉ cs) :
    dropBasePrefix cs = cs := by
  unfold dropBasePrefix
  split
  · simp at hlower
  · simp at hupper
  · simp at hlower
  · simp at hupper
  · rfl

theorem dropPlus_eq_self {cs : List Char} (h : '+' ∉ cs) : dropPlus cs = cs := by
  unfold dropPlus
  split
  · simp at h
  · rfl

-- What is written as digits, `int` reads.
theorem intBase16_digits {u : UUID} (h : u < uuidBound) : intBase16 (Hex.digits 32 u) = some u := by
  have hblank : ∀ c ∈ Hex.digits 32 u, isBlank c = false := by
    intro c hc
    obtain ⟨d, hd, rfl⟩ := Hex.mem_digits hc
    have hall : ∀ d < 16, isBlank (Hex.digit d) = false := by decide
    exact hall d hd
  have hne : Hex.digits 32 u ≠ [] :=
    List.ne_nil_of_length_pos (by rw [Hex.length_digits]; decide)
  rw [intBase16, stripOf_eq_self hblank,
    dropPlus_eq_self (Hex.not_mem_digits (by decide) 32 u),
    dropBasePrefix_eq_self (Hex.not_mem_digits (by decide) 32 u)
      (Hex.not_mem_digits (by decide) 32 u),
    dropUnderscores_eq_self hne (Hex.not_mem_digits (by decide) 32 u), Option.bind_some]
  exact Hex.value_digits h

theorem mem_hyphenate {c : Char} (ns : List Nat) {cs : List Char} (h : c ∈ hyphenate ns cs) :
    c = '-' ∨ c ∈ cs := by
  induction ns generalizing cs with
  | nil => exact .inr h
  | cons n ns ih =>
      rcases List.mem_append.mp h with h | h
      · exact .inr (List.mem_of_mem_take h)
      · rcases List.mem_cons.mp h with h | h
        · exact .inl h
        · exact (ih h).imp id List.mem_of_mem_drop

-- What `str` writes, `uuid.UUID` reads.
theorem pyUuid_uuidStr {u : UUID} (h : u < uuidBound) : pyUuid (.str (uuidStr u)) = .ok u := by
  have hnot : ∀ c : Char, c ≠ '-' → c ∉ Hex.digits 32 u → c ∉ (uuidStr u).toList := by
    intro c hhyphen hdigits hmem
    rw [uuidStr, String.toList_ofList] at hmem
    exact (mem_hyphenate _ hmem).elim hhyphen hdigits
  have hcolon : ':' ∉ (uuidStr u).toList :=
    hnot ':' (by decide) (Hex.not_mem_digits (by decide) 32 u)
  have hbrace : ∀ c ∈ (uuidStr u).toList, isBrace c = false := by
    intro c hc
    apply decide_eq_false
    rintro (rfl | rfl)
    · exact hnot '{' (by decide) (Hex.not_mem_digits (by decide) 32 u) hc
    · exact hnot '}' (by decide) (Hex.not_mem_digits (by decide) 32 u) hc
  have hhyphen : '-' ∉ Hex.digits 32 u := Hex.not_mem_digits (by decide) 32 u
  have hurn : dropWord "urn:".toList 0 (uuidStr u).toList = (uuidStr u).toList :=
    dropWord_eq_self (x := ':') (by decide) hcolon
  have huuid : dropWord "uuid:".toList 0 (uuidStr u).toList = (uuidStr u).toList :=
    dropWord_eq_self (x := ':') (by decide) hcolon
  unfold pyUuid
  simp only [hurn, huuid, stripOf_eq_self hbrace]
  rw [uuidStr, String.toList_ofList, filter_hyphenate _ hhyphen,
    if_neg (by rw [Hex.length_digits]; decide), intBase16_digits h]

/-! ## 2. `src/auth/jwt.py` -/

/-- The exceptions of PyJWT as `decode_access_token` tells them apart. -/
inductive JwtError where
  | expired
  | invalid (text : String)

/-- PyJWT with the keys of the settings; `decode` checks the signature, the expiry and that the
three claims are there.  The clock counts microseconds. -/
structure Jwt (Token : Type) where
  encode : Dict → Except PyExc Token
  decode : Nat → Token → Except JwtError Dict

def microseconds : Nat := 1000000

/-- `create_access_token`; PyJWT writes a `datetime` as whole seconds. -/
def createAccessToken (jwt : Jwt Token) (now : Nat) (data : Dict) (expiresDelta : Nat) :
    Except PyExc Token :=
  let toEncode := data
  let expire := now + expiresDelta
  jwt.encode (dictSet "exp" (.int (expire / microseconds : Nat)) toEncode)

/-- `decode_access_token`. -/
def decodeAccessToken (jwt : Jwt Token) (now : Nat) (token : Token) : Except PyExc Dict :=
  match jwt.decode now token with
  | .ok payload => .ok payload
  | .error .expired => .error ⟨.valueError, "Token expired"⟩
  | .error (.invalid text) => .error ⟨.valueError, "Invalid token: " ++ text⟩

/-! ## 3. `create_tokens` and `login` -/

/-- `settings`. -/
structure AuthSettings where
  jwtAccessTokenExpireMinutes : Nat
  jwtRefreshTokenExpireDays : Nat
  environment : String

/-- `RefreshToken`. -/
structure RefreshTokenRow where
  userId : UUID
  tenantId : UUID
  tokenHash : String
  expiresAt : Nat

structure TokenResponse (Token : Type) where
  accessToken : Token
  tokenType : String
  expiresIn : Nat

/-- `response.set_cookie`. -/
structure Cookie where
  key : String
  value : String
  httponly : Bool
  secure : Bool
  samesite : String
  maxAge : Nat

/-- What the environment decides in `create_tokens`: the query for the roles, the flush, the UUID
and the second reading of the clock. -/
structure TokenEnv where
  roles : Except PyExc Unit
  rawRefresh : UUID
  later : Nat
  flush : Except PyExc Unit

/-- The dictionary that `create_tokens` encodes. -/
def tokenData (user : UserRecord) (roles : List String) : Dict :=
  [("sub", .str (uuidStr user.id)), ("tenant_id", .str (uuidStr user.tenantId)),
    ("roles", .arr (roles.map .str))]

/-- `timedelta(minutes=...)`. -/
def AuthSettings.accessTime (settings : AuthSettings) : Nat :=
  settings.jwtAccessTokenExpireMinutes * 60 * microseconds

/-- `create_tokens`: the response, the raw refresh token and the row that is flushed. -/
def createTokens (jwt : Jwt Token) (sha256 : String → String) (settings : AuthSettings)
    (env : TokenEnv) (now : Nat) (user : UserRecord) (db : AccountTables) :
    Except PyExc (TokenResponse Token × String × RefreshTokenRow) :=
  match env.roles with
  | .error exc => .error exc
  | .ok () =>
      let roles := getUserRoles user.id user.tenantId db
      match createAccessToken jwt now (tokenData user roles) settings.accessTime with
      | .error exc => .error exc
      | .ok accessToken =>
          let rawRefresh := uuidStr env.rawRefresh
          let row : RefreshTokenRow := {
            userId := user.id
            tenantId := user.tenantId
            tokenHash := sha256 rawRefresh
            expiresAt := env.later + settings.jwtRefreshTokenExpireDays * 86400 * microseconds }
          match env.flush with
          | .error exc => .error exc
          | .ok () => .ok (⟨accessToken, "bearer", settings.jwtAccessTokenExpireMinutes * 60⟩,
              rawRefresh, row)

/-- `REFRESH_COOKIE`. -/
def refreshCookie (settings : AuthSettings) (rawRefresh : String) : Cookie where
  key := "refresh_token"
  value := rawRefresh
  httponly := true
  secure := decide (settings.environment ≠ "development")
  samesite := "strict"
  maxAge := settings.jwtRefreshTokenExpireDays * 86400

/-- What `POST /auth/login` is made of. -/
structure AuthSystem (Token : Type) where
  passwords : Passwords
  jwt : Jwt Token
  -- `hashlib.sha256(text.encode()).hexdigest()`
  sha256 : String → String
  settings : AuthSettings

/-- `login` of `src/auth/router.py`: the answer, and the refresh token that is committed. -/
def loginRoute (sys : AuthSystem Token) (env : LoginEnv) (tokenEnv : TokenEnv) (now : Nat)
    (body : LoginRequest) (db : AccountTables) :
    Except HttpError (TokenResponse Token × Cookie) × Option RefreshTokenRow :=
  match authenticateUser sys.passwords env body db with
  | .error _ => (.error internalServerError, none)
  | .ok none => (.error ⟨401, "Invalid credentials"⟩, none)
  | .ok (some user) =>
      match createTokens sys.jwt sys.sha256 sys.settings tokenEnv now user db with
      | .error _ => (.error internalServerError, none)
      | .ok (response, rawRefresh, row) =>
          match env.commit with
          | .raised _ carriedOut =>
              (.error internalServerError, if carriedOut then some row else none)
          | .ok => (.ok (response, refreshCookie sys.settings rawRefresh), some row)

/-! ## 4. The credentials of a request -/

/-- `payload.get("roles", [])` as the roles of a `CurrentUser`. -/
def rolesOf (payload : Dict) : Except PyExc (List String) :=
  match payload.lookup "roles" with
  | none => .ok []
  | some (.arr items) =>
      items.mapM fun item =>
        match item with
        | .str role => .ok role
        | _ => .error ⟨.library, "Input should be a valid string"⟩
  | some _ => .error ⟨.library, "Input should be a valid list"⟩

/-- The bearer token of a request as `get_current_user` reads it. -/
def credentialsOf (jwt : Jwt Token) (now : Nat) : Option Token → Credentials
  | none => none
  | some token => some do
      let payload ← decodeAccessToken jwt now token
      let userId ← pyUuid (← payload.item "sub")
      let tenantId ← pyUuid (← payload.item "tenant_id")
      let roles ← rolesOf payload
      return ⟨userId, tenantId, roles⟩

/-! ## 5. The round trip -/

/-- The payload of an access token. -/
def tokenPayload (claims : Claims) (exp : Nat) : Dict :=
  [("sub", .str (uuidStr claims.userId)), ("tenant_id", .str (uuidStr claims.tenantId)),
    ("roles", .arr (claims.roles.map .str)), ("exp", .int exp)]

/-- What is signed is given back until the second at which it expires. -/
def Jwt.Faithful (jwt : Jwt Token) : Prop :=
  ∀ claims exp token, jwt.encode (tokenPayload claims exp) = .ok token →
    ∀ now, jwt.decode now token =
      if now < exp * microseconds then .ok (tokenPayload claims exp) else .error .expired

theorem rolesOf_tokenPayload (claims : Claims) (exp : Nat) :
    rolesOf (tokenPayload claims exp) = .ok claims.roles := by
  have hroles : (tokenPayload claims exp).lookup "roles" =
      some (.arr (claims.roles.map .str)) := rfl
  unfold rolesOf
  rw [hroles]
  simp only
  induction claims.roles with
  | nil => rfl
  | cons role roles ih =>
      rw [List.map_cons, List.mapM_cons, ih]
      rfl

/-- A token gives back what it was made for as long as it is valid. -/
theorem credentialsOf_token {jwt : Jwt Token} (hjwt : jwt.Faithful) {claims : Claims} {exp : Nat}
    {token : Token} (huser : claims.userId < uuidBound) (htenant : claims.tenantId < uuidBound)
    (htoken : jwt.encode (tokenPayload claims exp) = .ok token) (now : Nat) :
    credentialsOf jwt now (some token) =
      some (if now < exp * microseconds then .ok claims
        else .error ⟨.valueError, "Token expired"⟩) := by
  have hsub : (tokenPayload claims exp).item "sub" = .ok (.str (uuidStr claims.userId)) :=
    rfl
  have htid : (tokenPayload claims exp).item "tenant_id" =
      .ok (.str (uuidStr claims.tenantId)) := rfl
  have hdecode := hjwt claims exp token htoken now
  by_cases hvalid : now < exp * microseconds
  · rw [if_pos hvalid] at hdecode
    simp only [credentialsOf, decodeAccessToken, hdecode, if_pos hvalid, bind, Except.bind, hsub,
      htid, pyUuid_uuidStr huser, pyUuid_uuidStr htenant, rolesOf_tokenPayload]
    rfl
  · rw [if_neg hvalid] at hdecode
    simp only [credentialsOf, decodeAccessToken, hdecode, if_neg hvalid]
    rfl

/-! ## 6. Who is logged in -/

/-- Who is authenticated is an active user, and the password was verified. -/
theorem authenticateUser_some {passwords : Passwords} {env : LoginEnv} {body : LoginRequest}
    {db : AccountTables} {user : UserRecord} (horder : ∀ rows, (env.order rows).Perm rows)
    (h : authenticateUser passwords env body db = .ok (some user)) :
    user ∈ db.users ∧ user.isActive = true ∧ user.email = body.email ∧
      passwords.verify body.password user.hashedPassword = .ok true := by
  unfold authenticateUser at h
  split at h
  · cases h
  · simp only at h
    split at h
    · cases h
    · cases h
    · rename_i hverify
      rw [Except.ok.injEq] at h
      obtain ⟨tenant, -, hfirst⟩ := Option.bind_eq_some_iff.mp h
      have hmem := (horder _).mem_iff.mp (List.mem_of_head? hfirst)
      rw [List.mem_filter, decide_eq_true_eq] at hmem
      refine ⟨hmem.1, hmem.2.2.2, hmem.2.1, ?_⟩
      rw [h] at hverify
      exact hverify

/-- The claims of the token that a login gives. -/
def claimsOf (user : UserRecord) (db : AccountTables) : Claims :=
  ⟨user.id, user.tenantId, getUserRoles user.id user.tenantId db⟩

def AuthSettings.expiry (settings : AuthSettings) (now : Nat) : Nat :=
  (now + settings.accessTime) / microseconds

theorem createAccessToken_tokenData (jwt : Jwt Token) (settings : AuthSettings) (now : Nat)
    (user : UserRecord) (db : AccountTables) :
    createAccessToken jwt now (tokenData user (getUserRoles user.id user.tenantId db))
        settings.accessTime =
      jwt.encode (tokenPayload (claimsOf user db) (settings.expiry now)) := by
  unfold createAccessToken tokenData tokenPayload
  simp [dictSet, claimsOf, AuthSettings.expiry]

theorem createTokens_ok {jwt : Jwt Token} {sha256 : String → String} {settings : AuthSettings}
    {env : TokenEnv} {now : Nat} {user : UserRecord} {db : AccountTables}
    {response : TokenResponse Token} {rawRefresh : String} {row : RefreshTokenRow}
    (h : createTokens jwt sha256 settings env now user db = .ok (response, rawRefresh, row)) :
    jwt.encode (tokenPayload (claimsOf user db) (settings.expiry now)) = .ok response.accessToken ∧
      row.userId = user.id ∧ row.tokenHash = sha256 rawRefresh := by
  unfold createTokens at h
  split at h
  · cases h
  · simp only [createAccessToken_tokenData] at h
    split at h
    · cases h
    · rename_i token htoken
      split at h
      · cases h
      · simp only [Except.ok.injEq, Prod.mk.injEq] at h
        obtain ⟨rfl, rfl, rfl⟩ := h
        exact ⟨htoken, rfl, rfl⟩

/-- What a successful login gives out. -/
theorem loginRoute_ok {sys : AuthSystem Token} {env : LoginEnv} {tokenEnv : TokenEnv} {now : Nat}
    {body : LoginRequest} {db : AccountTables} {response : TokenResponse Token} {cookie : Cookie}
    (h : (loginRoute sys env tokenEnv now body db).1 = .ok (response, cookie)) :
    ∃ user, authenticateUser sys.passwords env body db = .ok (some user) ∧
      login sys.passwords env body db = .ok (claimsOf user db) ∧
      sys.jwt.encode (tokenPayload (claimsOf user db) (sys.settings.expiry now)) =
        .ok response.accessToken ∧
      ∃ row, (loginRoute sys env tokenEnv now body db).2 = some row ∧
        row.userId = user.id ∧ row.tokenHash = sys.sha256 cookie.value := by
  unfold loginRoute login at *
  cases huser : authenticateUser sys.passwords env body db with
  | error exc => simp only [huser] at h; cases h
  | ok found =>
      cases found with
      | none => simp only [huser] at h; cases h
      | some user =>
          simp only [huser] at h ⊢
          cases htokens : createTokens sys.jwt sys.sha256 sys.settings tokenEnv now user db with
          | error exc => simp only [htokens] at h; cases h
          | ok tokens =>
              obtain ⟨response', rawRefresh, row⟩ := tokens
              obtain ⟨htoken, hrow, hhash⟩ := createTokens_ok htokens
              cases hcommit : env.commit with
              | raised exc carriedOut => simp only [htokens, hcommit] at h; cases h
              | ok =>
                  simp only [htokens, hcommit] at h ⊢
                  cases h
                  exact ⟨user, rfl, rfl, htoken, row, rfl, hrow, hhash⟩

end ConstructorPlatform
