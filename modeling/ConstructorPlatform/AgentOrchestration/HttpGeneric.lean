import ConstructorPlatform.AgentOrchestration.IpAddress
import ConstructorPlatform.Value

/-!
# HttpGeneric — `src/tools/http_generic.py`

The tool asks whether the host of a URL is private before it hands the request to the client.  A
name is checked through one of its IPv4 addresses, the client may connect to any of its addresses;
an IPv6 literal is looked up as it is, also when it stands for an IPv4 address.
`HttpGenericTool.reachesNoInternal_iff` says for which URLs no internal address is reached all the
same.
-/

namespace ConstructorPlatform

open Reasoning

/-! ## 1. What the tool uses -/

structure HttpRequest where
  method : String
  url : String
  headers : Dict
  json : Option Dict

/-- What is used of Python's Unicode tables and of `httpx`. -/
structure HttpLibraries where
  -- `str.lower`
  lower : String → String
  -- `unicodedata.normalize('NFKC', text)`
  nfkc : List Char → List Char
  repr : String → String
  -- The client raises before it connects when it cannot make a request of the arguments.
  accepts : HttpRequest → Bool
  refusal : HttpRequest → PyExc

inductive LookupError where
  | gaierror
  -- The name cannot be encoded.
  | valueError
  deriving DecidableEq

/-- The addresses of every name; they do not change during a call.  `socket.gethostbyname` gives one
of the IPv4 addresses of the name. -/
structure Resolver where
  addresses : String → List IpAddress
  gethostbyname : String → Except LookupError String
  answers : ∀ name text, gethostbyname name = .ok text →
    ∃ ip, text = dottedQuad ip ∧ .v4 ip ∈ addresses name
  unanswered : ∀ name e, gethostbyname name = .error e → ∀ ip, .v4 ip ∉ addresses name

/-! ## 2. `urllib.parse` -/

def valueError (text : String) : PyExc := ⟨.valueError, text⟩

/-- `text.partition(sep)[0]` -/
def partBefore (sep : Char) (text : List Char) : List Char := text.takeWhile (· != sep)

/-- `text.partition(sep)[2]` -/
def partAfter (sep : Char) (text : List Char) : List Char := (text.dropWhile (· != sep)).tail

/-- `text.rpartition(sep)[2]` -/
def lastPart (sep : Char) (text : List Char) : List Char :=
  (text.reverse.takeWhile (· != sep)).reverse

/-- `scheme_chars` -/
def isSchemeChar (c : Char) : Bool := c.isAlphanum || c == '+' || c == '-' || c == '.'

/-- What follows the scheme, or all when there is none. -/
def afterScheme (url : List Char) : List Char :=
  let scheme := partBefore ':' url
  if ':' ∈ url ∧ scheme.head?.any Char.isAlpha ∧ scheme.all isSchemeChar then partAfter ':' url
  else url

/-- The URL as `urlsplit` reads it: without control characters in front, tabs and line ends. -/
def cleanUrl (url : String) : List Char :=
  (url.toList.dropWhile fun c => c.toNat ≤ 0x20).filter fun c => c ≠ '\t' ∧ c ≠ '\r' ∧ c ≠ '\n'

/-- The part between `//` and the path, the query or the fragment. -/
def netlocPart (url : String) : List Char :=
  match afterScheme (cleanUrl url) with
  | '/' :: '/' :: rest => rest.takeWhile fun c => c ≠ '/' ∧ c ≠ '?' ∧ c ≠ '#'
  | _ => []

/-- `_hostinfo[0]` -/
def hostinfo (netloc : List Char) : List Char :=
  let info := lastPart '@' netloc
  if '[' ∈ info then partBefore ']' (partAfter '[' info) else partBefore ':' info

def isHexDigit (c : Char) : Bool := (Hex.digitValue c).isSome

/-- `_check_bracketed_host` -/
def checkBracketedHost (lib : HttpLibraries) (host : List Char) : Except PyExc Unit :=
  match host with
  | 'v' :: rest =>
      match rest.takeWhile isHexDigit, rest.dropWhile isHexDigit with
      | _ :: _, '.' :: _ :: _ => .ok ()
      | _, _ => .error (valueError "IPvFuture address is invalid")
  | _ =>
      match ipAddress (String.ofList host) with
      | some (.v6 _) => .ok ()
      | some (.v4 _) => .error (valueError "An IPv4 address cannot be in brackets")
      | none => .error (valueError
          (lib.repr (String.ofList host) ++ " does not appear to be an IPv4 or IPv6 address"))

/-- `_check_bracketed_netloc`, as of Python 3.12.9 -/
def checkBracketedNetloc (lib : HttpLibraries) (netloc : List Char) : Except PyExc Unit :=
  let info := lastPart '@' netloc
  let port := partAfter ']' (partAfter '[' info)
  if '[' ∈ info ∧ (partBefore '[' info ≠ [] ∨ (port ≠ [] ∧ port.head? ≠ some ':')) then
    .error (valueError "Invalid IPv6 URL")
  else checkBracketedHost lib (hostinfo netloc)

/-- `_checknetloc`: no delimiter may appear through normalization. -/
def checkNetloc (lib : HttpLibraries) (netloc : List Char) : Except PyExc Unit :=
  let plain := netloc.filter fun c => c ≠ '@' ∧ c ≠ ':' ∧ c ≠ '#' ∧ c ≠ '?'
  if netloc.all (fun c => c.toNat < 128) ∨ lib.nfkc plain = plain then .ok ()
  else if ['/', '?', '#', '@', ':'].any (fun c => c ∈ lib.nfkc plain) then
    .error (valueError ("netloc '" ++ String.ofList netloc ++
      "' contains invalid characters under NFKC normalization"))
  else .ok ()

/-- `urlparse(url).netloc` -/
def urlNetloc (lib : HttpLibraries) (url : String) : Except PyExc (List Char) := do
  let netloc := netlocPart url
  if ('[' ∈ netloc ∧ ']' ∉ netloc) ∨ (']' ∈ netloc ∧ '[' ∉ netloc) then
    throw (valueError "Invalid IPv6 URL")
  if '[' ∈ netloc then checkBracketedNetloc lib netloc
  checkNetloc lib netloc
  return netloc

/-- `hostname` of a split URL: in lower case but for the zone. -/
def hostname (lib : HttpLibraries) (netloc : List Char) : Option String :=
  let host := hostinfo netloc
  if host = [] then none
  else
    some (lib.lower (String.ofList (partBefore '%' host)) ++
      String.ofList (host.dropWhile (· != '%')))

/-- `urlparse(url).hostname` -/
def urlHostname (lib : HttpLibraries) (url : String) : Except PyExc (Option String) :=
  (urlNetloc lib url).map (hostname lib)

/-! ## 3. The tool -/

/-- `_PRIVATE_NETWORKS` -/
def privateNetworks : List IpNetwork :=
  [.v4 ⟨ofOctets 10 0 0 0, 8, by decide, by decide⟩,
    .v4 ⟨ofOctets 172 16 0 0, 12, by decide, by decide⟩,
    .v4 ⟨ofOctets 192 168 0 0, 16, by decide, by decide⟩,
    .v4 ⟨ofOctets 127 0 0 0, 8, by decide, by decide⟩,
    .v4 ⟨ofOctets 169 254 0 0, 16, by decide, by decide⟩,
    .v6 ⟨1#128, 128, by decide, by decide⟩,
    .v6 ⟨0xfc00#128 <<< 112, 7, by decide, by decide⟩]

def isListed (ip : IpAddress) : Bool := privateNetworks.any fun net => net.contains ip

/-- `_is_private` -/
def isPrivate (resolver : Resolver) (host : String) : Bool :=
  match ipAddress host with
  | some ip => isListed ip
  | none =>
      match resolver.gethostbyname host with
      | .ok resolved =>
          match ipAddress resolved with
          | some ip => isListed ip
          | none => false
      | .error _ => false

/-- The inputs that `input_schema` describes. -/
structure HttpInputs where
  url : String
  method : String
  headers : Option Dict
  body : Option Dict

def HttpInputs.request (inputs : HttpInputs) : HttpRequest where
  method := inputs.method
  url := inputs.url
  headers := inputs.headers.getD []
  json := inputs.body

/-- `HttpGenericTool.execute` up to the request it sends. -/
def HttpGenericTool.execute (lib : HttpLibraries) (resolver : Resolver) (inputs : HttpInputs) :
    Except PyExc HttpRequest := do
  let host := (← urlHostname lib inputs.url).getD ""
  if isPrivate resolver host then
    throw (valueError ("Access to private/internal networks is not allowed: " ++ host))
  if lib.accepts inputs.request then return inputs.request
  throw (lib.refusal inputs.request)

/-! ## 4. What the client may reach -/

/-- `ipv4_mapped`: the address that `::ffff:a.b.c.d` stands for. -/
def ipv4Mapped (ip : BitVec 128) : Option (BitVec 32) :=
  if ip.toNat / 2 ^ 32 = 0xffff then some (BitVec.ofNat 32 ip.toNat) else none

/-- Lies in a listed network, itself or as the IPv4 address it stands for. -/
def isInternal : IpAddress → Bool
  | .v4 ip => isListed (.v4 ip)
  | .v6 ip => ((ipv4Mapped ip).map fun ip => isListed (.v4 ip)).getD (isListed (.v6 ip))

/-- The addresses of a host: a literal names itself. -/
def Resolver.hostAddresses (resolver : Resolver) (host : String) : List IpAddress :=
  match ipAddress host with
  | some ip => [ip]
  | none => resolver.addresses host

/-- The addresses the client may connect to for a URL. -/
def connectable (lib : HttpLibraries) (resolver : Resolver) (url : String) : List IpAddress :=
  match urlHostname lib url with
  | .ok (some host) => resolver.hostAddresses host
  | _ => []

/-- No request goes to a URL for which the client may connect to an internal address. -/
def ReachesNoInternal (lib : HttpLibraries) (resolver : Resolver) (inputs : HttpInputs) : Prop :=
  ∀ request, HttpGenericTool.execute lib resolver inputs = .ok request →
    ∀ ip ∈ connectable lib resolver request.url, isInternal ip = false

/-- The host means the same to the check and to the client: it is not an IPv6 literal for an IPv4
address of a listed network, and a name with an internal address has its answer in one. -/
structure SeenThrough (resolver : Resolver) (host : String) : Prop where
  literal : ∀ ip mapped, ipAddress host = some (.v6 ip) → ipv4Mapped ip = some mapped →
    isListed (.v4 mapped) = false
  name : ipAddress host = none → (∃ ip ∈ resolver.addresses host, isInternal ip = true) →
    ∃ ip, resolver.gethostbyname host = .ok (dottedQuad ip) ∧ isListed (.v4 ip) = true

/-! ## 5. The check -/

variable {lib : HttpLibraries} {resolver : Resolver} {host : String}

-- `::ffff:0:0/96` lies in neither of the listed IPv6 networks.
theorem isListed_of_mapped {ip : BitVec 128} {mapped : BitVec 32}
    (h : ipv4Mapped ip = some mapped) : isListed (.v6 ip) = false := by
  have hquot : ip.toNat / 2 ^ 32 = 0xffff := by
    by_contra hne
    rw [ipv4Mapped, if_neg hne] at h
    cases h
  rw [Bool.eq_false_iff]
  intro hlisted
  obtain ⟨net, hnet, hcontains⟩ := List.any_eq_true.mp hlisted
  simp only [privateNetworks, List.mem_cons, List.not_mem_nil, or_false] at hnet
  rcases hnet with rfl | rfl | rfl | rfl | rfl | rfl | rfl
  case inr.inr.inr.inr.inr.inl =>
    have hrange := (Block.contains_iff _ _).mp hcontains
    simp only [Block.size, BitVec.toNat_ofNat] at hrange
    omega
  case inr.inr.inr.inr.inr.inr =>
    have hrange := (Block.contains_iff _ _).mp hcontains
    simp only [Block.size, BitVec.toNat_shiftLeft, BitVec.toNat_ofNat, Nat.reducePow] at hrange
    omega
  -- The versions differ.
  all_goals cases hcontains

theorem isPrivate_literal {ip : IpAddress} (h : ipAddress host = some ip) :
    isPrivate resolver host = isListed ip := by
  rw [isPrivate, h]

theorem isPrivate_answered {ip : BitVec 32} (h : ipAddress host = none)
    (hanswer : resolver.gethostbyname host = .ok (dottedQuad ip)) :
    isPrivate resolver host = isListed (.v4 ip) := by
  simp only [isPrivate, h, hanswer, ipAddress_dottedQuad]

theorem isPrivate_unanswered {e : LookupError} (h : ipAddress host = none)
    (hanswer : resolver.gethostbyname host = .error e) : isPrivate resolver host = false := by
  simp only [isPrivate, h, hanswer]

/-- A name is private when the answer it gets lies in a listed network. -/
theorem isPrivate_name_iff (h : ipAddress host = none) :
    isPrivate resolver host = true ↔
      ∃ ip, resolver.gethostbyname host = .ok (dottedQuad ip) ∧ isListed (.v4 ip) = true := by
  constructor
  · intro hprivate
    cases hanswer : resolver.gethostbyname host with
    | error e =>
        rw [isPrivate_unanswered h hanswer] at hprivate
        cases hprivate
    | ok text =>
        obtain ⟨ip, rfl, -⟩ := resolver.answers host text hanswer
        exact ⟨ip, rfl, isPrivate_answered h hanswer ▸ hprivate⟩
  · rintro ⟨ip, hanswer, hlisted⟩
    rw [isPrivate_answered h hanswer, hlisted]

/-- A literal that passes the check is external exactly when it stands for no IPv4 address of a
listed network. -/
theorem literal_iff {ip : IpAddress} :
    (isListed ip = false → isInternal ip = false) ↔
      ∀ ip' mapped, ip = .v6 ip' → ipv4Mapped ip' = some mapped →
        isListed (.v4 mapped) = false := by
  cases ip with
  | v4 ip => exact iff_of_true id (fun _ _ h => by cases h)
  | v6 ip =>
      cases hmapped : ipv4Mapped ip with
      | none =>
          refine iff_of_true (fun h => ?_) fun ip' mapped h hm => ?_
          · simpa [isInternal, hmapped] using h
          · cases h
            rw [hmapped] at hm
            cases hm
      | some mapped =>
          have hinternal : isInternal (.v6 ip) = isListed (.v4 mapped) := by
            simp [isInternal, hmapped]
          rw [isListed_of_mapped hmapped, hinternal]
          refine ⟨fun h ip' mapped' hip hm => ?_, fun h _ => h ip mapped rfl hmapped⟩
          cases hip
          rw [hmapped] at hm
          cases hm
          exact h rfl

/-- What passes the check has no internal address exactly when the host is seen through. -/
theorem isPrivate_exact_iff (resolver : Resolver) (host : String) :
    (isPrivate resolver host = false → ∀ ip ∈ resolver.hostAddresses host, isInternal ip = false) ↔
      SeenThrough resolver host := by
  cases hliteral : ipAddress host with
  | some ip =>
      have haddresses : resolver.hostAddresses host = [ip] := by
        rw [Resolver.hostAddresses, hliteral]
      rw [isPrivate_literal hliteral, haddresses]
      simp only [List.mem_singleton, forall_eq]
      rw [literal_iff]
      constructor
      · intro h
        refine ⟨fun ip' mapped hip => h ip' mapped ?_, fun hname => ?_⟩
        · rw [hliteral] at hip
          exact Option.some.inj hip
        · rw [hliteral] at hname
          cases hname
      · intro h ip' mapped hip
        exact h.literal ip' mapped (hip ▸ hliteral)
  | none =>
      have haddresses : resolver.hostAddresses host = resolver.addresses host := by
        rw [Resolver.hostAddresses, hliteral]
      rw [haddresses]
      constructor
      · intro h
        refine ⟨fun ip mapped hip => ?_, fun _ hinternal => ?_⟩
        · rw [hliteral] at hip
          cases hip
        · rw [← isPrivate_name_iff hliteral]
          by_contra hpublic
          obtain ⟨ip, hip, hinternal⟩ := hinternal
          rw [h (Bool.eq_false_iff.mpr hpublic) ip hip] at hinternal
          cases hinternal
      · intro h hpublic ip hip
        rw [Bool.eq_false_iff]
        intro hinternal
        have hprivate := (isPrivate_name_iff hliteral).mpr (h.name hliteral ⟨ip, hip, hinternal⟩)
        rw [hpublic] at hprivate
        cases hprivate

/-- The calls that send a request. -/
theorem HttpGenericTool.execute_eq_ok_iff {inputs : HttpInputs} {request : HttpRequest} :
    HttpGenericTool.execute lib resolver inputs = .ok request ↔
      (∃ host, urlHostname lib inputs.url = .ok host ∧ isPrivate resolver (host.getD "") = false) ∧
        lib.accepts inputs.request = true ∧ inputs.request = request := by
  rw [HttpGenericTool.execute]
  cases hhost : urlHostname lib inputs.url with
  | error e =>
      refine iff_of_false (fun h => by cases h) ?_
      rintro ⟨⟨host, hok, -⟩, -⟩
      cases hok
  | ok host =>
      have hparsed : (∃ host', (Except.ok host : Except PyExc (Option String)) = .ok host' ∧
          isPrivate resolver (host'.getD "") = false) ↔ isPrivate resolver (host.getD "") = false :=
        ⟨fun ⟨_, heq, h⟩ => by cases heq; exact h, fun h => ⟨host, rfl, h⟩⟩
      rw [hparsed]
      change (if isPrivate resolver (host.getD "") = true then _ else _) = _ ↔ _
      cases hprivate : isPrivate resolver (host.getD "") with
      | true => exact iff_of_false (fun h => by cases h) fun h => by cases h.1
      | false =>
          change (if lib.accepts inputs.request = true then _ else _) = _ ↔ _
          cases haccepts : lib.accepts inputs.request with
          | false => exact iff_of_false (fun h => by cases h) fun h => by cases h.2.1
          | true => exact ⟨fun h => ⟨rfl, rfl, Except.ok.inj h⟩, fun h => congrArg Except.ok h.2.2⟩

theorem connectable_of_hostname {url : String} (h : urlHostname lib url = .ok (some host)) :
    connectable lib resolver url = resolver.hostAddresses host := by
  unfold connectable
  rw [h]

/-- The tool reaches no internal address exactly when the check sees through the host of every URL
it sends a request to. -/
theorem HttpGenericTool.reachesNoInternal_iff (lib : HttpLibraries) (resolver : Resolver)
    (inputs : HttpInputs) :
    ReachesNoInternal lib resolver inputs ↔
      ∀ host, urlHostname lib inputs.url = .ok (some host) → lib.accepts inputs.request = true →
        SeenThrough resolver host := by
  constructor
  · intro h host hhost haccepts
    rw [← isPrivate_exact_iff]
    intro hpublic ip hip
    have hsent := execute_eq_ok_iff.mpr ⟨⟨some host, hhost, hpublic⟩, haccepts, rfl⟩
    have hreach : connectable lib resolver inputs.request.url = resolver.hostAddresses host :=
      connectable_of_hostname hhost
    exact h inputs.request hsent ip (hreach ▸ hip)
  · intro h request hsent ip hip
    obtain ⟨⟨host, hhost, hpublic⟩, haccepts, rfl⟩ := execute_eq_ok_iff.mp hsent
    change ip ∈ connectable lib resolver inputs.url at hip
    cases host with
    | none =>
        unfold connectable at hip
        rw [hhost] at hip
        cases hip
    | some host =>
        rw [connectable_of_hostname hhost] at hip
        exact (isPrivate_exact_iff resolver host).mpr (h host hhost haccepts) hpublic ip hip

/-! ## 6. An IPv6 literal for the own host -/

/-- Text in ASCII and a client that accepts every request. -/
def asciiLibraries : HttpLibraries where
  lower text := String.ofList (text.toList.map Char.toLower)
  nfkc := id
  repr := quoted
  accepts _ := true
  refusal _ := valueError ""

/-- No name is known. -/
def noNames : Resolver where
  addresses _ := []
  gethostbyname _ := .error .gaierror
  answers _ _ h := by cases h
  unanswered _ _ _ _ := List.not_mem_nil

def mappedLoopback : HttpInputs where
  url := "http://[::ffff:127.0.0.1]/"
  method := "GET"
  headers := none
  body := none

theorem mappedLoopback_hostname :
    urlHostname asciiLibraries mappedLoopback.url = .ok (some "::ffff:127.0.0.1") := by
  decide +kernel

theorem mappedLoopback_address :
    ipAddress "::ffff:127.0.0.1" = some (.v6 0xffff7f000001#128) := by
  decide +kernel

/-- The literal passes the check; the client connects to 127.0.0.1. -/
theorem mappedLoopback_reached : ¬ ReachesNoInternal asciiLibraries noNames mappedLoopback := by
  intro h
  have hpublic : isPrivate noNames "::ffff:127.0.0.1" = false := by
    rw [isPrivate_literal mappedLoopback_address]
    decide
  have hsent : HttpGenericTool.execute asciiLibraries noNames mappedLoopback =
      .ok mappedLoopback.request :=
    HttpGenericTool.execute_eq_ok_iff.mpr ⟨⟨_, mappedLoopback_hostname, hpublic⟩, rfl, rfl⟩
  have hreach : connectable asciiLibraries noNames mappedLoopback.request.url =
      [.v6 0xffff7f000001#128] := by
    refine (connectable_of_hostname mappedLoopback_hostname).trans ?_
    rw [Resolver.hostAddresses, mappedLoopback_address]
  have hexternal := h mappedLoopback.request hsent (.v6 0xffff7f000001#128)
    (hreach ▸ List.mem_cons_self)
  revert hexternal
  decide

end ConstructorPlatform
