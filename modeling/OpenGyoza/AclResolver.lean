-- How a token is turned into an authorizer. Its identity, roles and policies
-- are looked up in the local store, in caches, or in the ACL datacenter. The
-- caches also remember what does not exist, and the down policy says what
-- counts when the datacenter does not answer.
import OpenGyoza.Fallible
import OpenGyoza.KeyMaps
import OpenGyoza.TokenRequests

namespace OpenGyoza

open Memdb Fallible

/-! ## Errors -/

inductive ResolveError where
  | plain (text : String)
  | remote (text : String)
  | token (text secret : String)
deriving DecidableEq

def ResolveError.text : ResolveError → String
  | plain text => text
  | remote text => "Error communicating with the ACL Datacenter: " ++ text
  | token text _ => text

def isACLRemoteError : ResolveError → Bool
  | .remote _ => true
  | _ => false

/-- Errors are told apart by a part of their text. -/
def mentions (part text : String) : Bool := decide (part.toList <:+: text.toList)

def isErrNotFound (text : String) : Bool := mentions "ACL not found" text

def isErrDisabled (text : String) : Bool := mentions "ACL support disabled" text

def isErrPermissionDenied (text : String) : Bool := mentions "Permission denied" text

def errNotFound : ResolveError := .plain "ACL not found"

/-! ## Root authorizers -/

def rootAuthorizer (id : String) : Option Authorizer :=
  if id = "allow" then some allowAll
  else if id = "deny" then some denyAll
  else if id = "manage" then some manageAll
  else none

/-! ## Configuration -/

inductive DefaultPolicy where
  | allow
  | deny
deriving DecidableEq

def DefaultPolicy.authorizer : DefaultPolicy → Authorizer
  | allow => allowAll
  | deny => denyAll

inductive DownPolicy where
  | allow
  | deny
  | asyncCache
  | extendCache
deriving DecidableEq

/-- Whether what is cached stays valid while the datacenter does not answer. -/
def DownPolicy.extends : DownPolicy → Bool
  | asyncCache => true
  | extendCache => true
  | _ => false

/-- The authorizer for the time in which the datacenter does not answer. -/
def DownPolicy.authorizer : DownPolicy → Option Authorizer
  | allow => some allowAll
  | deny => some denyAll
  | _ => none

structure ResolverConfig where
  datacenter : String
  aclsEnabled : Bool := true
  useLegacyACLs : Bool := false
  aclDefaultPolicy : DefaultPolicy := .allow
  aclDownPolicy : DownPolicy := .extendCache
  aclTokenTTL : Int := 30000000000
  aclPolicyTTL : Int := 30000000000
  aclRoleTTL : Int := 30000000000
  aclDisabledTTL : Int := 120000000000
  autoDisable : Bool := false

/-! ## The world outside -/

/-- A role as the resolver holds it, with the addresses of its service identities. -/
structure HeldRole where
  id : String
  policies : List ACLLink := []
  identities : List Nat := []
deriving DecidableEq

/-- The answer to a legacy request. -/
structure LegacyReply where
  parent : String
  policy : Option (Policy ServicePolicy)
  ttl : Int

structure Moment where
  now : Time
  resolveIdentityFromToken : String → Option (Except String ACLToken) := fun _ => none
  resolvePolicyFromID : String → Option (Except String ACLPolicy) := fun _ => none
  resolveRoleFromID : String → Option (Except String HeldRole) := fun _ => none
  getPolicy : String → Except String LegacyReply
  tokenRead : String → Except String (Option ACLToken)
  policyResolve : String → List String → Except String (List ACLPolicy)
  roleResolve : String → List String → Except String (List ACLRole)
  drops : Drops := fun _ => false
  sort : SliceSort
  walk : Walks String
  compiling : Circumstances

/-! ## The resolver -/

/-- What is cached under a key, or that nothing is there. -/
structure Cached (α : Type) where
  value : Option α
  cacheTime : Time

structure CachedAuthorizer where
  authorizer : Option Authorizer
  cacheTime : Time
  ttl : Int := 0

structure Resolver where
  identities : String → Option (Cached ACLToken) := fun _ => none
  policies : String → Option (Cached ACLPolicy) := fun _ => none
  roles : String → Option (Cached HeldRole) := fun _ => none
  authorizers : String → Option CachedAuthorizer := fun _ => none
  parsedPolicies : String → Option StoredPolicy := fun _ => none
  rules : Heap
  heap : IdentityHeap
  disabled : Time := zeroTime
  moment : Nat := 0
  failures : List String := []

abbrev Resolve (α : Type) : Type := Fallible ResolveError Resolver α

def tick (env : Nat → Moment) : Resolve Moment := fun s =>
  (.ok (env s.moment), { s with moment := s.moment + 1 })

def cachePut {α : Type} (drops : Drops) (key : String) (a : α) (cache : String → Option α) :
    String → Option α :=
  keep drops (Function.update cache key (some a))

/-- A request to the ACL datacenter that has been answered. -/
def noteReply {α : Type} : Except String α → Resolve Unit
  | .ok _ => return
  | .error text => update fun s => { s with failures := text :: s.failures }

def putIdentity (m : Moment) (token : String) (identity : Option ACLToken) : Resolve Unit :=
  update fun s =>
    { s with identities := cachePut m.drops token ⟨identity, m.now⟩ s.identities }

def putAuthorizerWithTTL (m : Moment) (token : String) (authorizer : Option Authorizer)
    (ttl : Int) : Resolve Unit :=
  update fun s =>
    { s with authorizers := cachePut m.drops token ⟨authorizer, m.now, ttl⟩ s.authorizers }

section Model

variable [External] [Hcl] [Blake2b] (cfg : ResolverConfig) (env : Nat → Moment)

/-! ## Identities -/

def fetchAndCacheIdentityFromToken (token : String) (cached : Option (Cached ACLToken)) :
    Resolve (Option ACLToken) := do
  let m ← tick env
  noteReply (m.tokenRead token)
  match m.tokenRead token with
  | .ok none =>
    putIdentity m token none
    fail errNotFound
  | .ok (some identity) =>
    putIdentity m token (some identity)
    return some identity
  | .error text =>
    if isErrNotFound text then
      putIdentity m token none
      fail errNotFound
    else
      match cached, cfg.aclDownPolicy.extends with
      | some entry, true =>
        putIdentity m token entry.value
        return entry.value
      | _, _ =>
        putIdentity m token none
        fail (.plain text)

/-- Waits for the answer of the datacenter, unless something is cached and the down policy is
`async-cache`. -/
def waitForResult {α : Type} (cached : Option α) : Bool :=
  cached.isNone || cfg.aclDownPolicy != .asyncCache

def resolveIdentityFromToken (token : String) : Resolve (Option ACLToken) := do
  let m ← tick env
  match m.resolveIdentityFromToken token with
  | some (.ok identity) => return some identity
  | some (.error text) => fail (.plain text)
  | none =>
    let entry ← read (·.identities token)
    if entry.any (m.now - ·.cacheTime ≤ cfg.aclTokenTTL) then return entry.bind (·.value)
    else
      let result ← attempt (fetchAndCacheIdentityFromToken cfg env token entry)
      if waitForResult cfg entry then
        match result with
        | .ok identity => return identity
        | .error e =>
          if isErrNotFound e.text then fail e else fail (.remote e.text)
      else return entry.bind (·.value)

/-- Tells from an error whether the token is gone or has changed. -/
def maybeHandleIdentityErrorDuringFetch (m : Moment) (identity : ACLToken) (text : String) :
    Resolve Unit :=
  if isErrNotFound text then do
    putIdentity m identity.secretID none
    fail (.token "ACL not found" identity.secretID)
  else if isErrPermissionDenied text then do
    update fun s =>
      { s with identities := Function.update s.identities identity.secretID none }
    fail (.token "Permission denied" identity.secretID)
  else return

/-! ## Policies and roles -/

/-- What can be linked by its ID, policies or roles: how it is looked up and cached, and how the
datacenter is asked for it. -/
structure Linkable (α : Type) where
  id : α → String
  ttl : Int
  lookup : Moment → String → Option (Except String α)
  cache : Resolver → String → Option (Cached α)
  setCache : (String → Option (Cached α)) → Resolver → Resolver
  request : Moment → String → List String → Resolve (Except String (List α))

namespace Linkable

variable {α : Type} (k : Linkable α)

def put (m : Moment) (id : String) (a : Option α) : Resolve Unit :=
  update fun s => k.setCache (cachePut m.drops id ⟨a, m.now⟩ (k.cache s)) s

/-- Caches what an answer holds under each ID that was asked for. -/
def putAnswers (m : Moment) (answer : String → Option α) : List String → Resolve Unit
  | [] => return
  | id :: ids => do
    k.put m id (answer id)
    putAnswers m answer ids

/-- The value under an ID in the map from the IDs of a list to its elements. -/
def find (l : List α) (id : String) : Option α := l.reverse.find? fun a => k.id a == id

/-- The values of that map in the order of a walk. -/
def found (walk : Walks String) (l : List α) : List α :=
  (walk.order 0 (l.map k.id).dedup).filterMap (k.find l)

/-- What is cached stands for what the datacenter does not say, if all of it is cached and the
down policy extends the cache. -/
def fromCache (m : Moment) (text : String) (ids : List String)
    (cached : String → Option (Cached α)) : Resolve (List α) := do
  let entry := fun id => if cfg.aclDownPolicy.extends then cached id else none
  k.putAnswers m (fun id => (entry id).bind (·.value)) ids
  if ids.all fun id => (entry id).isSome then
    return (m.walk.order 0 ids.dedup).filterMap fun id => (entry id).bind (·.value)
  else fail (.remote text)

def fetchAndCache (identity : ACLToken) (ids : List String)
    (cached : String → Option (Cached α)) : Resolve (List α) := do
  let m ← tick env
  match ← k.request m identity.secretID ids with
  | .ok answer =>
    k.putAnswers m (k.find answer) ids
    return k.found m.walk answer
  | .error text =>
    maybeHandleIdentityErrorDuringFetch m identity text
    k.fromCache cfg m text ids cached

/-- What a pass over the IDs has found so far. -/
structure Collected (α : Type) where
  values : List α := []
  missing : List String := []
  expired : List (String × Cached α × α) := []

/-- Looks up one ID after the other, in the local store and in the cache. -/
def lookUp : List String → Collected α → Resolve (Collected α)
  | [], acc => return acc
  | id :: ids, acc => do
    let m ← tick env
    match k.lookup m id with
    | some (.ok a) => lookUp ids { acc with values := acc.values ++ [a] }
    | some (.error text) =>
      if isErrNotFound text then lookUp ids acc else fail (.plain text)
    | none =>
      match ← read (k.cache · id) with
      | none => lookUp ids { acc with missing := acc.missing ++ [id] }
      | some entry =>
        match entry.value with
        | none => lookUp ids acc
        | some a =>
          if m.now - entry.cacheTime ≥ k.ttl then
            lookUp ids { acc with expired := acc.expired ++ [(id, entry, a)] }
          else lookUp ids { acc with values := acc.values ++ [a] }

/-- Asks the datacenter for what is missing or expired. -/
def fetchRest (identity : ACLToken) (acc : Collected α) : Resolve (List α) := do
  let fetchIDs := acc.missing ++ acc.expired.map fun e => k.id e.2.2
  let cached := fun id => (acc.expired.reverse.find? fun e => e.1 == id).map (·.2.1)
  let result ← attempt (k.fetchAndCache cfg env identity fetchIDs cached)
  if !acc.missing.isEmpty || cfg.aclDownPolicy != .asyncCache then
    match result with
    | .ok found => return acc.values ++ found
    | .error e => fail e
  else return acc.values ++ acc.expired.map (·.2.2)

def collect (identity : ACLToken) (ids : List String) : Resolve (List α) := do
  let acc ← k.lookUp env ids {}
  if acc.missing.isEmpty && acc.expired.isEmpty then return acc.values
  else k.fetchRest cfg env identity acc

end Linkable

def linkedPolicies : Linkable ACLPolicy where
  id := (·.id)
  ttl := cfg.aclPolicyTTL
  lookup m := m.resolvePolicyFromID
  cache s := s.policies
  setCache c s := { s with policies := c }
  request m secret ids := do
    noteReply (m.policyResolve secret ids)
    return m.policyResolve secret ids

/-- Takes over roles of an answer, with service identities of their own. -/
def holdRoles : List ACLRole → Resolve (List HeldRole)
  | [] => return []
  | role :: roles => do
    let heap ← read (·.heap)
    let (addresses, heap) := allocate role.serviceIdentities heap
    update fun s => { s with heap := heap }
    let rest ← holdRoles roles
    return { id := role.id, policies := role.policies, identities := addresses } :: rest

def linkedRoles : Linkable HeldRole where
  id := (·.id)
  ttl := cfg.aclRoleTTL
  lookup m := m.resolveRoleFromID
  cache s := s.roles
  setCache c s := { s with roles := c }
  request m secret ids := do
    noteReply (m.roleResolve secret ids)
    match m.roleResolve secret ids with
    | .ok answer =>
      let roles ← holdRoles answer
      return .ok roles
    | .error text => return .error text

def collectPoliciesForIdentity (identity : ACLToken) (policyIDs : List String) :
    Resolve (List ACLPolicy) :=
  (linkedPolicies cfg).collect cfg env identity policyIDs

def collectRolesForIdentity (identity : ACLToken) (roleIDs : List String) :
    Resolve (List HeldRole) :=
  (linkedRoles cfg).collect cfg env identity roleIDs

/-! ## Service identities -/

/-- The text of a rule with one setting. -/
def ruleText (resource segment access : String) : String :=
  "\n" ++ resource ++ " \"" ++ segment ++ "\" \x7b\n\tpolicy = \"" ++ access ++ "\"\n\x7d"

def serviceIdentityRules (serviceName : String) : String :=
  ruleText "service" serviceName "write" ++
    ruleText "service" (serviceName ++ "-sidecar-proxy") "write" ++
    ruleText "service_prefix" "" "read" ++ ruleText "node_prefix" "" "read"

/-- The hash of nothing, which stands after the text in the ID of a synthetic policy. -/
def fnvOffsetBasis : List Byte :=
  [0x6c, 0x62, 0x27, 0x2e, 0x07, 0xbb, 0x01, 0x42, 0x62, 0xb8, 0x21, 0x75, 0x62, 0x95, 0xc5, 0x8d]

def rulesID (rules : String) : String := Blake2b.hex (bytesOf rules ++ fnvOffsetBasis)

def ACLPolicy.hashed (p : ACLPolicy) : ACLPolicy := { p with hash := p.setHash }

def ACLServiceIdentity.syntheticPolicy (svcid : ACLServiceIdentity) : ACLPolicy :=
  let rules := serviceIdentityRules svcid.serviceName
  ACLPolicy.hashed {
    id := rulesID rules
    name := "synthetic-policy-" ++ rulesID rules
    description := "synthetic policy"
    rules := rules
    datacenters := svcid.datacenters }

def globalManagementRules : String :=
  "\nacl = \"write\"" ++ ruleText "agent_prefix" "" "write" ++ ruleText "event_prefix" "" "write" ++
    ruleText "key_prefix" "" "write" ++ "\nkeyring = \"write\"" ++
    ruleText "node_prefix" "" "write" ++ "\noperator = \"write\"" ++
    ruleText "query_prefix" "" "write" ++
    "\nservice_prefix \"\" \x7b\n\tpolicy = \"write\"\n\tintentions = \"write\"\n\x7d" ++
    ruleText "session_prefix" "" "write"

/-- The policy of a token of the legacy system. -/
def ACLToken.embeddedPolicy (t : ACLToken) : Option ACLPolicy :=
  if t.type = "management" then
    some (ACLPolicy.hashed {
      id := rulesID globalManagementRules
      name := "legacy-management"
      rules := globalManagementRules })
  else if t.rules ≠ "" ∨ t.type = "client" then
    some (ACLPolicy.hashed {
      id := rulesID t.rules
      name := "legacy-policy-" ++ rulesID t.rules
      rules := t.rules
      syntaxVersion := .legacy })
  else none

/-! ## The policies of a token -/

/-- A policy stays once for each time that its scope names the datacenter. -/
def filterPoliciesByScope (policies : List ACLPolicy) : List ACLPolicy :=
  policies.flatMap fun p =>
    if p.datacenters = [] then [p]
    else (p.datacenters.filter (· = cfg.datacenter)).map fun _ => p

/-- The service identities of a token and its roles, those of the token as copies. -/
def mergeIdentities (identity : ACLToken) (roles : List HeldRole) :
    Resolve (List ACLServiceIdentity) := do
  let m ← tick env
  let heap ← read (·.heap)
  let (own, heap) := allocate identity.serviceIdentities heap
  let (joined, heap) := dedupeServiceIdentities m.sort (own ++ roles.flatMap (·.identities)) heap
  update fun s => { s with heap := heap }
  return joined.map heap.cells

def resolvePoliciesForIdentity (identity : ACLToken) : Resolve (List ACLPolicy) := do
  let policyIDs := identity.policies.map (·.id)
  let roleIDs := identity.roles.map (·.id)
  if policyIDs.isEmpty && identity.serviceIdentities.isEmpty && roleIDs.isEmpty then
    return identity.embeddedPolicy.toList
  else
    let roles ← collectRolesForIdentity cfg env identity roleIDs
    let serviceIdentities ← mergeIdentities env identity roles
    let policies ← collectPoliciesForIdentity cfg env identity
      (dedupeStringSlice (policyIDs ++ roles.flatMap fun role => role.policies.map (·.id)))
    return filterPoliciesByScope cfg
      (policies ++ serviceIdentities.map ACLServiceIdentity.syntheticPolicy)

def tokenPolicyResolutionMaxRetries : Nat := 5

/-- Resolves the identity again when it turns out to have changed, `n` times at most. -/
def resolveWithRetries (token : String) :
    Nat → ResolveError → Resolve (ACLToken × List ACLPolicy)
  | 0, lastErr => fail lastErr
  | n + 1, _ => do
    match ← resolveIdentityFromToken cfg env token with
    | none => fail errNotFound
    | some identity =>
      let m ← tick env
      if identity.isExpired m.now then fail errNotFound
      else
        match ← attempt (resolvePoliciesForIdentity cfg env identity) with
        | .ok policies => return (identity, policies)
        | .error (.token text secret) =>
          if isErrNotFound text && secret == identity.secretID then fail errNotFound
          else resolveWithRetries token n (.token text secret)
        | .error e => fail e

def resolveTokenToIdentityAndPolicies (token : String) : Resolve (ACLToken × List ACLPolicy) :=
  resolveWithRetries cfg env token tokenPolicyResolutionMaxRetries errNotFound

/-! ## Authorizers -/

/-- Compiles policies, or takes the authorizer that is cached for them. -/
def compileWithCache (policies : List ACLPolicy) : Resolve (Option Authorizer) := do
  let m ← tick env
  match ← read (·.authorizers (hashKey policies)) with
  | some entry => return entry.authorizer
  | none =>
    let s ← read id
    let (result, cache) := compile m.compiling cfg.aclDefaultPolicy.authorizer policies
      { parsedPolicies := s.parsedPolicies, heap := s.rules }
    update fun s =>
      { s with parsedPolicies := cache.parsedPolicies, rules := cache.heap }
    match result with
    | .error text => fail (.plain text)
    | .ok authorizer =>
      putAuthorizerWithTTL m (hashKey policies) (some authorizer.toAuthorizer) 0
      return some authorizer.toAuthorizer

/-- The rules of a legacy policy match what begins with their segment. -/
def Policy.convertFromLegacy (p : Policy ServicePolicy) : Policy ServicePolicy where
  id := p.id
  revision := p.revision
  rules family matching := if matching = .byPrefix then p.rules family .exact else []
  services matching := if matching = .byPrefix then p.services .exact else []
  keyring := p.keyring
  operator := p.operator

def legacyAuthorizer (m : Moment) (parent : Authorizer) (policy : Option (Policy ServicePolicy)) :
    Resolve Authorizer := do
  let rules ← read (·.rules)
  let (stored, rules) :=
    match policy with
    | none => ([], rules)
    | some p => let (stored, rules) := rules.store p.convertFromLegacy; ([stored], rules)
  let (authorizer, rules) := newPolicyAuthorizer m.compiling.order parent stored rules
  update fun s => { s with rules := rules }
  return authorizer.toAuthorizer

def fetchAndCacheTokenLegacy (token : String) (cached : Option CachedAuthorizer) :
    Resolve (Option Authorizer) := do
  let m ← tick env
  noteReply (m.getPolicy token)
  let cacheTTL := (cached.map (·.ttl)).getD cfg.aclTokenTTL
  match m.getPolicy token with
  | .ok reply =>
    match rootAuthorizer reply.parent with
    | none =>
      putAuthorizerWithTTL m token (cached.bind (·.authorizer)) cacheTTL
      fail (.plain "Invalid Parent")
    | some parent =>
      let authorizer ← legacyAuthorizer m parent reply.policy
      putAuthorizerWithTTL m token (some authorizer) reply.ttl
      return some authorizer
  | .error text =>
    if isErrNotFound text then
      putAuthorizerWithTTL m token none cacheTTL
      fail errNotFound
    else
      let authorizer :=
        if cfg.aclDownPolicy = .allow then some allowAll
        else
          match cached, cfg.aclDownPolicy.extends with
          | some entry, true => entry.authorizer
          | _, _ => some denyAll
      putAuthorizerWithTTL m token authorizer cacheTTL
      return authorizer

/-- A cached authorizer. Without one, the token is known not to exist. -/
def cachedAuthorizer (entry : Option CachedAuthorizer) : Resolve (Option Authorizer) :=
  match entry.bind (·.authorizer) with
  | some authorizer => return some authorizer
  | none => fail errNotFound

def resolveTokenLegacy (token : String) : Resolve (Option Authorizer) := do
  let m ← tick env
  match m.resolveIdentityFromToken token with
  | some (.ok identity) =>
    let policies ← resolvePoliciesForIdentity cfg env identity
    compileWithCache cfg env policies
  | some (.error text) => fail (.plain text)
  | none =>
    let entry ← read (·.authorizers token)
    if entry.any fun e => m.now - e.cacheTime ≤ min e.ttl cfg.aclTokenTTL then
      cachedAuthorizer entry
    else
      let result ← attempt (fetchAndCacheTokenLegacy cfg env token entry)
      if waitForResult cfg entry then
        match result with
        | .ok authorizer => return authorizer
        | .error e => fail e
      else cachedAuthorizer entry

/-- Stops checking for a while when the servers say that there are no ACLs. -/
def disableACLsWhenUpstreamDisabled (e : ResolveError) : Resolve Unit := do
  let m ← tick env
  if cfg.autoDisable && isErrDisabled e.text then
    update fun s => { s with disabled := m.now + cfg.aclDisabledTTL }
  else return

/-- Whether ACLs are enabled at a moment. -/
def Resolver.aclsEnabled (s : Resolver) (m : Moment) : Bool :=
  cfg.aclsEnabled && (!cfg.autoDisable || !decide (m.now < s.disabled))

def anonymousToken : String := "anonymous"

/-- The authorizer of a token. None stands for a nil authorizer. -/
def resolveToken (token : String) : Resolve (Option Authorizer) := do
  let m ← tick env
  if !(← read (·.aclsEnabled cfg m)) then return none
  else if (rootAuthorizer token).isSome then fail (.plain "Cannot resolve root ACL")
  else
    let token := if token = "" then anonymousToken else token
    if cfg.useLegacyACLs then
      match ← attempt (resolveTokenLegacy cfg env token) with
      | .ok authorizer => return authorizer
      | .error e =>
        disableACLsWhenUpstreamDisabled cfg env e
        fail e
    else
      match ← attempt (resolveTokenToIdentityAndPolicies cfg env token) with
      | .ok (_, policies) => compileWithCache cfg env policies
      | .error e =>
        disableACLsWhenUpstreamDisabled cfg env e
        if isACLRemoteError e then return cfg.aclDownPolicy.authorizer
        else fail e

end Model

end OpenGyoza
