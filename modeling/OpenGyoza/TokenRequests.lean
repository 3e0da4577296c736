-- Requests to create or change a token. A request is checked against the
-- store, and the token it leads to is stored later, through the log. What
-- is checked may no longer hold by then.
import OpenGyoza.AclReplication
import OpenGyoza.AclCaches

namespace OpenGyoza

open Memdb Txn

/-! ## Service identities -/

/-- A sorted list without repetitions. -/
def dropRepeats : List String → List String
  | a :: b :: l => if a = b then dropRepeats (b :: l) else a :: dropRepeats (b :: l)
  | l => l

def dedupeStringSlice (l : List String) : List String :=
  if l.length ≤ 1 then l else dropRepeats (l.insertionSort (· ≤ ·))

def mergeStringSlice (a b : List String) : List String := dedupeStringSlice (a ++ b)

/-- The wider of two scopes. An empty list stands for all datacenters. -/
def mergeScopes (a b : List String) : List String :=
  if a = [] ∨ b = [] then [] else mergeStringSlice a b

/-- How Go sorts a slice of pointers by a name. Pointers with one name come in any order. -/
structure SliceSort where
  sort : (Nat → String) → List Nat → List Nat
  perm : ∀ name l, (sort name l).Perm l
  sorted : ∀ name l, (sort name l).Pairwise fun a b => name a ≤ name b

def insertionSlices : SliceSort where
  sort name l := l.insertionSort fun a b => name a ≤ name b
  perm name l := List.perm_insertionSort _ l
  sorted name l := by
    have htotal : Std.Total fun a b => name a ≤ name b := ⟨fun a b => le_total _ _⟩
    have htrans : IsTrans Nat fun a b => name a ≤ name b := ⟨fun a b c => le_trans⟩
    exact List.pairwise_insertionSort _ l

/-- Service identities are shared by all that hold a pointer to them. -/
structure IdentityHeap where
  cells : Nat → ACLServiceIdentity
  next : Nat := 0

/-- Places service identities in the heap and gives their addresses. -/
def allocate (l : List ACLServiceIdentity) (heap : IdentityHeap) : List Nat × IdentityHeap :=
  (List.range' heap.next l.length,
    { cells := fun a => (l[a - heap.next]?.filter fun _ => heap.next ≤ a).getD (heap.cells a)
      next := heap.next + l.length })

/-- Joins the identities of a sorted list that have one name. The scope of the first of them is
widened in place. -/
def joinIdentities (j : Nat) : List Nat → IdentityHeap → List Nat × IdentityHeap
  | [], heap => ([j], heap)
  | i :: l, heap =>
    if (heap.cells j).serviceName = (heap.cells i).serviceName then
      joinIdentities j l { heap with
        cells := Function.update heap.cells j { heap.cells j with
          datacenters := mergeScopes (heap.cells j).datacenters (heap.cells i).datacenters } }
    else
      let (rest, heap) := joinIdentities i l heap
      (j :: rest, heap)

def dedupeServiceIdentities (sort : SliceSort) (l : List Nat) (heap : IdentityHeap) :
    List Nat × IdentityHeap :=
  if l.length ≤ 1 then (l, heap)
  else
    match sort.sort (fun a => (heap.cells a).serviceName) l with
    | [] => ([], heap)
    | j :: rest => joinIdentities j rest heap

def serviceIdentityNameMaxLength : Nat := 256

/-- The names that a service identity may have: lower case letters, digits, and in the middle
`-` and `_`. -/
def isValidServiceIdentityName (name : String) : Bool :=
  let edge := fun c : Char => c.isLower || c.isDigit
  1 ≤ name.utf8ByteSize && name.utf8ByteSize ≤ serviceIdentityNameMaxLength &&
    name.toList.head?.any edge && name.toList.getLast?.any edge &&
    name.toList.all fun c => edge c || c == '-' || c == '_'

/-! ## Requests -/

def aclReservedPrefix : String := "00000000-0000-0000-0000-0000000000"

def aclIDReserved (id : String) : Bool := aclReservedPrefix.toList.isPrefixOf id.toList

structure ACLTokenSetRequest where
  token : ACLToken
  create : Bool := false

/-- What a request that has passed its checks puts into the log. -/
structure ACLTokenBatchSetRequest where
  token : ACLToken
  allowMissingLinks : Bool := false
  prohibitUnprivileged : Bool := false

/-- A server while it handles one request. The random UUIDs are those that it would draw one
after the other. -/
structure TokenServer where
  localTokensEnabled : Bool := true
  inACLDatacenter : Bool := true
  aclTokenMinExpirationTTL : Int
  aclTokenMaxExpirationTTL : Int
  now : Time
  accessors : List String := []
  secrets : List String := []
  formatDuration : Int → String := toString
  sort : SliceSort := insertionSlices

section Model

variable [External] [Blake2b]

/-- The hash of what can be changed about a token. -/
def ACLToken.computeHash (t : ACLToken) : List Byte :=
  Blake2b.sum256 (bytesOf t.description ++ bytesOf t.type ++ bytesOf t.rules ++
    bytesOf (if t.isLocal then "local" else "global") ++
    t.policies.flatMap (fun link => bytesOf link.id) ++
    t.roles.flatMap (fun link => bytesOf link.id) ++
    t.serviceIdentities.flatMap fun svcid =>
      bytesOf svcid.serviceName ++ svcid.datacenters.flatMap bytesOf)

/-- A token as it is read. -/
def readToken (row : Option ACLToken) : StoreTxn (Option ACLToken) :=
  match row with
  | none => return none
  | some token => return some (← fixupTokenLinks token)

def aclTokenGetByAccessor (accessor : String) : StoreTxn (Option ACLToken) :=
  wrap ("failed acl token lookup: " ++ ·) do
    readToken (← tokenWithAccessor accessor)

def aclTokenGetBySecret (secret : String) : StoreTxn (Option ACLToken) :=
  wrap ("failed acl token lookup: " ++ ·) do
    readToken (← read (·.aclTokens.first secret))

def checkTokenUUID (id : String) : StoreTxn Bool := do
  match ← aclTokenGetByAccessor id with
  | some _ => return false
  | none =>
    match ← aclTokenGetBySecret id with
    | some _ => return false
    | none => return !aclIDReserved id

/-- Draws UUIDs until one of them is free. -/
def generateUUID : List String → StoreTxn String
  | [] => fail "no UUID is drawn"
  | id :: ids => do
    if ← checkTokenUUID id then return id else generateUUID ids

/-- Checks an ID that the client has chosen. -/
def freeID (field id : String) (taken : Option ACLToken)
    (other : String → StoreTxn (Option ACLToken)) : StoreTxn Unit := do
  match parseUUID id with
  | .error _ => fail ("Invalid Token: " ++ field ++ " is not a valid UUID")
  | .ok _ =>
    if taken.isSome then fail ("Invalid Token: " ++ field ++ " is already in use")
    else
      match ← wrap ("Failed to lookup the acl token: " ++ ·) (other id) with
      | some _ => fail ("Invalid Token: " ++ field ++ " is already in use")
      | none =>
        if aclIDReserved id then
          fail ("Invalid Token: UUIDs with the prefix " ++ quote aclReservedPrefix ++
            " are reserved")

/-- Whether a lifetime lies within the limits of the server. -/
def expirationAllowed (srv : TokenServer) (t : ACLToken) : StoreTxn Unit :=
  match t.expirationTime with
  | none => return
  | some expiration =>
    if !t.hasExpirationTime then return
    else if t.createTime > expiration then
      fail "ExpirationTime cannot be before CreateTime"
    else if expiration - t.createTime > srv.aclTokenMaxExpirationTTL then
      fail ("ExpirationTime cannot be more than " ++
        srv.formatDuration srv.aclTokenMaxExpirationTTL ++ " in the future (was " ++
        srv.formatDuration (expiration - t.createTime) ++ ")")
    else if expiration - t.createTime < srv.aclTokenMinExpirationTTL then
      fail ("ExpirationTime cannot be less than " ++
        srv.formatDuration srv.aclTokenMinExpirationTTL ++ " in the future (was " ++
        srv.formatDuration (expiration - t.createTime) ++ ")")
    else return

/-- The expiration time that a lifetime leads to. -/
def settleExpiration (srv : TokenServer) (t : ACLToken) : StoreTxn ACLToken :=
  if t.expirationTTL = 0 then return t
  else if t.expirationTTL < 0 then
    fail ("Token Expiration TTL '" ++ srv.formatDuration t.expirationTTL ++ "' should be > 0")
  else if t.hasExpirationTime then
    fail "Token Expiration TTL and Expiration Time cannot both be set"
  else
    return { t with expirationTime := some (t.createTime + t.expirationTTL), expirationTTL := 0 }

/-- Only a login names an auth method. -/
def authMethodAllowed (fromLogin : Bool) (t : ACLToken) : StoreTxn Unit :=
  if fromLogin then
    if t.authMethod = "" then fail "AuthMethod field is required during Login"
    else if !t.isLocal then fail "Cannot create Global token via Login"
    else return
  else if t.authMethod ≠ "" then fail "AuthMethod field is disallowed outside of Login"
  else return

/-- The ID that the client has chosen, or one that is drawn. -/
def settleID (field id : String) (drawn : List String) (taken : Option ACLToken)
    (other : String → StoreTxn (Option ACLToken)) : StoreTxn String :=
  if id = "" then generateUUID drawn
  else do
    freeID field id taken other
    return id

def createToken (srv : TokenServer) (fromLogin : Bool) (t : ACLToken)
    (accessorMatch secretMatch : Option ACLToken) : StoreTxn ACLToken := do
  let accessorID ← settleID "AccessorID" t.accessorID srv.accessors accessorMatch
    aclTokenGetBySecret
  let secretID ← settleID "SecretID" t.secretID srv.secrets secretMatch aclTokenGetByAccessor
  let t := { t with accessorID := accessorID, secretID := secretID, createTime := srv.now }
  authMethodAllowed fromLogin t
  let t ← settleExpiration srv t
  expirationAllowed srv t
  return t

/-- The expiration time of a token does not change. -/
def keepExpiration (t accessorMatch : ACLToken) : StoreTxn (Option Time) :=
  if t.expirationTTL ≠ 0 then fail ("Cannot change expiration time of " ++ t.accessorID)
  else if !t.hasExpirationTime then return accessorMatch.expirationTime
  else if !accessorMatch.hasExpirationTime then
    fail ("Cannot change expiration time of " ++ t.accessorID)
  else if t.expirationTime ≠ accessorMatch.expirationTime then
    fail ("Cannot change expiration time of " ++ t.accessorID)
  else return t.expirationTime

/-- The names of the built-in authorizers. -/
def rootPolicies : List String := ["allow", "deny", "manage"]

def updateToken (srv : TokenServer) (t : ACLToken) (accessorMatch : Option ACLToken) :
    StoreTxn ACLToken := do
  match parseUUID t.accessorID with
  | .error _ => fail "AccessorID is not a valid UUID"
  | .ok _ =>
    if t.secretID ∈ rootPolicies then fail "Permission denied: Cannot modify root ACL"
    else
      match accessorMatch with
      | none => fail ("Cannot find token " ++ quote t.accessorID)
      | some found =>
        if found.isExpired srv.now then fail ("Cannot find token " ++ quote t.accessorID)
        else if t.secretID ≠ "" ∧ found.secretID ≠ t.secretID then
          fail "Changing a tokens SecretID is not permitted"
        else if t.isLocal ≠ found.isLocal then
          fail ("cannot toggle local mode of " ++ t.accessorID)
        else if t.authMethod ≠ "" ∧ t.authMethod ≠ found.authMethod then
          fail ("Cannot change AuthMethod of " ++ t.accessorID)
        else
          let expirationTime ← keepExpiration t found
          return { t with
            secretID := found.secretID
            authMethod := found.authMethod
            expirationTime := expirationTime
            createTime := found.createTime }

def policyIDWithName (name : String) : StoreTxn (Option String) :=
  read fun s => (policyWithName name s).map (·.id)

def roleIDWithName (name : String) : StoreTxn (Option String) := do
  match ← read (roleWithName name) with
  | none => return none
  | some role => return some (← fixupRolePolicyLinks role).id

/-- The links by ID, each ID once. A link by name is looked up. -/
def linksByID (noun : String) (withName : String → StoreTxn (Option String)) :
    List ACLLink → List String → StoreTxn (List ACLLink)
  | [], _ => return []
  | link :: links, seen => do
    let id ← if link.id ≠ "" then pure link.id else do
      match ← wrap
          (("Error looking up " ++ noun ++ " for name " ++ quote link.name ++ ": ") ++ ·)
          (withName link.name) with
      | none => fail ("No such ACL " ++ noun ++ " with name " ++ quote link.name)
      | some id => pure id
    if id ∈ seen then linksByID noun withName links seen
    else return { link with id := id, name := "" } :: (← linksByID noun withName links (id :: seen))

def identityAllowed (t : ACLToken) (svcid : ACLServiceIdentity) : StoreTxn Unit :=
  if svcid.serviceName = "" then
    fail "Service identity is missing the service name field on this token"
  else if t.isLocal ∧ svcid.datacenters ≠ [] then
    fail ("Service identity " ++ quote svcid.serviceName ++
      " cannot specify a list of datacenters on a local token")
  else if !isValidServiceIdentityName svcid.serviceName then
    fail ("Service identity " ++ quote svcid.serviceName ++
      " has an invalid name. Only alphanumeric characters, '-' and '_' are allowed")
  else return

/-- The checks of what a token grants, and the token with its links by ID. -/
def settleGrants (srv : TokenServer) (t : ACLToken) : StoreTxn ACLToken := do
  let policies ← linksByID "policy" policyIDWithName t.policies []
  let roles ← linksByID "role" roleIDWithName t.roles []
  forEach t.serviceIdentities (identityAllowed t)
  if t.rules ≠ "" then fail "Rules cannot be specified for this token"
  else if t.type ≠ "" then fail "Type cannot be specified for this token"
  else
    -- the identities of a request are its own
    let (addresses, heap) := allocate t.serviceIdentities { cells := fun _ => { serviceName := "" } }
    let (addresses, heap) := dedupeServiceIdentities srv.sort addresses heap
    let t := { t with
      policies := policies
      roles := roles
      serviceIdentities := addresses.map heap.cells }
    return { t with hash := t.computeHash }

/-- The token that an ID of the request leads to, if it has one. -/
def lookupID (context id : String) (lookup : String → StoreTxn (Option ACLToken)) :
    StoreTxn (Option ACLToken) :=
  if id = "" then return none else wrap (context ++ ·) (lookup id)

def createOrUpdate (srv : TokenServer) (req : ACLTokenSetRequest) (fromLogin : Bool)
    (accessorMatch secretMatch : Option ACLToken) : StoreTxn ACLToken :=
  if req.token.accessorID = "" ∨ req.create then
    createToken srv fromLogin req.token accessorMatch secretMatch
  else updateToken srv req.token accessorMatch

/-- The checks of a request. They only read the store, and give what goes into the log. -/
def tokenSetInternal (srv : TokenServer) (req : ACLTokenSetRequest) (fromLogin : Bool) :
    StoreTxn ACLTokenBatchSetRequest := do
  let t := req.token
  if !srv.localTokensEnabled then fail "Cannot upsert tokens within this datacenter"
  else if !srv.inACLDatacenter && !t.isLocal then
    fail "Cannot upsert global tokens within this datacenter"
  else
    let accessorMatch ← lookupID "Failed acl token lookup by accessor: " t.accessorID
      aclTokenGetByAccessor
    let secretMatch ← lookupID "Failed acl token lookup by secret: " t.secretID aclTokenGetBySecret
    let t ← createOrUpdate srv req fromLogin accessorMatch secretMatch
    let t ← settleGrants srv t
    return { token := t, allowMissingLinks := fromLogin, prohibitUnprivileged := fromLogin }

end Model

end OpenGyoza
