-- The access control tables as the replication uses them: reading policies,
-- roles and tokens with their links, and writing and deleting them in
-- batches that are stored as a whole or not at all.
import OpenGyoza.Snapshot

namespace OpenGyoza

open Memdb Txn

/-- The ID of the policy that is built in. -/
def aclPolicyGlobalManagementID : String := "00000000-0000-0000-0000-000000000001"

def aclTokenAnonymousID : String := "00000000-0000-0000-0000-000000000002"

variable [External]

/-! ## Policies -/

def getPolicyWithTxn (id : String) : StoreTxn (Option ACLPolicy) := do
  let key ← wrap ("failed acl policy lookup: " ++ ·) (ofExcept (uuidArg id))
  read fun s => s.aclPolicies.first key

def policyWithName (name : String) (s : State) : Option ACLPolicy :=
  s.aclPolicies.values.find? fun p => toLower p.name == toLower name

/-- Of the policy that is built in only the name and the description may change. -/
def builtinUnchanged (policy : ACLPolicy) (existing : Option ACLPolicy) : StoreTxn Unit :=
  match existing with
  | none => pure ()
  | some policyMatch =>
    if policy.id = aclPolicyGlobalManagementID then
      if policy.rules ≠ policyMatch.rules then
        fail "Changing the Rules for the builtin global-management policy is not permitted"
      else if policy.datacenters ≠ [] then
        fail
          "Changing the Datacenters of the builtin global-management policy is not permitted"
      else pure ()
    else pure ()

def aclPolicySetTxn (idx : Nat) (policy : ACLPolicy) : StoreTxn Unit := do
  if policy.id = "" then fail "Missing ACL Policy ID"
  else if policy.name = "" then fail "Missing ACL Policy Name"
  else
    let existing ← getPolicyWithTxn policy.id
    builtinUnchanged policy existing
    match ← read (policyWithName policy.name) with
    | some nameMatch =>
      if policy.id ≠ nameMatch.id then
        fail ("A policy with name " ++ quote policy.name ++ " already exists")
    | none => pure ()
    wrap ("failed inserting acl policy: " ++ ·)
      (insert Tables.aclPolicies { policy with
        createIndex := (existing.map (·.createIndex)).getD idx
        modifyIndex := idx })

def aclPolicyBatchSet (idx : Nat) (policies : List ACLPolicy) : StoreTxn Unit := do
  forEach policies (aclPolicySetTxn idx)
  wrap ("failed updating index: " ++ ·) (indexUpdateMaxTxn idx "acl-policies")

def aclPolicyDeleteTxn (id : String) : StoreTxn Unit := do
  match ← getPolicyWithTxn id with
  | none => return
  | some policy =>
    if policy.id = aclPolicyGlobalManagementID then
      fail "Deletion of the builtin global-management policy is not permitted"
    else
      wrap ("failed deleting acl policy: " ++ ·) (delete Tables.aclPolicies policy)

def aclPolicyBatchDelete (idx : Nat) (policyIDs : List String) : StoreTxn Unit := do
  forEach policyIDs aclPolicyDeleteTxn
  wrap ("failed updating index: " ++ ·) (indexUpdateMaxTxn idx "acl-policies")

def aclPolicyList (s : State) : List ACLPolicy := s.aclPolicies.values

/-- The policies with the given IDs, in the order of these. -/
def aclPolicyBatchGet : List String → StoreTxn (List ACLPolicy)
  | [] => return []
  | pid :: ids => do
    let policy ← getPolicyWithTxn pid
    return policy.toList ++ (← aclPolicyBatchGet ids)

/-! ## Links -/

/-- What a link must find, and what is said when it does not. -/
structure LinkKind where
  /-- The name of the linked record, if it is there. -/
  name : String → StoreTxn (Option String)
  missing : String → String
  byName : String
  corrupted : String

/-- The links with the names of what they lead to, and how many lead to something. -/
def LinkKind.resolve (kind : LinkKind) (allowMissing : Bool) :
    List ACLLink → StoreTxn (List ACLLink × Nat)
  | [] => return ([], 0)
  | link :: links => do
    if link.id = "" then fail kind.byName
    else
      match ← kind.name link.id with
      | some name =>
        let (rest, numValid) ← kind.resolve allowMissing links
        return ({ link with name := name } :: rest, numValid + 1)
      | none =>
        if allowMissing then
          let (rest, numValid) ← kind.resolve allowMissing links
          return (link :: rest, numValid)
        else fail (kind.missing link.id)

/-- The links as they are read: those that lead nowhere are left out, and the names are the
ones that now hold. -/
def LinkKind.fixup (kind : LinkKind) : List ACLLink → StoreTxn (List ACLLink)
  | [] => return []
  | link :: links => do
    if link.id = "" then fail kind.corrupted
    else
      let name ← kind.name link.id
      let rest ← kind.fixup links
      return (name.map fun name => { link with name := name }).toList ++ rest

def rolePolicyLinks : LinkKind where
  name id := return (← getPolicyWithTxn id).map (·.name)
  missing id := "No such policy with ID: " ++ id
  byName := "Encountered a Role with policies linked by Name in the state store"
  corrupted := "Detected corrupted role within the state store - missing policy link ID"

def fixupRolePolicyLinks (role : ACLRole) : StoreTxn ACLRole :=
  return { role with policies := ← rolePolicyLinks.fixup role.policies }

/-! ## Roles -/

def roleRow (id : String) : StoreTxn (Option ACLRole) := do
  let key ← wrap ("failed acl role lookup: " ++ ·) (ofExcept (uuidArg id))
  read fun s => s.aclRoles.first key

def getRoleWithTxn (id : String) : StoreTxn (Option ACLRole) := do
  match ← roleRow id with
  | none => return none
  | some role => return some (← fixupRolePolicyLinks role)

def roleWithName (name : String) (s : State) : Option ACLRole :=
  s.aclRoles.values.find? fun r => toLower r.name == toLower name

/-- A service identity must name a service. -/
def identitiesNamed (text : String) (identities : List ACLServiceIdentity) : StoreTxn Unit :=
  forEach identities fun svcid =>
    if svcid.serviceName = "" then fail text else pure ()

def aclRoleSetTxn (idx : Nat) (allowMissing : Bool) (role : ACLRole) : StoreTxn Unit := do
  if role.id = "" then fail "Missing ACL Role ID"
  else if role.name = "" then fail "Missing ACL Role Name"
  else
    let existing ← roleRow role.id
    match ← read (roleWithName role.name) with
    | some nameMatch =>
      if role.id ≠ nameMatch.id then
        fail ("A role with name " ++ quote role.name ++ " already exists")
    | none => pure ()
    let (policies, _) ← rolePolicyLinks.resolve allowMissing role.policies
    identitiesNamed "Encountered a Role with an empty service identity name in the state store"
      role.serviceIdentities
    wrap ("failed inserting acl role: " ++ ·)
      (insert Tables.aclRoles { role with
        policies := policies
        createIndex := (existing.map (·.createIndex)).getD idx
        modifyIndex := idx })

def aclRoleBatchSet (idx : Nat) (allowMissing : Bool) (roles : List ACLRole) :
    StoreTxn Unit := do
  forEach roles (aclRoleSetTxn idx allowMissing)
  wrap ("failed updating index: " ++ ·) (indexUpdateMaxTxn idx "acl-roles")

def aclRoleDeleteTxn (id : String) : StoreTxn Unit := do
  match ← roleRow id with
  | none => return
  | some role => wrap ("failed deleting acl role: " ++ ·) (delete Tables.aclRoles role)

def aclRoleBatchDelete (idx : Nat) (roleIDs : List String) : StoreTxn Unit := do
  forEach roleIDs aclRoleDeleteTxn
  wrap ("failed updating index: " ++ ·) (indexUpdateMaxTxn idx "acl-roles")

/-- Reads every record of a list with its links put right. -/
def fixupAll {α : Type} (fixup : α → StoreTxn α) : List α → StoreTxn (List α)
  | [] => return []
  | a :: l => do
    let b ← fixup a
    return b :: (← fixupAll fixup l)

def aclRoleList : StoreTxn (List ACLRole) := do
  fixupAll fixupRolePolicyLinks (← read fun s => s.aclRoles.values)

/-! ## Tokens -/

def tokenPolicyLinks : LinkKind where
  name id := return (← getPolicyWithTxn id).map (·.name)
  missing id := "No such policy with ID: " ++ id
  byName := "Encountered a Token with policies linked by Name in the state store"
  corrupted := "Detected corrupted token within the state store - missing policy link ID"

def tokenRoleLinks : LinkKind where
  name id := return (← getRoleWithTxn id).map (·.name)
  missing id := "No such role with ID: " ++ id
  byName := "Encountered a Token with roles linked by Name in the state store"
  corrupted := "Detected corrupted token within the state store - missing role link ID"

/-- A token as it is read. -/
def fixupTokenLinks (token : ACLToken) : StoreTxn ACLToken := do
  let policies ← tokenPolicyLinks.fixup token.policies
  let roles ← tokenRoleLinks.fixup token.roles
  return { token with policies := policies, roles := roles }

/-- The row with an accessor. -/
def tokenWithAccessor (accessor : String) : StoreTxn (Option ACLToken) := do
  let key ← wrap ("failed acl token lookup: " ++ ·) (ofExcept (uuidArg accessor))
  read fun s => s.aclTokens.values.find? fun t => t.accessorID != "" &&
    decide (uuidKey t.accessorID = .ok key)

def ACLToken.usesNonLegacyFields (t : ACLToken) : Bool :=
  !t.policies.isEmpty || !t.serviceIdentities.isEmpty || !t.roles.isEmpty || t.type == "" ||
    t.hasExpirationTime || t.expirationTTL != 0 || t.authMethod != ""

/-- Whether a check-and-set leaves the token alone. -/
def ACLToken.casRefuses (token : ACLToken) : Option ACLToken → Bool
  | none => token.modifyIndex != 0
  | some original => token.modifyIndex == 0 || token.modifyIndex != original.modifyIndex

/-- The auth method of a token must exist. -/
def authMethodExists (name : String) : StoreTxn Unit := do
  if name ≠ "" then
    match ← read fun s => s.aclAuthMethods.first (toLower name) with
    | none => fail ("No such auth method with Name: " ++ name)
    | some _ => pure ()

/-- The accessor and the secret of a token never change. -/
def idsImmutable (token : ACLToken) (original : Option ACLToken) : StoreTxn Unit :=
  match original with
  | none => pure ()
  | some original =>
    if original.accessorID ≠ "" ∧ token.accessorID ≠ original.accessorID then
      fail "The ACL Token AccessorID field is immutable"
    else if token.secretID ≠ original.secretID then
      fail "The ACL Token SecretID field is immutable"
    else pure ()

def storeToken (idx : Nat) (allowMissing prohibitUnprivileged : Bool) (token : ACLToken)
    (original : Option ACLToken) : StoreTxn Unit := do
  let (policies, numValidPolicies) ← tokenPolicyLinks.resolve allowMissing token.policies
  let (roles, numValidRoles) ← tokenRoleLinks.resolve allowMissing token.roles
  authMethodExists token.authMethod
  identitiesNamed "Encountered a Token with an empty service identity name in the state store"
    token.serviceIdentities
  if prohibitUnprivileged && numValidRoles == 0 && numValidPolicies == 0 &&
      token.serviceIdentities.isEmpty then
    fail "Token has no privileges"
  else
    idsImmutable token original
    wrap ("failed inserting acl token: " ++ ·)
      (insert Tables.aclTokens { token with
        policies := policies
        roles := roles
        createIndex := (original.map (·.createIndex)).getD idx
        modifyIndex := idx })

def aclTokenSetTxn (idx : Nat) (cas allowMissing prohibitUnprivileged legacy : Bool)
    (token : ACLToken) : StoreTxn Unit := do
  if token.secretID = "" then fail "Missing ACL Token SecretID"
  else if !legacy && token.accessorID == "" then fail "Missing ACL Token AccessorID"
  else
    let original ← read fun s => s.aclTokens.first token.secretID
    if cas && token.casRefuses original then return
    else if legacy && original.any (·.usesNonLegacyFields) then
      fail
        "failed inserting acl token: cannot use legacy endpoint to modify a non-legacy token"
    else
      let accessorID := if legacy then (original.map (·.accessorID)).getD token.accessorID
        else token.accessorID
      storeToken idx allowMissing prohibitUnprivileged { token with accessorID := accessorID }
        original

def aclTokenBatchSet (idx : Nat) (cas allowMissing prohibitUnprivileged : Bool)
    (tokens : List ACLToken) : StoreTxn Unit := do
  forEach tokens (aclTokenSetTxn idx cas allowMissing prohibitUnprivileged false)
  wrap ("failed updating index: " ++ ·) (indexUpdateMaxTxn idx "acl-tokens")

/-- Deletes the token with an accessor. -/
def aclTokenDeleteTxn (idx : Nat) (accessor : String) : StoreTxn Unit := do
  match ← tokenWithAccessor accessor with
  | none => return
  | some token =>
    if token.accessorID = aclTokenAnonymousID then
      fail "Deletion of the builtin anonymous token is not permitted"
    else
      wrap ("failed deleting acl token: " ++ ·) (delete Tables.aclTokens token)
      wrap ("failed updating index: " ++ ·) (indexUpdateMaxTxn idx "acl-tokens")

def aclTokenBatchDelete (idx : Nat) (tokenIDs : List String) : StoreTxn Unit :=
  forEach tokenIDs (aclTokenDeleteTxn idx)

/-- The tokens that are replicated: those that are not local to one datacenter. -/
def aclTokenListGlobal : StoreTxn (List ACLToken) := do
  fixupAll fixupTokenLinks (← read fun s => s.aclTokens.get (!·.isLocal))

/-- The tokens with the given accessors, in the order of these. -/
def aclTokenBatchGet : List String → StoreTxn (List ACLToken)
  | [] => return []
  | accessor :: accessors => do
    let row ← wrap ("failed acl token lookup: " ++ ·) (tokenWithAccessor accessor)
    let token ← wrap ("failed acl token lookup: " ++ ·) (fixupAll fixupTokenLinks row.toList)
    return token ++ (← aclTokenBatchGet accessors)

end OpenGyoza
