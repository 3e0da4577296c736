-- The tables of the state store, their primary keys, and the index table,
-- which remembers for each table and each service the raft index of its
-- last change.
import OpenGyoza.AclStructs

namespace OpenGyoza

open Memdb Table Txn

/-! ## Names of the index table -/

inductive IndexName where
  | table (name : String)
  | service (name : String)
  | serviceKind (name : String)
  | serviceLastExtinction
deriving DecidableEq

/-- Names of two sorts never meet, so a name can be ordered by its sort first. -/
def IndexName.rank : IndexName → Nat ×ₗ String
  | table name => toLex (0, name)
  | service name => toLex (1, name)
  | serviceKind name => toLex (2, name)
  | serviceLastExtinction => toLex (3, "")

theorem IndexName.rank_injective : Function.Injective IndexName.rank := by
  intro a b h
  cases a <;> cases b <;> simp_all [IndexName.rank]

instance : LinearOrder IndexName := LinearOrder.lift' IndexName.rank IndexName.rank_injective

variable [External]

/-! ## UUID keys -/

def hexDigit (c : Char) : Option Nat :=
  if '0' ≤ c ∧ c ≤ '9' then some (c.toNat - '0'.toNat)
  else if 'a' ≤ c ∧ c ≤ 'f' then some (c.toNat - 'a'.toNat + 10)
  else if 'A' ≤ c ∧ c ≤ 'F' then some (c.toNat - 'A'.toNat + 10)
  else none

def hexDecode : List Char → Except String (List Byte)
  | hi :: lo :: rest =>
    match hexDigit hi, hexDigit lo with
    | none, _ => .error (External.invalidByte hi)
    | some _, none => .error (External.invalidByte lo)
    | some h, some l => (hexDecode rest).map (Fin.ofNat 256 (16 * h + l) :: ·)
  | [c] =>
    if hexDigit c = none then .error (External.invalidByte c)
    else .error "encoding/hex: odd length hex string"
  | [] => .ok []

/-- The key of a UUID in an index. The index does not look at where the hyphens stand. -/
def uuidKey (s : String) : Except String (List Byte) :=
  let hyphens := s.toList.count '-'
  if s.utf8ByteSize ≠ 36 then .error "UUID must be 36 characters"
  else if hyphens > 4 then
    .error ("UUID should have maximum of 4 \"-\"; got " ++ toString hyphens)
  else if (36 - hyphens) % 2 ≠ 0 then .error "Input (without hyphens) must be even length"
  else
    match hexDecode (s.toList.filter (· != '-')) with
    | .error text => .error ("Invalid UUID: " ++ text)
    | .ok bytes => .ok bytes

/-- The bytes of a UUID in its usual form, with the hyphens in their places. -/
def parseUUID (s : String) : Except String (List Byte) :=
  let cs := s.toList
  if cs.length ≠ 36 then .error "uuid string is wrong length"
  else if cs[8]? ≠ some '-' ∨ cs[13]? ≠ some '-' ∨ cs[18]? ≠ some '-' ∨ cs[23]? ≠ some '-' then
    .error "uuid is improperly formatted"
  else
    hexDecode (cs.take 8 ++ (cs.drop 9).take 4 ++ (cs.drop 14).take 4 ++ (cs.drop 19).take 4 ++
      cs.drop 24)

/-- A lookup by a malformed UUID is an error of the index. -/
def uuidArg (s : String) : Except String (List Byte) :=
  match uuidKey s with
  | .error text => .error ("index error: " ++ text)
  | .ok bytes => .ok bytes

/-! ## Index fields -/

/-- A name as an index holds it: in lower case, with a zero byte at its end. -/
def indexField (name : String) : List Byte := bytesOf (toLower name) ++ [0]

/-- Two names in an index, one after the other. -/
def rowKey (a b : String) : List Byte := indexField a ++ indexField b

/-- The value of a string in an index. An empty one has none. -/
def fieldValue (name : String) : Option (List Byte) :=
  if name = "" then none else some (indexField name)

/-- The value of an optional UUID in an index. -/
def uuidValue (id : String) : Option (List Byte) :=
  if id = "" then none else (uuidKey id).toOption

/-! ## Primary keys -/

def missingPrimary : String := "object missing primary index"

def missingValue (index : String) : String := "missing value for index '" ++ index ++ "'"

/-- The key of a row under a UUID, and the checks of its other indexes. -/
def primaryUUID (id : String) : Except String (List Byte) :=
  if id = "" then .error missingPrimary
  else
    match uuidKey id with
    | .error text => .error ("failed to build primary index: " ++ text)
    | .ok bytes => .ok bytes

/-- An index on an optional UUID refuses a malformed one. -/
def optionalUUID (index id : String) : Except String Unit :=
  if id = "" then .ok ()
  else
    match uuidKey id with
    | .error text => .error ("failed to build index '" ++ index ++ "': " ++ text)
    | .ok _ => .ok ()

def nodeKey (n : Node) : Except String String := do
  if n.node = "" then .error missingPrimary
  optionalUUID "uuid" n.id
  return toLower n.node

def serviceKey (s : ServiceNode) : Except String (List Byte) :=
  if s.node = "" ∨ s.serviceID = "" then .error missingPrimary
  else .ok (rowKey s.node s.serviceID)

def checkKey (c : HealthCheck) : Except String (List Byte) :=
  if c.node = "" ∨ c.checkID = "" then .error missingPrimary
  else if c.status = "" then .error (missingValue "status")
  else .ok (rowKey c.node c.checkID)

def sessionKey (s : Session) : Except String (List Byte) := do
  let id ← primaryUUID s.id
  if s.node = "" then .error (missingValue "node")
  return id

def sessionCheckKey (c : SessionCheck) : Except String (List Byte) := do
  if c.node = "" ∨ c.checkID = "" then .error missingPrimary
  let id ← primaryUUID c.session
  return rowKey c.node c.checkID ++ id

def kvKey (e : DirEntry) : Except String Key := do
  if e.key = [] then .error missingPrimary
  optionalUUID "session" e.session
  return e.key

def tombstoneKey (t : Tombstone) : Except String Key :=
  if t.key = [] then .error missingPrimary else .ok t.key

def preparedQueryKey (q : PreparedQuery) : Except String (List Byte) := do
  let id ← primaryUUID q.id
  optionalUUID "session" q.session
  return id

def intentionKey (x : Intention) : Except String (List Byte) := primaryUUID x.id

/-- An empty segment has no field. -/
def coordinateKey (c : Coordinate) : Except String (List Byte) :=
  if c.node = "" then .error (missingValue "node")
  else .ok (indexField c.node ++ if c.segment = "" then [] else indexField c.segment)

/-- A token that expires before 1970 cannot be indexed by its time. -/
def expirationIndexed (t : ACLToken) : Except String Unit :=
  if t.hasExpirationTime && t.expirationTime.any (· < 0) then
    .error ("failed to build index '" ++ (if t.isLocal then "expires-local" else "expires-global") ++
      "': token expiration time cannot be before the unix epoch")
  else .ok ()

def aclTokenKey (t : ACLToken) : Except String String := do
  if t.secretID = "" then .error missingPrimary
  optionalUUID "accessor" t.accessorID
  expirationIndexed t
  return t.secretID

def aclPolicyKey (p : ACLPolicy) : Except String (List Byte) := do
  let id ← primaryUUID p.id
  if p.name = "" then .error (missingValue "name")
  return id

def aclRoleKey (r : ACLRole) : Except String (List Byte) := do
  let id ← primaryUUID r.id
  if r.name = "" then .error (missingValue "name")
  return id

def aclBindingRuleKey (r : ACLBindingRule) : Except String (List Byte) := do
  let id ← primaryUUID r.id
  if r.authMethod = "" then .error (missingValue "authmethod")
  return id

def aclAuthMethodKey (m : ACLAuthMethod) : Except String String :=
  if m.name = "" then .error missingPrimary else .ok (toLower m.name)

/-! ## The index table -/

/-- The index does not look at upper and lower case. -/
def IndexName.lower : IndexName → IndexName
  | table name => table name
  | service name => service (toLower name)
  | serviceKind name => serviceKind (toLower name)
  | serviceLastExtinction => serviceLastExtinction

@[simp] theorem IndexName.lower_table (name : String) : (table name).lower = table name := rfl

@[simp] theorem IndexName.lower_service (name : String) :
    (service name).lower = service (toLower name) := rfl

@[simp] theorem IndexName.lower_serviceKind (name : String) :
    (serviceKind name).lower = serviceKind (toLower name) := rfl

@[simp] theorem IndexName.lower_serviceLastExtinction :
    serviceLastExtinction.lower = serviceLastExtinction := rfl

structure IndexEntry where
  key : IndexName
  value : Nat
deriving DecidableEq

def indexKey (e : IndexEntry) : Except String IndexName := .ok e.key.lower

def serviceIndexName (name : String) : IndexName := .service name

def serviceKindIndexName : ServiceKind → IndexName
  | .typical => .serviceKind "typical"
  | .connectProxy => .serviceKind "connect-proxy"
  | .meshGateway => .serviceKind "mesh-gateway"
  | .other text => .serviceKind text

/-! ## The state -/

/-- The whole store: one table for each kind of row. -/
structure State where
  nodes : Table nodeKey
  services : Table serviceKey
  checks : Table checkKey
  sessions : Table sessionKey
  sessionChecks : Table sessionCheckKey
  kvs : Table kvKey
  tombstones : Table tombstoneKey
  preparedQueries : Table preparedQueryKey
  intentions : Table intentionKey
  coordinates : Table coordinateKey
  aclTokens : Table aclTokenKey
  aclPolicies : Table aclPolicyKey
  aclRoles : Table aclRoleKey
  aclBindingRules : Table aclBindingRuleKey
  aclAuthMethods : Table aclAuthMethodKey
  index : Table indexKey

namespace State

/-- The store of a new server. -/
def empty : State where
  nodes := .empty
  services := .empty
  checks := .empty
  sessions := .empty
  sessionChecks := .empty
  kvs := .empty
  tombstones := .empty
  preparedQueries := .empty
  intentions := .empty
  coordinates := .empty
  aclTokens := .empty
  aclPolicies := .empty
  aclRoles := .empty
  aclBindingRules := .empty
  aclAuthMethods := .empty
  index := .empty

end State

/-- A step inside a write transaction of the store. -/
abbrev StoreTxn (α : Type) := Txn State α

namespace Tables

@[simps get set]
def nodes : Ref State nodeKey where
  get := State.nodes
  set t s := { s with nodes := t }

@[simps get set]
def services : Ref State serviceKey where
  get := State.services
  set t s := { s with services := t }

@[simps get set]
def checks : Ref State checkKey where
  get := State.checks
  set t s := { s with checks := t }

@[simps get set]
def sessions : Ref State sessionKey where
  get := State.sessions
  set t s := { s with sessions := t }

@[simps get set]
def sessionChecks : Ref State sessionCheckKey where
  get := State.sessionChecks
  set t s := { s with sessionChecks := t }

@[simps get set]
def kvs : Ref State kvKey where
  get := State.kvs
  set t s := { s with kvs := t }

@[simps get set]
def tombstones : Ref State tombstoneKey where
  get := State.tombstones
  set t s := { s with tombstones := t }

@[simps get set]
def preparedQueries : Ref State preparedQueryKey where
  get := State.preparedQueries
  set t s := { s with preparedQueries := t }

@[simps get set]
def intentions : Ref State intentionKey where
  get := State.intentions
  set t s := { s with intentions := t }

@[simps get set]
def coordinates : Ref State coordinateKey where
  get := State.coordinates
  set t s := { s with coordinates := t }

@[simps get set]
def aclTokens : Ref State aclTokenKey where
  get := State.aclTokens
  set t s := { s with aclTokens := t }

@[simps get set]
def aclPolicies : Ref State aclPolicyKey where
  get := State.aclPolicies
  set t s := { s with aclPolicies := t }

@[simps get set]
def aclRoles : Ref State aclRoleKey where
  get := State.aclRoles
  set t s := { s with aclRoles := t }

@[simps get set]
def aclBindingRules : Ref State aclBindingRuleKey where
  get := State.aclBindingRules
  set t s := { s with aclBindingRules := t }

@[simps get set]
def aclAuthMethods : Ref State aclAuthMethodKey where
  get := State.aclAuthMethods
  set t s := { s with aclAuthMethods := t }

@[simps get set]
def index : Ref State indexKey where
  get := State.index
  set t s := { s with index := t }

end Tables

/-! ## Indexes of tables -/

/-- The value of a row of the index table. -/
def State.indexOf (s : State) (name : IndexName) : Option Nat :=
  (s.index.first name.lower).map (·.value)

/-- The highest index of some tables. A table with no row counts as 0. -/
def maxIndexTxn (tables : List String) (s : State) : Nat :=
  maxOf (fun t => (s.indexOf (.table t)).getD 0) tables

/-- Every write of an index row. -/
def setIndex (name : IndexName) (idx : Nat) : StoreTxn Unit :=
  wrap ("failed updating index: " ++ ·) (insert Tables.index { key := name, value := idx })

def casRefuses (cidx : Nat) : Option Nat → Bool
  | some modifyIndex => cidx == 0 || cidx != modifyIndex
  | none => cidx != 0

/-- The state after a write of an index row. -/
def State.withIndex (s : State) (name : IndexName) (idx : Nat) : State :=
  { s with index := s.index.upsert { key := name, value := idx } }

@[simp] theorem wp_setIndex {Q : Except Fault Unit → State → Prop} {s : State} (name : IndexName)
    (idx : Nat) : wp (setIndex name idx) Q s ↔ Q (.ok ()) (s.withIndex name idx) := Iff.rfl

theorem indexOf_withIndex (s : State) (name other : IndexName) (idx : Nat) :
    (s.withIndex name idx).indexOf other =
      if other.lower = name.lower then some idx else s.indexOf other := by
  have hkey : indexKey { key := name, value := idx } = .ok name.lower := rfl
  simp only [State.indexOf, State.withIndex, first_upsert hkey]
  split <;> rfl

/-- The state without an index row. -/
def State.withoutIndex (s : State) (name : IndexName) : State :=
  { s with index := s.index.erase name.lower }

theorem indexOf_withoutIndex (s : State) (name other : IndexName) :
    (s.withoutIndex name).indexOf other =
      if other.lower = name.lower then none else s.indexOf other := by
  simp only [State.indexOf, State.withoutIndex, first_erase]
  split <;> rfl

end OpenGyoza
