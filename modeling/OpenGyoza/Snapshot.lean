-- Snapshots. A snapshot is a header and a list of records, which a new server
-- loads one by one into an empty store. The catalog is not loaded row by row:
-- it is registered again.
import OpenGyoza.Catalog

namespace OpenGyoza

open Memdb Txn

variable [External]

/-! ## Records -/

/-- The rows of a snapshot. A tombstone is written as an entry of its key, with its index as
the last index of the entry. -/
inductive SnapshotRecord where
  | registration (req : RegisterRequest)
  | coordinates (updates : List Coordinate)
  | session (sess : Session)
  | token (token : ACLToken)
  | policy (policy : ACLPolicy)
  | role (role : ACLRole)
  | bindingRule (rule : ACLBindingRule)
  | authMethod (method : ACLAuthMethod)
  | kv (entry : DirEntry)
  | tombstone (entry : DirEntry)
  | preparedQuery (query : PreparedQuery)
  | intention (ixn : Intention)
  | index (entry : IndexEntry)
deriving DecidableEq

structure Snapshot where
  lastIndex : Nat
  records : List SnapshotRecord
deriving DecidableEq

/-! ## Writing a snapshot -/

def schemaTables : List String :=
  ["acl-auth-methods", "acl-binding-rules", "acl-policies", "acl-roles", "acl-tokens",
    "autopilot-config", "checks", "config-entries", "connect-ca-builtin", "connect-ca-config",
    "connect-ca-roots", "connect-intentions", "coordinates", "index", "kvs", "nodes",
    "prepared-queries", "services", "session_checks", "sessions", "tombstones"]

/-- The index in the header: the highest one of all tables. -/
def State.lastIndex (s : State) : Nat := maxIndexTxn schemaTables s

/-- The registration of a node, to which its services and checks are added. -/
def Node.toRegistration (n : Node) : RegisterRequest where
  id := n.id
  node := n.node
  datacenter := n.datacenter
  address := n.address
  taggedAddresses := n.taggedAddresses
  nodeMeta := n.metadata

/-- A node with its services and its checks, one registration for each. -/
def persistNode (s : State) (n : Node) : List SnapshotRecord :=
  .registration n.toRegistration ::
    ((servicesOfNode n.node s).map fun svc =>
      .registration { n.toRegistration with service := some svc.toNodeService }) ++
    (checksOfNode n.node s).map fun c =>
      .registration { n.toRegistration with check := some c }

def persistNodes (s : State) : List SnapshotRecord :=
  s.nodes.values.flatMap (persistNode s) ++ s.coordinates.values.map fun c => .coordinates [c]

def persistSessions (s : State) : List SnapshotRecord := s.sessions.values.map .session

def persistLoop {α : Type} : Option α → List α → List α × List α
  | none, iter => ([], iter)
  | some row, [] => ([row], [])
  | some row, next :: iter =>
    let (written, iter) := persistLoop (some next) iter
    (row :: written, iter)

/-- The loop over the auth methods asks the iterator of the binding rules for the next row. -/
def persistACLs (s : State) : List SnapshotRecord :=
  let rules := s.aclBindingRules.values.map SnapshotRecord.bindingRule
  let methods := s.aclAuthMethods.values.map SnapshotRecord.authMethod
  let (ruleRows, rules) := persistLoop rules.head? rules.tail
  let (methodRows, _) := persistLoop methods.head? rules
  s.aclTokens.values.map .token ++ s.aclPolicies.values.map .policy ++
    s.aclRoles.values.map .role ++ ruleRows ++ methodRows

def persistKVs (s : State) : List SnapshotRecord := s.kvs.values.map .kv

def persistTombstones (s : State) : List SnapshotRecord :=
  s.tombstones.values.map fun stone => .tombstone { key := stone.key, modifyIndex := stone.index }

def persistPreparedQueries (s : State) : List SnapshotRecord :=
  s.preparedQueries.values.map .preparedQuery

def persistIntentions (s : State) : List SnapshotRecord := s.intentions.values.map .intention

def persistIndex (s : State) : List SnapshotRecord := s.index.values.map .index

/-- All records, in the order of the file. -/
def persistOSS (s : State) : List SnapshotRecord :=
  persistNodes s ++ persistSessions s ++ persistACLs s ++ persistKVs s ++ persistTombstones s ++
    persistPreparedQueries s ++ persistIntentions s ++ persistIndex s

def State.snapshot (s : State) : Snapshot where
  lastIndex := s.lastIndex
  records := persistOSS s

/-! ## Loading a snapshot -/

/-- The index of a table, raised to `idx`. -/
def indexUpdateMaxTxn (idx : Nat) (table : String) : StoreTxn Unit := do
  let write := wrap ("failed updating index " ++ ·)
    (insert Tables.index { key := .table table, value := idx })
  match ← read fun s => s.index.first (.table table) with
  | none => write
  | some cur => if idx > cur.value then write

section RestoreRow

variable {κ ν : Type} [LinearOrder κ] {key : ν → Except String κ}

/-- A row that is loaded as it is, with the index of its table. -/
def restoreRow (r : Ref State key) (context table : String) (row : ν) (idx : Nat) :
    StoreTxn Unit := do
  wrap ((context ++ ": ") ++ ·) (insert r row)
  wrap ("failed updating index: " ++ ·) (indexUpdateMaxTxn idx table)

end RestoreRow

def restoreRegistration (lastIndex : Nat) (req : RegisterRequest) : StoreTxn Unit :=
  ensureRegistrationTxn lastIndex req

/-- Coordinates that are not valid are dropped. -/
def restoreCoordinates (lastIndex : Nat) (updates : List Coordinate) : StoreTxn Unit := do
  forEach updates fun update => do
    if External.coordIsValid update.coord then
      wrap ("failed restoring coordinate: " ++ ·) (insert Tables.coordinates update)
  wrap ("failed updating index: " ++ ·) (indexUpdateMaxTxn lastIndex "coordinates")

def restoreSession (sess : Session) : StoreTxn Unit := do
  wrap ("failed inserting session: " ++ ·) (insert Tables.sessions sess)
  forEach sess.checks (insertSessionCheck sess)
  wrap ("failed updating index: " ++ ·) (indexUpdateMaxTxn sess.modifyIndex "sessions")

def restoreToken (token : ACLToken) : StoreTxn Unit :=
  restoreRow Tables.aclTokens "failed restoring acl token" "acl-tokens" token token.modifyIndex

def restorePolicy (policy : ACLPolicy) : StoreTxn Unit :=
  restoreRow Tables.aclPolicies "failed restoring acl policy" "acl-policies" policy
    policy.modifyIndex

def restoreRole (role : ACLRole) : StoreTxn Unit :=
  restoreRow Tables.aclRoles "failed restoring acl role" "acl-roles" role role.modifyIndex

def restoreBindingRule (rule : ACLBindingRule) : StoreTxn Unit :=
  restoreRow Tables.aclBindingRules "failed restoring acl binding rule" "acl-binding-rules" rule
    rule.modifyIndex

def restoreAuthMethod (method : ACLAuthMethod) : StoreTxn Unit :=
  restoreRow Tables.aclAuthMethods "failed restoring acl auth method" "acl-auth-methods" method
    method.modifyIndex

def restoreKV (entry : DirEntry) : StoreTxn Unit :=
  restoreRow Tables.kvs "failed inserting kvs entry" "kvs" entry entry.modifyIndex

def restoreTombstone (entry : DirEntry) : StoreTxn Unit :=
  wrap ("failed restoring tombstone: " ++ ·)
    (restoreRow Tables.tombstones "failed inserting tombstone" "tombstones"
      { key := entry.key, index := entry.modifyIndex } entry.modifyIndex)

def restorePreparedQuery (query : PreparedQuery) : StoreTxn Unit := do
  templateCompiles query
  restoreRow Tables.preparedQueries "failed restoring prepared query" "prepared-queries" query
    query.modifyIndex

def restoreIntention (ixn : Intention) : StoreTxn Unit :=
  restoreRow Tables.intentions "failed restoring intention" "connect-intentions" ixn
    ixn.modifyIndex

def restoreIndex (entry : IndexEntry) : StoreTxn Unit :=
  wrap ("index insert failed: " ++ ·) (insert Tables.index entry)

def restoreRecord (lastIndex : Nat) : SnapshotRecord → StoreTxn Unit
  | .registration req => restoreRegistration lastIndex req
  | .coordinates updates => restoreCoordinates lastIndex updates
  | .session sess => restoreSession sess
  | .token token => restoreToken token
  | .policy policy => restorePolicy policy
  | .role role => restoreRole role
  | .bindingRule rule => restoreBindingRule rule
  | .authMethod method => restoreAuthMethod method
  | .kv entry => restoreKV entry
  | .tombstone entry => restoreTombstone entry
  | .preparedQuery query => restorePreparedQuery query
  | .intention ixn => restoreIntention ixn
  | .index entry => restoreIndex entry

/-- The records of a snapshot, loaded in their order. -/
def restoreRecords (lastIndex : Nat) (records : List SnapshotRecord) : StoreTxn Unit :=
  forEach records (restoreRecord lastIndex)

/-- The store of a server that starts with a snapshot. After an error it keeps its old one. -/
def Snapshot.restore (snap : Snapshot) : Except Fault State :=
  match restoreRecords snap.lastIndex snap.records .empty with
  | (.ok (), s) => .ok s
  | (.error fault, _) => .error fault

end OpenGyoza
