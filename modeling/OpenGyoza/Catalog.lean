-- The catalog: nodes, their services and their checks. Every change of the
-- catalog also writes the index rows that health queries wait on, and ends
-- the sessions that lose their node or one of their checks.
import OpenGyoza.Sessions

namespace OpenGyoza

open Memdb Table Txn

variable [External]

/-! ## Lookups -/

def nodeRow (name : String) (s : State) : Option Node := s.nodes.first (toLower name)

def serviceRow (node serviceID : String) (s : State) : Option ServiceNode :=
  s.services.first (rowKey node serviceID)

def checkRow (node checkID : String) (s : State) : Option HealthCheck :=
  s.checks.first (rowKey node checkID)

def servicesOfNode (node : String) (s : State) : List ServiceNode :=
  s.services.seek (entryOf serviceKey fun svc => fieldValue svc.node) (indexField node)

/-- The instances of a service. An instance with an empty name is in no such list. -/
def servicesNamed (name : String) (s : State) : List ServiceNode :=
  s.services.seek (entryOf serviceKey fun svc => fieldValue svc.serviceName) (indexField name)

def checksOfNode (node : String) (s : State) : List HealthCheck :=
  s.checks.seek (entryOf checkKey fun c => fieldValue c.node) (indexField node)

/-- The checks of a node that belong to none of its services. The index notes in one byte whether
a check has a service. -/
def nodeLevelChecks (node : String) (s : State) : List HealthCheck :=
  s.checks.seek (entryOf checkKey fun c =>
    (fieldValue c.node).map (· ++ [if c.serviceID = "" then 0 else 1])) (indexField node ++ [0])

def checksOfService (node serviceID : String) (s : State) : List HealthCheck :=
  s.checks.seek (entryOf checkKey fun c => do
    return (← fieldValue c.node) ++ (← fieldValue c.serviceID)) (rowKey node serviceID)

def sessionChecksOf (node checkID : String) (s : State) : List SessionCheck :=
  s.sessionChecks.seek (entryOf sessionCheckKey fun m => do
    return (← fieldValue m.node) ++ (← fieldValue m.checkID)) (rowKey node checkID)

def sessionsOfNode (node : String) (s : State) : List Session :=
  s.sessions.seek (entryOf sessionKey fun sess => fieldValue sess.node) (indexField node)

def coordinatesOfNode (node : String) (s : State) : List Coordinate :=
  s.coordinates.seek (entryOf coordinateKey fun c => fieldValue c.node) (indexField node)

/-- The ID of a row is the given UUID. -/
def hasUUID (id : List Byte) (text : String) : Bool :=
  text != "" &&
    match uuidKey text with
    | .ok bytes => bytes == id
    | .error _ => false

/-- A lookup of a node by its ID, which must be a UUID in its usual form. -/
def getNodeIDTxn (id : String) : StoreTxn (Option Node) := do
  match parseUUID id with
  | .error text =>
    fail ("node lookup by ID failed, wrong UUID: " ++ text ++ " for '" ++ id ++ "'")
  | .ok bytes => read fun s => s.nodes.values.find? fun n => hasUUID bytes n.id

/-! ## Index rows of services -/

/-- The two index rows of a service: the one of its name and the one of its kind. -/
def touchService (idx : Nat) (svc : ServiceNode) : StoreTxn Unit := do
  setIndex (serviceIndexName svc.serviceName) idx
  setIndex (serviceKindIndexName svc.serviceKind) idx

def updateAllServiceIndexesOfNode (idx : Nat) (node : String) : StoreTxn Unit := do
  let services ← read (servicesOfNode node)
  forEach services (touchService idx)

/-! ## Deletes -/

/-- Ends the sessions that depend on a check. -/
def deleteSessionsOfCheck (idx : Nat) (node checkID : String) : StoreTxn Unit := do
  let mappings ← read (sessionChecksOf node checkID)
  deleteSessions idx "failed deleting session" (mappings.map (·.session))

/-- The text of the crash when a service is taken for granted and is not there. -/
def nilService : String :=
  "interface conversion: interface \x7b\x7d is nil, not *structs.ServiceNode"

def touchServicesOfDeletedCheck (idx : Nat) (existing : HealthCheck) : StoreTxn Unit := do
  if existing.serviceID ≠ "" then
    setIndex (serviceIndexName existing.serviceName) idx
    match ← read (serviceRow existing.node existing.serviceID) with
    | none => crash nilService
    | some svc => setIndex (serviceKindIndexName svc.serviceKind) idx
  else
    wrap ("Failed to update services linked to deleted healthcheck: " ++ ·)
      (updateAllServiceIndexesOfNode idx existing.node)
    setIndex (.table "services") idx

def deleteCheckTxn (idx : Nat) (node checkID : String) : StoreTxn Unit := do
  match ← read (checkRow node checkID) with
  | none => return
  | some hc =>
    touchServicesOfDeletedCheck idx hc
    wrap ("failed removing check: " ++ ·) (delete Tables.checks hc)
    setIndex (.table "checks") idx
    deleteSessionsOfCheck idx node checkID

/-- Takes away the index row of a service name. -/
def dropServiceIndex (name : String) : StoreTxn Unit := do
  match ← read fun s => s.index.first (serviceIndexName name).lower with
  | none => return
  | some row =>
    wrap (fun _ => "[FAILED] deleting serviceIndex " ++ name ++ ": %!s(<nil>)")
      (delete Tables.index row)

theorem dropServiceIndex_eq (name : String) (s : State) :
    dropServiceIndex name s = (.ok (), s.withoutIndex (serviceIndexName name)) := by
  apply eq_of_wp
  cases hrow : s.index.first (serviceIndexName name).lower with
  | none => simp [dropServiceIndex, hrow, State.withoutIndex, erase_of_first_none hrow]
  | some row =>
    have hkey : indexKey row = .ok (serviceIndexName name).lower := key_of_first hrow
    simp [dropServiceIndex, hrow, wp_delete Tables.index hkey hrow, State.withoutIndex]

def setLastExtinction (idx : Nat) : StoreTxn Unit :=
  wrap ("failed updating missing service index: " ++ ·)
    (insert Tables.index { key := .serviceLastExtinction, value := idx })

def touchDeletedServiceName (idx : Nat) (name : String) : StoreTxn Unit := do
  match ← read fun s => (servicesNamed name s).head? with
  | some _ => setIndex (serviceIndexName name) idx
  | none =>
    dropServiceIndex name
    setLastExtinction idx

def deleteServiceTxn (idx : Nat) (node serviceID : String) : StoreTxn Unit := do
  match ← read (serviceRow node serviceID) with
  | none => return
  | some svc =>
    let checks ← read (checksOfService node serviceID)
    forEach checks fun check => deleteCheckTxn idx node check.checkID
    setIndex (.table "checks") idx
    wrap ("failed deleting service: " ++ ·) (delete Tables.services svc)
    setIndex (.table "services") idx
    setIndex (serviceKindIndexName svc.serviceKind) idx
    touchDeletedServiceName idx svc.serviceName

def deleteCoordinate (idx : Nat) (coord : Coordinate) : StoreTxn Unit := do
  wrap ("failed deleting coordinate: " ++ ·) (delete Tables.coordinates coord)
  setIndex (.table "coordinates") idx

def deleteNodeTxn (idx : Nat) (nodeName : String) : StoreTxn Unit := do
  match ← read (nodeRow nodeName) with
  | none => return
  | some node =>
    let services ← read (servicesOfNode nodeName)
    forEach services (touchService idx)
    forEach services fun svc => deleteServiceTxn idx nodeName svc.serviceID
    let checks ← read (checksOfNode nodeName)
    forEach checks fun check => deleteCheckTxn idx nodeName check.checkID
    let coords ← read (coordinatesOfNode nodeName)
    forEach coords (deleteCoordinate idx)
    wrap ("failed deleting node: " ++ ·) (delete Tables.nodes node)
    setIndex (.table "nodes") idx
    let sessions ← read (sessionsOfNode nodeName)
    deleteSessions idx "failed session delete" (sessions.map (·.id))

/-- A delete by check-and-set: it counts only when the row is there with the index `cidx`. -/
def deleteCAS (cidx : Nat) (modifyIndex : State → Option Nat) (delete : StoreTxn Unit) :
    StoreTxn Bool := do
  match ← read modifyIndex with
  | none => return false
  | some m =>
    if m ≠ cidx then return false
    else
      delete
      return true

def deleteNodeCASTxn (idx cidx : Nat) (node : String) : StoreTxn Bool :=
  deleteCAS cidx (fun s => (nodeRow node s).map (·.modifyIndex)) (deleteNodeTxn idx node)

def deleteServiceCASTxn (idx cidx : Nat) (node serviceID : String) : StoreTxn Bool :=
  deleteCAS cidx (fun s => (serviceRow node serviceID s).map (·.modifyIndex))
    (deleteServiceTxn idx node serviceID)

def deleteCheckCASTxn (idx cidx : Nat) (node checkID : String) : StoreTxn Bool :=
  deleteCAS cidx (fun s => (checkRow node checkID s).map (·.modifyIndex))
    (deleteCheckTxn idx node checkID)

/-! ## Nodes -/

/-- A node counts as healthy when its gossip check is there and is not critical. -/
def nodeHealthy (enode : Node) (s : State) : Bool :=
  (checkRow enode.node serfCheckID s).any (·.status != healthCritical)

def nodeWithSimilarName (node : Node) (allowClashWithoutID : Bool) (s : State) : Option Node :=
  s.nodes.values.find? fun enode =>
    equalFold node.node enode.node && node.id != enode.id &&
      !(enode.id == "" && allowClashWithoutID) && nodeHealthy enode s

/-- The error when another node keeps the name. -/
def ensureNoNodeWithSimilarNameTxn (node : Node) (allowClashWithoutID : Bool) :
    StoreTxn Unit := do
  match ← read (nodeWithSimilarName node allowClashWithoutID) with
  | none => return
  | some enode =>
    fail ("Node name " ++ node.node ++ " is reserved by node " ++ enode.id ++ " with name " ++
      enode.node ++ " (" ++ enode.address ++ ")")

/-- Makes room for a node that gets another name. -/
def renameNode (idx : Nat) (node n : Node) : StoreTxn Unit := do
  let context := "Error while renaming Node ID: " ++ quote node.id ++ " (" ++ node.address ++ ")"
  wrap ((context ++ ": ") ++ ·) (ensureNoNodeWithSimilarNameTxn node false)
  wrap (fun _ => context ++ " from " ++ n.node ++ " to " ++ node.node)
    (deleteNodeTxn idx n.node)

/-- The registered node with the same ID. When it has another name, the node is being renamed,
and the old one is deleted. -/
def nodeWithSameID (idx : Nat) (node : Node) : StoreTxn (Option Node) := do
  if node.id = "" then return none
  else
    match ← wrap ("node lookup failed: " ++ ·) (getNodeIDTxn node.id) with
    | none =>
      wrap (("Error while renaming Node ID: " ++ quote node.id ++ ": ") ++ ·)
        (ensureNoNodeWithSimilarNameTxn node true)
      return none
    | some n =>
      if n.node ≠ node.node then renameNode idx node n
      return some n

def insertNode (idx : Nat) (node : Node) : StoreTxn Unit := do
  wrap ("failed inserting node: " ++ ·) (insert Tables.nodes node)
  setIndex (.table "nodes") idx
  wrap ("failed updating index: " ++ ·) (updateAllServiceIndexesOfNode idx node.node)

/-- Writes a node over the registered one. A node that is the same is not written. -/
def replaceNode (idx : Nat) (node : Node) : Option Node → StoreTxn Unit
  | some n =>
    if node.isSame n then pure ()
    else insertNode idx { node with createIndex := n.createIndex, modifyIndex := idx }
  | none => insertNode idx { node with createIndex := idx, modifyIndex := idx }

def ensureNodeTxn (idx : Nat) (node : Node) : StoreTxn Unit := do
  let n ← nodeWithSameID idx node
  let existing ← read (nodeRow node.node)
  replaceNode idx node (n <|> existing)

def ensureNodeCASTxn (idx : Nat) (node : Node) : StoreTxn Bool := do
  let existing ← read (nodeRow node.node)
  if casRefuses node.modifyIndex (existing.map (·.modifyIndex)) then return false
  else
    ensureNodeTxn idx node
    return true

/-! ## Services -/

def insertService (idx : Nat) (entry : ServiceNode) : StoreTxn Unit := do
  wrap ("failed inserting service: " ++ ·) (insert Tables.services entry)
  setIndex (.table "services") idx
  touchService idx entry

def ensureServiceTxn (idx : Nat) (node : String) (svc : NodeService) : StoreTxn Unit := do
  wrap (("Invalid Service Meta for node " ++ node ++ " and serviceID " ++ svc.id ++ ": ") ++ ·)
    (ofExcept (validateMetadata svc.metadata false))
  match ← read (nodeRow node) with
  | none => fail errMissingNode
  | some _ =>
    let entry := svc.toServiceNode node
    match ← read (serviceRow node svc.id) with
    | some serviceNode =>
      if entry.isSameService serviceNode then return
      else insertService idx { entry with
        createIndex := serviceNode.createIndex, modifyIndex := idx }
    | none => insertService idx { entry with createIndex := idx, modifyIndex := idx }

def ensureServiceCASTxn (idx : Nat) (node : String) (svc : NodeService) : StoreTxn Bool := do
  let existing ← read (serviceRow node svc.id)
  if casRefuses svc.modifyIndex (existing.map (·.modifyIndex)) then return false
  else
    ensureServiceTxn idx node svc
    return true

/-! ## Checks -/

/-- The check as it is stored, when `existing` is the one it replaces: its status and what it
takes from the old one. -/
def checkToStore (idx : Nat) (hc : HealthCheck) (existing : Option HealthCheck) : HealthCheck :=
  { hc with
    createIndex := (existing.map (·.createIndex)).getD idx
    modifyIndex := (existing.map (·.modifyIndex)).getD idx
    status := if hc.status = "" then healthCritical else hc.status }

/-- Whether a check differs from the stored one in something that counts. -/
def checkModified (hc : HealthCheck) (existing : Option HealthCheck) : Bool :=
  !existing.any (·.isSame hc)

/-- Writes the index rows that a changed check needs, and copies the name and the tags of the
service into it. -/
def linkCheck (idx : Nat) (hc : HealthCheck) (existing : Option HealthCheck) :
    StoreTxn HealthCheck := do
  if hc.serviceID ≠ "" then
    match ← read (serviceRow hc.node hc.serviceID) with
    | none => fail errMissingService
    | some svc =>
      let hc := { hc with serviceName := svc.serviceName, serviceTags := svc.serviceTags }
      if checkModified hc existing then
        touchService idx svc
      return hc
  else
    if checkModified hc existing then
      updateAllServiceIndexesOfNode idx hc.node
    return hc

def storeCheck (idx : Nat) (hc : HealthCheck) : StoreTxn Unit := do
  wrap ("failed inserting check: " ++ ·) (insert Tables.checks hc)
  setIndex (.table "checks") idx

/-- Stores a check. One that turns critical ends its sessions; one that did not change keeps
its index. -/
def ensureCheckTxn (idx : Nat) (hc : HealthCheck) : StoreTxn Unit := do
  let existing ← read (checkRow hc.node hc.checkID)
  let hc := checkToStore idx hc existing
  match ← read (nodeRow hc.node) with
  | none => fail errMissingNode
  | some _ =>
    let hc ← linkCheck idx hc existing
    if hc.status = healthCritical then
      deleteSessionsOfCheck idx hc.node hc.checkID
    storeCheck idx (if checkModified hc existing then { hc with modifyIndex := idx } else hc)

def ensureCheckCASTxn (idx : Nat) (hc : HealthCheck) : StoreTxn Bool := do
  let existing ← read (checkRow hc.node hc.checkID)
  if casRefuses hc.modifyIndex (existing.map (·.modifyIndex)) then return false
  else
    ensureCheckTxn idx hc
    return true

/-! ## Registrations -/

def ensureCheckIfNodeMatches (idx : Nat) (node : String) (check : HealthCheck) :
    StoreTxn Unit := do
  if check.node ≠ node then
    fail ("check node " ++ quote check.node ++ " does not match node " ++ quote node)
  else
    wrap (fun text => "failed inserting check: " ++ text ++ " on node " ++ quote check.node)
      (ensureCheckTxn idx check)

/-- The node of a registration. -/
def RegisterRequest.toNode (req : RegisterRequest) : Node where
  id := req.id
  node := req.node
  address := req.address
  datacenter := req.datacenter
  taggedAddresses := req.taggedAddresses
  metadata := req.nodeMeta

/-- The node part of a registration. -/
def registerNode (idx : Nat) (req : RegisterRequest) : StoreTxn Unit := do
  let existing ← read (nodeRow req.node)
  if req.changesNode existing then
    wrap ("failed inserting node: " ++ ·) (ensureNodeTxn idx req.toNode)

/-- The service part of a registration. -/
def registerService (idx : Nat) (node : String) (svc : NodeService) : StoreTxn Unit := do
  let existing ← read (serviceRow node svc.id)
  if !existing.any (·.toNodeService.isSame svc) then
    wrap ("failed inserting service: " ++ ·) (ensureServiceTxn idx node svc)

def ensureRegistrationTxn (idx : Nat) (req : RegisterRequest) : StoreTxn Unit := do
  registerNode idx req
  forEach req.service.toList (registerService idx req.node)
  forEach (req.check.toList ++ req.checks) (ensureCheckIfNodeMatches idx req.node)

/-! ## Health queries -/

/-- The index of a service for a query. A service without instances has the index of the last
extinction of any service. -/
def maxIndexForService (name : String) (serviceExists checks : Bool) (s : State) : Nat :=
  match (if serviceExists then none else s.indexOf .serviceLastExtinction) with
  | some missing => missing
  | none =>
    match s.indexOf (serviceIndexName name) with
    | some idx => idx
    | none => maxIndexTxn (if checks then ["nodes", "services", "checks"] else ["nodes", "services"]) s

/-- The name for which an instance takes Connect traffic: the destination of a proxy, or the
own name of a native service. -/
def connectName (svc : ServiceNode) : Option String :=
  if svc.serviceKind = .connectProxy then some svc.serviceProxy.destinationServiceName
  else if svc.serviceConnect.native then some svc.serviceName
  else none

def connectServices (name : String) (s : State) : List ServiceNode :=
  s.services.seek (entryOf serviceKey fun svc => (connectName svc).map indexField) (indexField name)

/-! ## Service queries -/

/-- An instance with what its query adds of its node. -/
structure FilledServiceNode where
  service : ServiceNode
  id : String
  address : String
  datacenter : String
  taggedAddresses : GoMap String
  nodeMeta : GoMap String
deriving DecidableEq

def ServiceNode.filled (svc : ServiceNode) (node : Node) : FilledServiceNode where
  service := svc
  id := node.id
  address := node.address
  datacenter := node.datacenter
  taggedAddresses := node.taggedAddresses
  nodeMeta := node.metadata

/-- Fills in the node of an instance. A node that is not there crashes the server. -/
def fillServiceNode (s : State) (svc : ServiceNode) : Except Fault FilledServiceNode :=
  match nodeRow svc.node s with
  | none => .error (.panic "interface conversion: interface \x7b\x7d is nil, not *structs.Node")
  | some node => .ok (svc.filled node)

def parseServiceNodes (services : List ServiceNode) (s : State) :
    Except Fault (List FilledServiceNode) := services.mapM (fillServiceNode s)

def serviceNodes (name : String) (connect : Bool) (s : State) :
    Except Fault (Nat × List FilledServiceNode) := do
  let services := if connect then connectServices name s else servicesNamed name s
  let results ← parseServiceNodes services s
  return (maxIndexForService name (!results.isEmpty) false s, results)

/-- Whether an instance lacks one of the tags. -/
def serviceTagsFilter (svc : ServiceNode) (tags : List String) : Bool :=
  tags.any fun tag => !(svc.serviceTags.getD []).any fun t => toLower t == toLower tag

def serviceTagNodes (name : String) (tags : List String) (s : State) :
    Except Fault (Nat × List FilledServiceNode) := do
  let services := servicesNamed name s
  let results ← parseServiceNodes (services.filter fun svc => !serviceTagsFilter svc tags) s
  return (maxIndexForService name (!services.isEmpty) false s, results)

/-- The instances that listen on an address. -/
def serviceAddressNodes (address : String) (s : State) :
    Except Fault (Nat × List FilledServiceNode) := do
  let results ← parseServiceNodes (s.services.get fun svc => svc.serviceAddress == address ||
    (pairsOf svc.serviceTaggedAddresses).any (·.2.address == address)) s
  return (0, results)

/-! ## Instances with their checks -/

/-- One instance with its node and its checks: those of the node first. -/
def checkServiceNode (s : State) (svc : ServiceNode) : Except String CheckServiceNode :=
  match nodeRow svc.node s with
  | none => .error errMissingNode
  | some node => .ok {
      node := node
      service := svc.toNodeService
      checks := nodeLevelChecks svc.node s ++ checksOfService svc.node svc.serviceID s }

/-- The index of a health query with these instances: the highest one of their names. -/
def healthIndex (name : String) (services : List ServiceNode) (s : State) : Nat :=
  if services.isEmpty then maxIndexForService name false true s
  else maxOf (fun svc => maxIndexForService svc.serviceName true true s) services

def checkServiceNodes (name : String) (connect : Bool) (s : State) :
    Except String (Nat × List CheckServiceNode) := do
  let services := if connect then connectServices name s else servicesNamed name s
  let results ← services.mapM (checkServiceNode s)
  return (healthIndex name services s, results)

end OpenGyoza
