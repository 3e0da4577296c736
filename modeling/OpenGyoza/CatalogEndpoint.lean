-- Registrations before they are applied: what a request must have, the values
-- that are filled in, and what the token of the client must be allowed to write.
import OpenGyoza.AclFilters
import OpenGyoza.Keys

namespace OpenGyoza

open Memdb

/-! ## Parts that stand outside -/

/-- What the checks of a request find in the encoded parts of a service or of a check. -/
class Definitions where
  /-- The errors in the upstreams of a proxy. -/
  upstreamErrors : String → List String
  /-- The errors in the exposed paths of a proxy. -/
  exposeErrors : String → List String
  hasUpstreams : String → Bool
  /-- The errors in a nested sidecar. -/
  sidecarErrors : String → List String
  /-- The type of a check by its definition. -/
  checkType : String → String

/-- Definitions without any error, for checks of no type. -/
@[reducible] def plainDefinitions : Definitions where
  upstreamErrors _ := []
  exposeErrors _ := []
  hasUpstreams _ := false
  sidecarErrors _ := []
  checkType _ := ""

def errPermissionDenied : String := "Permission denied"

def consulServiceName : String := "consul"

/-- White space as Unicode has it. -/
def isSpace (c : Char) : Bool :=
  c.toNat ∈ [0x09, 0x0a, 0x0b, 0x0c, 0x0d, 0x20, 0x85, 0xa0, 0x1680, 0x2028, 0x2029, 0x202f, 0x205f,
    0x3000] || (0x2000 ≤ c.toNat && c.toNat ≤ 0x200a)

/-- Nothing is left when the white space around a text is taken away. -/
def isBlank (text : String) : Bool := text.toList.all isSpace

/-- The text of several errors in one. -/
def multierror (errors : List String) : String :=
  match errors with
  | [text] => "1 error occurred:\n\t* " ++ text ++ "\n\n"
  | _ => toString errors.length ++ " errors occurred:\n\t" ++
      String.intercalate "\n\t" (errors.map ("* " ++ ·)) ++ "\n\n"

/-- An IPv4 or IPv6 address that stands for any. -/
def isAny (ip : String) : Bool := ip == "0.0.0.0" || (ip == "::" || ip == "[::]")

/-! ## Services, nodes and checks of a request -/

section Definitions

variable [Definitions]

/-- The texts of the checks that fail. -/
def failing (checks : List (Bool × String)) : List String :=
  (checks.filter (·.1)).map (·.2)

def NodeService.proxyErrors (s : NodeService) : List String :=
  failing
    [(isBlank s.proxy.destinationServiceName,
      "Proxy.DestinationServiceName must be non-empty for Connect proxy services"),
     (s.port == 0, "Port must be set for a Connect proxy"),
     (s.connect.native, "A Proxy cannot also be Connect Native, only typical services")] ++
    Definitions.upstreamErrors s.proxy.settings ++ Definitions.exposeErrors s.proxy.settings

def NodeService.gatewayErrors (s : NodeService) : List String :=
  failing
    [(s.port == 0, "Port must be non-zero for a Mesh Gateway"),
     (s.connect.sidecarService.isSome, "Mesh Gateways cannot have a sidecar service defined"),
     (s.proxy.destinationServiceName != "",
      "The Proxy.DestinationServiceName configuration is invalid for Mesh Gateways"),
     (s.proxy.destinationServiceID != "",
      "The Proxy.DestinationServiceID configuration is invalid for Mesh Gateways"),
     (s.proxy.localServiceAddress != "",
      "The Proxy.LocalServiceAddress configuration is invalid for Mesh Gateways"),
     (s.proxy.localServicePort != 0,
      "The Proxy.LocalServicePort configuration is invalid for Mesh Gateways"),
     (Definitions.hasUpstreams s.proxy.settings,
      "The Proxy.Upstreams configuration is invalid for Mesh Gateways")]

def NodeService.validate (s : NodeService) : Except String Unit :=
  let errors := (if s.kind = .connectProxy then s.proxyErrors else []) ++
    (if s.kind = .meshGateway then s.gatewayErrors else []) ++
    s.connect.sidecarService.elim [] Definitions.sidecarErrors
  if errors.isEmpty then .ok () else .error (multierror errors)

/-- The service of a request with its ID filled in, if it passes. -/
def servicePreApply (service : NodeService) (rule : Option Authorizer) :
    Except String NodeService := do
  service.validate
  let service := if service.id = "" ∧ service.service ≠ "" then
    { service with id := service.service } else service
  if service.id ≠ "" ∧ service.service = "" then .error "Must provide service name with ID"
  else if isAny service.address then .error "Invalid service address"
  -- The service of the servers themselves is left to the check of the whole request.
  else if service.service ≠ consulServiceName ∧
      rule.any (!·.serviceWrite (bytesOf service.service)) then .error errPermissionDenied
  else if service.kind = .connectProxy ∧
      rule.any (!·.serviceWrite (bytesOf service.proxy.destinationServiceName)) then
    .error errPermissionDenied
  else .ok service

/-- The check of a request with its ID filled in. -/
def checkPreApply (check : HealthCheck) : HealthCheck :=
  if check.checkID = "" ∧ check.name ≠ "" then { check with checkID := check.name } else check

/-- The check of a registration with all that is filled in. -/
def registeredCheck (node : String) (check : HealthCheck) : HealthCheck :=
  let check := checkPreApply { check with node := if check.node = "" then node else check.node }
  { check with
    type := if check.type = "" then Definitions.checkType check.definition else check.type }

end Definitions

variable [External]

def nodePreApply (nodeName nodeID : String) : Except String Unit :=
  if nodeName = "" then .error "Must provide node"
  else if nodeID = "" then .ok ()
  else
    match parseUUID nodeID with
    | .error text => .error ("Bad node ID: " ++ text)
    | .ok _ => .ok ()

/-! ## The services of a node -/

def minUUIDLookupLen : Nat := 2

/-- The name of a node, cut to an even length. -/
def resizeNodeLookupKey (bytes : List Byte) : List Byte :=
  if bytes.length % 2 ≠ 0 then bytes.dropLast else bytes

/-- The start of a UUID as the index takes it. -/
def uuidPrefix (bytes : List Byte) : Option (List Byte) :=
  let cs := bytes.map fun b => Char.ofNat b.val
  let sanitized := cs.filter (· != '-')
  if cs.length > 36 ∨ cs.count '-' > 4 ∨ sanitized.length % 2 ≠ 0 then none
  else (hexDecode sanitized).toOption

/-- The only node whose ID starts with what the name says, read as a UUID. -/
def nodeByIDPrefix (name : String) (s : State) : Option Node :=
  match uuidPrefix (resizeNodeLookupKey (bytesOf name)) with
  | none => none
  | some start =>
    match s.nodes.values.filter fun n => n.id != "" && start.isPrefixOf (idKey n.id) with
    | [n] => some n
    | _ => none

/-- The node by its name, or else by its ID. -/
def lookupNode (nameOrID : String) (s : State) : Option Node :=
  match nodeRow nameOrID s with
  | some n => some n
  | none =>
    if (bytesOf nameOrID).length < minUUIDLookupLen then none else nodeByIDPrefix nameOrID s

def nodeServices (nameOrID : String) (s : State) : Option NodeServices :=
  (lookupNode nameOrID s).map fun node =>
    { node := node
      services := some (Table.empty.putAll ((servicesOfNode node.node s).map fun svc =>
        (svc.serviceID, svc.toNodeService))) }

/-- The service of a node under an ID, in exactly these letters. -/
def NodeServices.lookup (ns : NodeServices) (id : String) : Option NodeService :=
  (ns.services.bind (·.first id)).map (·.2)

/-! ## Permissions -/

/-- The check of the node part: a request that says again what is stored needs no permission. -/
def vetNode (rule : Authorizer) (subj : RegisterRequest) (ns : Option NodeServices) :
    Except String Unit :=
  if subj.changesNode (ns.map (·.node)) ∧ !rule.nodeWrite (bytesOf subj.node) then
    .error errPermissionDenied
  else .ok ()

/-- The check of the service part: the new name, and the name that it replaces. -/
def vetService (rule : Authorizer) (ns : Option NodeServices) (service : NodeService) :
    Except String Unit :=
  if !rule.serviceWrite (bytesOf service.service) then .error errPermissionDenied
  else if (ns.bind (·.lookup service.id)).any fun other =>
      !rule.serviceWrite (bytesOf other.service) then
    .error errPermissionDenied
  else .ok ()

def vetCheck (rule : Authorizer) (subj : RegisterRequest) (ns : Option NodeServices)
    (check : HealthCheck) : Except String Unit :=
  if check.node ≠ subj.node then
    .error ("Node '" ++ check.node ++ "' for check '" ++ check.checkID ++
      "' doesn't match register request node '" ++ subj.node ++ "'")
  else if check.serviceID = "" then
    if !rule.nodeWrite (bytesOf subj.node) then .error errPermissionDenied else .ok ()
  else if subj.service.any (·.id == check.serviceID) then .ok ()
  else
    match ns.bind (·.lookup check.serviceID) with
    | none => .error ("Unknown service '" ++ check.serviceID ++ "' for check '" ++
        check.checkID ++ "'")
    | some other =>
      if !rule.serviceWrite (bytesOf other.service) then .error errPermissionDenied else .ok ()

def vetRegisterWithACL (rule : Option Authorizer) (subj : RegisterRequest)
    (ns : Option NodeServices) : Except String Unit :=
  match rule with
  | none => .ok ()
  | some rule => do
    vetNode rule subj ns
    subj.service.toList.forM (vetService rule ns)
    if subj.check.isSome then .error "check member must be nil"
    else subj.checks.forM (vetCheck rule subj ns)

/-- A registration up to the point where it is handed to raft. It is the request as it is
applied. -/
def catalogRegister [Definitions] (enforceVersion8 : Bool) (rule : Option Authorizer)
    (args : RegisterRequest) (s : State) : Except String RegisterRequest := do
  nodePreApply args.node args.id
  if args.address = "" ∧ !args.skipNodeUpdate then
    .error "Must provide address if SkipNodeUpdate is not set"
  else
    let service ← args.service.mapM (servicePreApply · rule)
    let args := { args with
      service := service
      check := none
      checks := (args.checks ++ args.check.toList).map (registeredCheck args.node) }
    if enforceVersion8 then vetRegisterWithACL rule args (nodeServices args.node s)
    return args

end OpenGyoza
