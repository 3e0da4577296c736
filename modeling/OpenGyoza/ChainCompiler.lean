-- The compiler of discovery chains. It builds a graph of routers, splitters
-- and resolvers from the entries of the central configuration, refuses
-- graphs with cycles, joins splitters that follow one another, and drops
-- what is not used. Nodes and targets are shared by pointer in the source;
-- here they stand in maps, and a key takes the place of the pointer.
import OpenGyoza.ConfigEntries
import OpenGyoza.KeyMaps

namespace OpenGyoza

open Memdb Txn

/-! ## Chains -/

structure DiscoveryRoute where
  definition : ServiceRoute
  nextNode : String
deriving DecidableEq

structure DiscoverySplit where
  weight : ℚ
  nextNode : String
deriving DecidableEq

/-- `failover` is missing when there is no other target. -/
structure DiscoveryResolver where
  isDefault : Bool
  connectTimeout : Int
  target : String
  failover : Option (List String) := none
deriving DecidableEq

inductive DiscoveryGraphNode where
  | router (name : String) (routes : List DiscoveryRoute)
  | splitter (name : String) (splits : List DiscoverySplit)
  | resolver (name : String) (resolver : DiscoveryResolver)
deriving DecidableEq

def routerKey (name : String) : String := "router:" ++ name

def splitterKey (name : String) : String := "splitter:" ++ name

def resolverKey (name : String) : String := "resolver:" ++ name

namespace DiscoveryGraphNode

def mapKey : DiscoveryGraphNode → String
  | router name _ => routerKey name
  | splitter name _ => splitterKey name
  | resolver name _ => resolverKey name

def isSplitter : DiscoveryGraphNode → Bool
  | splitter _ _ => true
  | _ => false

/-- The nodes that come next. -/
def nextNodes : DiscoveryGraphNode → List String
  | router _ routes => routes.map (·.nextNode)
  | splitter _ splits => splits.map (·.nextNode)
  | resolver _ _ => []

end DiscoveryGraphNode

structure DiscoveryTarget where
  service : String
  serviceSubset : String
  namespaceName : String
  datacenter : String
  meshGateway : MeshGatewayMode := .modeDefault
  subset : ServiceResolverSubset := {}
  external : Bool := false
  sni : String := ""
  name : String := ""
deriving DecidableEq

def DiscoveryTarget.id (t : DiscoveryTarget) : String :=
  if t.serviceSubset = "" then t.service ++ "." ++ t.namespaceName ++ "." ++ t.datacenter
  else t.serviceSubset ++ "." ++ t.service ++ "." ++ t.namespaceName ++ "." ++ t.datacenter

structure CompiledDiscoveryChain where
  serviceName : String
  namespaceName : String
  datacenter : String
  customizationHash : String
  protocol : String
  startNode : String
  nodes : KeyMap String DiscoveryGraphNode
  targets : KeyMap String DiscoveryTarget

/-! ## The compiler -/

structure DiscoveryChainConfigEntries where
  routers : KeyMap String ServiceRouterConfigEntry := .empty
  splitters : KeyMap String ServiceSplitterConfigEntry := .empty
  resolvers : KeyMap String ServiceResolverConfigEntry := .empty
  services : KeyMap String ServiceConfigEntry := .empty
  globalProxy : Option ProxyConfigEntry := none

def DiscoveryChainConfigEntries.isChainEmpty (e : DiscoveryChainConfigEntries) : Bool :=
  e.routers.len = 0 ∧ e.splitters.len = 0 ∧ e.resolvers.len = 0

structure CompileRequest where
  serviceName : String
  evaluateInNamespace : String
  evaluateInDatacenter : String
  evaluateInTrustDomain : String
  useInDatacenter : String
  overrideMeshGateway : MeshGatewayMode := .modeDefault
  overrideProtocol : String := ""
  overrideConnectTimeout : Int := 0
  entries : Option DiscoveryChainConfigEntries

structure CustomizationMarkers where
  meshGateway : Bool := false
  protocol : Bool := false
  connectTimeout : Bool := false

def CustomizationMarkers.isZero (m : CustomizationMarkers) : Bool :=
  !m.meshGateway && !m.protocol && !m.connectTimeout

structure Compiler where
  resolvers : KeyMap String ServiceResolverConfigEntry
  splitterNodes : List String := []
  resolveNodes : List String := []
  usesAdvancedRoutingFeatures : Bool := false
  customizedBy : CustomizationMarkers := {}
  protocol : String := ""
  startNode : String := ""
  nodes : KeyMap String DiscoveryGraphNode := .empty
  loadedTargets : KeyMap String DiscoveryTarget := .empty
  retainedTargets : List String := []

/-- The hash of what a request overrides, a number of type `uint64`. -/
class Hashstructure where
  hash : MeshGatewayMode → String → Int → Nat

/-- The first eight hexadecimal digits of a number. A number with fewer digits crashes the
server. -/
def firstDigits (v : Nat) : Except Fault String :=
  let digits := Nat.toDigits 16 v
  if digits.length < 8 then .error (.panic "slice bounds out of range")
  else .ok (String.ofList (digits.take 8))

def defaultIfEmpty (val defaultVal : String) : String := if val ≠ "" then val else defaultVal

def enableAdvancedRoutingForProtocol (protocol : String) : Bool :=
  protocol = "http" ∨ protocol = "http2" ∨ protocol = "grpc"

def newDefaultServiceResolver (serviceName : String) : ServiceResolverConfigEntry :=
  { name := serviceName }

def newDefaultServiceRoute (serviceName : String) : ServiceRoute where
  http := some { pathPrefix := "/" }
  destination := some { service := serviceName }

def serviceSNI (service subset namespaceName datacenter trustDomain : String) : String :=
  let namespaceName := if namespaceName = "" then "default" else namespaceName
  if subset = "" then
    service ++ "." ++ namespaceName ++ "." ++ datacenter ++ ".internal." ++ trustDomain
  else
    subset ++ "." ++ service ++ "." ++ namespaceName ++ "." ++ datacenter ++ ".internal." ++
      trustDomain

def recordNode (node : DiscoveryGraphNode) : Txn Compiler Unit :=
  modify fun c => { c with
    splitterNodes := match node with
      | .splitter name _ => name :: c.splitterNodes
      | _ => c.splitterNodes
    resolveNodes := match node with
      | .resolver _ r => r.target :: c.resolveNodes
      | _ => c.resolveNodes
    nodes := c.nodes.insert node.mapKey node }

section Compile

variable [External] [ConfigExternal] (req : CompileRequest) (entries : DiscoveryChainConfigEntries)

/-- Whether the request asks for a protocol without routes and splits. -/
def disableAdvancedRoutingFeatures : Bool :=
  req.overrideProtocol ≠ "" ∧ ¬enableAdvancedRoutingForProtocol req.overrideProtocol

def recordProtocol (fromService protocol : String) : Txn Compiler Unit := do
  let protocol := if protocol = "" then "tcp" else toLower protocol
  let current ← read (·.protocol)
  if current = "" then modify fun c => { c with protocol := protocol }
  else if current ≠ protocol then
    fail ("discovery chain " ++ quote req.serviceName ++
      " uses inconsistent protocols; service " ++ quote fromService ++ " has " ++
      quote protocol ++ " which is not " ++ quote current)
  else pure ()

def recordServiceProtocol (serviceName : String) : Txn Compiler Unit :=
  match entries.services.get serviceName with
  | some serviceDefault => recordProtocol req serviceName serviceDefault.protocol
  | none =>
    match entries.globalProxy with
    | some proxy =>
      recordProtocol req serviceName (ConfigExternal.weakDecodeProtocol proxy.config)
    | none => recordProtocol req serviceName ""

/-! ## Targets -/

def newTarget (service serviceSubset namespaceName datacenter : String) :
    Txn Compiler DiscoveryTarget :=
  if service = "" then crash "newTarget called with empty service which makes no sense"
  else do
    let namespaceName := defaultIfEmpty namespaceName req.evaluateInNamespace
    let datacenter := defaultIfEmpty datacenter req.evaluateInDatacenter
    let sni := serviceSNI service serviceSubset namespaceName datacenter req.evaluateInTrustDomain
    let t : DiscoveryTarget := {
      service := service
      serviceSubset := serviceSubset
      namespaceName := namespaceName
      datacenter := datacenter
      sni := sni
      name := sni }
    match ← read (·.loadedTargets.get t.id) with
    | some prev => pure prev
    | none => do
      modify fun c => { c with loadedTargets := c.loadedTargets.insert t.id t }
      pure t

def rewriteTarget (t : DiscoveryTarget)
    (service serviceSubset namespaceName datacenter : String) : Txn Compiler DiscoveryTarget :=
  -- another service does not have the subsets of this one
  let moved := service ≠ "" ∧ service ≠ t.service
  newTarget req (if moved then service else t.service)
    (defaultIfEmpty serviceSubset (if moved then "" else t.serviceSubset))
    (defaultIfEmpty namespaceName t.namespaceName) (defaultIfEmpty datacenter t.datacenter)

/-! ## Resolvers -/

/-- What a target leads to after all redirects: a node that is already there, or a target that
its resolver takes as it is. -/
inductive Resolved where
  | known (id : String)
  | fresh (target : DiscoveryTarget) (resolver : ServiceResolverConfigEntry)

def fetchResolver (service : String) : Txn Compiler ServiceResolverConfigEntry := do
  match ← read (·.resolvers.get service) with
  | some resolver => pure resolver
  | none => do
    let resolver := newDefaultServiceResolver service
    modify fun c => { c with resolvers := c.resolvers.insert service resolver }
    pure resolver

/-- Where the resolver sends the target, if that is another one. -/
def redirectedTarget (target : DiscoveryTarget) (resolver : ServiceResolverConfigEntry) :
    Txn Compiler (Option DiscoveryTarget) :=
  match resolver.redirect with
  | none => pure none
  | some r => do
    let t ← rewriteTarget req target r.service r.serviceSubset r.namespaceName r.datacenter
    pure (if t.id ≠ target.id then some t else none)

/-- The loop behind the label `RESOLVE_AGAIN`. `redirectOrder` has the IDs that it has passed. -/
def resolveAgain : Nat → List String → DiscoveryTarget → Txn Compiler Resolved
  | 0, _, _ => crash "out of steps"
  | n + 1, redirectOrder, target => do
    if target.id ∈ (← read (·.resolveNodes)) then pure (.known target.id)
    else do
      recordServiceProtocol req entries target.service
      let resolver ← fetchResolver target.service
      let order := redirectOrder ++ [target.id]
      if target.id ∈ redirectOrder then
        fail ("detected circular resolver redirect: [" ++ " -> ".intercalate order ++ "]")
      else
        match ← redirectedTarget req target resolver with
        | some redirected => resolveAgain n order redirected
        | none =>
          if target.serviceSubset = "" ∧ resolver.defaultSubset ≠ "" then do
            let t ← rewriteTarget req target "" resolver.defaultSubset "" ""
            resolveAgain n order t
          else if target.serviceSubset ≠ "" ∧ ¬resolver.subsetExists target.serviceSubset then
            fail ("service " ++ quote target.service ++ " does not have a subset named " ++
              quote target.serviceSubset)
          else pure (.fresh target resolver)

/-- The mesh gateway of a target, and whether the request has changed it. -/
def meshGatewayFor (t : DiscoveryTarget) : MeshGatewayMode × Bool :=
  if t.datacenter = req.useInDatacenter ∨ t.external then (.modeDefault, false)
  else
    let mode := match entries.services.get t.service with
      | some serviceDefault => serviceDefault.meshGateway
      | none => t.meshGateway
    let mode := match entries.globalProxy with
      | some proxy => if mode = .modeDefault then proxy.meshGateway else mode
      | none => mode
    if req.overrideMeshGateway ≠ .modeDefault ∧ mode ≠ req.overrideMeshGateway then
      (req.overrideMeshGateway, true)
    else (mode, false)

/-- A service that is reached by a name of its own is not part of the cluster. -/
def externalTarget (t : DiscoveryTarget) : DiscoveryTarget :=
  match entries.services.get t.service with
  | some serviceDefault =>
    if serviceDefault.externalSNI ≠ "" then
      { t with sni := serviceDefault.externalSNI, external := true }
    else t
  | none => t

def externalFault (t : DiscoveryTarget) (resolver : ServiceResolverConfigEntry) : Option String :=
  let fault := fun what => some ("service " ++ quote t.service ++
    " has an external SNI set; cannot define " ++ what ++ " for external services")
  if ¬t.external then none
  else if resolver.redirect.isSome then fault "redirects"
  else if resolver.subsets ≠ [] then fault "subsets"
  else if resolver.failover ≠ [] then fault "failover"
  else none

/-- The node of a target, which is kept in the results. The node is not recorded. -/
def buildResolver (target : DiscoveryTarget) (resolver : ServiceResolverConfigEntry) :
    Txn Compiler DiscoveryGraphNode := do
  -- five seconds, in nanoseconds
  let configured := if resolver.connectTimeout < 1 then 5000000000 else resolver.connectTimeout
  let overridden : Bool :=
    0 < req.overrideConnectTimeout ∧ configured ≠ req.overrideConnectTimeout
  let loaded ← read fun c => (c.loadedTargets.get target.id).getD target
  let t := externalTarget entries
    { loaded with subset := (resolver.subsets.lookup target.serviceSubset).getD {} }
  match externalFault t resolver with
  | some text => fail text
  | none => do
    let (mode, changed) := meshGatewayFor req entries t
    modify fun c => { c with
      loadedTargets := c.loadedTargets.insert target.id { t with meshGateway := mode }
      retainedTargets := target.id :: c.retainedTargets
      customizedBy := { c.customizedBy with
        connectTimeout := c.customizedBy.connectTimeout || overridden
        meshGateway := c.customizedBy.meshGateway || changed } }
    pure (.resolver target.id {
      isDefault := resolver.isDefault
      connectTimeout := if overridden then req.overrideConnectTimeout else configured
      target := target.id })

/-- The target of a failover. Its own failover is not looked at, and its node is not recorded. -/
def failoverNode (n : Nat) (target : DiscoveryTarget) : Txn Compiler String := do
  match ← resolveAgain req entries n [] target with
  | .known id => pure id
  | .fresh target resolver => do
    let _ ← buildResolver req entries target resolver
    pure target.id

/-- The section of the resolver that applies to a subset. -/
def ServiceResolverConfigEntry.failoverFor (e : ServiceResolverConfigEntry) (subset : String) :
    Option ServiceResolverFailover :=
  (e.failover.lookup subset).or (e.failover.lookup "*")

/-- The targets of a failover other than the target itself. -/
def failoverTargets (target : DiscoveryTarget) (failover : ServiceResolverFailover) :
    List String → Txn Compiler (List DiscoveryTarget)
  | [] => pure []
  | dc :: dcs => do
    let t ← rewriteTarget req target failover.service failover.serviceSubset
      failover.namespaceName dc
    let rest ← failoverTargets target failover dcs
    pure (if t.id ≠ target.id then t :: rest else rest)

/-- Changes the node of a resolver, which the recorded node shares. -/
def updateResolver (id : String) (f : DiscoveryResolver → DiscoveryResolver) :
    Txn Compiler Unit :=
  modify fun c => match c.nodes.get (resolverKey id) with
    | some (.resolver name r) =>
      { c with nodes := c.nodes.insert (resolverKey id) (.resolver name (f r)) }
    | _ => c

def addFailover (n : Nat) (id : String) (t : DiscoveryTarget) : Txn Compiler Unit := do
  let failoverTarget ← failoverNode req entries n t
  updateResolver id fun r => { r with failover := some (r.failover.getD [] ++ [failoverTarget]) }

def compileFailover (n : Nat) (target : DiscoveryTarget) (failover : ServiceResolverFailover) :
    Txn Compiler Unit := do
  let dcs := if failover.datacenters ≠ [] then failover.datacenters else [""]
  let targets ← failoverTargets req target failover dcs
  if targets ≠ [] then do
    updateResolver target.id fun r => { r with failover := some [] }
    forEach targets (addFailover req entries n target.id)
  else pure ()

/-- The node of a target, which is given by the ID of its final target. -/
def getResolverNode (n : Nat) (target : DiscoveryTarget) : Txn Compiler String := do
  match ← resolveAgain req entries n [] target with
  | .known id => pure id
  | .fresh target resolver => do
    let node ← buildResolver req entries target resolver
    recordNode node
    match resolver.failoverFor target.serviceSubset with
    | some failover => compileFailover req entries n target failover
    | none => pure ()
    pure target.id

/-! ## Splitters and the router -/

def addSplit (name : String) (split : DiscoverySplit) : Txn Compiler Unit :=
  modify fun c => match c.nodes.get (splitterKey name) with
    | some (.splitter name splits) =>
      { c with nodes := c.nodes.insert (splitterKey name) (.splitter name (splits ++ [split])) }
    | _ => c

/-- Where a split leads: to the splitter of another service, or else to a resolver. -/
def splitNext (getSplitter : String → Txn Compiler (Option String)) (n : Nat) (name : String)
    (split : ServiceSplit) : Txn Compiler String := do
  let svc := defaultIfEmpty split.service name
  let next ← if svc ≠ name ∧ split.serviceSubset = "" ∧ split.namespaceName = "" then
      getSplitter svc
    else pure none
  match next with
  | some key => pure key
  | none => do
    let t ← newTarget req svc split.serviceSubset split.namespaceName ""
    let id ← getResolverNode req entries n t
    pure (resolverKey id)

def compileSplit (getSplitter : String → Txn Compiler (Option String)) (n : Nat) (name : String)
    (split : ServiceSplit) : Txn Compiler Unit := do
  let nextNode ← splitNext req entries getSplitter n name split
  addSplit name { weight := split.weight, nextNode := nextNode }

def getSplitterNode (n : Nat) : Nat → String → Txn Compiler (Option String)
  | 0, _ => crash "out of steps"
  | m + 1, name => do
    if name ∈ (← read (·.splitterNodes)) then pure (some (splitterKey name))
    else
      match entries.splitters.get name with
      | none => pure none
      | some splitter =>
        if disableAdvancedRoutingFeatures req then do
          modify fun c => { c with customizedBy := { c.customizedBy with protocol := true } }
          pure none
        else do
          recordNode (.splitter name [])
          forEach splitter.splits (compileSplit req entries (getSplitterNode n m) n name)
          modify fun c => { c with usesAdvancedRoutingFeatures := true }
          pure (some (splitterKey name))

def getSplitterOrResolverNode (n : Nat) (target : DiscoveryTarget) : Txn Compiler String := do
  match ← getSplitterNode req entries n n target.service with
  | some key => pure key
  | none => do
    let id ← getResolverNode req entries n target
    pure (resolverKey id)

def routeNext (n : Nat) (dest : ServiceRouteDestination) : Txn Compiler String := do
  let t ← newTarget req (defaultIfEmpty dest.service req.serviceName) dest.serviceSubset
    dest.namespaceName ""
  if dest.serviceSubset = "" ∧ dest.namespaceName = "" then
    getSplitterOrResolverNode req entries n t
  else do
    let id ← getResolverNode req entries n t
    pure (resolverKey id)

/-- A route without a destination crashes the server. -/
def compileRoutes (n : Nat) : List ServiceRoute → Txn Compiler (List DiscoveryRoute)
  | [] => pure []
  | route :: routes =>
    match route.destination with
    | none => crash "invalid memory address or nil pointer dereference"
    | some dest => do
      let next ← routeNext req entries n dest
      let rest ← compileRoutes n routes
      pure ({ definition := route, nextNode := next } :: rest)

def defaultNext (n : Nat) : Txn Compiler String := do
  let t ← newTarget req req.serviceName "" "" ""
  getSplitterOrResolverNode req entries n t

def assembleRouter (n : Nat) (router : ServiceRouterConfigEntry) : Txn Compiler Unit := do
  modify fun c => { c with usesAdvancedRoutingFeatures := true }
  recordServiceProtocol req entries router.name
  let routes ← compileRoutes req entries n router.routes
  let next ← defaultNext req entries n
  let defaultRoute : DiscoveryRoute :=
    { definition := newDefaultServiceRoute req.serviceName, nextNode := next }
  modify fun c => { c with startNode := routerKey router.name }
  recordNode (.router router.name (routes ++ [defaultRoute]))

def assembleChain (n : Nat) : Txn Compiler Unit := do
  modify fun c =>
    if c.resolvers.len = 0 ∧ entries.isChainEmpty then
      { c with resolvers :=
          c.resolvers.insert req.serviceName (newDefaultServiceResolver req.serviceName) }
    else c
  let router := entries.routers.get req.serviceName
  modify fun c =>
    if router.isSome ∧ disableAdvancedRoutingFeatures req then
      { c with customizedBy := { c.customizedBy with protocol := true } }
    else c
  match router, disableAdvancedRoutingFeatures req with
  | some router, false => assembleRouter req entries n router
  | _, _ => do
    let next ← defaultNext req entries n
    modify fun c => { c with startNode := next }

end Compile

/-! ## Passes over the nodes -/

inductive Todo where
  | visit (key : String)
  | popvisit

/-- `visitChain` has the nodes on the way to the current one, the last one first. -/
def detectLoop (nodes : KeyMap String DiscoveryGraphNode) :
    Nat → List Todo → List String → List String → Except Fault Unit
  | 0, _, _, _ => .error (.panic "out of steps")
  | _ + 1, [], _, _ => .ok ()
  | n + 1, .popvisit :: todo, visited, [] => detectLoop nodes n todo visited []
  | n + 1, .popvisit :: todo, visited, v :: visitChain =>
    detectLoop nodes n todo (visited.filter (· ≠ v)) visitChain
  | n + 1, .visit current :: todo, visited, visitChain =>
    if current ∈ visited then
      .error (.error ("detected circular reference: [" ++
        " -> ".intercalate (current :: visitChain).reverse ++ "]"))
    else
      match nodes.get current with
      | none => .error (.panic "invalid memory address or nil pointer dereference")
      | some node =>
        detectLoop nodes n ((node.nextNodes.map .visit).reverse ++ .popvisit :: todo)
          (current :: visited) (current :: visitChain)

def detectCircularReferences (n : Nat) (nodes : KeyMap String DiscoveryGraphNode)
    (startNode : String) : Except Fault Unit :=
  detectLoop nodes n [.visit startNode] [] []

section Flatten

variable [ConfigExternal]

/-- A split of a splitter that is reached with a weight. -/
def innerSplit (weight : ℚ) (inner : DiscoverySplit) : DiscoverySplit where
  weight := normalizeServiceSplitWeight
    (ConfigExternal.round32 (ConfigExternal.round32 (weight * inner.weight) / 100))
  nextNode := inner.nextNode

/-- The splits with those of the next splitters in their place, and whether there are any. -/
def flattenSplits (nodes : KeyMap String DiscoveryGraphNode) :
    List DiscoverySplit → Except Fault (List DiscoverySplit × Bool)
  | [] => .ok ([], false)
  | split :: splits => do
    let (fixedSplits, changed) ← flattenSplits nodes splits
    match nodes.get split.nextNode with
    | none => .error (.panic "invalid memory address or nil pointer dereference")
    | some (.splitter _ inner) => .ok (inner.map (innerSplit split.weight) ++ fixedSplits, true)
    | some _ => .ok (split :: fixedSplits, changed)

def flattenNode (nodes : KeyMap String DiscoveryGraphNode) (key : String) :
    Except Fault (KeyMap String DiscoveryGraphNode × Bool) :=
  match nodes.get key with
  | some (.splitter name splits) => do
    let (fixedSplits, changed) ← flattenSplits nodes splits
    if changed then .ok (nodes.insert key (.splitter name fixedSplits), true)
    else .ok (nodes, false)
  | _ => .ok (nodes, false)

/-- One walk over the nodes. -/
def flattenNodes : List String → KeyMap String DiscoveryGraphNode →
    Except Fault (KeyMap String DiscoveryGraphNode × Bool)
  | [], nodes => .ok (nodes, false)
  | key :: keys, nodes => do
    let (nodes, changed) ← flattenNode nodes key
    let (nodes, anyChanged) ← flattenNodes keys nodes
    .ok (nodes, changed || anyChanged)

def flattenAdjacentSplitterNodes (w : Walks String) :
    Nat → KeyMap String DiscoveryGraphNode → Except Fault (KeyMap String DiscoveryGraphNode)
  | 0, _ => .error (.panic "out of steps")
  | n + 1, nodes => do
    let (nodes, anyChanged) ← flattenNodes (w.order n nodes.keys) nodes
    if anyChanged then flattenAdjacentSplitterNodes w n nodes else .ok nodes

end Flatten

section Prune

variable [External]

/-- The source takes the empty key for the end of the list. -/
def visitNode (nodes : KeyMap String DiscoveryGraphNode) (next : String) (visited : List String) :
    Except Fault (Option (List String × List String)) :=
  if next = "" then .ok none
  else if next ∈ visited then .ok (some (visited, []))
  else
    match nodes.get next with
    | none => .error (.error ("compilation references non-retained node " ++ quote next))
    | some node => .ok (some (next :: visited, node.nextNodes))

def removeUnusedNodes (w : Walks String) (n : Nat) (nodes : KeyMap String DiscoveryGraphNode)
    (startNode : String) : Except Fault (KeyMap String DiscoveryGraphNode) := do
  let visited ← w.run (.panic "out of steps") (visitNode nodes) n [startNode] []
  if visited.length = nodes.len then .ok nodes else .ok (nodes.filter (· ∈ visited))

end Prune

/-! ## The whole compilation -/

variable [External] [ConfigExternal] [Hashstructure]

/-- The hash of those overrides that have made a difference. -/
def customizationHash (req : CompileRequest) (markers : CustomizationMarkers) :
    Except Fault String :=
  if markers.isZero then .ok ""
  else firstDigits (Hashstructure.hash
    (if markers.meshGateway then req.overrideMeshGateway else .modeDefault)
    (if markers.protocol then req.overrideProtocol else "")
    (if markers.connectTimeout then req.overrideConnectTimeout else 0))

/-- The chain of a compiler that has assembled its nodes. -/
def Compiler.compile (w : Walks String) (n : Nat) (req : CompileRequest) (c : Compiler) :
    Except Fault CompiledDiscoveryChain :=
  if c.startNode = "" then .error (.panic "impossible to return no results")
  else do
    detectCircularReferences n c.nodes c.startNode
    let nodes ← flattenAdjacentSplitterNodes w n c.nodes
    let nodes ← removeUnusedNodes w n nodes c.startNode
    if ¬enableAdvancedRoutingForProtocol c.protocol ∧ c.usesAdvancedRoutingFeatures then
      .error (.error ("discovery chain " ++ quote req.serviceName ++ " uses a protocol " ++
        quote c.protocol ++ " that does not permit advanced routing or splitting behavior"))
    else do
      let changed : Bool := req.overrideProtocol ≠ "" ∧ req.overrideProtocol ≠ c.protocol
      let hash ← customizationHash req
        { c.customizedBy with protocol := c.customizedBy.protocol || changed }
      .ok {
        serviceName := req.serviceName
        namespaceName := req.evaluateInNamespace
        datacenter := req.evaluateInDatacenter
        customizationHash := hash
        protocol := if changed then req.overrideProtocol else c.protocol
        startNode := c.startNode
        nodes := nodes
        targets := c.loadedTargets.filter (· ∈ c.retainedTargets) }

/-- Compiles a chain. Go walks its maps in the orders of `w`, and no loop takes more than `n`
steps. -/
def CompileRequest.compile (w : Walks String) (n : Nat) (req : CompileRequest) :
    Except Fault CompiledDiscoveryChain :=
  if req.serviceName = "" then .error (.error "serviceName is required")
  else if req.evaluateInNamespace = "" then .error (.error "evaluateInNamespace is required")
  else if req.evaluateInDatacenter = "" then .error (.error "evaluateInDatacenter is required")
  else if req.evaluateInTrustDomain = "" then .error (.error "evaluateInTrustDomain is required")
  else if req.useInDatacenter = "" then .error (.error "useInDatacenter is required")
  else
    match req.entries with
    | none => .error (.error "entries is required")
    | some entries =>
      match assembleChain req entries n { resolvers := entries.resolvers } with
      | (.error e, _) => .error e
      | (.ok _, c) => c.compile w n req

end OpenGyoza
