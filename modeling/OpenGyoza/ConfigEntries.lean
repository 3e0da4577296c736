-- The entries of the central configuration: the defaults of a service and
-- of the proxies, and the routers, splitters and resolvers from which the
-- discovery chain of a service is made.
import OpenGyoza.Structs

namespace OpenGyoza

/-! ## What comes from other packages -/

/-- Numbers of type `float32`, and what the decoders and the printers of other packages give. -/
class ConfigExternal where
  /-- The nearest `float32`. -/
  round32 : ℚ → ℚ
  /-- The form `%f` of a number. -/
  formatFloat : ℚ → String
  /-- The form `%s` of a duration. -/
  formatDuration : Int → String
  /-- The protocol in the configuration of a proxy, or nothing when it cannot be decoded. -/
  weakDecodeProtocol : String → String

/-- `math.Round`: halves go away from zero. -/
def mathRound (q : ℚ) : Int := if 0 ≤ q then ⌊q + 1 / 2⌋ else -⌊-q + 1 / 2⌋

/-! ## Entries -/

/-- Any text: it is not checked when an entry is written. -/
def MeshGatewayMode : Type := String
deriving DecidableEq

def MeshGatewayMode.modeDefault : MeshGatewayMode := ("" : String)

structure ServiceConfigEntry where
  name : String
  protocol : String := ""
  meshGateway : MeshGatewayMode := .modeDefault
  externalSNI : String := ""
deriving DecidableEq

/-- The configuration stands here as its text. -/
structure ProxyConfigEntry where
  name : String
  config : String := ""
  meshGateway : MeshGatewayMode := .modeDefault
deriving DecidableEq

structure ServiceRouteHTTPMatchHeader where
  name : String
  present : Bool := false
  exact : String := ""
  startsWith : String := ""
  endsWith : String := ""
  regex : String := ""
deriving DecidableEq

structure ServiceRouteHTTPMatchQueryParam where
  name : String
  present : Bool := false
  exact : String := ""
  regex : String := ""
deriving DecidableEq

structure ServiceRouteHTTPMatch where
  pathExact : String := ""
  pathPrefix : String := ""
  pathRegex : String := ""
  header : List ServiceRouteHTTPMatchHeader := []
  queryParam : List ServiceRouteHTTPMatchQueryParam := []
  methods : List String := []
deriving DecidableEq

structure ServiceRouteDestination where
  service : String := ""
  serviceSubset : String := ""
  namespaceName : String := ""
  prefixRewrite : String := ""
deriving DecidableEq

/-- `http` is missing when the route has no criteria. -/
structure ServiceRoute where
  http : Option ServiceRouteHTTPMatch := none
  destination : Option ServiceRouteDestination := none
deriving DecidableEq

structure ServiceRouterConfigEntry where
  name : String
  routes : List ServiceRoute := []
deriving DecidableEq

structure ServiceSplit where
  weight : ℚ
  service : String := ""
  serviceSubset : String := ""
  namespaceName : String := ""
deriving DecidableEq

structure ServiceSplitterConfigEntry where
  name : String
  splits : List ServiceSplit := []
deriving DecidableEq

structure ServiceResolverSubset where
  filter : String := ""
  onlyPassing : Bool := false
deriving DecidableEq

structure ServiceResolverRedirect where
  service : String := ""
  serviceSubset : String := ""
  namespaceName : String := ""
  datacenter : String := ""
deriving DecidableEq

structure ServiceResolverFailover where
  service : String := ""
  serviceSubset : String := ""
  namespaceName : String := ""
  datacenters : List String := []
deriving DecidableEq

/-- The maps stand in the order in which they are walked. -/
structure ServiceResolverConfigEntry where
  name : String
  defaultSubset : String := ""
  subsets : List (String × ServiceResolverSubset) := []
  redirect : Option ServiceResolverRedirect := none
  failover : List (String × ServiceResolverFailover) := []
  connectTimeout : Int := 0
deriving DecidableEq

namespace ServiceResolverConfigEntry

def subsetExists (e : ServiceResolverConfigEntry) (name : String) : Bool :=
  if name = "" then true else (e.subsets.lookup name).isSome

def isDefault (e : ServiceResolverConfigEntry) : Bool :=
  e.defaultSubset = "" ∧ e.subsets = [] ∧ e.redirect = none ∧ e.failover = [] ∧
    e.connectTimeout = 0

end ServiceResolverConfigEntry

inductive ConfigKind where
  | serviceDefaults
  | proxyDefaults
  | serviceRouter
  | serviceSplitter
  | serviceResolver
deriving DecidableEq

namespace ConfigKind

def text : ConfigKind → String
  | serviceDefaults => "service-defaults"
  | proxyDefaults => "proxy-defaults"
  | serviceRouter => "service-router"
  | serviceSplitter => "service-splitter"
  | serviceResolver => "service-resolver"

def all : List ConfigKind :=
  [serviceDefaults, proxyDefaults, serviceRouter, serviceSplitter, serviceResolver]

end ConfigKind

def proxyConfigGlobal : String := "global"

/-- An entry without the indexes that the store gives it. -/
inductive ConfigContent where
  | serviceDefaults (e : ServiceConfigEntry)
  | proxyDefaults (e : ProxyConfigEntry)
  | serviceRouter (e : ServiceRouterConfigEntry)
  | serviceSplitter (e : ServiceSplitterConfigEntry)
  | serviceResolver (e : ServiceResolverConfigEntry)
deriving DecidableEq

structure ConfigEntry where
  content : ConfigContent
  createIndex : Nat := 0
  modifyIndex : Nat := 0
deriving DecidableEq

namespace ConfigContent

def kind : ConfigContent → ConfigKind
  | serviceDefaults _ => .serviceDefaults
  | proxyDefaults _ => .proxyDefaults
  | serviceRouter _ => .serviceRouter
  | serviceSplitter _ => .serviceSplitter
  | serviceResolver _ => .serviceResolver

def name : ConfigContent → String
  | serviceDefaults e => e.name
  | proxyDefaults e => e.name
  | serviceRouter e => e.name
  | serviceSplitter e => e.name
  | serviceResolver e => e.name

end ConfigContent

/-! ## Related services -/

/-- Each name once, in order. -/
def sortedNames (names : List String) : List String := names.dedup.insertionSort (· ≤ ·)

theorem mem_sortedNames {names : List String} {n : String} : n ∈ sortedNames names ↔ n ∈ names := by
  unfold sortedNames
  rw [(List.perm_insertionSort _ _).mem_iff, List.mem_dedup]

/-- The catch-all route leads to the service of the router itself. -/
def ServiceRouterConfigEntry.listRelatedServices (e : ServiceRouterConfigEntry) : List String :=
  sortedNames (e.name :: ((e.routes.filterMap (·.destination)).map (·.service)).filter (· ≠ ""))

def ServiceSplitterConfigEntry.listRelatedServices (e : ServiceSplitterConfigEntry) :
    List String :=
  sortedNames ((e.splits.map (·.service)).filter (· ≠ ""))

def ServiceResolverConfigEntry.listRelatedServices (e : ServiceResolverConfigEntry) :
    List String :=
  sortedNames ((e.redirect.toList.map (·.service) ++ e.failover.map (·.2.service)).filter (· ≠ ""))

/-- The services that an entry refers to. The defaults refer to none. -/
def ConfigContent.listRelatedServices : ConfigContent → List String
  | serviceDefaults _ => []
  | proxyDefaults _ => []
  | serviceRouter e => e.listRelatedServices
  | serviceSplitter e => e.listRelatedServices
  | serviceResolver e => e.listRelatedServices

/-! ## Checks of single entries -/

section Validate

variable [External] [ConfigExternal]

/-- How many of the conditions hold. -/
def countTrue (conditions : List Bool) : Nat := conditions.countP id

def startsWithSlash (s : String) : Bool := s.toList.head? = some '/'

def routeText (i : Nat) : String := "Route[" ++ toString i ++ "]"

def ServiceRouteHTTPMatchHeader.validate (i j : Nat) (hdr : ServiceRouteHTTPMatchHeader) :
    Except String Unit := do
  if hdr.name = "" then
    throw (routeText i ++ " Header[" ++ toString j ++ "] missing required Name field")
  if countTrue [hdr.present, hdr.exact ≠ "", hdr.regex ≠ "", hdr.startsWith ≠ "",
      hdr.endsWith ≠ ""] ≠ 1 then
    throw (routeText i ++ " Header[" ++ toString j ++
      "] should only contain one of Present, Exact, Prefix, Suffix, or Regex")

def ServiceRouteHTTPMatchQueryParam.validate (i j : Nat) (qm : ServiceRouteHTTPMatchQueryParam) :
    Except String Unit := do
  if qm.name = "" then
    throw (routeText i ++ " QueryParam[" ++ toString j ++ "] missing required Name field")
  if countTrue [qm.present, qm.exact ≠ "", qm.regex ≠ ""] ≠ 1 then
    throw (routeText i ++ " QueryParam[" ++ toString j ++
      "] should only contain one of Present, Exact, or Regex")

/-- The first of the names that stands in the list a second time. -/
def firstRepeated : List String → List String → Option String
  | _, [] => none
  | found, m :: rest => if m ∈ found then some m else firstRepeated (m :: found) rest

def ServiceRouteHTTPMatch.validate (i : Nat) (m : ServiceRouteHTTPMatch) : Except String Unit := do
  if m.pathExact ≠ "" ∧ ¬startsWithSlash m.pathExact then
    throw (routeText i ++ " PathExact doesn't start with '/': " ++ quote m.pathExact)
  if m.pathPrefix ≠ "" ∧ ¬startsWithSlash m.pathPrefix then
    throw (routeText i ++ " PathPrefix doesn't start with '/': " ++ quote m.pathPrefix)
  if 1 < countTrue [m.pathExact ≠ "", m.pathPrefix ≠ "", m.pathRegex ≠ ""] then
    throw (routeText i ++
      " should only contain at most one of PathExact, PathPrefix, or PathRegex")
  m.header.zipIdx.forM fun (hdr, j) => hdr.validate i j
  m.queryParam.zipIdx.forM fun (qm, j) => qm.validate i j
  match firstRepeated [] m.methods with
  | some name => throw (routeText i ++ " Methods contains " ++ quote name ++ " more than once")
  | none => pure ()

/-- Only a route that matches a path may rewrite it. -/
def ServiceRoute.validate (i : Nat) (route : ServiceRoute) : Except String Unit := do
  let eligibleForPrefixRewrite : Bool := match route.http with
    | some m => m.pathExact ≠ "" ∨ m.pathPrefix ≠ ""
    | none => false
  match route.http with
  | some m => m.validate i
  | none => pure ()
  match route.destination with
  | some d =>
    if d.prefixRewrite ≠ "" ∧ ¬eligibleForPrefixRewrite then
      throw (routeText i ++
        " cannot make use of PrefixRewrite without configuring either PathExact or PathPrefix")
  | none => pure ()

def ServiceRouterConfigEntry.validate (e : ServiceRouterConfigEntry) : Except String Unit := do
  if e.name = "" then throw "Name is required"
  e.routes.zipIdx.forM fun (route, i) => route.validate i

/-- A weight in units of 0.01%. -/
def scaleWeight (v : ℚ) : Int := mathRound (ConfigExternal.round32 (v * 100))

def normalizeServiceSplitWeight (weight : ℚ) : ℚ :=
  ConfigExternal.round32 (ConfigExternal.round32 (scaleWeight weight) / 100)

/-- The first split whose destination an earlier one has. -/
def repeatedSplit : List ServiceSplit → List ServiceSplit → Option ServiceSplit
  | _, [] => none
  | found, key :: rest => if key ∈ found then some key else repeatedSplit (key :: found) rest

def ServiceSplitterConfigEntry.validate (e : ServiceSplitterConfigEntry) :
    Except String Unit := do
  if e.name = "" then throw "Name is required"
  if e.splits = [] then throw "no splits configured"
  let keys := e.splits.map fun s =>
    { s with weight := 0, service := if s.service = "" then e.name else s.service }
  match repeatedSplit [] keys with
  | some key =>
    throw ("split destination occurs more than once: service=" ++ quote key.service ++
      ", subset=" ++ quote key.serviceSubset ++ ", namespace=" ++ quote key.namespaceName)
  | none => pure ()
  let sumScaled := (e.splits.map fun s => scaleWeight s.weight).sum
  if sumScaled ≠ 10000 then
    throw ("the sum of all split weights must be 100, not " ++
      ConfigExternal.formatFloat (ConfigExternal.round32 (ConfigExternal.round32 sumScaled / 100)))

/-- A lower case letter or a digit. -/
def isSubsetChar (c : Char) : Bool := ('a' ≤ c ∧ c ≤ 'z') ∨ ('0' ≤ c ∧ c ≤ '9')

def validServiceSubset (s : String) : Bool :=
  s.toList ≠ [] ∧ s.toList.all (fun c => isSubsetChar c ∨ c = '-') ∧
    s.toList.head?.all isSubsetChar ∧ s.toList.getLast?.all isSubsetChar

def validateServiceSubset (subset : String) : Except String Unit := do
  if subset = "" ∨ 63 < subset.utf8ByteSize then
    throw "must be non-empty and 63 characters or fewer"
  if ¬validServiceSubset subset then
    throw ("must be 63 characters or fewer, begin or end with lower case alphanumeric " ++
      "characters, and contain lower case alphanumeric characters or '-' in between")

namespace ServiceResolverConfigEntry

variable (e : ServiceResolverConfigEntry)

def isSubset (subset : String) : Bool := (e.subsets.lookup subset).isSome

def validateSubset (name : String) : Except String Unit := do
  if name = "" then throw "Subset defined with empty name"
  (validateServiceSubset name).mapError fun err =>
    "Subset " ++ quote name ++ " is invalid: " ++ err

def validateRedirect (r : ServiceResolverRedirect) : Except String Unit := do
  if e.failover ≠ [] then throw "Redirect and Failover cannot both be set"
  if r.service = "" ∧ r.serviceSubset = "" ∧ r.namespaceName = "" ∧ r.datacenter = "" then
    throw "Redirect is empty"
  if r.service = "" then
    if r.serviceSubset ≠ "" then
      throw "Redirect.ServiceSubset defined without Redirect.Service"
    if r.namespaceName ≠ "" then
      throw "Redirect.Namespace defined without Redirect.Service"
  else if r.service = e.name then
    if r.serviceSubset ≠ "" ∧ ¬e.isSubset r.serviceSubset then
      throw ("Redirect.ServiceSubset " ++ quote r.serviceSubset ++ " is not a valid subset of " ++
        quote r.service)

def validateFailover (subset : String) (f : ServiceResolverFailover) : Except String Unit := do
  let bad := "Bad Failover[" ++ quote subset ++ "]"
  if subset ≠ "*" ∧ ¬e.isSubset subset then throw (bad ++ ": not a valid subset")
  if f.service = "" ∧ f.serviceSubset = "" ∧ f.namespaceName = "" ∧ f.datacenters = [] then
    throw (bad ++ " one of Service, ServiceSubset, Namespace, or Datacenters is required")
  if f.serviceSubset ≠ "" ∧ (f.service = "" ∨ f.service = e.name) ∧
      ¬e.isSubset f.serviceSubset then
    throw (bad ++ ".ServiceSubset " ++ quote f.serviceSubset ++ " is not a valid subset of " ++
      quote f.service)
  if "" ∈ f.datacenters then throw (bad ++ ".Datacenters: found empty datacenter")

def validate : Except String Unit := do
  if e.name = "" then throw "Name is required"
  e.subsets.forM fun (name, _) => validateSubset name
  if e.defaultSubset ≠ "" ∧ ¬e.isSubset e.defaultSubset then
    throw ("DefaultSubset " ++ quote e.defaultSubset ++ " is not a valid subset")
  e.redirect.toList.forM e.validateRedirect
  e.failover.forM fun (subset, f) => e.validateFailover subset f
  if e.connectTimeout < 0 then
    throw ("Bad ConnectTimeout '" ++ ConfigExternal.formatDuration e.connectTimeout ++
      "', must be >= 0")

end ServiceResolverConfigEntry

def ProxyConfigEntry.validate (e : ProxyConfigEntry) : Except String Unit := do
  if e.name ≠ proxyConfigGlobal then
    throw ("invalid name (" ++ quote e.name ++ "), only " ++ quote proxyConfigGlobal ++
      " is supported")

/-- The defaults of a service are not checked. -/
def ConfigContent.validate : ConfigContent → Except String Unit
  | serviceDefaults _ => .ok ()
  | proxyDefaults e => e.validate
  | serviceRouter e => e.validate
  | serviceSplitter e => e.validate
  | serviceResolver e => e.validate

/-! ## Normal forms -/

def ServiceConfigEntry.normalize (e : ServiceConfigEntry) : ServiceConfigEntry :=
  { e with protocol := toLower e.protocol }

def ProxyConfigEntry.normalize (e : ProxyConfigEntry) : ProxyConfigEntry :=
  { e with name := proxyConfigGlobal }

def ServiceRouterConfigEntry.normalize (e : ServiceRouterConfigEntry) : ServiceRouterConfigEntry :=
  { e with routes := e.routes.map fun route =>
      { route with http := route.http.map fun m => { m with methods := m.methods.map toUpper } } }

/-- The smallest weight is 0.01%. -/
def ServiceSplitterConfigEntry.normalize (e : ServiceSplitterConfigEntry) :
    ServiceSplitterConfigEntry :=
  { e with splits := e.splits.map fun split =>
      { split with weight := normalizeServiceSplitWeight split.weight } }

/-- A resolver is left as it is. -/
def ConfigContent.normalize : ConfigContent → ConfigContent
  | serviceDefaults e => .serviceDefaults e.normalize
  | proxyDefaults e => .proxyDefaults e.normalize
  | serviceRouter e => .serviceRouter e.normalize
  | serviceSplitter e => .serviceSplitter e.normalize
  | serviceResolver e => .serviceResolver e

/-- What an entry is like after `Normalize` and `Validate`. -/
def ConfigContent.Accepted (e : ConfigContent) : Prop :=
  (∃ raw : ConfigContent, raw.normalize = e) ∧ e.validate = .ok ()

end Validate

end OpenGyoza
