-- The targets of a chain are kept by an ID in which dots stand between the
-- names. A name may have dots of its own, and then two destinations may
-- share an ID and the target that was made first.
import OpenGyoza.ChainForm
import OpenGyoza.ChainWalk

namespace OpenGyoza

open Memdb List

/-! ## IDs and labels -/

/-- The labels of a name, between which its dots stand. -/
def dotLabels (name : String) : List (List Char) := name.toList.splitOn '.'

/-- All labels of a destination in a row. -/
def Destination.labels (q : Destination) : List (List Char) :=
  (if q.serviceSubset = "" then [] else dotLabels q.serviceSubset) ++ dotLabels q.service ++
    dotLabels q.namespaceName ++ dotLabels q.datacenter

theorem dotLabels_append (a b : String) :
    dotLabels (a ++ "." ++ b) = dotLabels a ++ dotLabels b := by
  have hchars : (a ++ "." ++ b).toList = a.toList ++ '.' :: b.toList := by
    simp
  unfold dotLabels
  rw [hchars, splitOn_append_cons_self]

theorem dotLabels_injective : Function.Injective dotLabels := by
  intro a b h
  have hjoin := congrArg (['.'].intercalate ·) h
  unfold dotLabels at hjoin
  rw [intercalate_splitOn, intercalate_splitOn] at hjoin
  exact String.toList_inj.mp hjoin

theorem Destination.labels_eq (q : Destination) : q.labels = dotLabels q.id := by
  unfold Destination.labels Destination.id
  split
  · rw [dotLabels_append, dotLabels_append]
    simp
  · rw [dotLabels_append, dotLabels_append, dotLabels_append]

theorem Destination.id_eq_iff {q q' : Destination} : q.id = q'.id ↔ q.labels = q'.labels := by
  rw [q.labels_eq, q'.labels_eq, dotLabels_injective.eq_iff]

/-! ## The destinations of a chain -/

section Wanted

variable (req : CompileRequest) (e : DiscoveryChainConfigEntries)

/-- The services whose splitter has a part in the chain, if they have one. -/
inductive Consulted : String → Prop
  | start : Consulted req.serviceName
  | route {router : ServiceRouterConfigEntry} {route : ServiceRoute}
      {dest : ServiceRouteDestination}
      (hrouter : e.routers.get req.serviceName = some router)
      (henabled : disableAdvancedRoutingFeatures req = false) (hroute : route ∈ router.routes)
      (hdest : route.destination = some dest) (hplain : dest.Plain) :
      Consulted (defaultIfEmpty dest.service req.serviceName)
  | split {name : String} {splitter : ServiceSplitterConfigEntry} {split : ServiceSplit}
      (hname : Consulted name) (hsplitter : e.splitters.get name = some splitter)
      (henabled : disableAdvancedRoutingFeatures req = false) (hsplit : split ∈ splitter.splits)
      (heligible : split.Eligible name) : Consulted (defaultIfEmpty split.service name)

/-- The resolver of a destination does not redirect it. -/
def Stays (q : Destination) : Prop :=
  ∀ r, (e.resolverFor q.service).redirect = some r → req.redirect q r = q

/-- The destinations of the service and of its routes. Where a splitter is used, nothing follows
from them. -/
inductive Named : Destination → Prop
  | start : Named req.startDestination
  | route {router : ServiceRouterConfigEntry} {route : ServiceRoute}
      {dest : ServiceRouteDestination}
      (hrouter : e.routers.get req.serviceName = some router)
      (henabled : disableAdvancedRoutingFeatures req = false) (hroute : route ∈ router.routes)
      (hdest : route.destination = some dest) : Named (req.routeDestination dest)

inductive Wanted : Destination → Prop
  | start (hlast : e.splitters.get req.serviceName = none ∨
      disableAdvancedRoutingFeatures req = true) : Wanted req.startDestination
  | route {router : ServiceRouterConfigEntry} {route : ServiceRoute}
      {dest : ServiceRouteDestination}
      (hrouter : e.routers.get req.serviceName = some router)
      (henabled : disableAdvancedRoutingFeatures req = false) (hroute : route ∈ router.routes)
      (hdest : route.destination = some dest)
      (hlast : dest.Plain →
        e.splitters.get (defaultIfEmpty dest.service req.serviceName) = none) :
      Wanted (req.routeDestination dest)
  | split {name : String} {splitter : ServiceSplitterConfigEntry} {split : ServiceSplit}
      (hname : Consulted req e name) (hsplitter : e.splitters.get name = some splitter)
      (henabled : disableAdvancedRoutingFeatures req = false) (hsplit : split ∈ splitter.splits)
      (hlast : split.Eligible name →
        e.splitters.get (defaultIfEmpty split.service name) = none) :
      Wanted (req.splitDestination name split)
  | redirect {q : Destination} {r : ServiceResolverRedirect} (hq : Wanted q)
      (hr : (e.resolverFor q.service).redirect = some r) : Wanted (req.redirect q r)
  | defaultSubset {q : Destination} (hq : Wanted q) (hstays : Stays req e q)
      (hsubset : q.serviceSubset = "") (hdefault : (e.resolverFor q.service).defaultSubset ≠ "") :
      Wanted (req.rewrite q "" (e.resolverFor q.service).defaultSubset "" "")

/-- The destinations to which a failover leads. They have no failover of their own. -/
inductive FailedOver : Destination → Prop
  | failover {q : Destination} {f : ServiceResolverFailover} {dc : String}
      (hq : Wanted req e q) (hstays : Stays req e q)
      (hlast : q.serviceSubset = "" → (e.resolverFor q.service).defaultSubset = "")
      (hf : (e.resolverFor q.service).failoverFor q.serviceSubset = some f)
      (hdc : dc ∈ f.places) : FailedOver (req.failover q f dc)
  | redirect {q : Destination} {r : ServiceResolverRedirect} (hq : FailedOver q)
      (hr : (e.resolverFor q.service).redirect = some r) : FailedOver (req.redirect q r)
  | defaultSubset {q : Destination} (hq : FailedOver q) (hstays : Stays req e q)
      (hsubset : q.serviceSubset = "") (hdefault : (e.resolverFor q.service).defaultSubset ≠ "") :
      FailedOver (req.rewrite q "" (e.resolverFor q.service).defaultSubset "" "")

/-- Every destination that the chain has to do with. -/
inductive InChain (q : Destination) : Prop
  | named (hq : Named req e q)
  | wanted (hq : Wanted req e q)
  | failedOver (hq : FailedOver req e q)

end Wanted

section Closure

variable {req : CompileRequest} {e : DiscoveryChainConfigEntries}

theorem defaultIfEmpty_ne {val defaultVal : String} (h : defaultVal ≠ "") :
    defaultIfEmpty val defaultVal ≠ "" := by
  unfold defaultIfEmpty
  split
  · assumption
  · exact h

variable {q : Destination}

theorem rewrite_named (h : q.service ≠ "")
    {service serviceSubset namespaceName datacenter : String} :
    (req.rewrite q service serviceSubset namespaceName datacenter).service ≠ "" := by
  show (if _ then service else q.service) ≠ ""
  split
  · exact And.left ‹_›
  · exact h

section

variable (hname : req.serviceName ≠ "")
include hname

theorem Consulted.name_ne {name : String} (h : Consulted req e name) : name ≠ "" := by
  induction h with
  | start => exact hname
  | route => exact defaultIfEmpty_ne hname
  | split _ _ _ _ _ ih => exact defaultIfEmpty_ne ih

theorem Wanted.service_ne (h : Wanted req e q) : q.service ≠ "" := by
  induction h with
  | start => exact hname
  | route => exact defaultIfEmpty_ne hname
  | split hconsulted => exact defaultIfEmpty_ne (hconsulted.name_ne hname)
  | redirect _ _ ih => exact rewrite_named ih
  | defaultSubset _ _ _ _ ih => exact rewrite_named ih

theorem FailedOver.service_ne (h : FailedOver req e q) : q.service ≠ "" := by
  induction h with
  | failover hq => exact rewrite_named (hq.service_ne hname)
  | redirect _ _ ih => exact rewrite_named ih
  | defaultSubset _ _ _ _ ih => exact rewrite_named ih

theorem InChain.service_ne (h : InChain req e q) : q.service ≠ "" := by
  cases h with
  | named hq =>
    cases hq with
    | start => exact hname
    | route => exact defaultIfEmpty_ne hname
  | wanted hq => exact hq.service_ne hname
  | failedOver hq => exact hq.service_ne hname

end

/-- No two destinations share an ID. -/
def IdsDistinct (D : Destination → Prop) : Prop := ∀ q q', D q → D q' → q.id = q'.id → q = q'

theorem stays_of_keeps {D : Destination → Prop} (hdistinct : IdsDistinct D) (hq : D q)
    (hredirect : ∀ r, (e.resolverFor q.service).redirect = some r → D (req.redirect q r))
    (h : (e.resolverFor q.service).Keeps req q) : Stays req e q :=
  fun r hr => hdistinct _ _ (hredirect r hr) hq (h r hr)

section

variable (hdistinct : IdsDistinct (InChain req e))
include hdistinct

theorem Wanted.stays (hq : Wanted req e q) (h : (e.resolverFor q.service).Keeps req q) :
    Stays req e q :=
  stays_of_keeps hdistinct (.wanted hq) (fun _ hr => .wanted (hq.redirect hr)) h

theorem FailedOver.stays (hq : FailedOver req e q) (h : (e.resolverFor q.service).Keeps req q) :
    Stays req e q :=
  stays_of_keeps hdistinct (.failedOver hq) (fun _ hr => .failedOver (hq.redirect hr)) h

theorem wanted_settling :
    Settling req e (InChain req e) (Wanted req e) where
  sub _ hq := .wanted hq
  same q q' hq hq' hid := by
    rw [hdistinct q q' hq (.wanted hq') hid]
    exact hq'
  redirect _ _ hq hr := hq.redirect hr
  defaultSubset _ hq hkeeps hsubset hdefault :=
    hq.defaultSubset (hq.stays hdistinct hkeeps) hsubset hdefault

theorem failedOver_settling :
    Settling req e (InChain req e) (FailedOver req e) where
  sub _ hq := .failedOver hq
  same q q' hq hq' hid := by
    rw [hdistinct q q' hq (.failedOver hq') hid]
    exact hq'
  redirect _ _ hq hr := hq.redirect hr
  defaultSubset _ hq hkeeps hsubset hdefault :=
    hq.defaultSubset (hq.stays hdistinct hkeeps) hsubset hdefault

end

theorem inChain_closed (hname : req.serviceName ≠ "") (hdistinct : IdsDistinct (InChain req e)) :
    Closed req e (InChain req e) (Wanted req e) (FailedOver req e) (Consulted req e) := by
  constructor
  · intro q hq
    exact hq.service_ne hname
  · exact wanted_settling hdistinct
  · exact failedOver_settling hdistinct
  · exact .named .start
  · intro q hq hid
    rw [hdistinct q _ hq (.named .start) hid]
    exact .start
  · intro q hq hid hlast
    obtain rfl := hdistinct q _ hq (.named .start) hid
    exact .start hlast
  · intro router hrouter henabled route hroute dest hdest
    exact .named (.route hrouter henabled hroute hdest)
  · intro router hrouter henabled route hroute dest hdest hplain q hq hid
    rw [hdistinct q _ hq (.named (.route hrouter henabled hroute hdest)) hid]
    exact .route hrouter henabled hroute hdest hplain
  · intro router hrouter henabled route hroute dest hdest q hq hid hlast
    obtain rfl := hdistinct q _ hq (.named (.route hrouter henabled hroute hdest)) hid
    exact .route hrouter henabled hroute hdest hlast
  · intro name splitter hname hsplitter henabled split hsplit hlast
    exact .split hname hsplitter henabled hsplit hlast
  · intro name splitter hname hsplitter henabled split hsplit heligible
    exact .split hname hsplitter henabled hsplit heligible
  · intro q f hq hkeeps hlast hf dc hdc
    exact .failover hq (hq.stays hdistinct hkeeps) hlast hf hdc

end Closure

/-! ## Targets of a compiled chain -/

section Compile

variable [External] [ConfigExternal] [Hashstructure]

omit [Hashstructure] in
theorem loaded_of_assembled {req : CompileRequest} {e : DiscoveryChainConfigEntries} {n : Nat}
    {c : Compiler} (hname : req.serviceName ≠ "") (hdistinct : IdsDistinct (InChain req e))
    (h : assembleChain req e n { resolvers := e.resolvers } = (.ok (), c)) :
    Loaded (InChain req e) c.loadedTargets := by
  have hfaults : Faults req e (InChain req e) n n fun _ => True :=
    ⟨fun _ => trivial, .inl rfl, fun _ => trivial, fun _ _ _ _ _ _ => trivial⟩
  have hwalk := assembleChain_together (inChain_closed hname hdistinct) (.refl ..) hfaults
    _ _ (Beside.start req e e (InChain req e))
  rw [h] at hwalk
  cases hwalk with
  | ok _ hbeside => exact hbeside.loaded

/-- The IDs of a chain tell its destinations apart, and so do its targets. -/
structure ToldApart (req : CompileRequest) (e : DiscoveryChainConfigEntries)
    (chain : CompiledDiscoveryChain) : Prop where
  ids : ∀ q q', InChain req e q → InChain req e q' → q ≠ q' → q.id ≠ q'.id
  targets : ∀ k t, chain.targets.get k = some t → InChain req e t.destination ∧ t.id = k ∧
    ∀ q, InChain req e q → q.id = k → t.destination = q

variable {w : Walks String} {n : Nat} {req : CompileRequest} {e : DiscoveryChainConfigEntries}
  {chain : CompiledDiscoveryChain}

theorem toldApart_of_distinct (hentries : req.entries = some e) (h : req.compile w n = .ok chain)
    (hdistinct : IdsDistinct (InChain req e)) : ToldApart req e chain := by
  obtain ⟨entries, c, hname, hentries', hassemble, hcompile⟩ := CompileRequest.compile_eq_ok h
  obtain rfl : entries = e := Option.some.inj (hentries'.symm.trans hentries)
  obtain ⟨-, nodes, -, -, -, htargets⟩ := Compiler.compile_eq_ok hcompile
  have hloaded := loaded_of_assembled hname hdistinct hassemble
  constructor
  · intro q q' hq hq' hne hid
    exact hne (hdistinct q q' hq hq' hid)
  · intro k t ht
    rw [htargets] at ht
    obtain ⟨hid, hin⟩ := hloaded k t (KeyMap.get_filter.mp ht).2
    refine ⟨hin, hid, ?_⟩
    intro q hq hqid
    exact hdistinct _ _ hin hq (hid.trans hqid.symm)

/-- A chain serves each destination by a target of its own exactly when no two of the
destinations have the same labels in a row. -/
theorem targets_tell_destinations_apart (hentries : req.entries = some e)
    (h : req.compile w n = .ok chain) :
    ToldApart req e chain ↔
      ∀ q q', InChain req e q → InChain req e q' → q.labels = q'.labels → q = q' := by
  constructor
  · intro hapart q q' hq hq' hlabels
    by_contra hne
    exact hapart.ids q q' hq hq' hne (Destination.id_eq_iff.mpr hlabels)
  · intro hlabels
    apply toldApart_of_distinct hentries h
    intro q q' hq hq' hid
    exact hlabels q q' hq hq' (Destination.id_eq_iff.mp hid)

end Compile

section Example

attribute [local instance] ascii exactNumbers noHash

/-- One route leads to a subset of `web`, and another one to a service whose name is spelled
like it. -/
def dottedRouter : ServiceRouterConfigEntry where
  name := "web"
  routes := [
    { http := some { pathPrefix := "/a" },
      destination := some { service := "web", serviceSubset := "v1" } },
    { http := some { pathPrefix := "/b" }, destination := some { service := "v1.web" } }]

def versionedResolver : ServiceResolverConfigEntry where
  name := "web"
  subsets := [("v1", { filter := "Service.Meta.version == v1" })]

def dottedRoutes : DiscoveryChainConfigEntries where
  routers := namedEntries (·.name) [dottedRouter]
  resolvers := namedEntries (·.name) [versionedResolver]
  globalProxy := some { name := "global", config := "http" }

def subsetOfWeb : Destination := ⟨"web", "v1", "default", "dc1"⟩

def dottedService : Destination := ⟨"v1.web", "", "default", "dc1"⟩

theorem dottedRoutes_inChain :
    InChain (webRequest dottedRoutes) dottedRoutes subsetOfWeb ∧
      InChain (webRequest dottedRoutes) dottedRoutes dottedService := by
  have hrouter : dottedRoutes.routers.get "web" = some dottedRouter := rfl
  have henabled : disableAdvancedRoutingFeatures (webRequest dottedRoutes) = false := rfl
  have hroutes : ∀ i (h : i < dottedRouter.routes.length),
      dottedRouter.routes[i] ∈ dottedRouter.routes := fun i h => getElem_mem h
  refine ⟨.named ?_, .named ?_⟩
  · exact .route hrouter henabled (hroutes 0 (by decide)) rfl
  · exact .route hrouter henabled (hroutes 1 (by decide)) rfl

/-- Where the routes of a service lead, and for what the target with an ID was made. -/
def outcome (id : String) (r : Except Fault CompiledDiscoveryChain) :
    Option (List String × Option Destination) :=
  match r with
  | .ok chain => some (((chain.nodes.get chain.startNode).map (·.nextNodes)).getD [],
      (chain.targets.get id).map (·.destination))
  | .error _ => none

theorem dottedRoutes_compile : ∃ chain,
    (webRequest dottedRoutes).compile listOrder 20 = .ok chain ∧
      outcome dottedService.id (.ok chain) =
        some (["resolver:v1.web.default.dc1", "resolver:v1.web.default.dc1",
          "resolver:web.default.dc1"], some subsetOfWeb) := by
  have houtcome : outcome dottedService.id ((webRequest dottedRoutes).compile listOrder 20) =
      some (["resolver:v1.web.default.dc1", "resolver:v1.web.default.dc1",
        "resolver:web.default.dc1"], some subsetOfWeb) := by decide +kernel
  cases hcompile : (webRequest dottedRoutes).compile listOrder 20 with
  | error e => rw [hcompile] at houtcome; cases houtcome
  | ok chain =>
    rw [hcompile] at houtcome
    exact ⟨chain, rfl, houtcome⟩

/-- Both routes lead to the subset, and nothing is left of the other service. -/
theorem a_dotted_service_shares_a_target :
    dottedRouter.validate = .ok () ∧ versionedResolver.validate = .ok () ∧
    InChain (webRequest dottedRoutes) dottedRoutes subsetOfWeb ∧
    InChain (webRequest dottedRoutes) dottedRoutes dottedService ∧
    subsetOfWeb ≠ dottedService ∧ subsetOfWeb.id = dottedService.id ∧
    ∃ chain, (webRequest dottedRoutes).compile listOrder 20 = .ok chain ∧
      outcome dottedService.id (.ok chain) =
        some (["resolver:v1.web.default.dc1", "resolver:v1.web.default.dc1",
          "resolver:web.default.dc1"], some subsetOfWeb) :=
  ⟨rfl, rfl, dottedRoutes_inChain.1, dottedRoutes_inChain.2, by decide, by decide,
    dottedRoutes_compile⟩

theorem dotted_routes_are_not_told_apart : ∃ chain,
    (webRequest dottedRoutes).compile listOrder 20 = .ok chain ∧
      ¬ToldApart (webRequest dottedRoutes) dottedRoutes chain := by
  obtain ⟨chain, hcompile, _⟩ := dottedRoutes_compile
  refine ⟨chain, hcompile, fun hapart => ?_⟩
  have hsame := (targets_tell_destinations_apart rfl hcompile).mp hapart subsetOfWeb dottedService
    dottedRoutes_inChain.1 dottedRoutes_inChain.2 (by decide)
  exact absurd hsame (by decide)

end Example

end OpenGyoza
