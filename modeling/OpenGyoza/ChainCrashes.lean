-- What crashes the compilation of a chain: a route without a destination,
-- when the routes before it lead somewhere, and overrides whose hash has
-- fewer than eight digits, for a service on its own.
import OpenGyoza.ChainWords

namespace OpenGyoza

open Memdb Relation Txn List

/-! ## A compilation that crashes -/

variable {name : String} {router : ServiceRouterConfigEntry}

section Diverted

variable {services : String → Prop} {far : String} {limit : Nat}

/-- A destination of one of the services. -/
def Near (services : String → Prop) (limit : Nat) (q : Destination) : Prop :=
  services q.service ∧ q.id.length ≤ limit

/-- A destination of the service to which all others are redirected. -/
def Far (far : String) (q : Destination) : Prop := q.service = far ∧ q.serviceSubset = ""

theorem length_service_le_id (q : Destination) : q.service.length ≤ q.id.length := by
  unfold Destination.id
  split <;> simp only [String.length_append] <;> omega

theorem Far.id_long {q : Destination} (h : Far far q) (hlong : limit < far.length) :
    limit < q.id.length := by
  have hle := length_service_le_id q
  rw [h.1] at hle
  omega

theorem part_far (hlong : limit < far.length) :
    Part (fun q => Near services limit q ∨ Far far q) (Far far) := by
  refine ⟨fun _ hq => .inr hq, fun q q' hq hq' hid => hq.resolve_left fun hnear => ?_⟩
  have hlong' := hq'.id_long hlong
  have hshort := hnear.2
  rw [hid] at hshort
  omega

theorem part_near (hlong : limit < far.length) :
    Part (fun q => Near services limit q ∨ Far far q) (Near services limit) := by
  refine ⟨fun _ hq => .inl hq, fun q q' hq hq' hid => hq.resolve_right fun hfar => ?_⟩
  have hlong' := hfar.id_long hlong
  have hshort := hq'.2
  rw [hid] at hlong'
  omega

/-- Entries without defaults and splitters that redirect all services to one, whose name is longer
than any ID of theirs. -/
structure Diverts (e : DiscoveryChainConfigEntries) (services : String → Prop) (far : String)
    (limit : Nat) : Prop where
  named : ∀ s, services s → s ≠ ""
  noDefaults : ∀ s, e.services.get s = none
  noProxy : e.globalProxy = none
  noSplitter : ∀ s, e.splitters.get s = none
  away : ∀ s, services s → e.resolverFor s = { name := s, redirect := some { service := far } }
  stop : e.resolverFor far = newDefaultServiceResolver far
  long : limit < far.length

/-- No step fails in such a compiler. -/
structure Smooth (e : DiscoveryChainConfigEntries) (services : String → Prop) (far : String)
    (limit : Nat) (c : Compiler) : Prop where
  loaded : ∀ k t, c.loadedTargets.get k = some t → t.id = k ∧ t.external = false ∧
    (Near services limit t.destination ∨ Far far t.destination)
  fetched : Fetched e c.resolvers
  protocol : c.protocol = "" ∨ c.protocol = "tcp"

theorem Smooth.start (e : DiscoveryChainConfigEntries) :
    Smooth e services far limit { resolvers := e.resolvers } :=
  ⟨nofun, fun _ => rfl, .inl rfl⟩

def Alone (e : DiscoveryChainConfigEntries) (services : String → Prop) (far : String) (limit : Nat)
    (c c' : Compiler) : Prop :=
  c = c' ∧ Smooth e services far limit c

variable {req : CompileRequest} {e : DiscoveryChainConfigEntries} {E : Fault → Prop}

/-- A target of a part of the destinations. -/
def Gives (X : Destination → Prop) (t : DiscoveryTarget) : Prop :=
  X t.destination ∧ t.external = false

theorem newTarget_alone {X : Destination → Prop}
    (hX : Part (fun q => Near services limit q ∨ Far far q) X)
    {service serviceSubset namespaceName datacenter : String} (hservice : service ≠ "")
    (hq : X (req.destination service serviceSubset namespaceName datacenter)) :
    Keeps (Alone e services far limit) E
      (newTarget req service serviceSubset namespaceName datacenter) (Gives X) := by
  unfold newTarget
  rw [if_neg hservice]
  refine Lockstep.bind (P := fun o => ∀ prev, o = some prev → Gives X prev) (.read ?_)
    fun o ho => ?_
  · rintro c _ ⟨rfl, hc⟩
    refine ⟨rfl, fun prev hprev => ?_⟩
    obtain ⟨hid, hexternal, hprevX⟩ := hc.loaded _ prev hprev
    exact ⟨hX.same _ _ hprevX hq hid, hexternal⟩
  · cases o with
    | some prev => exact .pure (ho prev rfl)
    | none =>
      refine .next (.modify ?_) (.pure ⟨hq, rfl⟩)
      rintro c _ ⟨rfl, hc⟩
      refine ⟨rfl, fun k t ht => ?_, hc.fetched, hc.protocol⟩
      rcases KeyMap.get_insert_cases ht with ⟨rfl, rfl⟩ | ht
      · exact ⟨rfl, rfl, hX.sub _ hq⟩
      · exact hc.loaded k t ht

theorem fetchResolver_alone (service : String) :
    Keeps (Alone e services far limit) E (fetchResolver service) (· = e.resolverFor service) := by
  intro c c' h
  obtain ⟨rfl, hc⟩ := h
  have hfetch := hc.fetched service
  simp only [fetchResolver, Txn.read, Bind.bind]
  cases hget : c.resolvers.get service with
  | some r =>
    rw [hget] at hfetch
    exact .ok hfetch ⟨rfl, hc⟩
  | none =>
    rw [hget] at hfetch
    exact .ok hfetch ⟨rfl, hc.loaded, hc.fetched.insert hget, hc.protocol⟩

variable {t : DiscoveryTarget}

theorem redirectedTarget_near (h : Diverts e services far limit)
    (ht : Gives (Near services limit) t) :
    Keeps (Alone e services far limit) E
      (redirectedTarget req t { name := name, redirect := some { service := far } })
      fun o => ∃ t', o = some t' ∧ Gives (Far far) t' ∧ t'.id ≠ t.id := by
  have hnamed : far ≠ "" := by
    rintro rfl
    exact absurd h.long (by simp)
  have hmoved : far ≠ "" ∧ far ≠ t.service := by
    refine ⟨hnamed, fun hsame => ?_⟩
    have hlong := h.long
    have hle : t.service.length ≤ t.destination.id.length := length_service_le_id t.destination
    have hshort := ht.1.2
    rw [hsame] at hlong
    omega
  unfold redirectedTarget rewriteTarget
  dsimp only
  rw [if_pos hmoved, if_pos hmoved]
  refine (newTarget_alone (part_far h.long) hnamed ⟨rfl, rfl⟩).bind fun t' ht' => .pure ?_
  have hne : t'.id ≠ t.id := by
    intro hid
    have hlong : limit < t'.id.length := ht'.1.id_long h.long
    have hshort : t.id.length ≤ limit := ht.1.2
    rw [hid] at hlong
    omega
  exact ⟨t', if_pos hne, ht', hne⟩

variable [External] [ConfigExternal]

section

variable (h : Diverts e services far limit)
include h

theorem recordServiceProtocol_alone (service : String) :
    Keeps (Alone e services far limit) E (recordServiceProtocol req e service) fun _ => True := by
  unfold recordServiceProtocol
  rw [h.noDefaults, h.noProxy]
  refine Lockstep.bind (P := fun current => current = "" ∨ current = "tcp") (.read ?_)
    fun current hcurrent => ?_
  · rintro c _ ⟨rfl, hc⟩
    exact ⟨rfl, hc.protocol⟩
  · refine .ite (fun _ => .modify ?_) fun hne => .ite (fun hother => ?_) fun _ => .pure trivial
    · rintro c _ ⟨rfl, hc⟩
      exact ⟨rfl, hc.loaded, hc.fetched, .inr (by simp)⟩
    · exact absurd (hcurrent.resolve_left hne) (by simpa using hother)

theorem resolveAgain_far (n : Nat) {order : List String} (ht : Gives (Far far) t)
    (hnew : t.id ∉ order) :
    Keeps (Alone e services far limit) E (resolveAgain req e (n + 1) order t)
      fun found => ∀ t' resolver, found = .fresh t' resolver →
        Gives (Far far) t' ∧ resolver = newDefaultServiceResolver far := by
  have hstop : e.resolverFor t.service = newDefaultServiceResolver far := by
    rw [show t.service = far from ht.1.1]
    exact h.stop
  refine Lockstep.bind (P := fun _ => True) (.read ?_) fun known _ => ?_
  · rintro c _ ⟨rfl, hc⟩
    exact ⟨rfl, trivial⟩
  refine .ite (fun _ => .pure (by simp)) fun _ => ?_
  refine (recordServiceProtocol_alone h _).next ?_
  refine (fetchResolver_alone _).bind fun resolver hresolver => ?_
  rw [hresolver, hstop]
  rw [if_neg hnew]
  refine Lockstep.bind (.pure rfl) fun o ho => ?_
  subst ho
  have hsubset : t.serviceSubset = "" := ht.1.2
  rw [if_neg (by simp [newDefaultServiceResolver]), if_neg (by simp [hsubset])]
  exact .pure fun t' resolver' heq => by
    cases heq
    exact ⟨ht, rfl⟩

theorem resolveAgain_near (n : Nat) (ht : Gives (Near services limit) t) :
    Keeps (Alone e services far limit) E (resolveAgain req e (n + 2) [] t)
      fun found => ∀ t' resolver, found = .fresh t' resolver →
        Gives (Far far) t' ∧ resolver = newDefaultServiceResolver far := by
  refine Lockstep.bind (P := fun _ => True) (.read ?_) fun known _ => ?_
  · rintro c _ ⟨rfl, hc⟩
    exact ⟨rfl, trivial⟩
  refine .ite (fun _ => .pure (by simp)) fun _ => ?_
  refine (recordServiceProtocol_alone h _).next ?_
  refine (fetchResolver_alone _).bind fun resolver hresolver => ?_
  have haway : e.resolverFor t.service = _ := h.away _ ht.1.1
  rw [hresolver, haway, if_neg (by simp)]
  refine (redirectedTarget_near h ht).bind fun o ho => ?_
  obtain ⟨t', rfl, ht', hne⟩ := ho
  exact resolveAgain_far h n ht' (by simpa using hne)

omit [ConfigExternal] in
theorem buildResolver_far (ht : Gives (Far far) t) :
    Keeps (Alone e services far limit) E (buildResolver req e t (newDefaultServiceResolver far))
      fun _ => True := by
  unfold buildResolver
  refine Lockstep.bind (P := fun loaded => loaded.id = t.id ∧ Gives (Far far) loaded) (.read ?_)
    fun loaded hloaded => ?_
  · rintro c _ ⟨rfl, hc⟩
    refine ⟨rfl, ?_⟩
    cases hget : c.loadedTargets.get t.id with
    | none => exact ⟨rfl, ht⟩
    | some u =>
      obtain ⟨hid, hexternal, hu⟩ := hc.loaded _ u hget
      exact ⟨hid, (part_far h.long).same _ _ hu ht.1 hid, hexternal⟩
  · dsimp only
    have hplain : ∀ u : DiscoveryTarget, externalTarget e u = u := by
      intro u
      unfold externalTarget
      rw [h.noDefaults]
    have hnone : externalFault { loaded with
        subset := ((newDefaultServiceResolver far).subsets.lookup t.serviceSubset).getD {} }
        (newDefaultServiceResolver far) = none := by
      unfold externalFault
      rw [if_pos (by simp [hloaded.2.2])]
    rw [hplain, hnone]
    refine .next (.modify ?_) (.pure trivial)
    rintro c _ ⟨rfl, hc⟩
    refine ⟨rfl, fun k u hu => ?_, hc.fetched, hc.protocol⟩
    rcases KeyMap.get_insert_cases hu with ⟨rfl, rfl⟩ | hu
    · exact ⟨hloaded.1, hloaded.2.2, .inr hloaded.2.1⟩
    · exact hc.loaded k u hu

end

section

variable (h : Diverts e services far limit)
include h

theorem getResolverNode_near (n : Nat) (ht : Gives (Near services limit) t) :
    Keeps (Alone e services far limit) E (getResolverNode req e (n + 2) t) fun _ => True := by
  refine (resolveAgain_near h n ht).bind fun found hfound => ?_
  cases found with
  | known id => exact .pure trivial
  | fresh t' resolver =>
    obtain ⟨ht', rfl⟩ := hfound t' resolver rfl
    refine (buildResolver_far h ht').bind fun node _ => ?_
    refine .next (.modify ?_) (.pure trivial)
    rintro c _ ⟨rfl, hc⟩
    exact ⟨rfl, hc.loaded, hc.fetched, hc.protocol⟩

theorem getSplitterNode_alone (n m : Nat) (name : String) :
    Keeps (Alone e services far limit) E (getSplitterNode req e n (m + 1) name) fun _ => True := by
  refine Lockstep.bind (P := fun _ => True) (.read ?_) fun known _ => ?_
  · rintro c _ ⟨rfl, hc⟩
    exact ⟨rfl, trivial⟩
  rw [h.noSplitter]
  exact .ite (fun _ => .pure trivial) fun _ => .pure trivial

theorem routeNext_alone (n : Nat) {dest : ServiceRouteDestination}
    (hdest : Near services limit (req.routeDestination dest)) :
    Keeps (Alone e services far limit) E (routeNext req e (n + 2) dest) fun _ => True := by
  refine (newTarget_alone (part_near h.long) (h.named _ hdest.1) hdest).bind fun t ht => ?_
  have hresolver : Keeps (Alone e services far limit) E
      (getResolverNode req e (n + 2) t >>= fun id => pure (resolverKey id)) fun _ => True :=
    (getResolverNode_near h n ht).bind fun _ _ => .pure trivial
  refine .ite (fun _ => ?_) fun _ => hresolver
  refine (getSplitterNode_alone h (n + 2) (n + 1) t.service).bind fun o _ => ?_
  cases o with
  | some key => exact .pure trivial
  | none => exact hresolver

theorem compileRoutes_crashes (n : Nat) {routes : List ServiceRoute}
    (hmissing : ∃ route ∈ routes, route.destination = none)
    (hnear : ∀ route ∈ routes, ∀ dest, route.destination = some dest →
      Near services limit (req.routeDestination dest)) :
    Keeps (Alone e services far limit)
      (· = .panic "invalid memory address or nil pointer dereference")
      (compileRoutes req e (n + 2) routes) fun _ => False := by
  induction routes with
  | nil => simp at hmissing
  | cons route routes ih =>
    unfold compileRoutes
    cases hdest : route.destination with
    | none => exact .crash rfl
    | some dest =>
      have hrest : ∃ route ∈ routes, route.destination = none := by
        obtain ⟨r, hr, hnone⟩ := hmissing
        rcases mem_cons.mp hr with rfl | hr
        · rw [hdest] at hnone
          cases hnone
        · exact ⟨r, hr, hnone⟩
      refine (routeNext_alone h n (hnear route mem_cons_self dest hdest)).bind fun _ _ => ?_
      exact (ih hrest fun r hr => hnear r (mem_cons_of_mem _ hr)).bind
        fun _ himpossible => himpossible.elim

end

theorem assembleChain_crashes (req : CompileRequest) (h : Diverts e services far limit) (n : Nat)
    (hrouter : e.routers.get req.serviceName = some router)
    (henabled : disableAdvancedRoutingFeatures req = false)
    (hmissing : ∃ route ∈ router.routes, route.destination = none)
    (hnear : ∀ route ∈ router.routes, ∀ dest, route.destination = some dest →
      Near services limit (req.routeDestination dest)) :
    Keeps (Alone e services far limit)
      (· = .panic "invalid memory address or nil pointer dereference")
      (assembleChain req e (n + 2)) fun _ => False := by
  unfold assembleChain
  rw [hrouter, henabled]
  refine .next (.modify ?_) (.next (.modify ?_) ?_)
  · rintro c _ ⟨rfl, hc⟩
    refine ⟨rfl, ?_⟩
    split
    · rename_i hempty
      exact ⟨hc.loaded, hc.fetched.insert (KeyMap.get_of_len_zero hempty.1 _), hc.protocol⟩
    · exact hc
  · rintro c _ ⟨rfl, hc⟩
    exact ⟨rfl, hc⟩
  · unfold assembleRouter
    refine .next (.modify ?_) ?_
    · rintro c _ ⟨rfl, hc⟩
      exact ⟨rfl, hc.loaded, hc.fetched, hc.protocol⟩
    refine (recordServiceProtocol_alone h _).next ?_
    exact (compileRoutes_crashes h n hmissing hnear).bind fun _ himpossible => himpossible.elim

end Diverted

/-! ## A service on its own -/

variable {routers : KeyMap String ServiceRouterConfigEntry}

section Lone

variable [External] [ConfigExternal] [Hashstructure]

/-- The entries of a service on its own. -/
def loneEntries (routers : KeyMap String ServiceRouterConfigEntry) (name protocol : String)
    (connectTimeout : Int) : DiscoveryChainConfigEntries where
  routers := routers
  resolvers := KeyMap.empty.insert name { name := name, connectTimeout := connectTimeout }
  services := KeyMap.empty.insert name { name := name, protocol := protocol }

/-- A compiler with one node, which is that of a resolver. -/
structure SingleNode (c : Compiler) : Prop where
  node : ∃ id r, c.startNode = resolverKey id ∧
    c.nodes = KeyMap.empty.insert (resolverKey id) (.resolver id r)
  basic : c.usesAdvancedRoutingFeatures = false

omit [Hashstructure] in
theorem assembleChain_lone (req : CompileRequest) (protocol : String) {connectTimeout : Int}
    (hname : req.serviceName ≠ "") (hrouter : routers.get req.serviceName = none)
    (htimeout : 0 < connectTimeout) (n : Nat) :
    ∃ c, assembleChain req (loneEntries routers req.serviceName protocol connectTimeout) (n + 1)
        { resolvers := (loneEntries routers req.serviceName protocol connectTimeout).resolvers } =
        (.ok (), c) ∧ SingleNode c ∧
      c.protocol = (if protocol = "" then "tcp" else toLower protocol) ∧
      c.customizedBy = {
        meshGateway := decide (req.evaluateInDatacenter ≠ req.useInDatacenter ∧
          req.overrideMeshGateway ≠ .modeDefault)
        connectTimeout := decide (0 < req.overrideConnectTimeout ∧
          connectTimeout ≠ req.overrideConnectTimeout) } := by
  have hlen : ∀ v : ServiceResolverConfigEntry,
      (KeyMap.empty.insert req.serviceName v).len = 1 := fun _ => rfl
  have hconfigured : ¬connectTimeout < 1 := by omega
  simp [hlen, hname, hrouter, hconfigured, loneEntries, assembleChain,
    DiscoveryChainConfigEntries.isChainEmpty, defaultNext, newTarget, getSplitterOrResolverNode,
    getSplitterNode, getResolverNode, resolveAgain, recordServiceProtocol, recordProtocol,
    fetchResolver, redirectedTarget, buildResolver, externalTarget, externalFault, meshGatewayFor,
    recordNode, ServiceResolverConfigEntry.failoverFor, defaultIfEmpty, Txn.read, Txn.modify, bind,
    pure]
  refine ⟨⟨⟨_, _, rfl, rfl⟩, rfl⟩, ?_⟩
  by_cases hplace : req.evaluateInDatacenter = req.useInDatacenter
  · simp [hplace]
  · by_cases hmode : req.overrideMeshGateway = .modeDefault
    · simp [hplace, hmode]
    · simp [hplace, hmode, Ne.symm hmode]

theorem SingleNode.compile {c : Compiler} (h : SingleNode c) (req : CompileRequest)
    (w : Walks String) (n : Nat) :
    c.compile w (n + 3) req = (customizationHash req (c.markers req)).map fun hash => {
      serviceName := req.serviceName
      namespaceName := req.evaluateInNamespace
      datacenter := req.evaluateInDatacenter
      customizationHash := hash
      protocol := if req.overrideProtocol ≠ "" ∧ req.overrideProtocol ≠ c.protocol then
        req.overrideProtocol else c.protocol
      startNode := c.startNode
      nodes := c.nodes
      targets := c.loadedTargets.filter (· ∈ c.retainedTargets) } := by
  obtain ⟨id, r, hstart, hnodes⟩ := h.node
  have horder : ∀ i k, w.order i [k] = [k] := fun i k => perm_singleton.mp (w.perm i [k])
  have hnone : ∀ i, w.order i [] = [] := fun i => perm_nil.mp (w.perm i [])
  have hkey := resolverKey_ne_empty id
  have hlen : (KeyMap.empty.insert (resolverKey id) (.resolver id r) : ChainNodes).len = 1 := rfl
  have hdetect : detectCircularReferences (n + 3) c.nodes c.startNode = .ok () := by
    rw [hstart, hnodes]
    simp [detectCircularReferences, detectLoop, DiscoveryGraphNode.nextNodes]
  have hflatten : flattenAdjacentSplitterNodes w (n + 3) c.nodes = .ok c.nodes := by
    rw [hnodes]
    simp [flattenAdjacentSplitterNodes, flattenNodes, flattenNode, KeyMap.insert, KeyMap.empty,
      horder, bind, Except.bind]
  have hprune : removeUnusedNodes w (n + 3) c.nodes c.startNode = .ok c.nodes := by
    rw [hstart, hnodes]
    simp [removeUnusedNodes, Walks.run, visitNode, horder, hnone, hkey, hlen,
      DiscoveryGraphNode.nextNodes, bind, Except.bind]
  unfold Compiler.compile
  rw [if_neg (by rw [hstart]; exact hkey), hdetect, hflatten]
  simp only [bind, Except.bind]
  rw [hprune]
  dsimp only
  rw [if_neg (by simp [h.basic])]
  unfold Compiler.markers
  simp only [decide_eq_true_eq]
  cases customizationHash req _ with
  | error e => rfl
  | ok hash => rfl

end Lone

/-! ## When a compilation crashes -/

/-- Each of the entries was normalized and validated. -/
structure DiscoveryChainConfigEntries.Accepted [External] [ConfigExternal]
    (e : DiscoveryChainConfigEntries) : Prop where
  routers : ∀ k r, e.routers.get k = some r → (ConfigContent.serviceRouter r).Accepted
  splitters : ∀ k r, e.splitters.get k = some r → (ConfigContent.serviceSplitter r).Accepted
  resolvers : ∀ k r, e.resolvers.get k = some r → (ConfigContent.serviceResolver r).Accepted
  services : ∀ k r, e.services.get k = some r → (ConfigContent.serviceDefaults r).Accepted
  globalProxy : ∀ r, e.globalProxy = some r → (ConfigContent.proxyDefaults r).Accepted

theorem exists_longer (names : List String) :
    ∃ name : String, name ≠ "" ∧ ∀ other ∈ names, other.length < name.length := by
  let length := (names.map String.length).sum + 1
  refine ⟨String.ofList (List.replicate length 'a'), ?_, fun other hother => ?_⟩
  · intro hempty
    have hlen := congrArg String.length hempty
    simp [length] at hlen
  · have hle := single_le_sum (by simp) other.length
      (mem_map_of_mem hother)
    simp only [String.length_ofList, length_replicate, length]
    omega

/-- Resolvers that redirect the services to another one. -/
def divert (far : String) (names : List String) : KeyMap String ServiceResolverConfigEntry :=
  names.foldr (fun name m => m.insert name { name := name, redirect := some { service := far } })
    .empty

theorem get_divert (far : String) (names : List String) (name : String) :
    (divert far names).get name = if name ∈ names then
      some { name := name, redirect := some { service := far } } else none := by
  induction names with
  | nil => rfl
  | cons other names ih =>
    show ((divert far names).insert other _).get name = _
    by_cases heq : name = other
    · subst heq
      rw [KeyMap.get_insert_self, if_pos mem_cons_self]
    · rw [KeyMap.get_insert_of_ne heq, ih]
      simp [heq]

section Crashes

variable [External] [ConfigExternal] [Hashstructure]

omit [Hashstructure] in
theorem resolver_accepted {r : ServiceResolverConfigEntry} (h : r.validate = .ok ()) :
    (ConfigContent.serviceResolver r).Accepted :=
  ⟨⟨.serviceResolver r, rfl⟩, h⟩

omit [Hashstructure] in
theorem divert_validate {far : String} (hname : name ≠ "") (hfar : far ≠ "") (hne : far ≠ name) :
    ServiceResolverConfigEntry.validate { name := name, redirect := some { service := far } } =
      .ok () := by
  simp [ServiceResolverConfigEntry.validate, ServiceResolverConfigEntry.validateRedirect, hname,
    hfar, hne, pure, Except.pure, bind, Except.bind]

/-- A request with the overrides. -/
def Overrides.request (o : Overrides) (serviceName useInDatacenter : String)
    (e : DiscoveryChainConfigEntries) : CompileRequest where
  serviceName := serviceName
  evaluateInNamespace := "default"
  evaluateInDatacenter := "dc1"
  evaluateInTrustDomain := "consul"
  useInDatacenter := useInDatacenter
  overrideMeshGateway := o.meshGateway
  overrideProtocol := o.protocol
  overrideConnectTimeout := o.connectTimeout
  entries := some e

/-- The protocol that is asked for, if any, has routes and splits. -/
def Overrides.Advanced (o : Overrides) : Prop :=
  o.protocol = "" ∨ enableAdvancedRoutingForProtocol o.protocol = true

omit [External] [ConfigExternal] [Hashstructure] in
theorem disabled_eq_false_iff {req : CompileRequest} :
    disableAdvancedRoutingFeatures req = false ↔ req.overrides.Advanced := by
  unfold disableAdvancedRoutingFeatures Overrides.Advanced CompileRequest.overrides
  cases enableAdvancedRoutingForProtocol req.overrideProtocol <;> simp

theorem Overrides.compile_request (o : Overrides) {serviceName useInDatacenter : String}
    (e : DiscoveryChainConfigEntries) (w : Walks String) (n : Nat) (hname : serviceName ≠ "")
    (huse : useInDatacenter ≠ "") :
    (o.request serviceName useInDatacenter e).compile w n =
      match assembleChain (o.request serviceName useInDatacenter e) e n
        { resolvers := e.resolvers } with
      | (.error fault, _) => .error fault
      | (.ok _, c) => c.compile w n (o.request serviceName useInDatacenter e) := by
  unfold CompileRequest.compile Overrides.request
  simp only [hname, huse, ↓reduceIte]
  rfl

theorem missing_destination_crashes
    (hrouters : ∀ k r, routers.get k = some r → (ConfigContent.serviceRouter r).Accepted)
    {o : Overrides} (ho : o.Advanced) (hname : name ≠ "") (hrouter : routers.get name = some router)
    (hmissing : ∃ route ∈ router.routes, route.destination = none) :
    ∃ (req : CompileRequest) (e : DiscoveryChainConfigEntries), req.overrides = o ∧
      req.entries = some e ∧ e.Accepted ∧ e.routers = routers ∧ ∀ w n,
        req.compile w (n + 2) =
          .error (.panic "invalid memory address or nil pointer dereference") := by
  let request := o.request name "dc1"
  let dests := router.routes.filterMap (·.destination)
  let names := dests.map fun dest => ((request {}).routeDestination dest).service
  obtain ⟨far, hfar, hlonger⟩ :=
    exists_longer (dests.map fun dest => ((request {}).routeDestination dest).id)
  have hnames : ∀ x ∈ names, x ≠ "" ∧ x.length < far.length := by
    intro x hx
    obtain ⟨dest, hdest, rfl⟩ := mem_map.mp hx
    refine ⟨?_, ?_⟩
    · show defaultIfEmpty dest.service name ≠ ""
      unfold defaultIfEmpty
      split
      · assumption
      · exact hname
    · exact lt_of_le_of_lt (length_service_le_id _) (hlonger _ (mem_map_of_mem hdest))
  let e : DiscoveryChainConfigEntries := { routers := routers, resolvers := divert far names }
  have hfarnames : far ∉ names := fun hmem => Nat.lt_irrefl _ (hnames far hmem).2
  have hdiverts : Diverts e (· ∈ names) far (far.length - 1) := by
    have hpos : 0 < far.length := by
      rw [Nat.pos_iff_ne_zero]
      intro hzero
      exact hfar (by simpa using hzero)
    constructor
    case named => exact fun x hx => (hnames x hx).1
    case noDefaults => exact fun _ => rfl
    case noProxy => rfl
    case noSplitter => exact fun _ => rfl
    case away =>
      intro x hx
      show ((divert far names).get x).getD _ = _
      rw [get_divert, if_pos hx]
      rfl
    case stop =>
      show ((divert far names).get far).getD _ = _
      rw [get_divert, if_neg hfarnames]
      rfl
    case long => omega
  refine ⟨request e, e, rfl, rfl, ?_, rfl, fun w n => ?_⟩
  · refine ⟨hrouters, nofun, fun k r hr => ?_, nofun, nofun⟩
    rw [get_divert] at hr
    split at hr
    · rename_i hk
      cases hr
      refine resolver_accepted (divert_validate (hnames k hk).1 hfar ?_)
      rintro rfl
      exact hfarnames hk
    · cases hr
  · show (o.request name "dc1" e).compile w (n + 2) = _
    rw [o.compile_request e w (n + 2) hname (by decide)]
    have hcrash := assembleChain_crashes (request e) hdiverts n hrouter
      (disabled_eq_false_iff.mpr ho) hmissing
      (fun route hroute dest hdest => by
        have hmem : dest ∈ dests := mem_filterMap.mpr ⟨route, hroute, hdest⟩
        have hlen := hlonger _ (mem_map_of_mem hmem)
        refine ⟨mem_map_of_mem hmem, ?_⟩
        show ((request {}).routeDestination dest).id.length ≤ far.length - 1
        omega)
      _ _ ⟨rfl, .start e⟩
    generalize assembleChain (request e) e (n + 2) { resolvers := e.resolvers } = x at hcrash ⊢
    cases hcrash with
    | ok himpossible => exact himpossible.elim
    | fault he => rw [he]

omit [External] [ConfigExternal] [Hashstructure] in
theorem firstDigits_short {v : Nat} (h : v < 16 ^ 7) :
    firstDigits v = .error (.panic "slice bounds out of range") := by
  have hlen : (Nat.toDigits 16 v).length < 8 := by
    rw [Nat.lt_succ_iff, Nat.length_toDigits_le_iff (by omega) (by omega)]
    omega
  exact if_pos hlen

/-- Where a chain is used, such that a mesh gateway matters or not. -/
def placeFor (markers : CustomizationMarkers) : String :=
  if markers.meshGateway then "dc2" else "dc1"

/-- A timeout that is not, or is, that of the request. -/
def Overrides.timeoutFor (o : Overrides) (markers : CustomizationMarkers) : Int :=
  if markers.connectTimeout then o.connectTimeout + 1
  else if 0 < o.connectTimeout then o.connectTimeout else 1

/-- A protocol that is not, or is, that of the request. -/
def Overrides.protocolFor (o : Overrides) (markers : CustomizationMarkers) : String :=
  if markers.protocol then if o.protocol = "tcp" then "http" else "tcp" else o.protocol

section Markers

omit [ConfigExternal] [Hashstructure]

variable {o : Overrides} {markers : CustomizationMarkers}

omit [External] in
theorem placeFor_ne_empty (markers : CustomizationMarkers) : placeFor markers ≠ "" := by
  unfold placeFor
  split <;> decide

theorem placeFor_marks (h : Customizes o markers) :
    ("dc1" ≠ placeFor markers ∧ o.meshGateway ≠ .modeDefault) ↔ markers.meshGateway = true := by
  unfold placeFor
  constructor
  · intro hplace
    by_contra hmarked
    exact hplace.1 (if_neg hmarked).symm
  · intro hmarked
    rw [if_pos hmarked]
    exact ⟨by decide, h.meshGateway hmarked⟩

theorem timeoutFor_pos (h : Customizes o markers) : 0 < o.timeoutFor markers := by
  unfold Overrides.timeoutFor
  split_ifs with hmarked hpos
  · have := h.connectTimeout hmarked
    omega
  · exact hpos
  · omega

theorem timeoutFor_marks (h : Customizes o markers) :
    (0 < o.connectTimeout ∧ o.timeoutFor markers ≠ o.connectTimeout) ↔
      markers.connectTimeout = true := by
  unfold Overrides.timeoutFor
  constructor
  · intro htimeout
    by_contra hmarked
    rw [if_neg hmarked, if_pos htimeout.1] at htimeout
    exact htimeout.2 rfl
  · intro hmarked
    rw [if_pos hmarked]
    exact ⟨h.connectTimeout hmarked, by omega⟩

theorem toLower_protocolFor (hlower : LowerCases) (h : Customizes o markers) :
    toLower (o.protocolFor markers) = o.protocolFor markers := by
  unfold Overrides.protocolFor
  split_ifs with hmarked htcp
  · exact hlower.http
  · exact hlower.tcp
  · exact (h.lowerCase (by simpa using hmarked)).symm

theorem protocolFor_marks (hlower : LowerCases) (h : Customizes o markers) :
    (o.protocol ≠ "" ∧ o.protocol ≠ if o.protocolFor markers = "" then "tcp"
      else toLower (o.protocolFor markers)) ↔ markers.protocol = true := by
  rw [toLower_protocolFor hlower h]
  unfold Overrides.protocolFor
  constructor
  · intro hprotocol
    by_contra hmarked
    rw [if_neg hmarked, if_neg hprotocol.1] at hprotocol
    exact hprotocol.2 rfl
  · intro hmarked
    have hne := h.protocol hmarked
    by_cases htcp : o.protocol = "tcp"
    · simp [hmarked, htcp]
    · simp [hmarked, htcp, hne]

end Markers

theorem short_hash_crashes (hlower : LowerCases)
    (hrouters : ∀ k r, routers.get k = some r → (ConfigContent.serviceRouter r).Accepted)
    {o : Overrides} {markers : CustomizationMarkers} (hmarkers : Customizes o markers)
    (hsome : markers.isZero = false)
    (hshort : Hashstructure.hash (if markers.meshGateway then o.meshGateway else .modeDefault)
      (if markers.protocol then o.protocol else "")
      (if markers.connectTimeout then o.connectTimeout else 0) < 16 ^ 7) :
    ∃ (req : CompileRequest) (e : DiscoveryChainConfigEntries), req.overrides = o ∧
      req.entries = some e ∧ e.Accepted ∧ e.routers = routers ∧ ∀ w n,
        req.compile w (n + 3) = .error (.panic "slice bounds out of range") := by
  obtain ⟨name, hname, hlonger⟩ := exists_longer routers.keys
  have hrouter : routers.get name = none := by
    by_contra hsome
    exact Nat.lt_irrefl _
      (hlonger name ((routers.mem_keys name).mpr (Option.isSome_iff_ne_none.mpr hsome)))
  have htimeout := timeoutFor_pos hmarkers
  let e := loneEntries routers name (o.protocolFor markers) (o.timeoutFor markers)
  let req := o.request name (placeFor markers) e
  refine ⟨req, e, rfl, rfl, ?_, rfl, fun w n => ?_⟩
  · refine ⟨hrouters, nofun, fun k r hr => ?_, fun k r hr => ?_, nofun⟩
    · rcases KeyMap.get_insert_cases hr with ⟨-, rfl⟩ | hr
      · refine resolver_accepted ?_
        simp [ServiceResolverConfigEntry.validate, hname, htimeout.le, pure, Except.pure, bind,
          Except.bind]
      · cases hr
    · rcases KeyMap.get_insert_cases hr with ⟨-, rfl⟩ | hr
      · refine ⟨⟨.serviceDefaults { name := name, protocol := o.protocolFor markers }, ?_⟩, rfl⟩
        simp only [ConfigContent.normalize, ServiceConfigEntry.normalize,
          toLower_protocolFor hlower hmarkers]
      · cases hr
  · obtain ⟨c, hassemble, hsingle, hrecorded, hcustomized⟩ := assembleChain_lone req
      (o.protocolFor markers) hname hrouter htimeout (n + 2)
    have hmeshGateway : decide (req.evaluateInDatacenter ≠ req.useInDatacenter ∧
        req.overrideMeshGateway ≠ .modeDefault) = markers.meshGateway :=
      Bool.eq_iff_iff.mpr (decide_eq_true_iff.trans (placeFor_marks hmarkers))
    have hconnectTimeout : decide (0 < req.overrideConnectTimeout ∧
        o.timeoutFor markers ≠ req.overrideConnectTimeout) = markers.connectTimeout :=
      Bool.eq_iff_iff.mpr (decide_eq_true_iff.trans (timeoutFor_marks hmarkers))
    have hprotocol : decide (req.overrideProtocol ≠ "" ∧ req.overrideProtocol ≠
        if o.protocolFor markers = "" then "tcp" else toLower (o.protocolFor markers)) =
        markers.protocol :=
      Bool.eq_iff_iff.mpr (decide_eq_true_iff.trans (protocolFor_marks hlower hmarkers))
    have hmarked : c.markers req = markers := by
      unfold Compiler.markers
      rw [hcustomized, hrecorded, hmeshGateway, hconnectTimeout, hprotocol]
      rfl
    rw [o.compile_request e w (n + 3) hname (placeFor_ne_empty markers)]
    change assembleChain (o.request name (placeFor markers) e) e (n + 3)
      { resolvers := e.resolvers } = _ at hassemble
    rw [hassemble]
    have hhash : customizationHash req (c.markers req) =
        .error (.panic "slice bounds out of range") := by
      rw [hmarked]
      unfold customizationHash
      rw [if_neg (by simp [hsome])]
      exact firstDigits_short hshort
    refine (hsingle.compile req w n).trans ?_
    rw [hhash]
    rfl

/-- No set of accepted entries with these routers makes a request with these overrides crash the
server exactly when no route is without a destination, unless the requests ask for a protocol
without routes, and the hashes of the overrides are long enough. -/
theorem compile_returns_iff (hlower : LowerCases)
    {routers : KeyMap String ServiceRouterConfigEntry}
    (hrouters : ∀ k r, routers.get k = some r → (ConfigContent.serviceRouter r).Accepted)
    (o : Overrides) :
    (∀ (req : CompileRequest) (e : DiscoveryChainConfigEntries), req.overrides = o →
      req.entries = some e → e.Accepted → e.routers = routers →
        ∃ m, ∀ w n, m ≤ n → Returns (req.compile w n)) ↔
      (o.Advanced → ∀ name router, name ≠ "" → routers.get name = some router →
        ∀ route ∈ router.routes, route.destination ≠ none) ∧ LongHashes o := by
  constructor
  · intro hreturns
    constructor
    · intro ho name router hname hrouter route hroute hnone
      obtain ⟨req, e, hoverrides, hentries, haccepted, hsame, hcrash⟩ :=
        missing_destination_crashes hrouters ho hname hrouter ⟨route, hroute, hnone⟩
      obtain ⟨m, hm⟩ := hreturns req e hoverrides hentries haccepted hsame
      exact hm listOrder (m + 2) (by omega) _ (hcrash listOrder m)
    · intro markers hmarkers hsome
      by_contra hshort
      obtain ⟨req, e, hoverrides, hentries, haccepted, hsame, hcrash⟩ :=
        short_hash_crashes hlower hrouters hmarkers hsome (Nat.lt_of_not_le hshort)
      obtain ⟨m, hm⟩ := hreturns req e hoverrides hentries haccepted hsame
      exact hm listOrder (m + 3) (by omega) _ (hcrash listOrder m)
  · rintro ⟨hroutes, hlong⟩ req e rfl hentries _ rfl
    by_cases hname : req.serviceName = ""
    · refine ⟨0, fun w n _ => ?_⟩
      unfold CompileRequest.compile
      rw [if_pos hname]
      simp [Returns]
    · obtain ⟨m, hm⟩ := CompileRequest.compile_crash hentries
      refine ⟨m, fun w n hn text h => ?_⟩
      rcases hm w n hn text h with ⟨⟨router, hrouter, henabled, route, hroute, hnone⟩, -⟩ |
        ⟨c, hmarked, hhash⟩
      · exact hroutes (disabled_eq_false_iff.mp henabled) _ router hname hrouter route hroute hnone
      · obtain ⟨hash, hok⟩ := customizationHash_ok hlong (markers_customize hlower hmarked)
        cases hok.symm.trans hhash

end Crashes

section Example

attribute [local instance] ascii exactNumbers noHash

theorem char_toLower_of_not {c : Char} (h : ¬(c.val ≥ 'A'.val ∧ c.val ≤ 'Z'.val)) :
    c.toLower = c := by
  exact dif_neg h

theorem char_toLower_toLower (c : Char) : c.toLower.toLower = c.toLower := by
  by_cases h : c.val ≥ 'A'.val ∧ c.val ≤ 'Z'.val
  · apply char_toLower_of_not
    have hval : c.toLower.val = c.val + ('a'.val - 'A'.val) := by
      unfold Char.toLower
      rw [dif_pos h]
    have hA : 'A'.val.toNat = 65 := rfl
    have hZ : 'Z'.val.toNat = 90 := rfl
    have hshift : ('a'.val - 'A'.val).toNat = 32 := rfl
    simp only [ge_iff_le, UInt32.le_iff_toNat_le, hval, UInt32.toNat_add] at h ⊢
    omega
  · rw [char_toLower_of_not h, char_toLower_of_not h]

theorem ascii_lowerCases : LowerCases where
  again text := by
    show String.ofList ((String.ofList (text.toList.map Char.toLower)).toList.map Char.toLower) =
      String.ofList (text.toList.map Char.toLower)
    rw [String.toList_ofList, List.map_map]
    congr 1
    refine map_congr_left fun c _ => ?_
    exact char_toLower_toLower c
  tcp := by decide
  http := by decide

/-- A router with a route that only says what it matches. -/
def bareRoute : ServiceRouterConfigEntry where
  name := "web"
  routes := [{ http := some { pathPrefix := "/admin" } }]

def bareRouter : KeyMap String ServiceRouterConfigEntry := namedEntries (·.name) [bareRoute]

theorem bareRouter_accepted : ∀ k r, bareRouter.get k = some r →
    (ConfigContent.serviceRouter r).Accepted := by
  intro k r hr
  rcases KeyMap.get_insert_cases hr with ⟨-, rfl⟩ | hr
  · exact ⟨⟨.serviceRouter bareRoute, rfl⟩, rfl⟩
  · cases hr

/-- A router that is accepted crashes the server that compiles its chain. -/
theorem a_bare_route_crashes : (ConfigContent.serviceRouter bareRoute).normalize =
      .serviceRouter bareRoute ∧ (ConfigContent.serviceRouter bareRoute).validate = .ok () ∧
    ∀ w n, (webRequest { routers := bareRouter }).compile w (n + 1) =
      .error (.panic "invalid memory address or nil pointer dereference") :=
  ⟨rfl, rfl, fun _ _ => rfl⟩

theorem bare_routes_do_not_return : ¬∀ (req : CompileRequest) (e : DiscoveryChainConfigEntries),
    req.overrides = ⟨.modeDefault, "", 0⟩ → req.entries = some e → e.Accepted →
      e.routers = bareRouter → ∃ m, ∀ w n, m ≤ n → Returns (req.compile w n) := by
  intro hreturns
  have hroutes := ((compile_returns_iff ascii_lowerCases bareRouter_accepted _).mp hreturns).1
  exact hroutes (.inl rfl) "web" bareRoute (by decide) rfl _ mem_cons_self rfl

end Example

end OpenGyoza
