-- Where the reader of a chain misses an entry: a name that is found in
-- another case, and a service whose plain destination has the ID of a
-- destination of another service, to which a resolver redirects.
import OpenGyoza.ChainCrashes
import OpenGyoza.ChainReader

namespace OpenGyoza

open Memdb Relation List ConfigContent Txn ConfigTable Destination

/-! ## Single steps of the assembly -/

variable {q : Destination}

section Steps

variable {req : CompileRequest} {e : DiscoveryChainConfigEntries} {c : Compiler}

/-- The target that is made for a destination. -/
def targetFor (req : CompileRequest) (q : Destination) : DiscoveryTarget where
  service := q.service
  serviceSubset := q.serviceSubset
  namespaceName := q.namespaceName
  datacenter := q.datacenter
  sni := serviceSNI q.service q.serviceSubset q.namespaceName q.datacenter
    req.evaluateInTrustDomain
  name := serviceSNI q.service q.serviceSubset q.namespaceName q.datacenter
    req.evaluateInTrustDomain

variable {service : String} {resolver : ServiceResolverConfigEntry} {n : Nat} {order : List String}
  {t : DiscoveryTarget}

theorem newTarget_new {serviceSubset namespaceName datacenter : String}
    (hq : req.destination service serviceSubset namespaceName datacenter = q)
    (hservice : service ≠ "") (h : c.loadedTargets.get q.id = none) :
    newTarget req service serviceSubset namespaceName datacenter c =
      (.ok (targetFor req q),
        { c with loadedTargets := c.loadedTargets.insert q.id (targetFor req q) }) := by
  subst hq
  unfold newTarget
  rw [if_neg hservice]
  erw [read_bind, h]
  rfl

variable [External] [ConfigExternal]

theorem recordServiceProtocol_same {svc : ServiceConfigEntry}
    (h : e.services.get service = some svc) (hprotocol : svc.protocol = "http")
    (hlower : toLower "http" = "http") (hc : c.protocol = "" ∨ c.protocol = "http") :
    recordServiceProtocol req e service c = (.ok (), { c with protocol := "http" }) := by
  obtain ⟨_, _, _, _, _, protocol, _, _, _, _⟩ := c
  unfold recordServiceProtocol
  rw [h]
  rcases hc with rfl | rfl <;>
  simp [recordProtocol, hprotocol, hlower, Txn.read, Txn.modify, bind, pure]

omit [External] [ConfigExternal] in
theorem fetchResolver_found (h : c.resolvers.get service = some resolver) :
    fetchResolver service c = (.ok resolver, c) := by
  simp [fetchResolver, Txn.read, bind, pure, h]

theorem resolveAgain_here {c1 c2 : Compiler} (hnew : t.id ∉ c.resolveNodes)
    (hrecord : recordServiceProtocol req e t.service c = (.ok (), c1))
    (hfetch : fetchResolver t.service c1 = (.ok resolver, c2)) (horder : t.id ∉ order)
    (hredirect : resolver.redirect = none) (hdefault : resolver.defaultSubset = "")
    (hsubset : t.serviceSubset = "" ∨ resolver.subsetExists t.serviceSubset) :
    resolveAgain req e (n + 1) order t c = (.ok (.fresh t resolver), c2) := by
  have hstay : redirectedTarget req t resolver c2 = (.ok none, c2) := by
    unfold redirectedTarget
    rw [hredirect]
    rfl
  have hexists : ¬(t.serviceSubset ≠ "" ∧ ¬resolver.subsetExists t.serviceSubset) := by
    tauto
  rw [resolveAgain, read_bind, if_neg hnew, bind_of_ok hrecord, bind_of_ok hfetch,
    if_neg horder, bind_of_ok hstay, if_neg (by simp [hdefault]), if_neg hexists]
  rfl

omit [ConfigExternal] in
theorem buildResolver_plain (req : CompileRequest) (e : DiscoveryChainConfigEntries)
    (htimeout : req.overrideConnectTimeout = 0) (hmode : req.overrideMeshGateway = .modeDefault)
    (resolver : ServiceResolverConfigEntry) (hloaded : c.loadedTargets.get t.id = some t)
    (hinner : t.external = false)
    (hsvc : ∀ svc, e.services.get t.service = some svc → svc.externalSNI = "") :
    ∃ t' r, t'.service = t.service ∧ t'.id = t.id ∧ r.target = t.id ∧
      buildResolver req e t resolver c = (.ok (.resolver t.id r), { c with
        loadedTargets := c.loadedTargets.insert t.id t'
        retainedTargets := t.id :: c.retainedTargets }) := by
  have hgateway : ∀ t, (meshGatewayFor req e t).2 = false := by
    intro t
    unfold meshGatewayFor
    split
    · rfl
    · simp [hmode]
  have hsame : ∀ t' : DiscoveryTarget, t'.service = t.service → externalTarget e t' = t' := by
    intro t' ht'
    unfold externalTarget
    rw [ht']
    split
    · rename_i svc hfound
      rw [if_neg (by simp [hsvc svc hfound])]
    · rfl
  have hfault : ∀ t' : DiscoveryTarget, t'.external = false →
      externalFault t' resolver = none := by
    intro t' ht'
    simp [externalFault, ht']
  refine ⟨{ t with
      subset := (resolver.subsets.lookup t.serviceSubset).getD {}
      meshGateway := (meshGatewayFor req e { t with
        subset := (resolver.subsets.lookup t.serviceSubset).getD {} }).1 },
    { isDefault := resolver.isDefault
      connectTimeout :=
        if resolver.connectTimeout < 1 then 5000000000 else resolver.connectTimeout
      target := t.id }, rfl, rfl, rfl, ?_⟩
  unfold buildResolver
  rw [Txn.read_bind, hloaded, Option.getD_some,
    hsame { t with subset := (resolver.subsets.lookup t.serviceSubset).getD {} } rfl,
    hfault { t with subset := (resolver.subsets.lookup t.serviceSubset).getD {} } hinner]
  simp [hgateway, htimeout, Txn.modify, bind, pure]

theorem getResolverNode_known (h : t.id ∈ c.resolveNodes) :
    getResolverNode req e (n + 1) t c = (.ok t.id, c) := by
  simp [getResolverNode, resolveAgain, Txn.read, bind, pure, h]

theorem getResolverNode_fresh {t' : DiscoveryTarget} {c1 c2 : Compiler} {node : DiscoveryGraphNode}
    (hresolved : resolveAgain req e n [] t c = (.ok (.fresh t' resolver), c1))
    (hbuild : buildResolver req e t' resolver c1 = (.ok node, c2))
    (hfailover : resolver.failoverFor t'.serviceSubset = none) :
    getResolverNode req e n t c = (.ok t'.id, (recordNode node c2).2) := by
  unfold getResolverNode
  rw [bind_of_ok hresolved]
  dsimp only
  rw [bind_of_ok hbuild, hfailover]
  rfl

end Steps

/-! ## A redirect to a destination with the ID of another one -/

/-- A resolver of `q` with its subset. -/
def Gap.resolverOf (q : Destination) : ServiceResolverConfigEntry where
  name := q.service
  subsets := if q.serviceSubset = "" then [] else [(q.serviceSubset, {})]

/-- The first route of the router of `p` leads to `q`, and the default route leads to `p`. -/
structure Gap (p q : Destination) (e : DiscoveryChainConfigEntries) : Prop where
  router : e.routers.get p.service = some
    { name := p.service, routes := [{ destination := some { serviceSubset := p.service } }] }
  redirect : e.resolvers.get p.service = some
    { name := p.service
      redirect := some ⟨q.service, q.serviceSubset, q.namespaceName, q.datacenter⟩ }
  resolver : e.resolvers.get q.service = some (Gap.resolverOf q)
  http : e.services.get p.service = some { name := p.service, protocol := "http" }
  http' : e.services.get q.service = some { name := q.service, protocol := "http" }

/-- The splitter of `q` leads to `p`. -/
def Gap.splitter (p q : Destination) : ServiceSplitterConfigEntry where
  name := q.service
  splits := [⟨100, p.service, "", ""⟩]

/-- The chain of `p` is asked for where `p` is. -/
def Destination.request (p : Destination) : CompileRequest where
  serviceName := p.service
  evaluateInNamespace := p.namespaceName
  evaluateInDatacenter := p.datacenter
  evaluateInTrustDomain := "consul"
  useInDatacenter := p.datacenter
  entries := none

/-- Every field but the subset is there. -/
structure Destination.Complete (q : Destination) : Prop where
  service : q.service ≠ ""
  namespaceName : q.namespaceName ≠ ""
  datacenter : q.datacenter ≠ ""

/-- The destination of the first route. -/
def Destination.routed (p : Destination) : Destination := { p with serviceSubset := p.service }

variable {p : Destination}

theorem Destination.routed_id (hp : p.Complete) (hplain : p.serviceSubset = "") :
    p.routed.id ≠ p.id := by
  intro h
  have hlen := congrArg String.length h
  simp [id, routed, hp.service, hplain, String.length_append] at hlen

theorem defaultIfEmpty_empty (val : String) : defaultIfEmpty val "" = val := by
  unfold defaultIfEmpty
  split
  · rfl
  · exact Eq.symm (not_not.mp ‹_›)

theorem targetFor_id (req : CompileRequest) (q : Destination) : (targetFor req q).id = q.id := rfl

variable {c : Compiler}

section Runs

variable [External] [ConfigExternal] {p q : Destination} {e : DiscoveryChainConfigEntries}

omit [External] [ConfigExternal] in
theorem redirectedTarget_gap (hne : q.service ≠ p.service) (hq : q.Complete) {t : DiscoveryTarget}
    (ht : t.service = p.service) (hid : q.id ≠ t.id) (hnew : c.loadedTargets.get q.id = none) :
    redirectedTarget p.request t
        { name := p.service
          redirect := some ⟨q.service, q.serviceSubset, q.namespaceName, q.datacenter⟩ } c =
      (.ok (some (targetFor p.request q)), { c with
        loadedTargets := c.loadedTargets.insert q.id (targetFor p.request q) }) := by
  have hmoved : q.service ≠ "" ∧ q.service ≠ t.service := ⟨hq.service, ht ▸ hne⟩
  have hdest : p.request.destination q.service (defaultIfEmpty q.serviceSubset "")
      (defaultIfEmpty q.namespaceName t.namespaceName)
      (defaultIfEmpty q.datacenter t.datacenter) = q := by
    rw [defaultIfEmpty_empty]
    simp [CompileRequest.destination, defaultIfEmpty, hq.namespaceName, hq.datacenter]
  unfold redirectedTarget rewriteTarget
  dsimp only
  rw [if_pos hmoved, if_pos hmoved, bind_of_ok (newTarget_new hdest hq.service hnew),
    targetFor_id, if_pos hid]
  rfl

/-- The state after the first route. -/
structure Gap.Routed (q : Destination) (c : Compiler) : Prop where
  nodes : ∃ r, c.nodes = KeyMap.empty.insert (resolverKey q.id) (.resolver q.id r)
  resolveNodes : c.resolveNodes = [q.id]
  splitterNodes : c.splitterNodes = []
  loaded : ∃ t, c.loadedTargets.get q.id = some t ∧ t.service = q.service ∧ t.id = q.id
  protocol : c.protocol = "http"
  customizedBy : c.customizedBy = {}

/-- The state before the first route. -/
def Gap.start (e : DiscoveryChainConfigEntries) : Compiler where
  resolvers := e.resolvers
  usesAdvancedRoutingFeatures := true
  protocol := "http"

/-- The state when the target of the first route is made. -/
def Gap.asked (p : Destination) (e : DiscoveryChainConfigEntries) : Compiler :=
  { Gap.start e with
    loadedTargets := KeyMap.empty.insert p.routed.id (targetFor p.request p.routed) }

/-- The state when that target is redirected. -/
def Gap.redirected (p q : Destination) (e : DiscoveryChainConfigEntries) : Compiler :=
  { Gap.start e with
    loadedTargets := (KeyMap.empty.insert p.routed.id (targetFor p.request p.routed)).insert q.id
      (targetFor p.request q) }

theorem resolveAgain_gap (h : Gap p q e) (hlower : toLower "http" = "http") (hq : q.Complete)
    (hne : q.service ≠ p.service) (hid : q.id ≠ p.routed.id) (n : Nat) :
    resolveAgain p.request e (n + 2) [] (targetFor p.request p.routed) (Gap.asked p e) =
      (.ok (.fresh (targetFor p.request q)
        (Gap.resolverOf q)), Gap.redirected p q e) := by
  have hmoved : redirectedTarget p.request (targetFor p.request p.routed) _ (Gap.asked p e) =
      (.ok (some (targetFor p.request q)), Gap.redirected p q e) :=
    redirectedTarget_gap hne hq rfl hid
      (KeyMap.get_insert_of_ne hid)
  have hprotocol : recordServiceProtocol p.request e (targetFor p.request p.routed).service
      (Gap.asked p e) = (.ok (), Gap.asked p e) :=
    recordServiceProtocol_same h.http rfl hlower (.inr rfl)
  have hfound : fetchResolver (targetFor p.request p.routed).service (Gap.asked p e) = _ :=
    fetchResolver_found h.redirect
  rw [resolveAgain, read_bind, if_neg (by simp [Gap.asked, Gap.start]), bind_of_ok hprotocol,
    bind_of_ok hfound, if_neg (by simp), bind_of_ok hmoved]
  refine (resolveAgain_here ?_
    (recordServiceProtocol_same h.http' rfl hlower (.inr rfl)) (fetchResolver_found h.resolver) ?_
    rfl rfl ?_)
  · simp [Gap.redirected, Gap.start]
  · simpa [targetFor_id] using hid
  · right
    by_cases hsubset : q.serviceSubset = "" <;>
    simp [ServiceResolverConfigEntry.subsetExists, targetFor, Gap.resolverOf, hsubset]

theorem routeNext_gap (h : Gap p q e) (hlower : toLower "http" = "http") (hp : p.Complete)
    (hq : q.Complete) (hne : q.service ≠ p.service) (hid : q.id ≠ p.routed.id) (n : Nat) :
    ∃ c, routeNext p.request e (n + 2) { serviceSubset := p.service } (Gap.start e) =
      (.ok (resolverKey q.id), c) ∧ Gap.Routed q c := by
  have hdest : p.request.destination (defaultIfEmpty "" p.request.serviceName) p.service "" "" =
      p.routed := by
    simp [CompileRequest.destination, defaultIfEmpty, request, routed]
  have hfirst : newTarget p.request (defaultIfEmpty "" p.request.serviceName) p.service "" ""
      (Gap.start e) = (.ok (targetFor p.request p.routed), Gap.asked p e) :=
    newTarget_new hdest hp.service rfl
  have hsni : ∀ svc, e.services.get q.service = some svc → svc.externalSNI = "" := by
    intro svc hsvc
    cases h.http'.symm.trans hsvc
    rfl
  obtain ⟨t, r, hservice, htid, htarget, hbuild⟩ :=
    buildResolver_plain p.request e rfl rfl (c := Gap.redirected p q e)
      (t := targetFor p.request q) (Gap.resolverOf q) (KeyMap.get_insert_self ..) rfl hsni
  have hnode := getResolverNode_fresh (resolveAgain_gap h hlower hq hne hid n) hbuild rfl
  unfold routeNext
  rw [bind_of_ok hfirst, if_neg (fun hempty => hp.service hempty.1)]
  refine ⟨_, bind_of_ok hnode, ⟨r, rfl⟩, ?_, rfl,
    ⟨t, KeyMap.get_insert_self .., hservice, htid⟩, rfl, rfl⟩
  show [r.target] = [q.id]
  rw [htarget]
  rfl

theorem defaultNext_gap (hc : Gap.Routed q c) (hp : p.Complete) (hplain : p.serviceSubset = "")
    (hid : q.id = p.id) (hne : q.service ≠ p.service) (n : Nat) :
    (e.splitters.get q.service = none →
      defaultNext p.request e (n + 2) c = (.ok (resolverKey q.id), c)) ∧
    (e.splitters.get p.service = none →
      e.splitters.get q.service = some (Gap.splitter p q) →
      ∃ c', defaultNext p.request e (n + 2) c = (.ok (splitterKey q.service), c')) := by
  obtain ⟨t, ht, hservice, htid⟩ := hc.loaded
  have hdest : p.request.destination p.request.serviceName "" "" "" = p := by
    rcases p with ⟨service, _, namespaceName, datacenter⟩
    cases hplain
    simp [CompileRequest.destination, defaultIfEmpty, Destination.request]
  have hfirst : ∀ d : Compiler, d.loadedTargets = c.loadedTargets →
      newTarget p.request p.service "" "" "" d = (.ok t, d) := by
    intro d hd
    unfold newTarget
    rw [if_neg hp.service]
    rw [hid, ← hdest, ← hd] at ht
    refine (bind_of_ok (?_ : _ = (Except.ok (some t), d))).trans rfl
    exact congrArg (fun prev => (Except.ok prev, d)) ht
  have hmem : t.id ∈ c.resolveNodes := by simp [hc.resolveNodes, htid]
  unfold defaultNext getSplitterOrResolverNode
  rw [show p.request.serviceName = p.service from rfl, Txn.bind_of_ok (hfirst c rfl), hservice]
  constructor
  · intro hnone
    have hsplit : getSplitterNode p.request e (n + 2) (n + 2) q.service c = (.ok none, c) := by
      simp [getSplitterNode, Txn.read, bind, pure, hc.splitterNodes, hnone]
    rw [Txn.bind_of_ok hsplit]
    dsimp only
    rw [Txn.bind_of_ok (getResolverNode_known hmem), htid]
    rfl
  · intro hself hsome
    have hadvanced : disableAdvancedRoutingFeatures p.request = false := rfl
    -- the split leads to the target of `q` under the name of `p`
    have hnext : ∀ d : Compiler, d.loadedTargets = c.loadedTargets → d.splitterNodes = [q.service] →
        d.resolveNodes = c.resolveNodes →
        splitNext p.request e (getSplitterNode p.request e (n + 2) (n + 1)) (n + 2) q.service
          ⟨100, p.service, "", ""⟩ d = (.ok (resolverKey t.id), d) := by
      intro d hloaded hsplitters hresolve
      have hsplit : getSplitterNode p.request e (n + 2) (n + 1) p.service d = (.ok none, d) := by
        simp [getSplitterNode, Txn.read, bind, pure, hsplitters, hself, hne.symm]
      have hmem' : t.id ∈ d.resolveNodes := hresolve ▸ hmem
      simp only [splitNext, defaultIfEmpty, ne_eq, hp.service, hne.symm, not_false_eq_true,
        and_self, if_true]
      rw [Txn.bind_of_ok hsplit]
      dsimp only
      rw [Txn.bind_of_ok (hfirst d hloaded), Txn.bind_of_ok (getResolverNode_known hmem')]
      rfl
    rw [getSplitterNode]
    simp [Txn.read, Txn.modify, recordNode, bind, pure, hc.splitterNodes, hsome, hadvanced,
      Txn.forEach, Gap.splitter, compileSplit, hnext, addSplit]

/-- The router as it stands in the chain, with the node of its default route. -/
def Gap.routerNode (p q : Destination) (next : String) : DiscoveryGraphNode :=
  .router p.service [
    { definition := { destination := some { serviceSubset := p.service } }
      nextNode := resolverKey q.id },
    { definition := newDefaultServiceRoute p.service, nextNode := next }]

theorem assembleChain_router (h : Gap p q e) (hlower : toLower "http" = "http") {n : Nat}
    {next : String} {c' : Compiler}
    (hroute : routeNext p.request e n { serviceSubset := p.service } (Gap.start e) =
      (.ok (resolverKey q.id), c)) (hdefault : defaultNext p.request e n c = (.ok next, c')) :
    assembleChain p.request e n { resolvers := e.resolvers } = (.ok (), { c' with
      startNode := routerKey p.service
      nodes := c'.nodes.insert (routerKey p.service) (Gap.routerNode p q next) }) := by
  have hlen : e.resolvers.len ≠ 0 := by
    intro hzero
    have hnone := KeyMap.get_of_len_zero hzero p.service
    rw [h.redirect] at hnone
    cases hnone
  have hroutes : compileRoutes p.request e n
      [{ destination := some { serviceSubset := p.service } }] (Gap.start e) =
      (.ok [{ definition := { destination := some { serviceSubset := p.service } }
              nextNode := resolverKey q.id }], c) := by
    simp only [compileRoutes]
    rw [bind_of_ok hroute]
    rfl
  have hprotocol : recordServiceProtocol p.request e p.service
      { resolvers := e.resolvers, usesAdvancedRoutingFeatures := true } =
      (.ok (), Gap.start e) := recordServiceProtocol_same h.http rfl hlower (.inl rfl)
  have hrouter : e.routers.get p.request.serviceName = some _ := h.router
  have hadvanced : disableAdvancedRoutingFeatures p.request = false := rfl
  unfold assembleChain
  rw [modify_bind, modify_bind, hrouter]
  simp only [hlen, hadvanced, false_and, and_false, Bool.false_eq_true, if_false]
  unfold assembleRouter
  rw [modify_bind, bind_of_ok hprotocol, bind_of_ok hroutes, bind_of_ok hdefault]
  rfl

end Runs

/-! ## The passes over such a chain -/

variable {req : CompileRequest}

section Passes

variable [External] [ConfigExternal] [Hashstructure] {p q : Destination}
  {e : DiscoveryChainConfigEntries}

omit [External] [Hashstructure] in
theorem flattenNodes_of_no_splitter {nodes : ChainNodes}
    (h : ∀ k name splits, nodes.get k ≠ some (.splitter name splits)) (keys : List String) :
    flattenNodes keys nodes = .ok (nodes, false) := by
  induction keys with
  | nil => rfl
  | cons key keys ih =>
    have hkey : flattenNode nodes key = .ok (nodes, false) := by
      unfold flattenNode
      split
      · exact absurd ‹_› (h _ _ _)
      · rfl
    simp [flattenNodes, hkey, ih, bind, Except.bind]

theorem Gap.compiles {r : DiscoveryResolver} (hstart : c.startNode = routerKey p.service)
    (hprotocol : c.protocol = "http") (hcustom : c.customizedBy = {})
    (hnodes : c.nodes = (KeyMap.empty.insert (resolverKey q.id) (.resolver q.id r)).insert
      (routerKey p.service) (Gap.routerNode p q (resolverKey q.id))) (n : Nat) :
    ∃ chain, c.compile listOrder (n + 8) p.request = .ok chain := by
  have hapart := routerKey_ne_resolverKey p.service q.id
  have hrouter : c.nodes.get (routerKey p.service) =
      some (Gap.routerNode p q (resolverKey q.id)) := by simp [hnodes]
  have hresolver : c.nodes.get (resolverKey q.id) = some (.resolver q.id r) := by
    rw [hnodes, KeyMap.get_insert_of_ne hapart.symm]
    simp
  have hdetect : detectCircularReferences (n + 8) c.nodes c.startNode = .ok () := by
    simp [detectCircularReferences, detectLoop, DiscoveryGraphNode.nextNodes, hstart, hrouter,
      hresolver, Gap.routerNode, hapart.symm]
  have hflatten : flattenAdjacentSplitterNodes listOrder (n + 8) c.nodes = .ok c.nodes := by
    have hnone : ∀ k name splits, c.nodes.get k ≠ some (.splitter name splits) := by
      intro k name splits hk
      rw [hnodes] at hk
      rcases KeyMap.get_insert_cases hk with ⟨-, h⟩ | hk
      · cases h
      · rcases KeyMap.get_insert_cases hk with ⟨-, h⟩ | hk
        · cases h
        · cases hk
    simp [flattenAdjacentSplitterNodes, flattenNodes_of_no_splitter hnone, bind, Except.bind]
  have hprune : ∃ nodes, removeUnusedNodes listOrder (n + 8) c.nodes c.startNode = .ok nodes := by
    simp [removeUnusedNodes, Walks.run, visitNode, listOrder, hstart, hrouter, hresolver,
      routerKey_ne_empty, resolverKey_ne_empty, hapart.symm, Gap.routerNode,
      DiscoveryGraphNode.nextNodes, bind, Except.bind]
    split
    · exact ⟨_, rfl⟩
    · exact ⟨_, rfl⟩
  obtain ⟨nodes, hprune⟩ := hprune
  unfold Compiler.compile
  rw [if_neg (by rw [hstart]; exact routerKey_ne_empty _), hdetect, hflatten]
  simp [bind, Except.bind, hprune, hprotocol, hcustom, enableAdvancedRoutingForProtocol,
    customizationHash, CustomizationMarkers.isZero, request]

theorem Compiler.compile_startNode {w : Walks String} {n : Nat} {chain : CompiledDiscoveryChain}
    (hc : ChainAssembled c) (h : c.compile w n req = .ok chain) {node : DiscoveryGraphNode}
    (hnode : c.nodes.get c.startNode = some node) (hother : node.isSplitter = false) :
    chain.nodes.get c.startNode = some node := by
  obtain ⟨-, nodes, hflatten, hremove, -, -⟩ := Compiler.compile_eq_ok h
  obtain ⟨hflat, -⟩ := flattenAdjacentSplitterNodes_joined hflatten
  have hnamed : ∀ k, ReflTransGen (ChainNodes.Leads nodes) c.startNode k → k ≠ "" := by
    rintro k hk rfl
    exact hc.keyed (mem_keys_of_flattened hflat hc.next hc.start hk)
  obtain ⟨hkept, -⟩ := removeUnusedNodes_kept hnamed hremove
  refine (hkept _ _).mpr ⟨?_, .refl⟩
  rcases hflat.same c.startNode with hsame | ⟨⟨name, splits, hsplitter⟩, -⟩
  · rw [hsame, hnode]
  · rw [hnode] at hsplitter
    cases hsplitter
    cases hother

theorem Destination.compile_request (hp : p.Complete) {w : Walks String} {n : Nat}
    (h : assembleChain p.request e n { resolvers := e.resolvers } = (.ok (), c)) :
    { p.request with entries := some e }.compile w n = c.compile w n p.request := by
  unfold CompileRequest.compile
  rw [if_neg (by exact hp.service), if_neg (by exact hp.namespaceName),
    if_neg (by exact hp.datacenter), if_neg (by simp [request]),
    if_neg (by exact hp.datacenter)]
  dsimp only
  rw [assembleChain_entries, h]
  rfl

theorem Gap.compile_ne {e' : DiscoveryChainConfigEntries} (h : Gap p q e) (h' : Gap p q e')
    (hlower : toLower "http" = "http") (hp : p.Complete) (hplain : p.serviceSubset = "")
    (hq : q.Complete) (hne : q.service ≠ p.service) (hid : q.id = p.id)
    (hnone : e.splitters.get q.service = none) (hself : e'.splitters.get p.service = none)
    (hsome : e'.splitters.get q.service = some (Gap.splitter p q)) (n : Nat) :
    { p.request with entries := some e }.compile listOrder (n + 8) ≠
      { p.request with entries := some e' }.compile listOrder (n + 8) := by
  have hapart : q.id ≠ p.routed.id := hid ▸ (routed_id hp hplain).symm
  obtain ⟨c, hroute, hc⟩ := routeNext_gap h hlower hp hq hne hapart (n + 6)
  obtain ⟨d, hroute', hd⟩ := routeNext_gap h' hlower hp hq hne hapart (n + 6)
  have hassemble := assembleChain_router h hlower hroute
    ((defaultNext_gap hc hp hplain hid hne (n + 6)).1 hnone)
  obtain ⟨d', hnext⟩ := (defaultNext_gap hd hp hplain hid hne (n + 6)).2 hself hsome
  have hassemble' := assembleChain_router h' hlower hroute' hnext
  rw [compile_request hp hassemble, compile_request hp hassemble']
  obtain ⟨r, hnodes⟩ := hc.nodes
  obtain ⟨chain, hchain⟩ := Gap.compiles (c := { c with
      startNode := routerKey p.service
      nodes := c.nodes.insert (routerKey p.service) (Gap.routerNode p q (resolverKey q.id)) })
    rfl hc.protocol hc.customizedBy (by rw [hnodes]) n
  intro heq
  have hrouter := Compiler.compile_startNode (assembleChain_assembled hassemble) hchain
    (KeyMap.get_insert_self ..) rfl
  have hrouter' := Compiler.compile_startNode (assembleChain_assembled hassemble')
    (heq.symm.trans hchain) (KeyMap.get_insert_self ..) rfl
  have hnodes : Gap.routerNode p q (resolverKey q.id) =
      Gap.routerNode p q (splitterKey q.service) :=
    Option.some.inj (hrouter.symm.trans hrouter')
  have hkeys : resolverKey q.id = splitterKey q.service := by
    simpa [Gap.routerNode] using hnodes
  exact splitterKey_ne_resolverKey _ _ hkeys.symm

end Passes

/-! ## A service without entries of its own -/

section Bare

variable [External] [ConfigExternal] [Hashstructure] {p : Destination}
  {e : DiscoveryChainConfigEntries}

omit [External] [ConfigExternal] [Hashstructure] in
theorem fetchResolver_default {service : String} (h : c.resolvers.get service = none ∨
      c.resolvers.get service = some (newDefaultServiceResolver service)) :
    ∃ m, fetchResolver service c =
      (.ok (newDefaultServiceResolver service), { c with resolvers := m }) := by
  rcases h with h | h
  · refine ⟨c.resolvers.insert service (newDefaultServiceResolver service), ?_⟩
    simp [fetchResolver, Txn.read, Txn.modify, bind, pure, h]
  · exact ⟨c.resolvers, fetchResolver_found h⟩

variable (protocol : String) (hp : p.Complete) (hrouter : e.routers.get p.service = none)
  (hsplitter : e.splitters.get p.service = none) (hresolver : e.resolvers.get p.service = none)
  (hsni : ∀ svc, e.services.get p.service = some svc → svc.externalSNI = "")
  (hprotocol : ∀ c : Compiler, c.protocol = "" →
    recordServiceProtocol p.request e p.service c = (.ok (), { c with protocol := protocol }))

include hp hrouter hsplitter hresolver hsni hprotocol

omit [Hashstructure] in
theorem assembleChain_bare (n : Nat) :
    ∃ c, assembleChain p.request e (n + 1) { resolvers := e.resolvers } = (.ok (), c) ∧
      SingleNode c ∧ c.protocol = protocol ∧ c.customizedBy = {} := by
  let q : Destination := { p with serviceSubset := "" }
  have hdest : p.request.destination p.request.serviceName "" "" "" = q := by
    simp [CompileRequest.destination, defaultIfEmpty, Destination.request, q]
  obtain ⟨m, hm, hfirst⟩ : ∃ m : KeyMap String ServiceResolverConfigEntry,
      (m.get p.service = none ∨ m.get p.service = some (newDefaultServiceResolver p.service)) ∧
      assembleChain p.request e (n + 1) { resolvers := e.resolvers } =
        (do
          let next ← defaultNext p.request e (n + 1)
          Txn.modify fun c => { c with startNode := next } : Txn Compiler Unit)
        { resolvers := m } := by
    have hnone : e.routers.get p.request.serviceName = none := hrouter
    unfold assembleChain
    rw [Txn.modify_bind, Txn.modify_bind, hnone]
    by_cases hempty : e.resolvers.len = 0 ∧ e.isChainEmpty
    · refine ⟨_, .inr (KeyMap.get_insert_self e.resolvers ..), ?_⟩
      simp only [hempty, Option.isSome_none, Bool.false_eq_true, false_and, if_false, and_self,
        if_true]
      rfl
    · refine ⟨e.resolvers, .inl hresolver, ?_⟩
      simp [hempty]
  let t := targetFor p.request q
  let c1 : Compiler := { resolvers := m, loadedTargets := KeyMap.empty.insert q.id t }
  have htarget : newTarget p.request p.request.serviceName "" "" "" { resolvers := m } =
      (.ok t, c1) := newTarget_new hdest hp.service rfl
  have hsplit : getSplitterNode p.request e (n + 1) (n + 1) t.service c1 = (.ok none, c1) := by
    have hnone : e.splitters.get t.service = none := hsplitter
    simp [getSplitterNode, Txn.read, bind, pure, hnone, c1]
  obtain ⟨m', hfetch⟩ : ∃ m', fetchResolver t.service { c1 with protocol := protocol } =
      (.ok (newDefaultServiceResolver t.service),
        { c1 with protocol := protocol, resolvers := m' }) := fetchResolver_default hm
  have hresolved : resolveAgain p.request e (n + 1) [] t c1 = _ :=
    resolveAgain_here (by simp [c1]) (hprotocol c1 rfl) hfetch (by simp) rfl rfl (.inl rfl)
  obtain ⟨t', r, -, -, -, hbuild⟩ := buildResolver_plain p.request e rfl rfl
    (c := { c1 with protocol := protocol, resolvers := m' }) (t := t)
    (newDefaultServiceResolver t.service) (KeyMap.get_insert_self ..) rfl hsni
  have hnode := getResolverNode_fresh hresolved hbuild rfl
  have hnext : getSplitterOrResolverNode p.request e (n + 1) t c1 =
      (.ok (resolverKey t.id), _) :=
    (Txn.bind_of_ok hsplit).trans (Txn.bind_of_ok hnode)
  have hdefault : defaultNext p.request e (n + 1) { resolvers := m } =
      (.ok (resolverKey t.id), _) := (Txn.bind_of_ok htarget).trans hnext
  exact ⟨_, hfirst.trans (Txn.bind_of_ok hdefault), ⟨⟨t.id, r, rfl, rfl⟩, rfl⟩, rfl, rfl⟩

theorem compile_bare (w : Walks String) (n : Nat) :
    ∃ chain, { p.request with entries := some e }.compile w (n + 3) = .ok chain ∧
      chain.protocol = protocol := by
  obtain ⟨c, hassemble, hsingle, rfl, hcustom⟩ :=
    assembleChain_bare protocol hp hrouter hsplitter hresolver hsni hprotocol (n + 2)
  have hhash : customizationHash p.request (c.markers p.request) = .ok "" := by
    simp [customizationHash, Compiler.markers, hcustom, request,
      CustomizationMarkers.isZero]
  rw [compile_request hp hassemble, hsingle.compile, hhash]
  exact ⟨_, rfl, by simp [request]⟩

end Bare

/-! ## Tables with given entries -/

section Tables

variable [External]

def ConfigTable.of (l : List ConfigContent) : ConfigTable :=
  Table.empty.putAll (l.map fun c => { content := c })

/-- No two entries have the same place in the table. -/
structure Placed (l : List ConfigContent) : Prop where
  named : ∀ c ∈ l, c.name ≠ ""
  unique : ∀ c ∈ l, ∀ c' ∈ l, c.kind = c'.kind → toLower c.name = toLower c'.name → c = c'

theorem Placed.mem {l : List ConfigContent} (h : Placed l) {e : ConfigEntry} :
    e ∈ (of l).values ↔ ∃ c ∈ l, e = { content := c } := by
  constructor
  · intro he
    rcases Table.mem_values_of_putAll he with he | he
    · obtain ⟨c, hc, rfl⟩ := mem_map.mp he
      exact ⟨c, hc, rfl⟩
    · simp at he
  · rintro ⟨c, hc, rfl⟩
    have hkey : configEntryKey { content := c } = .ok (toLex (c.kind.text, toLower c.name)) := by
      unfold configEntryKey
      rw [if_neg (h.named c hc)]
    refine Table.mem_values_of_first (Table.first_putAll_of_unique
      (mem_map.mpr ⟨c, hc, rfl⟩) hkey ?_)
    intro w hw hwkey
    obtain ⟨c', hc', rfl⟩ := mem_map.mp hw
    have hpair := congrArg ofLex (configEntryKey_eq hwkey).2
    simp only [ofLex_toLex, Prod.mk.injEq] at hpair
    rw [h.unique c hc c' hc' (ConfigKind.text_injective hpair.1) hpair.2]

variable {l : List ConfigContent} {α : Type} {kind : ConfigKind}
  {typed : ConfigContent → Option α} {name : α → String} {x : String}

section

variable (h : Placed l) (htyped : OfKind kind typed name)
include h htyped

theorem Placed.getConfigEntry {a : α} :
    getConfigEntry (of l).find kind typed x = some a ↔
      ∃ c ∈ l, typed c = some a ∧ toLower (name a) = toLower x := by
  simp [getConfigEntry_eq_some htyped, h.mem]

theorem Placed.named_eq_some {a : α} :
    ((of l).named typed name).get x = some a ↔
      ∃ c ∈ l, typed c = some a ∧ name a = x := by
  simp [OpenGyoza.named_eq_some htyped, h.mem]

theorem Placed.getConfigEntry_none
    (hnone : ∀ c ∈ l, ∀ a, typed c = some a → toLower (name a) ≠ toLower x) :
    OpenGyoza.getConfigEntry (of l).find kind typed x = none := by
  simp only [Option.eq_none_iff_forall_ne_some, ne_eq, h.getConfigEntry htyped]
  exact fun a ⟨c, hc, ha, hname⟩ => hnone c hc a ha hname

theorem Placed.named_eq_none (hnone : ∀ c ∈ l, ∀ a, typed c = some a → name a ≠ x) :
    ((of l).named typed name).get x = none := by
  simp only [Option.eq_none_iff_forall_ne_some, ne_eq, h.named_eq_some htyped]
  exact fun a ⟨c, hc, ha, hname⟩ => hnone c hc a ha hname

end

end Tables

/-! ## When the reader has all that is needed -/

theorem proxy_ofKind : OfKind .proxyDefaults (·.proxy?) (·.name) := by
  rintro (_ | _ | _ | _ | _) e h <;> cases h
  exact ⟨rfl, rfl⟩

section Reads

variable [External] [ConfigExternal] [Hashstructure] {V : String → Prop}

/-- The reader returns, and what it has read is compiled in the same way as all entries of the
table. -/
def ReadsAll (t : ConfigTable) (req : CompileRequest) : Prop :=
  ∃ b, ∀ w n, b ≤ n → ∃ e, readDiscoveryChainConfigEntries t.find w n req.serviceName = .ok e ∧
    ∀ w', CompileRequest.compile w' n { req with entries := some e } =
      CompileRequest.compile w' n { req with entries := some t.allEntries }

theorem readsAll_of_apart (hcases : CasesApart V) (hservices : ServicesApart V) {t : ConfigTable}
    (h : Over V t req) : ReadsAll t req := by
  obtain ⟨b, hb⟩ := readEntries_ends t req.serviceName
  refine ⟨b, fun w n hn => ?_⟩
  obtain ⟨e, he⟩ := hb w n hn
  refine ⟨e, he, fun w' => ?_⟩
  by_cases hincomplete :
      req.serviceName = "" ∨ req.evaluateInNamespace = "" ∨ req.evaluateInDatacenter = ""
  · -- it fails before the entries are looked at
    unfold CompileRequest.compile
    split_ifs with hservice hnamespace hdatacenter
    · rfl
    · rfl
    · rfl
    all_goals tauto
  · obtain ⟨splitters, resolvers, hreading⟩ := readEntries_eq_ok he
    have hread : ReadFor V t req e splitters resolvers :=
      ⟨h, hcases, fun h => hincomplete (.inl h), fun h => hincomplete (.inr (.inl h)),
        fun h => hincomplete (.inr (.inr h)), hreading⟩
    exact hread.compile_eq hservices w' n

theorem ReadsAll.reading {t : ConfigTable} (h : ReadsAll t req) :
    ∃ e splitters resolvers n, Reading t.find req.serviceName e splitters resolvers ∧
      ∀ w, CompileRequest.compile w (n + 8) { req with entries := some e } =
        CompileRequest.compile w (n + 8) { req with entries := some t.allEntries } := by
  obtain ⟨b, hb⟩ := h
  obtain ⟨e, he, hsame⟩ := hb (fun _ => listOrder) (b + 8) (Nat.le_add_right b 8)
  obtain ⟨splitters, resolvers, hreading⟩ := readEntries_eq_ok he
  exact ⟨e, splitters, resolvers, b, hreading, hsame⟩

/-! ### Names in another case -/

theorem casesApart_of_readsAll (hlower : LowerCases) (hempty : ¬V "")
    (h : ∀ t req, Over V t req → ReadsAll t req) : CasesApart V := by
  intro x y hx hy hxy
  by_contra hne
  have hx' : x ≠ "" := fun heq => hempty (heq ▸ hx)
  have hy' : y ≠ "" := fun heq => hempty (heq ▸ hy)
  let p : Destination := ⟨x, "", x, x⟩
  let l : List ConfigContent := [.serviceDefaults { name := y, protocol := "http" }]
  have hp : p.Complete := ⟨hx', hx', hx'⟩
  have hl : Placed l := by
    constructor
    · simp [l, ConfigContent.name, hy']
    · simp [l]
  have hover : Over V (ConfigTable.of l) p.request := by
    constructor
    · intro e he z hz
      obtain ⟨c, hc, rfl⟩ := hl.mem.mp he
      simp only [l, mem_singleton] at hc
      subst hc
      simp only [ConfigContent.words, mem_singleton] at hz
      exact .inr (hz ▸ hy)
    · simp [Destination.request, p, hx]
  obtain ⟨e, splitters, resolvers, n, hreading, hsame⟩ := (h _ _ hover).reading
  -- only defaults are there, so no other kind of entry is found
  have hrouter : getRouterConfigEntry (ConfigTable.of l).find x = none :=
    hl.getConfigEntry_none router_ofKind (by simp [l, ConfigContent.router?])
  have hsplitter : getSplitterConfigEntry (ConfigTable.of l).find x = none :=
    hl.getConfigEntry_none splitter_ofKind (by simp [l, ConfigContent.splitter?])
  have hresolver : getResolverConfigEntry (ConfigTable.of l).find x = none :=
    hl.getConfigEntry_none resolver_ofKind (by simp [l, ConfigContent.resolver?])
  have hproxy : getProxyConfigEntry (ConfigTable.of l).find proxyConfigGlobal = none :=
    hl.getConfigEntry_none proxy_ofKind (by simp [l, ConfigContent.proxy?])
  have hfound : getServiceConfigEntry (ConfigTable.of l).find x =
      some { name := y, protocol := "http" } :=
    (hl.getConfigEntry service_ofKind).mpr ⟨_, mem_singleton.mpr rfl, rfl, hxy.symm⟩
  have hfirst : x ∈ firstServices (getRouterConfigEntry (ConfigTable.of l).find x) x := by
    rw [hrouter]
    exact mem_singleton.mpr rfl
  have hmem : x ∈ splitters := hreading.first x hfirst
  have hservice : e.services.get x = some { name := y, protocol := "http" } :=
    (hreading.service x (.inl rfl)).trans hfound
  obtain ⟨chain, hchain, hhttp⟩ := compile_bare "http" hp (hreading.router.trans hrouter)
    ((hreading.splitter x hmem).trans hsplitter)
    ((hreading.resolver x (hreading.paired x hmem)).trans hresolver)
    (fun svc hsvc => by cases hservice.symm.trans hsvc; rfl)
    (fun c hc => recordServiceProtocol_same hservice rfl hlower.http (.inl hc)) listOrder (n + 5)
  have hmissing : (ConfigTable.of l).allEntries.services.get x = none :=
    hl.named_eq_none service_ofKind (by
      intro c hc svc hsvc
      simp only [l, mem_singleton] at hc
      subst hc
      cases hsvc
      exact Ne.symm hne)
  obtain ⟨chain', hchain', htcp⟩ := compile_bare "tcp" hp
    (hl.named_eq_none router_ofKind (by simp [l, ConfigContent.router?]))
    (hl.named_eq_none splitter_ofKind (by simp [l, ConfigContent.splitter?]))
    (hl.named_eq_none resolver_ofKind (by simp [l, ConfigContent.resolver?]))
    (fun svc hsvc => by cases hmissing.symm.trans hsvc)
    (fun c hc => by
      unfold recordServiceProtocol
      rw [show p.service = x from rfl, hmissing,
        show (ConfigTable.of l).allEntries.globalProxy = none from hproxy]
      simp [recordProtocol, Txn.read, Txn.modify, bind, hc]) listOrder (n + 5)
  cases hchain.symm.trans ((hsame listOrder).trans hchain')
  rw [hhttp] at htcp
  exact absurd htcp (by decide)

/-! ### A destination with the labels of another service -/

/-- The entries of the router of `p`, and the splitter that the reader does not find. -/
def Gap.contents (p q : Destination) : List ConfigContent := [
  .serviceRouter {
    name := p.service, routes := [{ destination := some { serviceSubset := p.service } }] },
  .serviceResolver {
    name := p.service
    redirect := some ⟨q.service, q.serviceSubset, q.namespaceName, q.datacenter⟩ },
  .serviceResolver (Gap.resolverOf q),
  .serviceSplitter (Gap.splitter p q),
  .serviceDefaults { name := p.service, protocol := "http" },
  .serviceDefaults { name := q.service, protocol := "http" }]

omit [ConfigExternal] [Hashstructure] in
theorem Gap.words (hp : Made V p) (hq : Made V q) (hl : Placed (Gap.contents p q)) :
    Over V (ConfigTable.of (Gap.contents p q)) p.request := by
  constructor
  · intro e he
    obtain ⟨c, hc, rfl⟩ := hl.mem.mp he
    simp only [Gap.contents, mem_cons, not_mem_nil, or_false] at hc
    rcases hc with rfl | rfl | rfl | rfl | rfl | rfl <;>
    simp [ConfigContent.words, ServiceRouterConfigEntry.words, ServiceResolverConfigEntry.words,
      ServiceSplitterConfigEntry.words, Gap.resolverOf, Gap.splitter, hp.service.2, hq.service.2,
      hq.serviceSubset, hq.namespaceName.2, hq.datacenter.2]
  · simp [Destination.request, hp.service.2, hp.namespaceName.2, hp.datacenter.2]

omit [ConfigExternal] [Hashstructure] in
theorem Gap.all (hl : Placed (Gap.contents p q)) :
    Gap p q (of (Gap.contents p q)).allEntries where
  router := (hl.named_eq_some router_ofKind).mpr ⟨_, mem_cons_self, rfl, rfl⟩
  redirect := (hl.named_eq_some resolver_ofKind).mpr
    ⟨_, mem_cons_of_mem _ mem_cons_self, rfl, rfl⟩
  resolver := (hl.named_eq_some resolver_ofKind).mpr
    ⟨.serviceResolver _, by simp [Gap.contents], rfl, rfl⟩
  http := (hl.named_eq_some service_ofKind).mpr
    ⟨.serviceDefaults _, by simp [Gap.contents], rfl, rfl⟩
  http' := (hl.named_eq_some service_ofKind).mpr
    ⟨.serviceDefaults _, by simp [Gap.contents], rfl, rfl⟩

theorem servicesApart_of_readsAll (hlower : LowerCases) (hcases : CasesApart V)
    (h : ∀ t req, Over V t req → ReadsAll t req) : ServicesApart V := by
  intro p q hp hplain hq hlabels
  by_contra hne
  have hne' : toLower q.service ≠ toLower p.service := fun hsame =>
    hne (hcases _ _ hq.service.2 hp.service.2 hsame)
  have hl : Placed (Gap.contents p q) := by
    constructor
    · simp [Gap.contents, Gap.resolverOf, Gap.splitter, name, hp.service.1, hq.service.1]
    · simp [Gap.contents, Gap.resolverOf, Gap.splitter, name, kind, hne', hne'.symm]
  have hover := Gap.words hp hq hl
  obtain ⟨e, splitters, resolvers, n, hreading, hsame⟩ := (h _ _ hover).reading
  have hread : ReadFor V _ p.request e splitters resolvers :=
    ⟨hover, hcases, hp.service.1, hp.namespaceName.1, hp.datacenter.1, hreading⟩
  have hall := Gap.all hl
  -- the resolver of `p` is read, and with it that of `q`
  have hpmem : p.service ∈ resolvers := hreading.paired _ hread.self
  have hpfound : getResolverConfigEntry (of (Gap.contents p q)).find p.service =
      some _ :=
    (hread.named resolver_ofKind hp.service.2).symm.trans hall.redirect
  have hqmem : q.service ∈ resolvers := by
    refine hreading.resolverNext _ hpmem _ hpfound _ (mem_sortedNames.mpr ?_)
    simp [hq.service.1]
  have hgap : Gap p q e := {
    router := (hreading.router.trans hread.routers.symm).trans hall.router
    redirect := (hreading.resolver _ hpmem).trans hpfound
    resolver := (hreading.resolver _ hqmem).trans
      ((hread.named resolver_ofKind hq.service.2).symm.trans hall.resolver)
    http := (hreading.service _ (.inr hpmem)).trans
      ((hread.named service_ofKind hp.service.2).symm.trans hall.http)
    http' := (hreading.service _ (.inr hqmem)).trans
      ((hread.named service_ofKind hq.service.2).symm.trans hall.http') }
  -- the router refers to `p` only, so the splitter of `q` is not looked for
  have hrouter : getRouterConfigEntry (of (Gap.contents p q)).find p.service =
      some _ :=
    hread.routers.symm.trans hall.router
  have hnosplitter : getSplitterConfigEntry (of (Gap.contents p q)).find p.service =
      none := by
    refine hl.getConfigEntry_none splitter_ofKind ?_
    simp [Gap.contents, Gap.splitter, splitter?, hne']
  have hself : (of (Gap.contents p q)).allEntries.splitters.get p.service = none :=
    (hread.named splitter_ofKind hp.service.2).trans hnosplitter
  have hleast : ∀ s, (e.splitters.get s).isSome → s = p.service := by
    refine hreading.leastSplitters (· = p.service) ?_ ?_
    · intro s hs
      rw [show p.request.serviceName = p.service from rfl, hrouter] at hs
      simpa using mem_sortedNames.mp hs
    · rintro s splitter rfl hsplitter
      cases hnosplitter.symm.trans hsplitter
  have hnone : e.splitters.get q.service = none := by
    cases hget : e.splitters.get q.service with
    | none => rfl
    | some splitter => exact absurd (hleast _ (by rw [hget]; rfl)) hne
  have hsome : (of (Gap.contents p q)).allEntries.splitters.get q.service =
      some (Gap.splitter p q) :=
    (hl.named_eq_some splitter_ofKind).mpr
      ⟨.serviceSplitter _, by simp [Gap.contents], rfl, rfl⟩
  exact Gap.compile_ne hgap hall hlower.http
    ⟨hp.service.1, hp.namespaceName.1, hp.datacenter.1⟩ hplain
    ⟨hq.service.1, hq.namespaceName.1, hq.datacenter.1⟩ hne (id_eq_iff.mpr hlabels)
    hnone hself hsome n (hsame listOrder)

/-- With names of a given set, what is read is always compiled as all entries are exactly when no
two of the names differ in case only and the labels of a service are not those of a destination
of another service. -/
theorem reader_is_complete_iff (hlower : LowerCases) (hempty : ¬V "") :
    (∀ t req, Over V t req → ReadsAll t req) ↔ CasesApart V ∧ ServicesApart V := by
  constructor
  · intro h
    have hcases := casesApart_of_readsAll hlower hempty h
    exact ⟨hcases, servicesApart_of_readsAll hlower hcases h⟩
  · rintro ⟨hcases, hservices⟩ t req hover
    exact readsAll_of_apart hcases hservices hover

end Reads

section Example

attribute [local instance] ascii exactNumbers noHash

/-- The service `c` is reached by way of `a`, under the name that the service `b.c` has. -/
def hiddenSplitter : List ConfigContent := [
  .proxyDefaults { name := "global", config := "http" },
  .serviceRouter { name := "web", routes := [
    { http := some { pathPrefix := "/a" }, destination := some { service := "a" } },
    { http := some { pathPrefix := "/b" }, destination := some { service := "b.c" } }] },
  .serviceResolver { name := "a", redirect := some ⟨"c", "b", "", ""⟩ },
  .serviceResolver { name := "c", subsets := [("b", {})] },
  .serviceSplitter { name := "c", splits := [⟨100, "", "b", ""⟩] }]

/-- The nodes that come after the first one. -/
def nextOf (r : Except Fault CompiledDiscoveryChain) : Option (List String) :=
  r.toOption.bind fun chain => (chain.nodes.get chain.startNode).map (·.nextNodes)

/-- The second route leads to a resolver, and to a splitter when all entries are there. -/
theorem a_splitter_is_not_read :
    (∀ c ∈ hiddenSplitter, c.normalize = c ∧ c.validate = .ok ()) ∧
    ∃ e, readDiscoveryChainConfigEntries (of hiddenSplitter).find (fun _ => listOrder) 9
        "web" = .ok e ∧
      nextOf ((webRequest e).compile listOrder 12) = some
        ["resolver:b.c.default.dc1", "resolver:b.c.default.dc1", "resolver:web.default.dc1"] ∧
      nextOf ((webRequest (of hiddenSplitter).allEntries).compile listOrder 12) = some
        ["resolver:b.c.default.dc1", "splitter:c", "resolver:web.default.dc1"] := by
  constructor
  · decide +kernel
  have hall : nextOf
      ((webRequest (of hiddenSplitter).allEntries).compile listOrder 12) = some
      ["resolver:b.c.default.dc1", "splitter:c", "resolver:web.default.dc1"] := by
    decide +kernel
  have hread : nextOf ((readDiscoveryChainConfigEntries (of hiddenSplitter).find
      (fun _ => listOrder) 9 "web").bind fun e => (webRequest e).compile listOrder 12) = some
      ["resolver:b.c.default.dc1", "resolver:b.c.default.dc1", "resolver:web.default.dc1"] := by
    decide +kernel
  cases he : readDiscoveryChainConfigEntries (of hiddenSplitter).find
      (fun _ => listOrder) 9 "web" with
  | error f => rw [he] at hread; cases hread
  | ok e =>
    rw [he] at hread
    exact ⟨e, rfl, hread, hall⟩

/-- A service that is sent on to another one, which is split. -/
def sentOn : List ConfigContent := [
  .proxyDefaults { name := "global", config := "http" },
  .serviceResolver { name := "web", redirect := some ⟨"api", "", "", ""⟩ },
  .serviceResolver { name := "api", subsets := [("v1", {}), ("v2", {})] },
  .serviceSplitter { name := "api", splits := [⟨50, "", "v1", ""⟩, ⟨50, "", "v2", ""⟩] }]

theorem names_without_dots_are_read :
    LowerCases ∧ ReadsAll (of sentOn) (webRequest (of sentOn).allEntries) := by
  let V : String → Prop := (· ∈ ["web", "api", "v1", "v2", "global", "default", "dc1"])
  have hlabel : ∀ x, V x → dotLabels x = [x.toList] := by decide
  have hcases : ∀ x, V x → ∀ y, V y → toLower x = toLower y → x = y := by decide
  refine ⟨ascii_lowerCases, (reader_is_complete_iff (V := V) ascii_lowerCases (by decide)).mpr
    ⟨fun x y hx hy => hcases x hx y hy, fun p q hp hplain hq hlabels => ?_⟩ _ _
      ⟨by decide +kernel, by decide⟩⟩
  rcases hq.serviceSubset with hempty | hsubset
  · refine String.toList_inj.mp ?_
    simpa [Destination.labels, hplain, hempty, hlabel _ hp.service.2, hlabel _ hq.service.2]
      using congrArg List.head? hlabels
  · have hlength := congrArg List.length hlabels
    have hne : q.serviceSubset ≠ "" := fun hempty => absurd (hempty ▸ hsubset) (by decide)
    simp [Destination.labels, hplain, hne, hlabel _ hsubset, hlabel _ hp.service.2,
      hlabel _ hq.service.2, hlabel _ hp.namespaceName.2, hlabel _ hq.namespaceName.2,
      hlabel _ hp.datacenter.2, hlabel _ hq.datacenter.2] at hlength

end Example

end OpenGyoza
