-- Which destinations the assembly of a chain asks for, and which entries it
-- reads on the way. The walk is followed once, for two sets of entries side
-- by side: where they agree on all that is read, both go the same way.
import OpenGyoza.ChainAssembly
import OpenGyoza.Lockstep

namespace OpenGyoza

open Memdb Txn KeyMap List Lockstep

/-! ## Destinations -/

/-- What a target is asked for by. -/
structure Destination where
  service : String
  serviceSubset : String
  namespaceName : String
  datacenter : String
deriving DecidableEq

def Destination.id (q : Destination) : String :=
  if q.serviceSubset = "" then q.service ++ "." ++ q.namespaceName ++ "." ++ q.datacenter
  else q.serviceSubset ++ "." ++ q.service ++ "." ++ q.namespaceName ++ "." ++ q.datacenter

def DiscoveryTarget.destination (t : DiscoveryTarget) : Destination where
  service := t.service
  serviceSubset := t.serviceSubset
  namespaceName := t.namespaceName
  datacenter := t.datacenter

namespace CompileRequest

variable (req : CompileRequest)

/-- The destination that `newTarget` is asked for. -/
def destination (service serviceSubset namespaceName datacenter : String) : Destination where
  service := service
  serviceSubset := serviceSubset
  namespaceName := defaultIfEmpty namespaceName req.evaluateInNamespace
  datacenter := defaultIfEmpty datacenter req.evaluateInDatacenter

def startDestination : Destination := req.destination req.serviceName "" "" ""

def routeDestination (dest : ServiceRouteDestination) : Destination :=
  req.destination (defaultIfEmpty dest.service req.serviceName) dest.serviceSubset
    dest.namespaceName ""

def splitDestination (name : String) (split : ServiceSplit) : Destination :=
  req.destination (defaultIfEmpty split.service name) split.serviceSubset split.namespaceName ""

/-- The destination that `rewriteTarget` is asked for. -/
def rewrite (q : Destination) (service serviceSubset namespaceName datacenter : String) :
    Destination :=
  let moved := service ≠ "" ∧ service ≠ q.service
  req.destination (if moved then service else q.service)
    (defaultIfEmpty serviceSubset (if moved then "" else q.serviceSubset))
    (defaultIfEmpty namespaceName q.namespaceName) (defaultIfEmpty datacenter q.datacenter)

def redirect (q : Destination) (r : ServiceResolverRedirect) : Destination :=
  req.rewrite q r.service r.serviceSubset r.namespaceName r.datacenter

def failover (q : Destination) (f : ServiceResolverFailover) (dc : String) : Destination :=
  req.rewrite q f.service f.serviceSubset f.namespaceName dc

end CompileRequest

/-- The datacenters of a failover. The empty one stands for that of the target. -/
def ServiceResolverFailover.places (f : ServiceResolverFailover) : List String :=
  if f.datacenters ≠ [] then f.datacenters else [""]

/-- A route that may lead to a splitter. -/
def ServiceRouteDestination.Plain (dest : ServiceRouteDestination) : Prop :=
  dest.serviceSubset = "" ∧ dest.namespaceName = ""

/-- A split that may lead to the splitter of another service. -/
def ServiceSplit.Eligible (name : String) (split : ServiceSplit) : Prop :=
  defaultIfEmpty split.service name ≠ name ∧ split.serviceSubset = "" ∧ split.namespaceName = ""

/-- The resolver of a service, which may be the default one. -/
def DiscoveryChainConfigEntries.resolverFor (e : DiscoveryChainConfigEntries) (service : String) :
    ServiceResolverConfigEntry :=
  (e.resolvers.get service).getD (newDefaultServiceResolver service)

/-- The resolver does not send the destination away. -/
def ServiceResolverConfigEntry.Keeps (req : CompileRequest) (q : Destination)
    (resolver : ServiceResolverConfigEntry) : Prop :=
  ∀ r, resolver.redirect = some r → (req.redirect q r).id = q.id

/-! ## What the assembly may ask for -/

/-- A part of the destinations in `D`. An ID stands for any destination of `D` that has it, as
targets are kept by their IDs. -/
structure Part (D X : Destination → Prop) : Prop where
  sub : ∀ q, X q → D q
  same : ∀ q q', D q → X q' → q.id = q'.id → X q

theorem Part.refl (D : Destination → Prop) : Part D D := ⟨fun _ hq => hq, fun _ _ hq _ _ => hq⟩

/-- A part that no redirect and no default subset leaves. -/
structure Settling (req : CompileRequest) (e : DiscoveryChainConfigEntries)
    (D X : Destination → Prop) : Prop extends Part D X where
  redirect : ∀ q r, X q → (e.resolverFor q.service).redirect = some r → X (req.redirect q r)
  defaultSubset : ∀ q, X q → (e.resolverFor q.service).Keeps req q → q.serviceSubset = "" →
    (e.resolverFor q.service).defaultSubset ≠ "" →
      X (req.rewrite q "" (e.resolverFor q.service).defaultSubset "" "")

structure Closed (req : CompileRequest) (e : DiscoveryChainConfigEntries)
    (D M F : Destination → Prop) (N : String → Prop) : Prop where
  named : ∀ q, D q → q.service ≠ ""
  main : Settling req e D M
  settles : Settling req e D F
  start : D req.startDestination
  startService : ∀ q, D q → q.id = req.startDestination.id → N q.service
  startMain : ∀ q, D q → q.id = req.startDestination.id →
    e.splitters.get q.service = none ∨ disableAdvancedRoutingFeatures req = true → M q
  route : ∀ router, e.routers.get req.serviceName = some router →
    disableAdvancedRoutingFeatures req = false → ∀ route ∈ router.routes, ∀ dest,
      route.destination = some dest → D (req.routeDestination dest)
  routeService : ∀ router, e.routers.get req.serviceName = some router →
    disableAdvancedRoutingFeatures req = false → ∀ route ∈ router.routes, ∀ dest,
      route.destination = some dest → dest.Plain →
        ∀ q, D q → q.id = (req.routeDestination dest).id → N q.service
  routeMain : ∀ router, e.routers.get req.serviceName = some router →
    disableAdvancedRoutingFeatures req = false → ∀ route ∈ router.routes, ∀ dest,
      route.destination = some dest → ∀ q, D q → q.id = (req.routeDestination dest).id →
        (dest.Plain → e.splitters.get q.service = none) → M q
  split : ∀ name splitter, N name → e.splitters.get name = some splitter →
    disableAdvancedRoutingFeatures req = false → ∀ split ∈ splitter.splits,
      (split.Eligible name → e.splitters.get (defaultIfEmpty split.service name) = none) →
        M (req.splitDestination name split)
  splitService : ∀ name splitter, N name → e.splitters.get name = some splitter →
    disableAdvancedRoutingFeatures req = false → ∀ split ∈ splitter.splits,
      split.Eligible name → N (defaultIfEmpty split.service name)
  failover : ∀ q f, M q → (e.resolverFor q.service).Keeps req q →
    (q.serviceSubset = "" → (e.resolverFor q.service).defaultSubset = "") →
    (e.resolverFor q.service).failoverFor q.serviceSubset = some f →
      ∀ dc ∈ f.places, F (req.failover q f dc)

/-- The two sets of entries have the same answer to all that is looked up. -/
structure Agree (req : CompileRequest) (e e' : DiscoveryChainConfigEntries)
    (D : Destination → Prop) (N : String → Prop) : Prop where
  router : e'.routers.get req.serviceName = e.routers.get req.serviceName
  splitter : ∀ name, N name → e'.splitters.get name = e.splitters.get name
  resolver : ∀ q, D q → e'.resolverFor q.service = e.resolverFor q.service
  service : ∀ q, D q → e'.services.get q.service = e.services.get q.service
  routerService : ∀ router, e.routers.get req.serviceName = some router →
    disableAdvancedRoutingFeatures req = false →
      e'.services.get router.name = e.services.get router.name
  globalProxy : e'.globalProxy = e.globalProxy

theorem Agree.refl (req : CompileRequest) (e : DiscoveryChainConfigEntries)
    (D : Destination → Prop) (N : String → Prop) : Agree req e e D N :=
  ⟨rfl, fun _ _ => rfl, fun _ _ => rfl, fun _ _ => rfl, fun _ _ _ => rfl, rfl⟩

/-- There are fewer splitters, and fewer IDs to be redirected to, than steps. -/
def Enough (e : DiscoveryChainConfigEntries) (D : Destination → Prop) (n : Nat) : Prop :=
  e.splitters.len < n ∧ ∃ ids : List String, (∀ q, D q → q.id ∈ ids) ∧ ids.length < n

/-- The faults of two assemblies that may take `n` and `n'` steps in a row. -/
structure Faults (req : CompileRequest) (e : DiscoveryChainConfigEntries)
    (D : Destination → Prop) (n n' : Nat) (E : Fault → Prop) : Prop where
  error : ∀ text, E (.error text)
  steps : n = n' ∨ Enough e D n ∧ Enough e D n'
  cut : ¬Enough e D n → E (.panic "out of steps")
  noDestination : ∀ router, e.routers.get req.serviceName = some router →
    disableAdvancedRoutingFeatures req = false → ∀ route ∈ router.routes,
      route.destination = none → E (.panic "invalid memory address or nil pointer dereference")

section Steps

variable {req : CompileRequest} {e : DiscoveryChainConfigEntries} {D : Destination → Prop}
  {n n' m m' : Nat} {E : Fault → Prop}

theorem not_enough_of_ids {order : List String} (hnodup : order.Nodup)
    (horder : ∀ id ∈ order, ∃ q, D q ∧ q.id = id) (h : n ≤ order.length) : ¬Enough e D n := by
  rintro ⟨_, ids, hall, hlen⟩
  have hsub : ∀ id ∈ order, id ∈ ids := by
    intro id hid
    obtain ⟨q, hq, rfl⟩ := horder id hid
    exact hall q hq
  have hle := (subperm_of_subset hnodup hsub).length_le
  omega

theorem not_enough_of_splitters {above : List String} (hnodup : above.Nodup)
    (habove : ∀ a ∈ above, a ∈ e.splitters.keys) (h : n ≤ above.length) : ¬Enough e D n := by
  rintro ⟨hlen, _⟩
  have hle : above.length ≤ e.splitters.len := (subperm_of_subset hnodup habove).length_le
  omega

theorem Faults.none_left (h : Faults req e D n n' E) (hpair : 0 + n' = m' + n)
    (hnot : ¬Enough e D n) : m' = 0 := by
  have hsame := h.steps.resolve_right fun henough => hnot henough.1
  omega

theorem Faults.one_left (h : Faults req e D n n' E) (hpair : m + 1 + n' = m' + n)
    (hnot : m' = 0 → ¬Enough e D n') : ∃ k, m' = k + 1 := by
  cases m' with
  | zero =>
    have hsame := h.steps.resolve_right fun henough => hnot rfl henough.2
    omega
  | succ k => exact ⟨k, rfl⟩

end Steps

/-! ## Two compilers side by side -/

/-- The resolvers of a compiler are those of the entries and default ones. -/
def Fetched (e : DiscoveryChainConfigEntries)
    (resolvers : KeyMap String ServiceResolverConfigEntry) : Prop :=
  ∀ service, (resolvers.get service).getD (newDefaultServiceResolver service) =
    e.resolverFor service

theorem Fetched.insert {e : DiscoveryChainConfigEntries}
    {resolvers : KeyMap String ServiceResolverConfigEntry} (h : Fetched e resolvers)
    {service : String} (hnone : resolvers.get service = none) :
    Fetched e (resolvers.insert service (newDefaultServiceResolver service)) := by
  intro s
  by_cases hs : s = service
  · subst hs
    rw [get_insert_self, ← h s, hnone]
    rfl
  · rw [get_insert_of_ne hs]
    exact h s

/-- The targets are kept by their IDs, and all of them were asked for. -/
def Loaded (D : Destination → Prop) (targets : KeyMap String DiscoveryTarget) : Prop :=
  ∀ k t, targets.get k = some t → t.id = k ∧ D t.destination

theorem Loaded.insert {D : Destination → Prop} {targets : KeyMap String DiscoveryTarget}
    (h : Loaded D targets) {k : String} {t : DiscoveryTarget} (hid : t.id = k)
    (ht : D t.destination) : Loaded D (targets.insert k t) := by
  intro j u hu
  rcases get_insert_cases hu with ⟨rfl, rfl⟩ | hu
  · exact ⟨hid, ht⟩
  · exact h j u hu

section Beside

variable [External] {req : CompileRequest} {e e' : DiscoveryChainConfigEntries}
  {D : Destination → Prop} {c c' : Compiler} {markers : CustomizationMarkers} {protocol : String}

/-- Only what the request overrides is marked, and protocols are in lower case. -/
structure Marked (req : CompileRequest) (markers : CustomizationMarkers) (recorded : String) :
    Prop where
  meshGateway : markers.meshGateway = true → req.overrideMeshGateway ≠ .modeDefault
  protocol : markers.protocol = true → req.overrideProtocol ≠ ""
  connectTimeout : markers.connectTimeout = true → 0 < req.overrideConnectTimeout
  lowerCase : recorded = "" ∨ recorded = "tcp" ∨ ∃ text, recorded = toLower text

/-- Compilers that differ in nothing but the resolvers they hold. -/
inductive Beside (req : CompileRequest) (e e' : DiscoveryChainConfigEntries)
    (D : Destination → Prop) (c : Compiler) : Compiler → Prop
  | mk (resolvers : KeyMap String ServiceResolverConfigEntry) (loaded : Loaded D c.loadedTargets)
      (fetched : Fetched e c.resolvers) (fetched' : Fetched e' resolvers)
      (marked : Marked req c.customizedBy c.protocol) :
      Beside req e e' D c { c with resolvers := resolvers }

theorem Beside.loaded (h : Beside req e e' D c c') : Loaded D c.loadedTargets := by
  cases h with
  | mk _ hloaded _ _ _ => exact hloaded

theorem Beside.marked (h : Beside req e e' D c c') : Marked req c.customizedBy c.protocol := by
  cases h with
  | mk _ _ _ _ hmarked => exact hmarked

theorem Beside.start (req : CompileRequest) (e e' : DiscoveryChainConfigEntries)
    (D : Destination → Prop) :
    Beside req e e' D { resolvers := e.resolvers } { resolvers := e'.resolvers } :=
  ⟨e'.resolvers, nofun, fun _ => rfl, fun _ => rfl, nofun, nofun, nofun, .inl rfl⟩

theorem Marked.disabled (h : Marked req markers protocol)
    (hdisabled : disableAdvancedRoutingFeatures req = true) :
    Marked req { markers with protocol := true } protocol := by
  refine ⟨h.meshGateway, fun _ hempty => ?_, h.connectTimeout, h.lowerCase⟩
  exact (of_decide_eq_true hdisabled).1 hempty

omit [External] in
theorem meshGatewayFor_marks {t : DiscoveryTarget} (h : (meshGatewayFor req e t).2 = true) :
    req.overrideMeshGateway ≠ .modeDefault := by
  unfold meshGatewayFor at h
  intro hdefault
  rw [hdefault] at h
  split at h
  · exact absurd h (by decide)
  · simp at h

theorem Marked.resolver (h : Marked req markers protocol) (e : DiscoveryChainConfigEntries)
    (t : DiscoveryTarget) (configured : Int) :
    Marked req { markers with
      connectTimeout := markers.connectTimeout ||
        decide (0 < req.overrideConnectTimeout ∧ configured ≠ req.overrideConnectTimeout)
      meshGateway := markers.meshGateway || (meshGatewayFor req e t).2 } protocol := by
  refine ⟨fun hmarked => ?_, h.protocol, fun hmarked => ?_, h.lowerCase⟩
  · rcases (Bool.or_eq_true _ _).mp hmarked with hmarked | hmarked
    · exact h.meshGateway hmarked
    · exact meshGatewayFor_marks hmarked
  · rcases (Bool.or_eq_true _ _).mp hmarked with hmarked | hmarked
    · exact h.connectTimeout hmarked
    · exact (of_decide_eq_true hmarked).1

end Beside

section Walk

variable {req : CompileRequest} {e e' : DiscoveryChainConfigEntries} {D M F X : Destination → Prop}
  {N : String → Prop} {n n' : Nat} {E : Fault → Prop} {service name : String} {t : DiscoveryTarget}
  {above : List String} {f : ServiceResolverFailover} {router : ServiceRouterConfigEntry}

/-! ## Single steps -/

theorem externalTarget_destination (e : DiscoveryChainConfigEntries) (t : DiscoveryTarget) :
    (externalTarget e t).destination = t.destination := by
  unfold externalTarget
  split
  · split <;> rfl
  · rfl

theorem meshGatewayFor_congr (hservice : e'.services.get t.service = e.services.get t.service)
    (hproxy : e'.globalProxy = e.globalProxy) :
    meshGatewayFor req e' t = meshGatewayFor req e t := by
  unfold meshGatewayFor
  rw [hservice, hproxy]

theorem fetchResolver_fetched (service : String) {c : Compiler} (h : Fetched e c.resolvers) :
    ∃ m, Fetched e m ∧
      fetchResolver service c = (.ok (e.resolverFor service), { c with resolvers := m }) := by
  have hfetch := h service
  simp only [fetchResolver, Txn.read, Bind.bind]
  cases hc : c.resolvers.get service with
  | some r =>
    rw [hc] at hfetch
    exact ⟨_, h, by rw [← hfetch]; rfl⟩
  | none =>
    rw [hc] at hfetch
    exact ⟨_, h.insert hc, by rw [← hfetch]; rfl⟩

/-- No splitter is forgotten. -/
def Remembers (c c' : Compiler) : Prop := ∀ name ∈ c.splitterNodes, name ∈ c'.splitterNodes

theorem Quiet.remembers {α : Type} {m : Txn Compiler α} (h : Does Quiet m) : Does Remembers m :=
  h.mono fun _ _ hquiet => .single fun _ hname => hquiet.splitterNodes ▸ hname

theorem recordNode_remembers (node : DiscoveryGraphNode) : Does Remembers (recordNode node) := by
  refine .modify fun c name hname => ?_
  cases node with
  | splitter name' splits => exact mem_cons_of_mem _ hname
  | router name' routes => exact hname
  | resolver name' r => exact hname

theorem updateResolver_remembers (id : String) (f : DiscoveryResolver → DiscoveryResolver) :
    Does Remembers (updateResolver id f) := by
  refine .modify fun c name hname => ?_
  split <;> exact hname

theorem addSplit_remembers (name : String) (split : DiscoverySplit) :
    Does Remembers (addSplit name split) := by
  refine .modify fun c name hname => ?_
  split <;> exact hname

variable [External]

theorem buildResolver_remembers (t : DiscoveryTarget) (resolver : ServiceResolverConfigEntry) :
    Does Remembers (buildResolver req e t resolver) := by
  refine .bind (.read _) fun loaded => ?_
  dsimp only
  generalize externalFault _ resolver = fault
  cases fault with
  | some text => exact .fail _
  | none => exact .bind (.modify fun _ _ hname => hname) fun _ => .pure _

theorem recordProtocol_together (hE : Faults req e D n n' E) (fromService protocol : String) :
    Keeps (Beside req e e' D) E (recordProtocol req fromService protocol) fun _ => True := by
  refine bind (P := fun _ => True) (.read ?_) fun current _ => ?_
  · rintro c _ ⟨rs, hl, hf, hf', hk⟩
    exact ⟨rfl, trivial⟩
  · refine .ite (fun _ => .modify ?_) fun _ =>
      .ite (fun _ => .fail (hE.error _)) fun _ => .pure trivial
    rintro c _ ⟨rs, hl, hf, hf', hk⟩
    refine ⟨rs, hl, hf, hf', hk.meshGateway, hk.protocol, hk.connectTimeout, .inr ?_⟩
    split
    · exact .inl rfl
    · exact .inr ⟨protocol, rfl⟩

/-- A target of the part `X` that has the ID of the destination. -/
def Answers (X : Destination → Prop) (q : Destination) (t : DiscoveryTarget) : Prop :=
  X t.destination ∧ t.id = q.id

theorem newTarget_together {serviceSubset namespaceName datacenter : String}
    (hnamed : ∀ q, D q → q.service ≠ "") (hX : Part D X)
    (hq : X (req.destination service serviceSubset namespaceName datacenter)) :
    Keeps (Beside req e e' D) E (newTarget req service serviceSubset namespaceName datacenter)
      (Answers X (req.destination service serviceSubset namespaceName datacenter)) := by
  have hD := hX.sub _ hq
  have hservice : service ≠ "" := hnamed _ hD
  unfold newTarget
  rw [if_neg hservice]
  refine bind
    (P := fun o => ∀ prev, o = some prev →
      Answers X (req.destination service serviceSubset namespaceName datacenter) prev)
    (.read ?_) fun o ho => ?_
  · rintro c _ ⟨rs, hl, hf, hf', hk⟩
    refine ⟨rfl, fun prev hprev => ?_⟩
    obtain ⟨hid, hprevD⟩ := hl _ prev hprev
    exact ⟨hX.same _ _ hprevD hq hid, hid⟩
  · cases o with
    | some prev => exact .pure (ho prev rfl)
    | none =>
      refine .next (.modify ?_) (.pure ⟨hq, rfl⟩)
      rintro c _ ⟨rs, hl, hf, hf', hk⟩
      exact ⟨rs, hl.insert rfl hD, hf, hf', hk⟩

theorem rewriteTarget_together {serviceSubset namespaceName datacenter : String}
    (hnamed : ∀ q, D q → q.service ≠ "") (hX : Part D X)
    (hq : X (req.rewrite t.destination service serviceSubset namespaceName datacenter)) :
    Keeps (Beside req e e' D) E (rewriteTarget req t service serviceSubset namespaceName datacenter)
      (Answers X (req.rewrite t.destination service serviceSubset namespaceName datacenter)) :=
  newTarget_together hnamed hX hq

theorem fetchResolver_together (hsame : e'.resolverFor service = e.resolverFor service) :
    Keeps (Beside req e e' D) E (fetchResolver service) (· = e.resolverFor service) := by
  rintro c _ ⟨rs, hl, hf, hf', hk⟩
  obtain ⟨m, hm, hrun⟩ := fetchResolver_fetched service hf
  obtain ⟨m', hm', hrun'⟩ := fetchResolver_fetched (c := { c with resolvers := rs }) service hf'
  rw [hrun, hrun', hsame]
  exact .ok rfl ⟨m', hl, hm, hm', hk⟩

theorem redirectedTarget_together (hnamed : ∀ q, D q → q.service ≠ "") (hX : Settling req e D X)
    (ht : X t.destination) {resolver : ServiceResolverConfigEntry}
    (hresolver : resolver = e.resolverFor t.service) :
    Keeps (Beside req e e' D) E (redirectedTarget req t resolver) fun o =>
        (∀ t', o = some t' → X t'.destination) ∧ (o = none → resolver.Keeps req t.destination) := by
  unfold redirectedTarget
  cases hr : resolver.redirect with
  | none =>
    refine .pure ⟨by simp, fun _ r hsome => ?_⟩
    rw [hr] at hsome
    cases hsome
  | some r =>
    have hq := hX.redirect t.destination r ht (hresolver ▸ hr)
    refine (rewriteTarget_together hnamed hX.toPart hq).bind fun t' ht' => .pure ?_
    by_cases hid : t'.id = t.id
    · rw [if_neg (not_not.mpr hid)]
      refine ⟨by simp, fun _ r' hsome => ?_⟩
      cases hr.symm.trans hsome
      exact ht'.2.symm.trans hid
    · rw [if_pos hid]
      refine ⟨fun u hu => ?_, by simp⟩
      cases hu
      exact ht'.1

theorem buildResolver_together (hagree : Agree req e e' D N) (hE : Faults req e D n n' E)
    (ht : D t.destination) (resolver : ServiceResolverConfigEntry) :
    Lockstep (Beside req e e' D) E (buildResolver req e t resolver)
      (buildResolver req e' t resolver) fun _ => True := by
  refine bind (P := Answers D t.destination) (.read ?_) fun loaded hloaded => ?_
  · rintro c _ ⟨rs, hl, hf, hf', hk⟩
    refine ⟨rfl, ?_⟩
    cases hget : c.loadedTargets.get t.id with
    | none => exact ⟨ht, rfl⟩
    | some u => exact ⟨(hl _ u hget).2, (hl _ u hget).1⟩
  · dsimp only
    have hservice := hagree.service _ hloaded.1
    generalize hu0 : { loaded with
      subset := (resolver.subsets.lookup t.serviceSubset).getD {} : DiscoveryTarget } = u0
    have hservice0 : e'.services.get u0.service = e.services.get u0.service := by
      rw [← hu0]
      exact hservice
    rw [show externalTarget e' u0 = externalTarget e u0 by simp only [externalTarget, hservice0]]
    generalize hext : externalTarget e u0 = u
    have hdest : u.destination = loaded.destination := by
      rw [← hext, externalTarget_destination, ← hu0]
      rfl
    have hname : u.service = loaded.service := congrArg Destination.service hdest
    cases externalFault u resolver with
    | some text => exact .fail (hE.error text)
    | none =>
      rw [meshGatewayFor_congr (by rw [hname]; exact hservice) hagree.globalProxy]
      refine .next (.modify ?_) (.pure trivial)
      rintro c _ ⟨rs, hl, hf, hf', hk⟩
      refine ⟨rs, hl.insert ?_ ?_, hf, hf', ?_⟩
      · show u.destination.id = _
        rw [hdest]
        exact hloaded.2
      · show D u.destination
        rw [hdest]
        exact hloaded.1
      · exact hk.resolver e u _

theorem failoverTargets_together (hclosed : Closed req e D M F N) {dcs : List String}
    (hF : ∀ dc ∈ dcs, F (req.failover t.destination f dc)) :
    Keeps (Beside req e e' D) E (failoverTargets req t f dcs)
      fun l => ∀ u ∈ l, F u.destination := by
  induction dcs with
  | nil => exact .pure (by simp)
  | cons dc dcs ih =>
    refine (rewriteTarget_together hclosed.named hclosed.settles.toPart
      (hF dc mem_cons_self)).bind fun u hu => ?_
    refine (ih fun dc' h => hF dc' (mem_cons_of_mem _ h)).bind fun l hl => .pure ?_
    split
    · exact forall_mem_cons.mpr ⟨hu.1, hl⟩
    · exact hl

theorem modify_together {f : Compiler → Compiler}
    (hsame : ∀ c rs, f { c with resolvers := rs } = { f c with resolvers := rs })
    (hloaded : ∀ c, (f c).loadedTargets = c.loadedTargets)
    (hmarked : ∀ c : Compiler, Marked req c.customizedBy c.protocol →
      Marked req (f c).customizedBy (f c).protocol) :
    Keeps (Beside req e e' D) E (Txn.modify f) fun _ => True := by
  refine .modify ?_
  rintro c _ ⟨rs, hl, hf, hf', hk⟩
  have hresolvers : (f c).resolvers = c.resolvers := congrArg (·.resolvers) (hsame c c.resolvers)
  rw [hsame c rs]
  exact ⟨rs, by rw [hloaded]; exact hl, by rw [hresolvers]; exact hf, hf', hmarked c hk⟩

theorem recordNode_together (node : DiscoveryGraphNode) :
    Keeps (Beside req e e' D) E (recordNode node) fun _ => True :=
  modify_together (fun _ _ => rfl) (fun _ => rfl) fun _ h => h

theorem updateResolver_together (id : String) (f : DiscoveryResolver → DiscoveryResolver) :
    Keeps (Beside req e e' D) E (updateResolver id f) fun _ => True := by
  refine modify_together (fun c rs => ?_) (fun c => ?_) fun c h => ?_
  · dsimp only
    split <;> rfl
  · split <;> rfl
  · split <;> exact h

theorem addSplit_together (name : String) (split : DiscoverySplit) :
    Keeps (Beside req e e' D) E (addSplit name split) fun _ => True := by
  refine modify_together (fun c rs => ?_) (fun c => ?_) fun c h => ?_
  · dsimp only
    split <;> rfl
  · split <;> rfl
  · split <;> exact h

theorem materialize_together (service : String) :
    Lockstep (Beside req e e' D) E
      (Txn.modify fun c =>
        if c.resolvers.len = 0 ∧ e.isChainEmpty then
          { c with resolvers :=
              c.resolvers.insert service (newDefaultServiceResolver service) }
        else c)
      (Txn.modify fun c =>
        if c.resolvers.len = 0 ∧ e'.isChainEmpty then
          { c with resolvers :=
              c.resolvers.insert service (newDefaultServiceResolver service) }
        else c)
      fun _ => True := by
  have hempty : ∀ {rs : KeyMap String ServiceResolverConfigEntry}, rs.len = 0 →
      rs.get service = none := fun hlen => get_of_len_zero hlen service
  refine .modify ?_
  rintro c _ ⟨rs, hl, hf, hf', hk⟩
  split <;> split
  · exact ⟨_, hl, hf.insert (hempty (And.left ‹_›)), hf'.insert (hempty (And.left ‹_›)), hk⟩
  · exact ⟨_, hl, hf.insert (hempty (And.left ‹_›)), hf', hk⟩
  · exact ⟨_, hl, hf, hf'.insert (hempty (And.left ‹_›)), hk⟩
  · exact ⟨_, hl, hf, hf', hk⟩

/-- Compilers side by side below some splitters, which are all recorded. -/
def Below (req : CompileRequest) (e e' : DiscoveryChainConfigEntries) (D : Destination → Prop)
    (above : List String) (c c' : Compiler) : Prop :=
  Beside req e e' D c c' ∧ ∀ name ∈ above, name ∈ c.splitterNodes

theorem Below.of_beside {α : Type} {m m' : Txn Compiler α} {P : α → Prop}
    (h : Lockstep (Beside req e e' D) E m m' P) (hm : Does Remembers m) :
    Lockstep (Below req e e' D above) E m m' P := by
  refine h.frame fun c hc => ?_
  have hsteps := hm c
  generalize (m c).2 = c' at hsteps
  induction hsteps with
  | refl => exact hc
  | tail _ hstep ih => exact fun name hname => hstep name (ih name hname)

variable [ConfigExternal]

theorem recordServiceProtocol_together (hE : Faults req e D n n' E)
    (hproxy : e'.globalProxy = e.globalProxy)
    (hservice : e'.services.get service = e.services.get service) :
    Lockstep (Beside req e e' D) E (recordServiceProtocol req e service)
      (recordServiceProtocol req e' service) fun _ => True := by
  unfold recordServiceProtocol
  rw [hservice, hproxy]
  split
  · exact recordProtocol_together hE _ _
  · split <;> exact recordProtocol_together hE _ _

/-- What the search for a node gives: for a fresh target, one whose resolver takes it as it
is. -/
def Resolved.Settled (req : CompileRequest) (e : DiscoveryChainConfigEntries)
    (X : Destination → Prop) : Resolved → Prop
  | .known _ => True
  | .fresh t resolver => X t.destination ∧ resolver = e.resolverFor t.service ∧
      resolver.Keeps req t.destination ∧ (t.serviceSubset = "" → resolver.defaultSubset = "")

theorem resolveAgain_together (hnamed : ∀ q, D q → q.service ≠ "") (hX : Settling req e D X)
    (hagree : Agree req e e' D N) (hE : Faults req e D n n' E) {m m' : Nat} {order : List String}
    (hm : n ≤ m + order.length) (hpair : m + n' = m' + n) (hnodup : order.Nodup)
    (horder : ∀ id ∈ order, ∃ q, D q ∧ q.id = id) (ht : X t.destination) :
    Lockstep (Beside req e e' D) E (resolveAgain req e m order t)
      (resolveAgain req e' m' order t) (Resolved.Settled req e X) := by
  induction m generalizing m' order t with
  | zero =>
    have hnot : ¬Enough e D n := not_enough_of_ids hnodup horder (by omega)
    obtain rfl := hE.none_left hpair hnot
    exact .crash (hE.cut hnot)
  | succ m ih =>
    obtain ⟨m', rfl⟩ := hE.one_left hpair fun h => not_enough_of_ids hnodup horder (by omega)
    refine bind (P := fun _ => True) (.read ?_) fun known _ => ?_
    · rintro c _ ⟨rs, hl, hf, hf', hk⟩
      exact ⟨rfl, trivial⟩
    refine .ite (fun _ => .pure trivial) fun _ => ?_
    have hD := hX.sub _ ht
    refine (recordServiceProtocol_together hE hagree.globalProxy (hagree.service _ hD)).next ?_
    refine (fetchResolver_together (hagree.resolver _ hD)).bind fun resolver hresolver => ?_
    refine .ite (fun _ => .fail (hE.error _)) fun hnew => ?_
    have hm' : n ≤ m + (order ++ [t.id]).length := by
      rw [length_append, length_singleton]
      omega
    have hpair' : m + n' = m' + n := by omega
    have hnodup' : (order ++ [t.id]).Nodup :=
      nodup_append_comm.mp (nodup_cons.mpr ⟨hnew, hnodup⟩)
    have horder' : ∀ id ∈ order ++ [t.id], ∃ q, D q ∧ q.id = id := by
      intro id hid
      rcases mem_append.mp hid with hid | hid
      · exact horder id hid
      · exact ⟨t.destination, hD, (mem_singleton.mp hid).symm⟩
    refine (redirectedTarget_together hnamed hX ht hresolver).bind fun o ho => ?_
    cases o with
    | some t' => exact ih hm' hpair' hnodup' horder' (ho.1 t' rfl)
    | none =>
      have hkeeps := ho.2 rfl
      refine .ite (fun hdefault => ?_) fun hdefault => ?_
      · have hq := hX.defaultSubset t.destination ht (hresolver ▸ hkeeps) hdefault.1
          (hresolver ▸ hdefault.2)
        rw [show e.resolverFor t.destination.service = resolver from hresolver.symm] at hq
        exact (rewriteTarget_together hnamed hX.toPart hq).bind fun t' ht' =>
          ih hm' hpair' hnodup' horder' ht'.1
      · refine .ite (fun _ => .fail (hE.error _)) fun _ =>
          .pure ⟨ht, hresolver, hkeeps, fun hsubset => ?_⟩
        by_contra hne
        exact hdefault ⟨hsubset, hne⟩

theorem addFailover_remembers (n : Nat) (id : String) (t : DiscoveryTarget) :
    Does Remembers (addFailover req e n id t) := by
  refine .bind (.bind (Quiet.remembers (resolveAgain_quiet req e _ _ _)) fun found => ?_) fun _ =>
    updateResolver_remembers _ _
  cases found with
  | known id => exact .pure _
  | fresh t resolver => exact .bind (buildResolver_remembers t resolver) fun _ => .pure _

theorem getResolverNode_remembers (n : Nat) (t : DiscoveryTarget) :
    Does Remembers (getResolverNode req e n t) := by
  refine .bind (Quiet.remembers (resolveAgain_quiet req e _ _ _)) fun found => ?_
  cases found with
  | known id => exact .pure _
  | fresh t resolver =>
    refine .bind (buildResolver_remembers t resolver) fun node => ?_
    refine .bind (recordNode_remembers node) fun _ => ?_
    cases resolver.failoverFor t.serviceSubset with
    | none => exact .pure _
    | some f =>
      refine .bind ?_ fun _ => .pure _
      refine .bind (Quiet.remembers (failoverTargets_quiet req _ _ _)) fun targets => ?_
      refine .ite (.bind (updateResolver_remembers _ _) fun _ => ?_) (.pure _)
      exact .forEach fun u _ => addFailover_remembers n _ u

/-! ## The assembly -/

variable (hclosed : Closed req e D M F N) (hagree : Agree req e e' D N) (hE : Faults req e D n n' E)
include hclosed hagree hE

theorem failoverNode_together (ht : F t.destination) :
    Lockstep (Beside req e e' D) E (failoverNode req e n t) (failoverNode req e' n' t)
      fun _ => True := by
  refine (resolveAgain_together hclosed.named hclosed.settles hagree hE (Nat.le_refl n)
    (Nat.add_comm n n') .nil (by simp) ht).bind fun found hfound => ?_
  cases found with
  | known id => exact .pure trivial
  | fresh u resolver =>
    exact (buildResolver_together hagree hE (hclosed.settles.sub _ hfound.1) resolver).next
      (.pure trivial)

theorem compileFailover_together (hF : ∀ dc ∈ f.places, F (req.failover t.destination f dc)) :
    Lockstep (Beside req e e' D) E (compileFailover req e n t f) (compileFailover req e' n' t f)
      fun _ => True := by
  refine (failoverTargets_together hclosed hF).bind fun targets htargets => ?_
  refine .ite (fun _ => ?_) fun _ => .pure trivial
  refine (updateResolver_together _ _).next (.forEach fun u hu => ?_)
  exact (failoverNode_together hclosed hagree hE (htargets u hu)).bind fun _ _ =>
    updateResolver_together _ _

theorem getResolverNode_together (ht : M t.destination) :
    Lockstep (Beside req e e' D) E (getResolverNode req e n t) (getResolverNode req e' n' t)
      fun _ => True := by
  refine (resolveAgain_together hclosed.named hclosed.main hagree hE (Nat.le_refl n)
    (Nat.add_comm n n') .nil (by simp) ht).bind fun found hfound => ?_
  cases found with
  | known id => exact .pure trivial
  | fresh u resolver =>
    obtain ⟨hu, rfl, hkeeps, hsubset⟩ := hfound
    refine (buildResolver_together hagree hE (hclosed.main.sub _ hu) _).bind fun node _ => ?_
    refine (recordNode_together node).next ?_
    cases hf : (e.resolverFor u.service).failoverFor u.serviceSubset with
    | none => exact .pure trivial
    | some f =>
      have hF := hclosed.failover u.destination f hu hkeeps hsubset hf
      exact (compileFailover_together hclosed hagree hE hF).next (.pure trivial)

/-- No splitter is given for a service only when it has none, or when splitters are not used. -/
def GivesSplitter (req : CompileRequest) (e : DiscoveryChainConfigEntries) (name : String)
    (o : Option String) : Prop :=
  o = none → e.splitters.get name = none ∨ disableAdvancedRoutingFeatures req = true

theorem compileSplit_together {get get' : String → Txn Compiler (Option String)}
    (hget : ∀ s, N s → Lockstep (Below req e e' D above) E (get s) (get' s) (GivesSplitter req e s))
    {splitter : ServiceSplitterConfigEntry} (hname : N name)
    (hsplitter : e.splitters.get name = some splitter)
    (henabled : disableAdvancedRoutingFeatures req = false) {split : ServiceSplit}
    (hsplit : split ∈ splitter.splits) :
    Lockstep (Below req e e' D above) E (compileSplit req e get n name split)
      (compileSplit req e' get' n' name split) fun _ => True := by
  unfold compileSplit splitNext
  refine bind (P := fun _ => True) ?_ fun next _ =>
    Below.of_beside (addSplit_together _ _) (addSplit_remembers _ _)
  have hresolver (hnone : split.Eligible name →
      e.splitters.get (defaultIfEmpty split.service name) = none) :
      Lockstep (Below req e e' D above) E _ _ fun _ => True :=
    Below.of_beside
      ((newTarget_together hclosed.named hclosed.main.toPart
        (hclosed.split name splitter hname hsplitter henabled split hsplit hnone)).bind fun t ht =>
          (getResolverNode_together hclosed hagree hE ht.1).bind fun id _ =>
            .pure (a := resolverKey id) trivial)
      (.bind (Quiet.remembers (newTarget_quiet req _ _ _ _)) fun t =>
        .bind (getResolverNode_remembers n t) fun _ => .pure _)
  refine .ite (fun heligible => ?_) fun hother => hresolver fun heligible =>
    (hother heligible).elim
  have hN := hclosed.splitService name splitter hname hsplitter henabled split hsplit heligible
  refine (hget _ hN).bind fun o ho => ?_
  cases o with
  | some key => exact .pure trivial
  | none =>
    refine hresolver fun _ => (ho rfl).resolve_right ?_
    rw [henabled]
    decide

theorem getSplitterNode_together {m m' : Nat} (hm : n ≤ m + above.length) (hpair : m + n' = m' + n)
    (hnodup : above.Nodup) (habove : ∀ a ∈ above, a ∈ e.splitters.keys) (hname : N name) :
    Lockstep (Below req e e' D above) E (getSplitterNode req e n m name)
      (getSplitterNode req e' n' m' name) (GivesSplitter req e name) := by
  induction m generalizing m' above name with
  | zero =>
    have hnot : ¬Enough e D n := not_enough_of_splitters hnodup habove (by omega)
    obtain rfl := hE.none_left hpair hnot
    exact .crash (hE.cut hnot)
  | succ m ih =>
    obtain ⟨m', rfl⟩ := hE.one_left hpair fun h =>
      not_enough_of_splitters hnodup habove (by omega)
    refine bind (P := fun known => ∀ a ∈ above, a ∈ known) (.read ?_)
      fun known hknown => ?_
    · rintro c _ ⟨⟨rs, hl, hf, hf', hk⟩, hrecorded⟩
      exact ⟨rfl, hrecorded⟩
    refine .ite (fun _ => .pure fun hnone => nomatch hnone) fun hnew => ?_
    rw [hagree.splitter name hname]
    cases hsplitter : e.splitters.get name with
    | none => exact .pure fun _ => .inl hsplitter
    | some splitter =>
      refine .ite (fun hdisabled => ?_) fun henabled => ?_
      · refine Below.of_beside ?_ (.bind (.modify fun _ _ h => h) fun _ => .pure _)
        exact .next (modify_together (fun _ _ => rfl) (fun _ => rfl) fun _ h =>
            h.disabled hdisabled) (.pure fun _ => .inr hdisabled)
      · rw [Bool.not_eq_true] at henabled
        -- below the splitter it is among those that are known
        rintro c _ ⟨⟨rs, hl, hf, hf', hk⟩, hrecorded⟩
        rw [recordNode, modify_bind, modify_bind]
        refine Together.weaken (next (R := Below req e e' D (name :: above)) (.forEach ?_) ?_ _ _
          ⟨⟨rs, hl, hf, hf', hk⟩, forall_mem_cons.mpr
            ⟨mem_cons_self, fun a ha => mem_cons_of_mem _ (hrecorded a ha)⟩⟩) ?_
        · intro split hsplit
          refine compileSplit_together hclosed hagree hE (fun s hs => ih ?_ ?_ ?_ ?_ hs) hname
            hsplitter henabled hsplit
          · rw [length_cons]
            omega
          · omega
          · exact nodup_cons.mpr ⟨fun hmem => hnew (hknown name hmem), hnodup⟩
          · exact forall_mem_cons.mpr ⟨mem_keys_of_get hsplitter, habove⟩
        · refine Below.of_beside ?_ (.bind (.modify fun _ _ h => h) fun _ => .pure _)
          exact .next (modify_together (fun _ _ => rfl) (fun _ => rfl) fun _ h => h)
            (.pure fun hnone => nomatch hnone)
        · rintro c c' ⟨hbeside, hrecorded⟩
          exact ⟨hbeside, fun a ha => hrecorded a (mem_cons_of_mem _ ha)⟩

theorem getSplitterNode_top (hname : N name) :
    Lockstep (Beside req e e' D) E (getSplitterNode req e n n name)
      (getSplitterNode req e' n' n' name) (GivesSplitter req e name) := by
  intro c c' hbeside
  have hrun := getSplitterNode_together hclosed hagree hE (Nat.le_refl n) (Nat.add_comm n n') .nil
    (by simp) hname c c' ⟨hbeside, by simp⟩
  exact hrun.weaken fun _ _ h => h.1

theorem getSplitterOrResolverNode_together (hservice : N t.service)
    (hmain : e.splitters.get t.service = none ∨ disableAdvancedRoutingFeatures req = true →
      M t.destination) :
    Lockstep (Beside req e e' D) E (getSplitterOrResolverNode req e n t)
      (getSplitterOrResolverNode req e' n' t) fun _ => True := by
  refine (getSplitterNode_top hclosed hagree hE hservice).bind fun o ho => ?_
  cases o with
  | some key => exact .pure trivial
  | none =>
    exact (getResolverNode_together hclosed hagree hE (hmain (ho rfl))).bind fun _ _ =>
      .pure trivial

theorem defaultNext_together :
    Lockstep (Beside req e e' D) E (defaultNext req e n) (defaultNext req e' n')
      fun _ => True := by
  refine (newTarget_together hclosed.named (.refl D) hclosed.start).bind fun t ht => ?_
  exact getSplitterOrResolverNode_together hclosed hagree hE
    (hclosed.startService _ ht.1 ht.2) (hclosed.startMain _ ht.1 ht.2)

theorem compileRoutes_together (hrouter : e.routers.get req.serviceName = some router)
    (henabled : disableAdvancedRoutingFeatures req = false) {routes : List ServiceRoute}
    (hroutes : ∀ route ∈ routes, route ∈ router.routes) :
    Lockstep (Beside req e e' D) E (compileRoutes req e n routes)
      (compileRoutes req e' n' routes) fun _ => True := by
  induction routes with
  | nil => exact .pure trivial
  | cons route routes ih =>
    have hroute := hroutes route mem_cons_self
    unfold compileRoutes
    cases hdest : route.destination with
    | none => exact .crash (hE.noDestination router hrouter henabled route hroute hdest)
    | some dest =>
      refine bind (P := fun _ => True) ?_ fun _ _ =>
        (ih fun r hr => hroutes r (mem_cons_of_mem _ hr)).bind fun _ _ => .pure trivial
      have hD := hclosed.route router hrouter henabled route hroute dest hdest
      refine (newTarget_together hclosed.named (.refl D) hD).bind fun t ht => ?_
      have hmain := hclosed.routeMain router hrouter henabled route hroute dest hdest _ ht.1 ht.2
      refine .ite (fun hplain => ?_) fun hother => ?_
      · refine getSplitterOrResolverNode_together hclosed hagree hE
          (hclosed.routeService router hrouter henabled route hroute dest hdest hplain _ ht.1 ht.2)
          fun hnone => hmain fun _ => hnone.resolve_right ?_
        rw [henabled]
        decide
      · have hM := hmain fun hplain => (hother hplain).elim
        exact (getResolverNode_together hclosed hagree hE hM).bind fun _ _ => .pure trivial

theorem assembleRouter_together (hrouter : e.routers.get req.serviceName = some router)
    (henabled : disableAdvancedRoutingFeatures req = false) :
    Lockstep (Beside req e e' D) E (assembleRouter req e n router)
      (assembleRouter req e' n' router) fun _ => True := by
  refine .next (modify_together (fun _ _ => rfl) (fun _ => rfl) fun _ h => h) ?_
  refine (recordServiceProtocol_together hE hagree.globalProxy
    (hagree.routerService router hrouter henabled)).next ?_
  refine (compileRoutes_together hclosed hagree hE hrouter henabled fun _ h => h).bind
    fun routes _ => ?_
  refine (defaultNext_together hclosed hagree hE).bind fun next _ => ?_
  exact .next (modify_together (fun _ _ => rfl) (fun _ => rfl) fun _ h => h)
    (recordNode_together _)

theorem assembleChain_together :
    Lockstep (Beside req e e' D) E (assembleChain req e n) (assembleChain req e' n')
      fun _ => True := by
  refine (materialize_together req.serviceName).next ?_
  rw [hagree.router]
  refine .next (modify_together (fun c rs => ?_) (fun c => ?_) fun c h => ?_) ?_
  · dsimp only
    split <;> rfl
  · split <;> rfl
  · split
    · exact h.disabled (And.right ‹_›)
    · exact h
  · split
    · rename_i router hrouter henabled
      exact assembleRouter_together hclosed hagree hE hrouter henabled
    · exact (defaultNext_together hclosed hagree hE).bind fun next _ =>
        modify_together (fun _ _ => rfl) (fun _ => rfl) fun _ h => h

end Walk

end OpenGyoza
