-- The steps of which every change of the catalog is made. Each one is written
-- with the index rows that come with it and with what the code knows at that
-- point, so an invariant of the catalog is proved once for each step.
import OpenGyoza.References

namespace OpenGyoza

open Memdb Table

variable [External]

/-! ## The store after a step -/

namespace State

/-- The two index rows of a service are written. -/
def touch (s : State) (idx : Nat) (svc : ServiceNode) : State :=
  (s.withIndex (serviceIndexName svc.serviceName) idx).withIndex
    (serviceKindIndexName svc.serviceKind) idx

/-- The index rows of several services are written. -/
def touchAll (s : State) (idx : Nat) (l : List ServiceNode) : State :=
  { s with
    index := l.foldl (fun t svc =>
      (t.upsert { key := serviceIndexName svc.serviceName, value := idx }).upsert
        { key := serviceKindIndexName svc.serviceKind, value := idx }) s.index }

/-- A node is written, with the rows of its services. -/
def putNode (s : State) (idx : Nat) (n : Node) : State :=
  (withIndex { s with nodes := s.nodes.upsert n } (.table "nodes") idx).touchAll idx
    (servicesOfNode n.node s)

def eraseNode (s : State) (idx : Nat) (k : String) : State :=
  withIndex { s with nodes := s.nodes.erase k } (.table "nodes") idx

def putService (s : State) (idx : Nat) (svc : ServiceNode) : State :=
  (withIndex { s with services := s.services.upsert svc } (.table "services") idx).touch idx svc

/-- A service is deleted. Its name keeps a row as long as it has instances. -/
def dropService (s : State) (idx : Nat) (k : List Byte) (svc : ServiceNode) : State :=
  let s₁ := (withIndex { s with services := s.services.erase k } (.table "services") idx).withIndex
    (serviceKindIndexName svc.serviceKind) idx
  if servicesNamed svc.serviceName s₁ = [] then
    (s₁.withoutIndex (serviceIndexName svc.serviceName)).withIndex .serviceLastExtinction idx
  else s₁.withIndex (serviceIndexName svc.serviceName) idx

def putCheck (s : State) (idx : Nat) (c : HealthCheck) : State :=
  withIndex { s with checks := s.checks.upsert c } (.table "checks") idx

def eraseCheck (s : State) (idx : Nat) (k : List Byte) : State :=
  withIndex { s with checks := s.checks.erase k } (.table "checks") idx

def putCoordinates (s : State) (idx : Nat) (t : Table coordinateKey) : State :=
  withIndex { s with coordinates := t } (.table "coordinates") idx

def putQuery (s : State) (idx : Nat) (q : PreparedQuery) : State :=
  withIndex { s with preparedQueries := s.preparedQueries.upsert q } (.table "prepared-queries") idx

def putIntentions (s : State) (idx : Nat) (t : Table intentionKey) : State :=
  withIndex { s with intentions := t } (.table "connect-intentions") idx

end State

/-! ## Steps -/

def HealthCheck.Touched (idx : Nat) (c : HealthCheck) (s : State) : Prop :=
  if c.serviceID ≠ "" then s.indexOf (serviceIndexName c.serviceName) = some idx
  else ∀ svc ∈ servicesOfNode c.node s, s.indexOf (serviceIndexName svc.serviceName) = some idx

def HealthCheck.Announced (idx : Nat) (c : HealthCheck) (old : Option HealthCheck) (s : State) :
    Prop :=
  (checkModified c old = true ∧ c.modifyIndex = idx ∧ c.Touched idx s) ∨
    ∃ o, old = some o ∧ o.isSame c = true ∧ c.createIndex = o.createIndex ∧
      c.modifyIndex = o.modifyIndex

/-- The ID of a node that is written is a UUID in its usual form, and no node with another key
has it. -/
def Node.OwnID (n : Node) (k : String) (s : State) : Prop :=
  n.id ≠ "" → ∃ bytes, parseUUID n.id = .ok bytes ∧
    ∀ m ∈ s.nodes.values, hasUUID bytes m.id = true → nodeKey m = .ok k

/-- A service that was stored: its metadata passed the test, and its weights are valid. -/
structure ServiceNode.Formed (svc : ServiceNode) : Prop where
  metadata : validateMetadata svc.serviceMeta false = .ok ()
  weights : svc.toNodeService.storedWeights = svc.serviceWeights

/-- A query whose template, if it has one, compiles. -/
def PreparedQuery.Compiles (q : PreparedQuery) : Prop :=
  q.isTemplate = true → External.compile q = none

/-- The bytes of the two names cannot be read as another node name and an ID. -/
def PlainNames (node id : String) : Prop :=
  ∀ node' id', rowKey node' id' = rowKey node id → toLower node' = toLower node

/-- Every check of a service has the service. The names of the two are those that `P` allows, and
these are plain. -/
structure Firm (P : String → String → Prop) (s : State) : Prop where
  plain : ∀ node id, P node id → PlainNames node id
  checks : ∀ c ∈ s.checks.values, c.serviceID ≠ "" → P c.node c.serviceID ∧
    (serviceRow c.node c.serviceID s).isSome

structure Scope where
  names : String → String → Prop
  ends : List Byte → Prop
  leaves : String → Prop
  downs : String → String → Prop

/-- Every step is allowed. -/
def Scope.any : Scope := ⟨fun _ _ => True, fun _ => True, fun _ => True, fun _ _ => True⟩

/-- The checks of a node go with it. -/
def Scope.Downs (p : Scope) (node checkID : String) : Prop :=
  p.leaves node ∨ p.downs node checkID

/-- A session may end: directly, with its node, or with one of its checks. -/
def Scope.Ends (p : Scope) (s : State) (u : List Byte) : Prop :=
  p.ends u ∨ (∃ node, p.leaves node ∧ Among ((sessionsOfNode node s).map (·.id)) u) ∨
    ∃ node checkID, p.Downs node checkID ∧
      Among ((sessionChecksOf node checkID s).map (·.session)) u

/-- A step of the catalog. -/
inductive CatalogStep (idx : Nat) (p : Scope) : State → State → Prop
  | table {s : State} {t : String} (ht : t = "services" ∨ t = "checks") :
      CatalogStep idx p s (s.withIndex (.table t) idx)
  | touch {s : State} {svc : ServiceNode} (h : svc ∈ s.services.values) :
      CatalogStep idx p s (s.touch idx svc)
  | touchCheck {s : State} {c : HealthCheck} {svc : ServiceNode} (hc : c ∈ s.checks.values)
      (hid : c.serviceID ≠ "") (hsvc : serviceRow c.node c.serviceID s = some svc) :
      CatalogStep idx p s ((s.withIndex (serviceIndexName c.serviceName) idx).withIndex
        (serviceKindIndexName svc.serviceKind) idx)
  | putNode {s : State} {n : Node} {k : String} (hk : nodeKey n = .ok k) (hid : n.OwnID k s)
      (hidx : n.modifyIndex = idx) : CatalogStep idx p s (s.putNode idx n)
  | dropNode {s s' : State} {k : String}
      (hservices : ∀ svc ∈ s.services.values, toLower svc.node ≠ k)
      (hchecks : ∀ c ∈ s.checks.values, toLower c.node ≠ k)
      (hend : SessionsEnd idx (p.Ends s) (s.eraseNode idx k) s')
      (hgone : ∀ sess ∈ s'.sessions.values, toLower sess.node ≠ k) : CatalogStep idx p s s'
  | putService {s : State} {svc : ServiceNode} {k : List Byte}
      (hk : serviceKey svc = .ok k) (hnode : (nodeRow svc.node s).isSome) (hform : svc.Formed)
      (hidx : svc.modifyIndex = idx) : CatalogStep idx p s (s.putService idx svc)
  | dropService {s : State} {svc : ServiceNode} {k : List Byte}
      (hrow : s.services.first k = some svc)
      (hchecks : Firm p.names s → ∀ c ∈ s.checks.values, c.serviceID ≠ "" →
        rowKey c.node c.serviceID ≠ k) :
      CatalogStep idx p s (s.dropService idx k svc)
  | putCheck {s : State} {c : HealthCheck} {k : List Byte} (hk : checkKey c = .ok k)
      (hnode : (nodeRow c.node s).isSome)
      (hlink : c.serviceID ≠ "" → ∃ svc, serviceRow c.node c.serviceID s = some svc ∧
        c.serviceName = svc.serviceName ∧ c.serviceTags = svc.serviceTags)
      (hcrit : c.status = healthCritical → sessionChecksOf c.node c.checkID s = [])
      (hnames : c.serviceID ≠ "" → p.names c.node c.serviceID)
      (hseen : c.Announced idx (s.checks.first k) s) : CatalogStep idx p s (s.putCheck idx c)
  | dropCheck {s s' : State} {c : HealthCheck} {k : List Byte}
      (hrow : s.checks.first k = some c) (htouched : c.Touched idx s)
      (hend : SessionsEnd idx (p.Ends s) (s.eraseCheck idx k) s')
      (hgone : sessionChecksOf c.node c.checkID s' = []) : CatalogStep idx p s s'
  | coordinates {s : State} (t : Table coordinateKey) :
      CatalogStep idx p s (s.putCoordinates idx t)
  | putQuery {s : State} {q : PreparedQuery} {k : List Byte} (hk : preparedQueryKey q = .ok k)
      (hsess : q.session ≠ "" → s.HasSession q.session) (hcompiles : q.Compiles) :
      CatalogStep idx p s (s.putQuery idx q)
  | removeQuery {s : State} (k : List Byte) : CatalogStep idx p s (s.removeQuery idx k)
  | intentions {s : State} (t : Table intentionKey) : CatalogStep idx p s (s.putIntentions idx t)
  | sessions {s s' : State} (hend : SessionsEnd idx (p.Ends s) s s') : CatalogStep idx p s s'

/-- Steps one after the other. -/
abbrev CatalogSteps (idx : Nat) (p : Scope) : State → State → Prop :=
  Relation.ReflTransGen (CatalogStep idx p)

/-! ## Steps keep the references -/

section Sound

variable {idx : Nat} {p : Scope} {E : List Byte → Prop} {s s' : State} {k : List Byte}

theorem Sound.withTable (h : Sound s) (t : Table indexKey) : Sound { s with index := t } :=
  ⟨⟨h.behaviors, h.mappings, h.locks, h.queries⟩, h.sessionNodes, h.mappingChecks,
    h.serviceNodes, h.checkNodes, h.nodeIDs⟩

theorem SessionRefs.withTables (h : SessionRefs s) {nodes : Table nodeKey}
    {services : Table serviceKey} {checks : Table checkKey} {t : Table indexKey} :
    SessionRefs { s with nodes := nodes, services := services, checks := checks, index := t } :=
  ⟨h.behaviors, h.mappings, h.locks, h.queries⟩

theorem hasUUID_of_parseUUID {id : String} {bytes u : List Byte} (hid : id ≠ "")
    (hparse : parseUUID id = .ok bytes) : hasUUID u id = true ↔ u = bytes := by
  rw [hasUUID_iff, uuidKey_of_parseUUID hparse, Except.ok.injEq]
  simp [hid, eq_comm]

theorem UniqueIDs.upsert {t : Table nodeKey} (h : UniqueIDs t) {n : Node} {k : String}
    (hk : nodeKey n = .ok k) (hid : n.id ≠ "" → ∃ bytes, parseUUID n.id = .ok bytes ∧
      ∀ m ∈ t.values, hasUUID bytes m.id = true → nodeKey m = .ok k) : UniqueIDs (t.upsert n) := by
  -- An old row with the ID of the new one has its key, so it is not there any more.
  have hnew : ∀ m, m ∈ t.values → nodeKey m ≠ .ok k → ∀ u, hasUUID u n.id = true →
      hasUUID u m.id = true → False := by
    intro m hm hne u hu hmu
    have hn : n.id ≠ "" := (hasUUID_iff.mp hu).1
    obtain ⟨bytes, hparse, hown⟩ := hid hn
    obtain rfl := (hasUUID_of_parseUUID hn hparse).mp hu
    exact hne (hown m hm hmu)
  intro x hx y hy u hxu hyu
  rcases (mem_values_upsert hk).mp hx with rfl | ⟨hxt, hxk⟩
  · rcases (mem_values_upsert hk).mp hy with rfl | ⟨hyt, hyk⟩
    · rfl
    · exact (hnew y hyt hyk u hxu hyu).elim
  · rcases (mem_values_upsert hk).mp hy with rfl | ⟨hyt, hyk⟩
    · exact (hnew x hxt hxk u hyu hxu).elim
    · exact h x hxt y hyt u hxu hyu

theorem UniqueIDs.erase {t : Table nodeKey} (h : UniqueIDs t) (k : String) :
    UniqueIDs (t.erase k) :=
  fun x hx y hy => h x (mem_values_erase.mp hx).1 y (mem_values_erase.mp hy).1

theorem Sound.putNode (h : Sound s) {n : Node} {k : String} (hk : nodeKey n = .ok k)
    (hid : n.OwnID k s) : Sound (s.putNode idx n) := by
  have hnode : ∀ x, (nodeRow x s).isSome → (nodeRow x (s.putNode idx n)).isSome := by
    intro x hx
    change ((s.nodes.upsert n).first (toLower x)).isSome
    rw [first_upsert hk]
    split
    · rfl
    · exact hx
  exact ⟨h.toSessionRefs.withTables, fun sess hs => hnode _ (h.sessionNodes sess hs),
    h.mappingChecks, fun svc hs => hnode _ (h.serviceNodes svc hs),
    fun c hc => hnode _ (h.checkNodes c hc), h.nodeIDs.upsert hk hid⟩

theorem Sound.dropNode (h : Sound s) {k : String}
    (hservices : ∀ svc ∈ s.services.values, toLower svc.node ≠ k)
    (hchecks : ∀ c ∈ s.checks.values, toLower c.node ≠ k)
    (hend : SessionsEnd idx E (s.eraseNode idx k) s')
    (hgone : ∀ sess ∈ s'.sessions.values, toLower sess.node ≠ k) : Sound s' := by
  have hcat := hend.sameCatalog
  have hnode : ∀ x, toLower x ≠ k → (nodeRow x s).isSome → (nodeRow x s').isSome := by
    intro x hx hrow
    rw [nodeRow, hcat.nodes]
    change ((s.nodes.erase k).first (toLower x)).isSome
    rw [first_erase_ne _ hx]
    exact hrow
  refine ⟨hend.sessionRefs h.toSessionRefs.withTables, fun sess hs => ?_, fun m hm => ?_,
    fun svc hs => ?_, fun c hc => ?_, ?_⟩
  · exact hnode _ (hgone sess hs) (h.sessionNodes sess (hend.sessions hs))
  · rw [checkRow, hcat.checks]
    exact h.mappingChecks m (hend.sessionChecks hm)
  · rw [hcat.services] at hs
    exact hnode _ (hservices svc hs) (h.serviceNodes svc hs)
  · rw [hcat.checks] at hc
    exact hnode _ (hchecks c hc) (h.checkNodes c hc)
  · rw [hcat.nodes]
    exact h.nodeIDs.erase k

theorem Sound.putService (h : Sound s) {svc : ServiceNode} (hk : serviceKey svc = .ok k)
    (hnode : (nodeRow svc.node s).isSome) : Sound (s.putService idx svc) := by
  refine ⟨h.toSessionRefs.withTables, h.sessionNodes, h.mappingChecks, fun x hx => ?_,
    h.checkNodes, h.nodeIDs⟩
  rcases (mem_values_upsert hk).mp hx with rfl | ⟨hx, -⟩
  · exact hnode
  · exact h.serviceNodes x hx

theorem dropService_eq (s : State) (idx : Nat) (k : List Byte) (svc : ServiceNode) :
    ∃ t, s.dropService idx k svc = { s with services := s.services.erase k, index := t } := by
  simp only [State.dropService]
  split
  · exact ⟨_, rfl⟩
  · exact ⟨_, rfl⟩

theorem Sound.dropService (h : Sound s) (svc : ServiceNode) : Sound (s.dropService idx k svc) := by
  obtain ⟨t, ht⟩ := dropService_eq s idx k svc
  rw [ht]
  exact ⟨h.toSessionRefs.withTables, h.sessionNodes, h.mappingChecks,
    fun x hx => h.serviceNodes x (mem_values_erase.mp hx).1, h.checkNodes, h.nodeIDs⟩

theorem mem_sessionChecksOf {m : SessionCheck} {node checkID : String}
    (hm : m ∈ s.sessionChecks.values) (hkey : rowKey m.node m.checkID = rowKey node checkID) :
    m ∈ sessionChecksOf node checkID s := by
  obtain ⟨j, hj⟩ := mem_values.mp hm
  obtain ⟨hnode, hid, -⟩ := sessionCheckKey_eq_ok (key_of_first hj)
  refine mem_seek_entryOf.mpr ⟨j, rowKey m.node m.checkID, hj, ?_, ?_⟩
  · simp [fieldValue, hnode, hid, rowKey]
  · rw [hkey]
    exact List.prefix_append _ _

theorem Sound.putCheck (h : Sound s) {c : HealthCheck} (hk : checkKey c = .ok k)
    (hnode : (nodeRow c.node s).isSome)
    (hcrit : c.status = healthCritical → sessionChecksOf c.node c.checkID s = []) :
    Sound (s.putCheck idx c) := by
  obtain ⟨-, -, -, hkey⟩ := checkKey_eq_ok hk
  refine ⟨h.toSessionRefs.withTables, h.sessionNodes, fun m hm => ?_, h.serviceNodes,
    fun x hx => ?_, h.nodeIDs⟩
  · change ∃ x, (s.checks.upsert c).first _ = some x ∧ _
    rw [first_upsert hk]
    split
    · rename_i hmk
      refine ⟨c, rfl, fun hc => ?_⟩
      have hmem : m ∈ sessionChecksOf c.node c.checkID s :=
        mem_sessionChecksOf hm (hmk.trans hkey)
      rw [hcrit hc] at hmem
      cases hmem
    · exact h.mappingChecks m hm
  · rcases (mem_values_upsert hk).mp hx with rfl | ⟨hx, -⟩
    · exact hnode
    · exact h.checkNodes x hx

theorem Sound.dropCheck (h : Sound s) {c : HealthCheck} (hrow : s.checks.first k = some c)
    (hend : SessionsEnd idx E (s.eraseCheck idx k) s')
    (hgone : sessionChecksOf c.node c.checkID s' = []) : Sound s' := by
  obtain ⟨-, -, -, hkey⟩ := checkKey_eq_ok (key_of_first hrow)
  have hcat := hend.sameCatalog
  have hchecks : s'.checks = s.checks.erase k := hcat.checks
  refine ⟨hend.sessionRefs h.toSessionRefs.withTables, fun sess hs => ?_, fun m hm => ?_,
    fun svc hs => ?_, fun x hx => ?_, hcat.nodes ▸ h.nodeIDs⟩
  · rw [nodeRow, hcat.nodes]
    exact h.sessionNodes sess (hend.sessions hs)
  · have hne : rowKey m.node m.checkID ≠ k := by
      intro heq
      have hmem := mem_sessionChecksOf hm (heq.trans hkey)
      rw [hgone] at hmem
      cases hmem
    rw [checkRow, hchecks, first_erase_ne _ hne]
    exact h.mappingChecks m (hend.sessionChecks hm)
  · rw [hcat.services] at hs
    rw [nodeRow, hcat.nodes]
    exact h.serviceNodes svc hs
  · rw [hchecks] at hx
    rw [nodeRow, hcat.nodes]
    exact h.checkNodes x (mem_values_erase.mp hx).1

theorem Sound.sessions (h : Sound s) (hend : SessionsEnd idx E s s') : Sound s' := by
  have hcat := hend.sameCatalog
  refine ⟨hend.sessionRefs h.toSessionRefs, fun sess hs => ?_, fun m hm => ?_, fun svc hs => ?_,
    fun x hx => ?_, hcat.nodes ▸ h.nodeIDs⟩
  · rw [nodeRow, hcat.nodes]
    exact h.sessionNodes sess (hend.sessions hs)
  · rw [checkRow, hcat.checks]
    exact h.mappingChecks m (hend.sessionChecks hm)
  · rw [hcat.services] at hs
    rw [nodeRow, hcat.nodes]
    exact h.serviceNodes svc hs
  · rw [hcat.checks] at hx
    rw [nodeRow, hcat.nodes]
    exact h.checkNodes x hx

theorem CatalogStep.sound (hstep : CatalogStep idx p s s') (h : Sound s) : Sound s' := by
  cases hstep with
  | table | touch | touchCheck => exact h.withTable _
  | putNode hk hid _ => exact h.putNode hk hid
  | dropNode hservices hchecks hend hgone => exact h.dropNode hservices hchecks hend hgone
  | putService hk hnode _ _ => exact h.putService hk hnode
  | dropService => exact h.dropService _
  | putCheck hk hnode _ hcrit _ _ => exact h.putCheck hk hnode hcrit
  | dropCheck hrow _ hend hgone => exact h.dropCheck hrow hend hgone
  | coordinates | intentions =>
    exact ⟨⟨h.behaviors, h.mappings, h.locks, h.queries⟩, h.sessionNodes, h.mappingChecks,
      h.serviceNodes, h.checkNodes, h.nodeIDs⟩
  | putQuery hk hsess _ =>
    refine ⟨⟨h.behaviors, h.mappings, h.locks, fun x hx hid => ?_⟩, h.sessionNodes,
      h.mappingChecks, h.serviceNodes, h.checkNodes, h.nodeIDs⟩
    rcases (mem_values_upsert hk).mp hx with rfl | ⟨hx, -⟩
    · exact hsess hid
    · exact h.queries x hx hid
  | removeQuery k =>
    refine ⟨⟨h.behaviors, h.mappings, h.locks, fun x hx hid => ?_⟩, h.sessionNodes,
      h.mappingChecks, h.serviceNodes, h.checkNodes, h.nodeIDs⟩
    exact h.queries x (mem_values_erase.mp hx).1 hid
  | sessions hend => exact h.sessions hend

theorem CatalogSteps.sound (hsteps : CatalogSteps idx p s s') (h : Sound s) : Sound s' := by
  induction hsteps with
  | refl => exact h
  | tail _ hstep ih => exact hstep.sound ih

/-! ## Steps keep the services of checks -/

theorem Firm.of_rows {P : String → String → Prop} (h : Firm P s)
    (hservices : ∀ k, (s.services.first k).isSome → (s'.services.first k).isSome)
    (hchecks : ∀ c ∈ s'.checks.values, c ∈ s.checks.values) : Firm P s' :=
  ⟨h.plain, fun c hc hid => (h.checks c (hchecks c hc) hid).imp_right (hservices _)⟩

theorem SameCatalog.firm {P : String → String → Prop} (hcat : SameCatalog idx s s')
    (h : Firm P s) : Firm P s' :=
  h.of_rows (fun _ hk => hcat.services ▸ hk) fun _ hc => hcat.checks ▸ hc

theorem CatalogStep.firm (hstep : CatalogStep idx p s s') (h : Firm p.names s) :
    Firm p.names s' := by
  cases hstep with
  | table | touch | touchCheck | putNode | coordinates | putQuery | removeQuery | intentions =>
    exact h.of_rows (fun _ hk => hk) fun _ hc => hc
  | dropNode _ _ hend _ =>
    exact hend.sameCatalog.firm (h.of_rows (fun _ hk => hk) fun _ hc => hc)
  | @putService svc k hk =>
    refine h.of_rows (fun j hj => ?_) fun _ hc => hc
    change ((s.services.upsert svc).first j).isSome
    rw [first_upsert hk]
    split
    · rfl
    · exact hj
  | @dropService svc k _ hchecks =>
    obtain ⟨t, ht⟩ := dropService_eq s idx k svc
    rw [ht]
    refine ⟨h.plain, fun c hc hid => (h.checks c hc hid).imp_right fun hsome => ?_⟩
    rw [serviceRow, first_erase_ne _ (hchecks h c hc hid)]
    exact hsome
  | putCheck _ _ hlink _ hP _ =>
    refine ⟨h.plain, fun x hx hid => ?_⟩
    rcases mem_values_of_upsert hx with rfl | hx
    · obtain ⟨svc, hsvc, -⟩ := hlink hid
      exact ⟨hP hid, Option.isSome_iff_exists.mpr ⟨svc, hsvc⟩⟩
    · exact h.checks x hx hid
  | dropCheck _ _ hend _ =>
    exact hend.sameCatalog.firm
      (h.of_rows (fun _ hk => hk) fun c hc => (mem_values_erase.mp hc).1)
  | sessions hend => exact hend.sameCatalog.firm h

theorem CatalogSteps.firm (hsteps : CatalogSteps idx p s s') (h : Firm p.names s) :
    Firm p.names s' := by
  induction hsteps with
  | refl => exact h
  | tail _ hstep ih => exact hstep.firm ih

end Sound

/-! ## Steps and locks -/

/-- The sessions with their mappings and the keys are the same, with the index rows of the
keys. -/
structure SameLocks (s s' : State) : Prop extends SameKeys s s' where
  sessions : s'.sessions = s.sessions
  sessionChecks : s'.sessionChecks = s.sessionChecks

theorem SameLocks.trans {s s' s'' : State} (h : SameLocks s s') (h' : SameLocks s' s'') :
    SameLocks s s'' :=
  ⟨⟨h'.kvs.trans h.kvs, h'.tombstones.trans h.tombstones, h'.kvsIndex.trans h.kvsIndex,
    h'.tombstonesIndex.trans h.tombstonesIndex⟩, h'.sessions.trans h.sessions,
    h'.sessionChecks.trans h.sessionChecks⟩

section Locks

variable {idx : Nat} {p : Scope} {s s' : State}

theorem sameLocks_withIndex (s : State) (idx : Nat) {name : IndexName}
    (hk : name ≠ .table "kvs") (ht : name ≠ .table "tombstones") :
    SameLocks s (s.withIndex name idx) := ⟨sameKeys_withIndex hk ht, rfl, rfl⟩

theorem sameLocks_withoutIndex (s : State) {name : IndexName} (hk : name ≠ .table "kvs")
    (ht : name ≠ .table "tombstones") : SameLocks s (s.withoutIndex name) := by
  refine ⟨⟨rfl, rfl, ?_, ?_⟩, rfl, rfl⟩
  all_goals
    rw [indexOf_withoutIndex, if_neg]
    rw [eq_comm, IndexName.lower_table, IndexName.lower_eq_table]
    assumption

omit [External] in
theorem serviceKindIndexName_ne_table (kind : ServiceKind) (t : String) :
    serviceKindIndexName kind ≠ .table t := by
  cases kind <;> simp [serviceKindIndexName]

theorem sameLocks_rows (s : State) (idx : Nat) (name : String) (kind : ServiceKind) :
    SameLocks s ((s.withIndex (serviceIndexName name) idx).withIndex
      (serviceKindIndexName kind) idx) :=
  (sameLocks_withIndex s idx (by simp [serviceIndexName]) (by simp [serviceIndexName])).trans
    (sameLocks_withIndex _ idx (serviceKindIndexName_ne_table _ _)
      (serviceKindIndexName_ne_table _ _))

theorem sameLocks_touchAll (s : State) (idx : Nat) (l : List ServiceNode) :
    SameLocks s (s.touchAll idx l) := by
  induction l generalizing s with
  | nil => exact ⟨⟨rfl, rfl, rfl, rfl⟩, rfl, rfl⟩
  | cons svc l ih => exact (sameLocks_rows s idx svc.serviceName svc.serviceKind).trans (ih _)

theorem sameLocks_dropService (s : State) (idx : Nat) (k : List Byte) (svc : ServiceNode) :
    SameLocks s (s.dropService idx k svc) := by
  have hdrop : SameLocks s { s with services := s.services.erase k } :=
    ⟨⟨rfl, rfl, rfl, rfl⟩, rfl, rfl⟩
  have htable : SameLocks s (State.withIndex { s with services := s.services.erase k }
      (.table "services") idx) := hdrop.trans (sameLocks_withIndex _ idx (by decide) (by decide))
  have hrows := htable.trans (sameLocks_withIndex _ idx
    (serviceKindIndexName_ne_table svc.serviceKind _) (serviceKindIndexName_ne_table _ _))
  simp only [State.dropService]
  split
  · refine (hrows.trans (sameLocks_withoutIndex _ ?_ ?_)).trans
      (sameLocks_withIndex _ idx ?_ ?_)
    all_goals simp [serviceIndexName]
  · exact hrows.trans (sameLocks_withIndex _ idx (by simp [serviceIndexName])
      (by simp [serviceIndexName]))

theorem CatalogStep.ends (h : CatalogStep idx p s s') :
    ∃ s1, SameLocks s s1 ∧ SessionsEnd idx (p.Ends s) s1 s' := by
  have hsame {s1 : State} (h : SameLocks s s1) :
      ∃ s2, SameLocks s s2 ∧ SessionsEnd idx (p.Ends s) s2 s1 := ⟨s1, h, .refl⟩
  -- A table that holds no locks is written, and then its index row.
  have hrow (s1 : State) (t : String) (h : SameLocks s s1) (hk : t ≠ "kvs")
      (ht : t ≠ "tombstones") : SameLocks s (s1.withIndex (.table t) idx) :=
    h.trans (sameLocks_withIndex _ idx (by simpa using hk) (by simpa using ht))
  cases h with
  | @table t ht =>
    refine hsame (hrow s t ⟨⟨rfl, rfl, rfl, rfl⟩, rfl, rfl⟩ ?_ ?_)
    all_goals rcases ht with rfl | rfl <;> decide
  | touch | touchCheck => exact hsame (sameLocks_rows _ _ _ _)
  | @putNode n =>
    have hput := hrow { s with nodes := s.nodes.upsert n } "nodes" ⟨⟨rfl, rfl, rfl, rfl⟩, rfl, rfl⟩
      (by decide) (by decide)
    exact hsame (hput.trans (sameLocks_touchAll _ _ _))
  | @putService svc =>
    have hput := hrow { s with services := s.services.upsert svc } "services"
      ⟨⟨rfl, rfl, rfl, rfl⟩, rfl, rfl⟩ (by decide) (by decide)
    exact hsame (hput.trans (sameLocks_rows _ _ _ _))
  | dropService => exact hsame (sameLocks_dropService _ _ _ _)
  | putCheck | coordinates | putQuery | removeQuery | intentions =>
    exact hsame (hrow _ _ ⟨⟨rfl, rfl, rfl, rfl⟩, rfl, rfl⟩ (by decide) (by decide))
  | @dropNode _ k _ _ hend =>
    exact ⟨_, hrow { s with nodes := s.nodes.erase k } "nodes" ⟨⟨rfl, rfl, rfl, rfl⟩, rfl, rfl⟩
      (by decide) (by decide), hend⟩
  | @dropCheck _ _ k _ _ hend =>
    exact ⟨_, hrow { s with checks := s.checks.erase k } "checks" ⟨⟨rfl, rfl, rfl, rfl⟩, rfl, rfl⟩
      (by decide) (by decide), hend⟩
  | sessions hend => exact ⟨s, ⟨⟨rfl, rfl, rfl, rfl⟩, rfl, rfl⟩, hend⟩

/-- No session and no mapping is new. -/
structure SessionsShrink (s s' : State) : Prop where
  sessions : ∀ u sess, s'.sessions.first u = some sess → s.sessions.first u = some sess
  sessionChecks : ∀ m ∈ s'.sessionChecks.values, m ∈ s.sessionChecks.values

theorem CatalogSteps.sessionsShrink (h : CatalogSteps idx p s s') : SessionsShrink s s' := by
  induction h with
  | refl => exact ⟨fun _ _ h => h, fun _ h => h⟩
  | tail _ hstep ih =>
    obtain ⟨s1, hsame, hend⟩ := hstep.ends
    refine ⟨fun u sess hu => ih.sessions u sess ?_, fun m hm => ih.sessionChecks m ?_⟩
    · rw [← hsame.sessions]
      exact hend.first_some hu
    · rw [← hsame.sessionChecks]
      exact hend.sessionChecks hm

theorem SessionsShrink.ends (h : SessionsShrink s s') {u : List Byte} (hu : p.Ends s' u) :
    p.Ends s u := by
  have hsub {ids ids' : List String} (hids : ids ⊆ ids') (hu : Among ids u) : Among ids' u := by
    obtain ⟨id, hid, hkey⟩ := hu
    exact ⟨id, hids hid, hkey⟩
  rcases hu with hu | ⟨node, hleaves, hu⟩ | ⟨node, checkID, hdowns, hu⟩
  · exact .inl hu
  · refine .inr (.inl ⟨node, hleaves, hsub (List.map_subset _ fun sess hsess => ?_) hu⟩)
    obtain ⟨hmem, hp⟩ := mem_seek.mp hsess
    obtain ⟨v, hv⟩ := mem_values.mp hmem
    exact mem_seek.mpr ⟨mem_values_of_first (h.sessions v sess hv), hp⟩
  · refine .inr (.inr ⟨node, checkID, hdowns, hsub (List.map_subset _ fun m hm => ?_) hu⟩)
    obtain ⟨hmem, hp⟩ := mem_seek.mp hm
    exact mem_seek.mpr ⟨h.sessionChecks m hmem, hp⟩

theorem CatalogSteps.ended (h : CatalogSteps idx p s s') {u : List Byte}
    (hu : s.sessions.first u ≠ none) (hgone : s'.sessions.first u = none) : p.Ends s u := by
  induction h with
  | refl => exact absurd hgone hu
  | @tail s1 s2 hsteps hstep ih =>
    by_cases hgone1 : s1.sessions.first u = none
    · exact ih hgone1
    · obtain ⟨t, hsame, hend⟩ := hstep.ends
      rw [← hsame.sessions] at hgone1
      exact (CatalogSteps.sessionsShrink hsteps).ends (hend.ended hgone1 hgone)

end Locks

end OpenGyoza
