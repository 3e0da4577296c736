-- The filters of results. A reply is cut down in place to what its token
-- may read, and the secrets in it are hidden. The reply with the services
-- of one node is the odd one: it is filtered by the IDs of the services.
import OpenGyoza.AclDecisions
import OpenGyoza.AclReplication
import OpenGyoza.KeyMaps

namespace OpenGyoza

open Memdb Table List

/-! ## Results -/

def consulServiceID : String := "consul"

/-- The services of a node, by ID. -/
structure NodeServices where
  node : Node
  services : GoMap NodeService
deriving DecidableEq

structure NodeInfo where
  id : String := ""
  node : String
  address : String := ""
  taggedAddresses : GoMap String := none
  metadata : GoMap String := none
  services : List NodeService := []
  checks : List HealthCheck := []
deriving DecidableEq

/-- A prepared query in a reply. The token stands apart from the rest of its definition. -/
structure ListedQuery where
  query : PreparedQuery
  token : String := ""
deriving DecidableEq

/-- What is read from the catalog, the sessions and the coordinates. The map of services has
the tags by the name of a service. -/
inductive CatalogResult where
  | checkServiceNodes (nodes : List CheckServiceNode)
  | coordinates (coords : List Coordinate)
  | healthChecks (checks : List HealthCheck)
  | nodeDump (dump : List NodeInfo)
  | nodes (nodes : List Node)
  | nodeServices (services : Option NodeServices)
  | serviceNodes (nodes : List ServiceNode)
  | services (services : GoMap GoStrings)
  | sessions (sessions : List Session)
deriving DecidableEq

/-- The values that can be filtered. -/
inductive Subject where
  | catalog (result : CatalogResult)
  | intentions (ixns : List Intention)
  | preparedQueries (queries : List ListedQuery)
  | preparedQuery (query : ListedQuery)
  | tokens (tokens : List ACLToken)
  | token (token : Option ACLToken)
deriving DecidableEq

/-- The name whose rules decide on an intention, or none. -/
def Intention.getACLPrefix (x : Intention) : Option String :=
  if x.destinationName ≠ "" then some x.destinationName else none

/-- The name whose rules decide on a query, or none. -/
def PreparedQuery.getACLPrefix (q : PreparedQuery) : Option String :=
  if q.name ≠ "" ∨ q.templateType ≠ "" then some q.name else none

/-! ## Filters -/

structure ACLFilter where
  authorizer : Authorizer
  enforceVersion8 : Bool

namespace ACLFilter

variable (f : ACLFilter)

def allowNode (node : String) : Bool :=
  if !f.enforceVersion8 then true else f.authorizer.nodeRead (bytesOf node)

def allowService (service : String) : Bool :=
  if service = "" then true
  else if !f.enforceVersion8 ∧ service = consulServiceID then true
  else f.authorizer.serviceRead (bytesOf service)

def allowSession (node : String) : Bool :=
  if !f.enforceVersion8 then true else f.authorizer.sessionRead (bytesOf node)

/-- Removes from a list in place what `allow` refuses. -/
def retain {α : Type} (allow : α → Bool) (l : List α) : List α :=
  l.compactFrom (fun a => if allow a then some a else none) 0

def filterHealthChecks (checks : List HealthCheck) : List HealthCheck :=
  retain (fun check => f.allowNode check.node && f.allowService check.serviceName) checks

/-- Deletes from a map, which is walked in any order, the names that are refused. -/
def filterByName {α : Type} (w : Walks String) (services : GoMap α) : GoMap α :=
  services.map fun t => (w.order 0 (t.values.map (·.1))).foldl
    (fun t svc => if f.allowService svc then t else t.erase svc) t

def filterServices (w : Walks String) (services : GoMap GoStrings) : GoMap GoStrings :=
  f.filterByName w services

def filterServiceNodes (nodes : List ServiceNode) : List ServiceNode :=
  retain (fun node => f.allowNode node.node && f.allowService node.serviceName) nodes

/-- The keys of the map are the IDs of the services. They are taken for names here. -/
def filterNodeServices (w : Walks String) : Option NodeServices → Option NodeServices
  | none => none
  | some ns =>
    if !f.allowNode ns.node.node then none
    else some { ns with services := f.filterByName w ns.services }

def filterCheckServiceNodes (nodes : List CheckServiceNode) : List CheckServiceNode :=
  retain (fun n => f.allowNode n.node.node && f.allowService n.service.service) nodes

def filterSessions (sessions : List Session) : List Session :=
  retain (fun session => f.allowSession session.node) sessions

def filterCoordinates (coords : List Coordinate) : List Coordinate :=
  retain (fun c => f.allowNode c.node) coords

/-- Goes through a list in order, and leaves out what has no name for the rules or a name that
`read` refuses. -/
def readable {α : Type} (getACLPrefix : α → Option String) (read : Key → Bool) (l : List α) :
    List α :=
  l.filter fun a => (getACLPrefix a).any fun name => read (bytesOf name)

def filterIntentions (ixns : List Intention) : List Intention :=
  if f.authorizer.aclRead then ixns
  else readable Intention.getACLPrefix f.authorizer.intentionRead ixns

def filterNodeInfo (info : NodeInfo) : Option NodeInfo :=
  if !f.allowNode info.node then none
  else some { info with
    services := retain (fun svc => f.allowService svc.service) info.services
    checks := retain (fun chk => f.allowService chk.serviceName) info.checks }

def filterNodeDump (dump : List NodeInfo) : List NodeInfo := dump.compactFrom f.filterNodeInfo 0

def filterNodes (nodes : List Node) : List Node := retain (fun n => f.allowNode n.node) nodes

def redactPreparedQueryTokens (query : ListedQuery) : ListedQuery :=
  if f.authorizer.aclWrite then query
  else if query.token ≠ "" then { query with token := redactedToken }
  else query

def filterPreparedQueries (queries : List ListedQuery) : List ListedQuery :=
  if f.authorizer.aclWrite then queries
  else (readable (·.query.getACLPrefix) f.authorizer.preparedQueryRead queries).map
    f.redactPreparedQueryTokens

def redactTokenSecret (token : ACLToken) : ACLToken :=
  if f.authorizer.aclWrite then token else { token with secretID := redactedToken }

def redactTokenSecrets (tokens : List ACLToken) : List ACLToken := tokens.map f.redactTokenSecret

end ACLFilter

/-- Filters a result. Without an authorizer there is nothing to check. -/
def filterACLWithAuthorizer (w : Walks String) (enforceVersion8 : Bool)
    (authorizer : Option Authorizer) (subj : Subject) : Subject :=
  match authorizer with
  | none => subj
  | some authorizer =>
    let filt : ACLFilter := ⟨authorizer, enforceVersion8⟩
    match subj with
    | .catalog (.checkServiceNodes v) =>
      .catalog (.checkServiceNodes (filt.filterCheckServiceNodes v))
    | .catalog (.coordinates v) => .catalog (.coordinates (filt.filterCoordinates v))
    | .catalog (.healthChecks v) => .catalog (.healthChecks (filt.filterHealthChecks v))
    | .catalog (.nodeDump v) => .catalog (.nodeDump (filt.filterNodeDump v))
    | .catalog (.nodes v) => .catalog (.nodes (filt.filterNodes v))
    | .catalog (.nodeServices v) => .catalog (.nodeServices (filt.filterNodeServices w v))
    | .catalog (.serviceNodes v) => .catalog (.serviceNodes (filt.filterServiceNodes v))
    | .catalog (.services v) => .catalog (.services (filt.filterServices w v))
    | .catalog (.sessions v) => .catalog (.sessions (filt.filterSessions v))
    | .intentions v => .intentions (filt.filterIntentions v)
    | .preparedQueries v => .preparedQueries (filt.filterPreparedQueries v)
    | .preparedQuery v => .preparedQuery (filt.redactPreparedQueryTokens v)
    | .tokens v => .tokens (filt.redactTokenSecrets v)
    | .token v => .token (v.map filt.redactTokenSecret)

/-! ## What may be read -/

namespace Authorizer

variable (a : Authorizer)

def MayReadNode (node : String) : Prop := a.nodeRead (bytesOf node) = true

/-- A service may be read by its name. What belongs to no service may be read. -/
def MayReadService (name : String) : Prop := name = "" ∨ a.serviceRead (bytesOf name) = true

def MayReadSession (node : String) : Prop := a.sessionRead (bytesOf node) = true

instance : DecidablePred a.MayReadNode := fun _ => inferInstanceAs (Decidable (_ = _))

instance : DecidablePred a.MayReadService := fun _ => inferInstanceAs (Decidable (_ ∨ _))

instance : DecidablePred a.MayReadSession := fun _ => inferInstanceAs (Decidable (_ = _))

end Authorizer

/-- The part of a result that an authorizer may read: the items whose node and whose service it
may read, in their order. -/
def CatalogResult.readableBy (a : Authorizer) : CatalogResult → CatalogResult
  | .checkServiceNodes v => .checkServiceNodes
      (v.filter fun n => a.MayReadNode n.node.node ∧ a.MayReadService n.service.service)
  | .coordinates v => .coordinates (v.filter fun c => a.MayReadNode c.node)
  | .healthChecks v => .healthChecks
      (v.filter fun c => a.MayReadNode c.node ∧ a.MayReadService c.serviceName)
  | .nodeDump v => .nodeDump ((v.filter fun info => a.MayReadNode info.node).map fun info =>
      { info with services := info.services.filter fun s => a.MayReadService s.service
                  checks := info.checks.filter fun c => a.MayReadService c.serviceName })
  | .nodes v => .nodes (v.filter fun n => a.MayReadNode n.node)
  | .nodeServices v => .nodeServices ((v.filter fun ns => a.MayReadNode ns.node.node).map fun ns =>
      { ns with services := ns.services.map (·.keep fun p => a.MayReadService p.2.service) })
  | .serviceNodes v => .serviceNodes
      (v.filter fun n => a.MayReadNode n.node ∧ a.MayReadService n.serviceName)
  | .services v => .services (v.map (·.keep fun p => a.MayReadService p.1))
  | .sessions v => .sessions (v.filter fun s => a.MayReadSession s.node)

/-! ## The loops -/

namespace ACLFilter

theorem retain_eq_filter {α : Type} (allow : α → Bool) (l : List α) :
    retain allow l = l.filter allow := by
  unfold retain
  rw [compactFrom_zero, ← filterMap_eq_filter]
  congr 1

theorem first_foldl_erase {α : Type} {f : ACLFilter} (names : List String)
    (t : Table (fun p : String × α => (.ok p.1 : Except String String))) (k : String) :
    (names.foldl (fun t svc => if f.allowService svc then t else t.erase svc) t).first k =
      if k ∈ names ∧ f.allowService k = false then none else t.first k := by
  induction names generalizing t with
  | nil => simp
  | cons name names ih =>
    rw [foldl_cons, ih]
    by_cases hname : f.allowService name = true
    · rw [if_pos hname]
      by_cases hk : k = name
      · subst hk
        simp [hname]
      · simp [hk]
    · rw [if_neg hname, first_erase]
      by_cases hk : k = name
      · subst hk
        simp [hname]
      · simp [hk]

theorem filterByName_eq {α : Type} (f : ACLFilter) (w : Walks String) (services : GoMap α) :
    f.filterByName w services = services.map (·.keep fun p => f.allowService p.1) := by
  cases services with
  | none => rfl
  | some t =>
    refine congrArg some (ext_first fun k => ?_)
    rw [first_foldl_erase, first_keep]
    cases hk : t.first k with
    | none => simp
    | some p =>
      obtain rfl : p.1 = k := by simpa using key_of_first hk
      have hmem : p.1 ∈ w.order 0 (t.values.map (·.1)) := by
        rw [(w.perm _ _).mem_iff]
        exact mem_map.mpr ⟨p, mem_values_of_first hk, rfl⟩
      rw [Option.filter_some]
      cases f.allowService p.1 <;> simp [hmem]

variable (a : Authorizer)

@[simp] theorem allowNode_eq (node : String) :
    (⟨a, true⟩ : ACLFilter).allowNode node = decide (a.MayReadNode node) := by
  unfold allowNode
  rw [if_neg (by simp), Bool.eq_iff_iff, decide_eq_true_iff]
  rfl

@[simp] theorem allowService_eq (name : String) :
    (⟨a, true⟩ : ACLFilter).allowService name = decide (a.MayReadService name) := by
  unfold allowService
  by_cases h : name = "" <;> simp [h, Authorizer.MayReadService]

@[simp] theorem allowSession_eq (node : String) :
    (⟨a, true⟩ : ACLFilter).allowSession node = decide (a.MayReadSession node) := by
  unfold allowSession
  rw [if_neg (by simp), Bool.eq_iff_iff, decide_eq_true_iff]
  rfl

theorem filterNodeDump_eq (f : ACLFilter) (dump : List NodeInfo) :
    f.filterNodeDump dump = (dump.filter fun info => f.allowNode info.node).map fun info =>
      { info with services := info.services.filter fun s => f.allowService s.service
                  checks := info.checks.filter fun c => f.allowService c.serviceName } := by
  unfold filterNodeDump
  rw [compactFrom_zero]
  induction dump with
  | nil => rfl
  | cons info dump ih =>
    rw [filterMap_cons, ih]
    unfold filterNodeInfo
    cases hnode : f.allowNode info.node
    · simp [hnode]
    · simp [hnode, retain_eq_filter]

end ACLFilter

/-! ## The result of a filter -/

/-- In a list of the services of a node that may be read, each ID is readable as a name exactly
if the name of its service is. -/
def CatalogResult.IDsReadLikeNames (a : Authorizer) : CatalogResult → Prop
  | .nodeServices (some ns) => a.MayReadNode ns.node.node →
      ∀ p ∈ pairsOf ns.services, a.MayReadService p.1 ↔ a.MayReadService p.2.service
  | _ => True

theorem filterNodeServices_eq_iff (a : Authorizer) (w : Walks String) (v : Option NodeServices) :
    CatalogResult.nodeServices ((⟨a, true⟩ : ACLFilter).filterNodeServices w v) =
      (CatalogResult.nodeServices v).readableBy a ↔
        (CatalogResult.nodeServices v).IDsReadLikeNames a := by
  unfold CatalogResult.readableBy CatalogResult.IDsReadLikeNames
  cases v with
  | none => simp [ACLFilter.filterNodeServices]
  | some ns =>
    unfold ACLFilter.filterNodeServices
    by_cases hnode : a.MayReadNode ns.node.node
    · cases hs : ns.services with
      | none => simp [hnode, hs, ACLFilter.filterByName, pairsOf]
      | some t =>
        have hkeep : (t.keep (fun p => decide (a.MayReadService p.2.service)) =
            t.keep fun p => decide (a.MayReadService p.1)) ↔
              ∀ p ∈ t.values, a.MayReadService p.1 ↔ a.MayReadService p.2.service := by
          simp only [keep_eq_keep, decide_eq_decide]
          exact forall₂_congr fun _ _ => Iff.comm
        simpa [hnode, hs, ACLFilter.filterByName_eq, pairsOf] using hkeep
    · simp [hnode]

/-- With the filters of version 8, a result is cut down to what may be read exactly if it does
not list the services of a node whose IDs and names are treated differently. Of two results
that differ in what may not be read, the same is left. -/
theorem results_are_cut_down_to_what_may_be_read (a : Authorizer) (w : Walks String) :
    (∀ r : CatalogResult,
      filterACLWithAuthorizer w true (some a) (.catalog r) = .catalog (r.readableBy a) ↔
        r.IDsReadLikeNames a) ∧
    ∀ r r' : CatalogResult, r.IDsReadLikeNames a → r'.IDsReadLikeNames a →
      r.readableBy a = r'.readableBy a →
      filterACLWithAuthorizer w true (some a) (.catalog r) =
        filterACLWithAuthorizer w true (some a) (.catalog r') := by
  have hiff : ∀ r : CatalogResult,
      filterACLWithAuthorizer w true (some a) (.catalog r) = .catalog (r.readableBy a) ↔
        r.IDsReadLikeNames a := by
    intro r
    cases r with
    | nodeServices v =>
      rw [← filterNodeServices_eq_iff a w v]
      simp [filterACLWithAuthorizer]
    | nodeDump v =>
      simp [filterACLWithAuthorizer, ACLFilter.filterNodeDump_eq, CatalogResult.readableBy,
        CatalogResult.IDsReadLikeNames]
    | services v =>
      simp [filterACLWithAuthorizer, ACLFilter.filterServices, ACLFilter.filterByName_eq,
        CatalogResult.readableBy, CatalogResult.IDsReadLikeNames]
    | _ =>
      simp [filterACLWithAuthorizer, ACLFilter.filterCheckServiceNodes, ACLFilter.filterNodes,
        ACLFilter.filterCoordinates, ACLFilter.filterHealthChecks, ACLFilter.filterServiceNodes,
        ACLFilter.filterSessions, ACLFilter.retain_eq_filter,
        CatalogResult.readableBy, CatalogResult.IDsReadLikeNames]
  refine ⟨hiff, fun r r' hr hr' hsame => ?_⟩
  rw [(hiff r).mpr hr, (hiff r').mpr hr', hsame]

section Example

def keyOrder : Walks String where
  order _ l := l
  perm _ := .refl

/-- May read every node, and the services with one name. -/
def readsOnly (name : String) : Authorizer :=
  { denyAll with
    nodeRead := fun _ => true
    serviceRead := fun service => service == bytesOf name }

/-- The only service of a node. -/
def loneService (id name : String) : CatalogResult :=
  .nodeServices (some { node := { node := "db1" }
                        services := some (Table.empty.upsert (id, { id := id, service := name })) })

/-- A service that may not be read is listed, since its ID is a name that may be read, and a
service that may be read is left out. -/
theorem node_services_are_filtered_by_id :
    filterACLWithAuthorizer keyOrder true (some (readsOnly "web"))
        (.catalog (loneService "web" "billing")) = .catalog (loneService "web" "billing") ∧
      (loneService "web" "billing").readableBy (readsOnly "web") ≠ loneService "web" "billing" ∧
      filterACLWithAuthorizer keyOrder true (some (readsOnly "web"))
        (.catalog (loneService "web-1" "web")) ≠ .catalog (loneService "web-1" "web") ∧
      (loneService "web-1" "web").readableBy (readsOnly "web") = loneService "web-1" "web" := by
  decide +kernel

/-- A check of a service that may not be read is no longer listed, whatever else it holds. -/
theorem checks_of_other_services_do_not_show :
    filterACLWithAuthorizer keyOrder true (some (readsOnly "web"))
        (.catalog (.healthChecks [{ node := "db1", checkID := "c1", serviceName := "billing" },
          { node := "db1", checkID := "c2", serviceName := "web" }])) =
      filterACLWithAuthorizer keyOrder true (some (readsOnly "web"))
        (.catalog (.healthChecks [{ node := "db1", checkID := "c2", serviceName := "web" }])) := by
  refine (results_are_cut_down_to_what_may_be_read (readsOnly "web") keyOrder).2 _ _ ?_ ?_ ?_
  · trivial
  · trivial
  · decide +kernel

end Example

end OpenGyoza
