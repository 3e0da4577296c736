-- The execution of prepared queries: the instances of the local datacenter that pass the filters
-- of the query, and the other datacenters that are tried when there are none.
import OpenGyoza.Catalog

namespace OpenGyoza.Execution

open List

/-! ## Filters in place -/

section InPlace

variable {α : Type}

def dropInPlace (bad : α → Bool) (blank : α) (l : List α) (n i : Nat) : List α :=
  if i < n then
    if bad (l.getD i blank) then
      dropInPlace bad blank ((l.set i (l.getD (n - 1) blank)).set (n - 1) blank) (n - 1) i
    else dropInPlace bad blank l n (i + 1)
  else l.take n
termination_by n - i

variable (bad : α → Bool) (blank : α)

theorem dropInPlace_perm (done todo rest : List α) :
    (dropInPlace bad blank (done ++ (todo ++ rest)) (done.length + todo.length) done.length).Perm
      (done ++ todo.filter (!bad ·)) := by
  rw [dropInPlace]
  match todo with
  | [] => simp
  | x :: todo =>
    have hx : (done ++ (x :: todo ++ rest)).getD done.length blank = x := by simp
    rw [if_pos (by simp), hx]
    split
    · rename_i hbad
      simp only [filter_cons, hbad, Bool.not_true, Bool.false_eq_true, if_false]
      rcases eq_nil_or_concat' todo with rfl | ⟨todo, y, rfl⟩
      · have hnext := dropInPlace_perm done [] (blank :: rest)
        simpa using hnext
      · have hlast : done.length + (x :: (todo ++ [y])).length - 1 =
            done.length + (y :: todo).length := by simp
        have hy : (done ++ (x :: (todo ++ [y]) ++ rest)).getD (done.length + (y :: todo).length)
            blank = y := by simp
        have hset : ((done ++ (x :: (todo ++ [y]) ++ rest)).set done.length y).set
            (done.length + (y :: todo).length) blank = done ++ (y :: todo ++ blank :: rest) := by
          simp
        rw [hlast, hy, hset]
        refine (dropInPlace_perm done (y :: todo) (blank :: rest)).trans (.append_left _ ?_)
        exact List.Perm.filter _ (perm_append_singleton y todo).symm
    · rename_i hgood
      have hnext := dropInPlace_perm (done ++ [x]) todo rest
      have hlen : (done ++ [x]).length + todo.length = done.length + (x :: todo).length := by
        simp only [length_append, length_cons, length_nil]
        omega
      rw [hlen] at hnext
      simpa [hgood] using hnext
termination_by todo.length

theorem dropInPlace_all (l : List α) :
    (dropInPlace bad blank l l.length 0).Perm (l.filter (!bad ·)) := by
  simpa using dropInPlace_perm bad blank [] l []

end InPlace

/-! ## The instances of the local datacenter -/

structure QueryDatacenterOptions where
  nearestN : Int := 0
  datacenters : List String := []

/-- What a query asks for. `near` orders the result later. -/
structure ServiceQuery where
  service : String
  failover : QueryDatacenterOptions := {}
  onlyPassing : Bool := false
  ignoreCheckIDs : List String := []
  tags : List String := []
  nodeMeta : GoMap String := none
  serviceMeta : GoMap String := none
  connect : Bool := false

structure PreparedQueryExecuteResponse where
  service : String := ""
  nodes : List CheckServiceNode := []
  dnsTTL : String := ""
  datacenter : String := ""
  failovers : Nat := 0

def blankNode : CheckServiceNode :=
  { node := { node := "" }, service := { id := "", service := "" }, checks := [] }

/-- A check that is not ignored fails the instance. -/
def failsHealth (onlyPassing : Bool) (ignoreCheckIDs : List String) (n : CheckServiceNode) :
    Bool :=
  n.checks.any fun c => !ignoreCheckIDs.contains c.checkID &&
    (c.status == healthCritical || (onlyPassing && c.status != healthPassing))

def filterIgnore (onlyPassing : Bool) (ignoreCheckIDs : List String)
    (nodes : List CheckServiceNode) : List CheckServiceNode :=
  dropInPlace (failsHealth onlyPassing ignoreCheckIDs) blankNode nodes nodes.length 0

def satisfiesMetaFilters (metadata filters : GoMap String) : Bool :=
  (pairsOf filters).all fun p => (pairsOf metadata).contains p

def nodeMetaFilter (filters : GoMap String) (nodes : List CheckServiceNode) :
    List CheckServiceNode := nodes.filter (satisfiesMetaFilters ·.node.metadata filters)

def serviceMetaFilter (filters : GoMap String) (nodes : List CheckServiceNode) :
    List CheckServiceNode := nodes.filter (satisfiesMetaFilters ·.service.metadata filters)

/-- A tag that starts with `!` forbids the rest of it. -/
def forbidden (tag : String) : Option String :=
  match tag.toList with
  | '!' :: rest => some (String.ofList rest)
  | _ => none

section Execute

variable [External]

/-- The tags of an instance without case. -/
def tagIndex (n : CheckServiceNode) : List String := (n.service.tags.getD []).map toLower

def failsTags (must not : List String) (n : CheckServiceNode) : Bool :=
  must.any (!(tagIndex n).contains ·) || not.any (tagIndex n).contains

def tagFilter (tags : List String) (nodes : List CheckServiceNode) : List CheckServiceNode :=
  let lower := tags.map toLower
  let must := lower.filter fun tag => (forbidden tag).isNone
  let not := lower.filterMap forbidden
  dropInPlace (failsTags must not) blankNode nodes nodes.length 0

/-- The filters, in the order of the query. -/
def ServiceQuery.filtered (query : ServiceQuery) (nodes : List CheckServiceNode) :
    List CheckServiceNode :=
  let nodes := filterIgnore query.onlyPassing query.ignoreCheckIDs nodes
  let nodes := if pairsOf query.nodeMeta ≠ [] then nodeMetaFilter query.nodeMeta nodes else nodes
  let nodes :=
    if pairsOf query.serviceMeta ≠ [] then serviceMetaFilter query.serviceMeta nodes else nodes
  if query.tags ≠ [] then tagFilter query.tags nodes else nodes

def execute (datacenter dnsTTL : String) (query : ServiceQuery) (forceConnect : Bool)
    (reply : PreparedQueryExecuteResponse) (s : State) :
    Except String PreparedQueryExecuteResponse := do
  let (_, nodes) ← checkServiceNodes query.service (query.connect || forceConnect) s
  return { reply with
    service := query.service, nodes := query.filtered nodes, dnsTTL := dnsTTL
    datacenter := datacenter }

/-- What the query asks of an instance. -/
structure Wanted (query : ServiceQuery) (n : CheckServiceNode) : Prop where
  healthy : ∀ c ∈ n.checks, c.checkID ∉ query.ignoreCheckIDs →
    c.status ≠ healthCritical ∧ (query.onlyPassing → c.status = healthPassing)
  nodeMeta : ∀ p ∈ pairsOf query.nodeMeta, p ∈ pairsOf n.node.metadata
  serviceMeta : ∀ p ∈ pairsOf query.serviceMeta, p ∈ pairsOf n.service.metadata
  must : ∀ tag ∈ query.tags, forbidden (toLower tag) = none → toLower tag ∈ tagIndex n
  not : ∀ tag ∈ query.tags, ∀ t, forbidden (toLower tag) = some t → t ∉ tagIndex n

/-- The filters of the query, one after another. -/
def wanted (query : ServiceQuery) (n : CheckServiceNode) : Bool :=
  !failsHealth query.onlyPassing query.ignoreCheckIDs n &&
    satisfiesMetaFilters n.node.metadata query.nodeMeta &&
    satisfiesMetaFilters n.service.metadata query.serviceMeta &&
    !failsTags ((query.tags.map toLower).filter fun tag => (forbidden tag).isNone)
      ((query.tags.map toLower).filterMap forbidden) n

theorem failsTags_eq_false {tags : List String} {n : CheckServiceNode} :
    failsTags ((tags.map toLower).filter fun tag => (forbidden tag).isNone)
        ((tags.map toLower).filterMap forbidden) n = false ↔
      (∀ tag ∈ tags, forbidden (toLower tag) = none → toLower tag ∈ tagIndex n) ∧
      ∀ tag ∈ tags, ∀ t, forbidden (toLower tag) = some t → t ∉ tagIndex n := by
  simp [failsTags]
  grind

theorem wanted_iff {query : ServiceQuery} {n : CheckServiceNode} :
    wanted query n = true ↔ Wanted query n := by
  simp only [wanted, Bool.and_eq_true, Bool.not_eq_true', failsHealth,
    failsTags_eq_false, satisfiesMetaFilters, all_eq_true, contains_iff_mem]
  exact ⟨fun ⟨⟨⟨h, hn⟩, hs⟩, hm, ht⟩ => ⟨by simpa using h, hn, hs, hm, ht⟩,
    fun h => ⟨⟨⟨by simpa using h.healthy, h.nodeMeta⟩, h.serviceMeta⟩, h.must, h.not⟩⟩

omit [External] in
theorem filter_meta (filters : GoMap String) (metadata : CheckServiceNode → GoMap String)
    (l : List CheckServiceNode) :
    (if pairsOf filters ≠ [] then l.filter fun n => satisfiesMetaFilters (metadata n) filters
      else l) = l.filter fun n => satisfiesMetaFilters (metadata n) filters := by
  split
  · rfl
  · simp_all [satisfiesMetaFilters]

theorem filters_perm (query : ServiceQuery) (nodes : List CheckServiceNode) :
    (query.filtered nodes).Perm (nodes.filter (wanted query)) := by
  have htags : ∀ l, (if query.tags ≠ [] then tagFilter query.tags l else l).Perm (l.filter
      (!failsTags ((query.tags.map toLower).filter fun tag => (forbidden tag).isNone)
        ((query.tags.map toLower).filterMap forbidden) ·)) := by
    intro l
    split
    · exact dropInPlace_all _ blankNode l
    · simp_all [failsTags]
  have hhealth :=
    dropInPlace_all (failsHealth query.onlyPassing query.ignoreCheckIDs) blankNode nodes
  unfold ServiceQuery.filtered
  dsimp only [nodeMetaFilter, serviceMetaFilter]
  rw [filter_meta _ (·.node.metadata), filter_meta _ (·.service.metadata)]
  refine (htags _).trans ((((hhealth.filter _).filter _).filter _).trans ?_)
  simp only [filter_filter]
  rw [filter_congr fun n _ => ?_]
  unfold wanted
  ac_rfl

end Execute

/-! ## The other datacenters -/

def failoverDatacenters (nearest : List String) (failover : QueryDatacenterOptions) :
    List String :=
  let first := if 0 < failover.nearestN then nearest.take failover.nearestN.toNat else []
  failover.datacenters.foldl (fun dcs dc =>
    if dc ∉ nearest then dcs else if dc ∉ first then dcs ++ [dc] else dcs) first

/-- What the other datacenters answer: the call is numbered. A call that fails leaves the reply
as it was. -/
abbrev ForwardDC := Nat → String → Except String PreparedQueryExecuteResponse

/-- The datacenters that were contacted are returned with the reply. -/
def tryDatacenters (forward : ForwardDC) : List String → Nat → PreparedQueryExecuteResponse →
    List String × PreparedQueryExecuteResponse
  | [], failovers, reply => ([], { reply with failovers := failovers })
  | dc :: dcs, failovers, reply =>
    match forward failovers dc with
    | .error _ =>
      let rest := tryDatacenters forward dcs (failovers + 1) { reply with nodes := [] }
      (dc :: rest.1, rest.2)
    | .ok answer =>
      if answer.nodes ≠ [] then ([dc], { answer with failovers := failovers + 1 })
      else
        let rest := tryDatacenters forward dcs (failovers + 1) answer
        (dc :: rest.1, rest.2)

def queryFailover (nearest : Except String (List String)) (forward : ForwardDC)
    (failover : QueryDatacenterOptions) (reply : PreparedQueryExecuteResponse) :
    Except String (List String × PreparedQueryExecuteResponse) := do
  let nearest ← nearest
  return tryDatacenters forward (failoverDatacenters nearest failover) 0 reply

/-- The order of the datacenters: the first ones by distance, then the known ones of the list that
are not among them. -/
def failoverOrder (nearest : List String) (failover : QueryDatacenterOptions) : List String :=
  let first := nearest.take failover.nearestN.toNat
  first ++ failover.datacenters.filter fun dc => dc ∈ nearest ∧ dc ∉ first

theorem failoverDatacenters_eq (nearest : List String) (failover : QueryDatacenterOptions) :
    failoverDatacenters nearest failover = failoverOrder nearest failover := by
  have hfirst : (if 0 < failover.nearestN then nearest.take failover.nearestN.toNat else []) =
      nearest.take failover.nearestN.toNat := by
    split
    · rfl
    · rw [Int.toNat_of_nonpos (by omega), take_zero]
  have hfold : ∀ first l dcs : List String, l.foldl (fun dcs dc =>
      if dc ∉ nearest then dcs else if dc ∉ first then dcs ++ [dc] else dcs) dcs =
      dcs ++ l.filter fun dc => dc ∈ nearest ∧ dc ∉ first := by
    intro first l
    induction l with
    | nil => simp
    | cons dc l ih =>
      intro dcs
      rw [foldl_cons, ih]
      by_cases hknown : dc ∈ nearest <;> by_cases hdc : dc ∈ first <;> simp [hknown, hdc]
  unfold failoverDatacenters failoverOrder
  rw [hfirst, hfold]

/-- Whether the call to the datacenter at a place of the order was answered with nodes. -/
def Answered (forward : ForwardDC) (dcs : List String) (k : Nat)
    (answer : PreparedQueryExecuteResponse) : Prop :=
  ∃ dc, dcs[k]? = some dc ∧ forward k dc = .ok answer ∧ answer.nodes ≠ []

structure Tries (forward : ForwardDC) (dcs contacted : List String)
    (reply : PreparedQueryExecuteResponse) : Prop where
  order : contacted <+: dcs
  count : reply.failovers = contacted.length
  before : ∀ k answer, k + 1 < contacted.length → ¬ Answered forward dcs k answer
  last : (∃ k answer, contacted.length = k + 1 ∧ Answered forward dcs k answer ∧
      reply = { answer with failovers := k + 1 }) ∨
    contacted = dcs ∧ reply.nodes = [] ∧ ∀ k answer, ¬ Answered forward dcs k answer

/-- No datacenter is contacted twice. -/
structure FailsOver (forward : ForwardDC) (dcs contacted : List String)
    (reply : PreparedQueryExecuteResponse) : Prop extends Tries forward dcs contacted reply where
  once : contacted.Nodup

theorem tryDatacenters_tries (forward : ForwardDC) (done todo : List String)
    (reply : PreparedQueryExecuteResponse) (hreply : reply.nodes = [])
    (hdone : ∀ k answer, k < done.length → ¬ Answered forward (done ++ todo) k answer) :
    Tries forward (done ++ todo) (done ++ (tryDatacenters forward todo done.length reply).1)
      (tryDatacenters forward todo done.length reply).2 := by
  induction todo generalizing done reply with
  | nil =>
    simp only [append_nil] at hdone ⊢
    have hnone : ∀ k answer, ¬ Answered forward done k answer := by
      rintro k answer ⟨dc, hdc, hanswer⟩
      exact hdone k answer (List.getElem?_eq_some_iff.mp hdc).1 ⟨dc, hdc, hanswer⟩
    simp only [tryDatacenters, append_nil]
    exact ⟨prefix_refl _, rfl, fun k answer _ => hnone k answer, .inr ⟨rfl, hreply, hnone⟩⟩
  | cons dc todo ih =>
    have hdc : (done ++ dc :: todo)[done.length]? = some dc := by simp
    -- a datacenter without nodes joins those that are done
    have hnext (reply : PreparedQueryExecuteResponse) (hreply : reply.nodes = [])
        (hfailed : ∀ answer, forward done.length dc = .ok answer → answer.nodes = []) :
        let rest := tryDatacenters forward todo (done.length + 1) reply
        Tries forward (done ++ dc :: todo) (done ++ dc :: rest.1) rest.2 := by
      have htries := ih (done ++ [dc]) reply hreply
      simp only [append_assoc, singleton_append, length_append, length_cons,
        length_nil, Nat.zero_add] at htries
      refine htries fun k answer hk => ?_
      rcases Nat.lt_succ_iff_lt_or_eq.mp hk with hk | rfl
      · exact hdone k answer hk
      · rintro ⟨dc', hdc', hok, hnodes⟩
        cases hdc.symm.trans hdc'
        exact hnodes (hfailed answer hok)
    rw [tryDatacenters]
    cases hcall : forward done.length dc with
    | error e => exact hnext _ rfl fun answer h => by cases hcall.symm.trans h
    | ok answer =>
      dsimp only
      split
      · rename_i hnodes
        refine ⟨by simp, by simp, fun k answer hk => hdone k answer (by simpa using hk), .inl ?_⟩
        exact ⟨done.length, answer, by simp, ⟨dc, hdc, hcall, hnodes⟩, rfl⟩
      · rename_i hnodes
        exact hnext answer (not_not.mp hnodes) fun other h => by
          cases hcall.symm.trans h
          exact not_not.mp hnodes

/-- The datacenters are tried as they should whatever they answer exactly when none is twice among
the first ones by distance, and no known one beyond them is listed twice. -/
theorem failover_tries_once_iff (nearest : List String) (failover : QueryDatacenterOptions) :
    (∀ forward reply, reply.nodes = [] → ∃ contacted left,
      queryFailover (.ok nearest) forward failover reply = .ok (contacted, left) ∧
        FailsOver forward (failoverOrder nearest failover) contacted left) ↔
      (nearest.take failover.nearestN.toNat).Nodup ∧
        (failover.datacenters.filter fun dc =>
          dc ∈ nearest ∧ dc ∉ nearest.take failover.nearestN.toNat).Nodup := by
  have htries (forward : ForwardDC) (reply : PreparedQueryExecuteResponse)
      (hreply : reply.nodes = []) :=
    tryDatacenters_tries forward [] (failoverDatacenters nearest failover) reply hreply
      (fun _ _ h => absurd h (Nat.not_lt_zero _))
  have hnodup : (failoverOrder nearest failover).Nodup ↔ _ := nodup_append
  constructor
  · intro h
    -- when all calls fail, all datacenters are contacted
    obtain ⟨contacted, left, hrun, hover⟩ := h (fun _ _ => .error "") {} rfl
    rcases hover.last with ⟨k, answer, -, ⟨dc, -, hok, -⟩, -⟩ | ⟨hall, -⟩
    · cases hok
    · obtain ⟨hfirst, hlisted, -⟩ := hnodup.mp (hall ▸ hover.once)
      exact ⟨hfirst, hlisted⟩
  · rintro ⟨hfirst, hlisted⟩ forward reply hreply
    have hover := htries forward reply hreply
    rw [failoverDatacenters_eq] at hover
    refine ⟨_, _, rfl, ?_⟩
    rw [failoverDatacenters_eq]
    refine ⟨hover, hover.order.sublist.nodup (hnodup.mpr ⟨hfirst, hlisted, ?_⟩)⟩
    intro a ha b hb hab
    subst hab
    simp [ha] at hb

/-- A datacenter that is listed twice is contacted twice. -/
theorem a_datacenter_is_tried_twice :
    ∃ left, queryFailover (.ok ["dc2"]) (fun _ _ => .error "no route")
      { datacenters := ["dc2", "dc2"] } {} = .ok (["dc2", "dc2"], left) :=
  ⟨_, rfl⟩

end OpenGyoza.Execution
