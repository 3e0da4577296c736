-- Every function of the catalog is a chain of catalog steps. Deletes succeed,
-- unless the server crashes on a check whose service is not there.
import OpenGyoza.CatalogSteps
import OpenGyoza.RowChanges

namespace OpenGyoza

open Memdb Txn Table List HealthCheck NodeService

variable [External] {idx : Nat} {p : Scope} {s s' : State}

/-! ## Index rows of services -/

theorem touchAll_run (l : List ServiceNode) (s : State) :
    Txn.forEach l (touchService idx) s = (.ok (), s.touchAll idx l) := by
  induction l generalizing s with
  | nil => rfl
  | cons svc l ih => exact ih (s.touch idx svc)

theorem updateAllServiceIndexesOfNode_eq (node : String) (s : State) :
    updateAllServiceIndexesOfNode idx node s =
      (.ok (), s.touchAll idx (servicesOfNode node s)) := touchAll_run _ s

theorem touchAll_steps {l : List ServiceNode} (hl : ∀ svc ∈ l, svc ∈ s.services.values) :
    CatalogSteps idx p s (s.touchAll idx l) := by
  induction l generalizing s with
  | nil => exact .refl
  | cons svc l ih =>
    have hfirst : CatalogStep idx p s (s.touch idx svc) := .touch (hl svc (by simp))
    exact .head hfirst (ih fun x hx => hl x (mem_cons_of_mem _ hx))

theorem serviceIndexName_ne_kind (name : String) (kind : ServiceKind) :
    (serviceIndexName name).lower ≠ (serviceKindIndexName kind).lower := by
  cases kind <;> simp [serviceIndexName, serviceKindIndexName]

theorem indexOf_touch (svc : ServiceNode) (name : String) :
    (s.touch idx svc).indexOf (serviceIndexName name) =
      if toLower name = toLower svc.serviceName then some idx
      else s.indexOf (serviceIndexName name) := by
  rw [State.touch, indexOf_withIndex, if_neg (serviceIndexName_ne_kind _ _), indexOf_withIndex]
  simp [serviceIndexName]

theorem indexOf_touchAll (l : List ServiceNode) (name : String) (s : State) :
    (s.touchAll idx l).indexOf (serviceIndexName name) =
      if ∃ svc ∈ l, toLower name = toLower svc.serviceName then some idx
      else s.indexOf (serviceIndexName name) := by
  induction l generalizing s with
  | nil => simp [State.touchAll]
  | cons svc l ih =>
    change ((s.touch idx svc).touchAll idx l).indexOf _ = _
    rw [ih, indexOf_touch]
    by_cases hl : ∃ svc ∈ l, toLower name = toLower svc.serviceName
    · simp [hl]
    · by_cases hname : toLower name = toLower svc.serviceName
      · simp [hname]
      · simp [hl]

/-! ## Deletes -/

variable {hc c : HealthCheck} {node : String} {n : Node} {svc : NodeService}
  {old : Option HealthCheck}

theorem touchServicesOfDeletedCheck_spec (hmem : hc ∈ s.checks.values) :
    wp (touchServicesOfDeletedCheck idx hc) (orCrash (Firm p.names s) fun _ s' =>
      CatalogSteps idx p s s' ∧ s' = { s with index := s'.index } ∧ hc.Touched idx s') s := by
  unfold touchServicesOfDeletedCheck Touched
  by_cases hid : hc.serviceID = ""
  · simp only [hid, ne_eq, not_true_eq_false, if_false, wp_bind, wp_wrap]
    rw [wp_of_eq (updateAllServiceIndexesOfNode_eq _ _), annotate_ok, andThen_ok,
      wp_setIndex]
    refine ⟨(), rfl, ?_, rfl, fun svc hsvc => ?_⟩
    · have hl : ∀ svc ∈ servicesOfNode hc.node s, svc ∈ s.services.values :=
        fun svc hsvc => (mem_seek.mp hsvc).1
      exact .tail (touchAll_steps hl) (.table (Or.inl rfl))
    · rw [indexOf_withIndex, if_neg (by simp [serviceIndexName]), indexOf_touchAll, if_pos]
      exact ⟨svc, hsvc, rfl⟩
  · simp only [hid, ne_eq, not_false_eq_true, if_true, wp_bind, wp_setIndex, andThen_ok,
      wp_read]
    rw [show serviceRow hc.node hc.serviceID (s.withIndex _ _) =
      serviceRow hc.node hc.serviceID s from rfl]
    cases hsvc : serviceRow hc.node hc.serviceID s with
    | none =>
      intro hfirm
      have hsome := (hfirm.checks hc hmem hid).2
      rw [hsvc] at hsome
      cases hsome
    | some svc =>
      rw [wp_setIndex]
      refine ⟨(), rfl, .single (.touchCheck hmem hid hsvc), rfl, ?_⟩
      rw [indexOf_withIndex, if_neg (serviceIndexName_ne_kind _ _), indexOf_withIndex, if_pos rfl]

theorem deleteCheckTxn_spec (h : Sound s) {node checkID : String} (hdown : p.Downs node checkID) :
    wp (deleteCheckTxn idx node checkID) (orCrash (Firm p.names s) fun _ s' => CatalogSteps idx p s s' ∧
      SameRows (s.lessCheck node checkID) s') s := by
  unfold deleteCheckTxn State.lessCheck
  rw [wp_bind, wp_read, andThen_ok]
  cases hrow : checkRow node checkID s with
  | none =>
    refine ⟨(), rfl, .refl, ?_⟩
    rw [erase_of_first_none hrow]
    rfl
  | some hc =>
    have hkey := key_of_first hrow
    obtain ⟨-, -, -, hk⟩ := checkKey_eq_ok hkey
    refine wp_bind_orCrash (touchServicesOfDeletedCheck_spec (mem_values_of_first hrow)) ?_
    rintro _ s1 ⟨hsteps, hs1, htouched⟩
    have hrow1 : s1.checks.first (rowKey node checkID) = some hc := by
      rw [hs1]
      exact hrow
    simp only [wp_bind, wp_wrap, wp_delete Tables.checks hkey hrow1, annotate_ok, andThen_ok,
      wp_setIndex]
    have hrefs := (hsteps.sound h).toSessionRefs
    refine wp_mono (deleteSessionsOfCheck_spec node checkID hrefs.withTables) ?_
    rintro _ s2 ⟨rfl, hend, hgone⟩
    have hcat := hend.sameCatalog
    have hends : SessionsEnd idx (p.Ends s1) (s1.eraseCheck idx (rowKey node checkID)) s2 :=
      hend.mono fun u hu => .inr (.inr ⟨node, checkID, hdown, hu⟩)
    refine ⟨(), rfl, hsteps.tail (.dropCheck hrow1 htouched hends ?_), ?_⟩
    · rw [sessionChecksOf, ← hk]
      exact hgone
    · rw [SameRows, State.catalog, hcat.nodes, hcat.services, hcat.checks, hs1]
      rfl

theorem deleteChecks_spec (h : Sound s) {l : List HealthCheck}
    (hdown : ∀ c ∈ l, p.Downs node c.checkID) :
    wp (Txn.forEach l fun check => deleteCheckTxn idx node check.checkID)
      (orCrash (Firm p.names s) fun _ s' => CatalogSteps idx p s s' ∧
        SameRows (s.lessChecks node l) s') s := by
  refine wp_orCrash_mono (wp_forEach_orCrash (J := fun rest s' => CatalogSteps idx p s s' ∧
    SameRows (s.lessChecks node l) (s'.lessChecks node rest) ∧ rest ⊆ l)
    ⟨.refl, rfl, Subset.refl l⟩ ?_) id fun _ _ h => ⟨h.1, h.2.1⟩
  rintro c rest s1 ⟨hsteps, hrows, hsub⟩
  refine wp_orCrash_mono (deleteCheckTxn_spec (hsteps.sound h) (hdown c (hsub mem_cons_self)))
    hsteps.firm ?_
  rintro _ s2 ⟨hsteps2, hrows2⟩
  exact ⟨hsteps.trans hsteps2, hrows.trans (hrows2.lessChecks node rest),
    fun x hx => hsub (mem_cons_of_mem c hx)⟩

theorem touchDeletedServiceName_eq (name : String) (s : State) :
    touchDeletedServiceName idx name s =
      (.ok (), if servicesNamed name s = [] then
        (s.withoutIndex (serviceIndexName name)).withIndex .serviceLastExtinction idx
        else s.withIndex (serviceIndexName name) idx) := by
  apply eq_of_wp
  unfold touchDeletedServiceName
  rw [wp_bind, wp_read, andThen_ok]
  cases hnamed : servicesNamed name s with
  | nil =>
    simp only [head?_nil, wp_bind]
    rw [wp_of_eq (dropServiceIndex_eq name s), andThen_ok, if_pos trivial]
    exact ⟨rfl, rfl⟩
  | cons svc l => simp

theorem rowKey_ne_of_lessChecks {serviceID : String} (hplain : PlainNames c.node c.serviceID)
    (hmem : c ∈ (s.lessChecks node (checksOfService node serviceID s)).checks.values)
    (hid : c.serviceID ≠ "") : rowKey c.node c.serviceID ≠ rowKey node serviceID := by
  intro hkey
  obtain ⟨k, hk⟩ := mem_values.mp hmem
  simp only [State.lessChecks, first_eraseAll] at hk
  split at hk
  · cases hk
  · rename_i hnot
    obtain ⟨hne, -, -, rfl⟩ := checkKey_eq_ok (key_of_first hk)
    have hnode : toLower node = toLower c.node := hplain node serviceID hkey.symm
    refine hnot (mem_map.mpr ⟨c, mem_seek_entryOf.mpr ⟨_, rowKey node serviceID, hk, ?_,
      prefix_append _ _⟩, ?_⟩)
    · rw [← hkey]
      simp [fieldValue, hne, hid, rowKey]
    · exact rowKey_congr hnode rfl

theorem deleteServiceTxn_spec (h : Sound s) {node serviceID : String}
    (hdown : ∀ c ∈ checksOfService node serviceID s, p.Downs node c.checkID) :
    wp (deleteServiceTxn idx node serviceID) (orCrash (Firm p.names s) fun _ s' =>
      CatalogSteps idx p s s' ∧ SameRows (s.lessService node serviceID) s') s := by
  unfold deleteServiceTxn State.lessService
  rw [wp_bind, wp_read, andThen_ok]
  cases hrow : serviceRow node serviceID s with
  | none => exact ⟨(), rfl, .refl, rfl⟩
  | some svc =>
    have hkey := key_of_first hrow
    simp only [Option.isSome_some, if_true]
    rw [wp_bind, wp_read, andThen_ok]
    refine wp_bind_orCrash (deleteChecks_spec h hdown) ?_
    rintro _ s1 ⟨hsteps, hrows⟩
    have hrow2 : (Tables.services.get (s1.withIndex (.table "checks") idx)).first
        (rowKey node serviceID) = some svc := by
      change s1.services.first _ = _
      rw [hrows.services]
      exact hrow
    simp only [wp_bind, wp_setIndex, andThen_ok, wp_wrap,
      wp_delete Tables.services hkey hrow2, annotate_ok]
    have hrun : touchDeletedServiceName idx svc.serviceName _ =
        (.ok (), (s1.withIndex (.table "checks") idx).dropService idx (rowKey node serviceID)
          svc) := touchDeletedServiceName_eq _ _
    refine (wp_of_eq hrun).mpr ?_
    have htable : CatalogStep idx p s1 (s1.withIndex (.table "checks") idx) := .table (Or.inr rfl)
    obtain ⟨t, ht⟩ := dropService_eq (s1.withIndex (.table "checks") idx) idx
      (rowKey node serviceID) svc
    refine ⟨(), rfl, (hsteps.tail htable).tail (.dropService hrow2 fun hfirm c hc hid => ?_), ?_⟩
    · have hplain := hfirm.plain _ _ (hfirm.checks c hc hid).1
      change c ∈ s1.checks.values at hc
      rw [hrows.checks] at hc
      exact rowKey_ne_of_lessChecks hplain hc hid
    · rw [ht, SameRows, State.catalog]
      change (s1.nodes, s1.services.erase _, s1.checks) = _
      rw [hrows.nodes, hrows.services, hrows.checks]
      rfl

theorem deleteCoordinate_eq {coord : Coordinate} {k : List Byte}
    (hk : coordinateKey coord = .ok k) (hrow : s.coordinates.first k = some coord) :
    deleteCoordinate idx coord s = (.ok (), s.putCoordinates idx (s.coordinates.erase k)) := by
  apply eq_of_wp
  simp [deleteCoordinate, wp_delete Tables.coordinates hk hrow, State.putCoordinates]

theorem deleteCoordinates_spec (node : String) :
    wp (Txn.forEach (coordinatesOfNode node s) (deleteCoordinate idx))
      (fun r s' => r = .ok () ∧ CatalogSteps idx p s s' ∧
        s' = { s with coordinates := s'.coordinates, index := s'.index }) s := by
  refine wp_mono (wp_forEach_erase State.coordinates (seek_perm _ _ _)
    (I := fun s' => CatalogSteps idx p s s' ∧ s' = { s with
      coordinates := s'.coordinates, index := s'.index }) ⟨.refl, rfl⟩ ?_)
    fun _ _ h => ⟨h.1, h.2.1⟩
  rintro c k s1 - hk ⟨hsteps, hs1⟩
  rw [wp_of_eq (deleteCoordinate_eq (key_of_first hk) hk)]
  refine ⟨rfl, ⟨hsteps.tail (.coordinates _), ?_⟩, rfl⟩
  rw [hs1]
  rfl

theorem deleteServices_spec (h : Sound s) (hleaves : p.leaves node) (l : List ServiceNode) :
    wp (Txn.forEach l fun svc => deleteServiceTxn idx node svc.serviceID)
      (orCrash (Firm p.names s) fun _ s' => CatalogSteps idx p s s' ∧
        SameRows (l.foldl (fun s svc => s.lessService node svc.serviceID) s) s') s := by
  let J (rest : List ServiceNode) (s' : State) : Prop := CatalogSteps idx p s s' ∧
    SameRows (l.foldl (fun s svc => s.lessService node svc.serviceID) s)
      (rest.foldl (fun s svc => s.lessService node svc.serviceID) s')
  have hstart : J l s := ⟨.refl, .refl _⟩
  refine wp_forEach_orCrash (J := J) hstart ?_
  rintro svc rest s1 ⟨hsteps, hrows⟩
  refine wp_orCrash_mono (deleteServiceTxn_spec (hsteps.sound h) fun _ _ => .inl hleaves)
    hsteps.firm ?_
  rintro _ s2 ⟨hsteps2, hrows2⟩
  exact ⟨hsteps.trans hsteps2, hrows.trans (hrows2.foldl_lessService node rest)⟩

theorem eraseNode_spec (h : Sound s) {context : String} (hleaves : p.leaves node)
    (hservices : ∀ svc ∈ s.services.values, toLower svc.node ≠ toLower node)
    (hchecks : ∀ c ∈ s.checks.values, toLower c.node ≠ toLower node) :
    wp (deleteSessions idx context ((sessionsOfNode node s).map (·.id)))
      (fun r s' => r = .ok () ∧ CatalogStep idx p s s' ∧
        SameRows { s with nodes := s.nodes.erase (toLower node) } s')
      (s.eraseNode idx (toLower node)) := by
  have hids : ∀ id ∈ (sessionsOfNode node s).map (·.id), ∃ u, uuidKey id = .ok u := by
    intro id hid
    obtain ⟨sess, hsess, rfl⟩ := mem_map.mp hid
    obtain ⟨u, hu⟩ := mem_values.mp (mem_seek.mp hsess).1
    exact ⟨u, (sessionKey_eq_ok (key_of_first hu)).1⟩
  refine wp_mono (deleteSessions_spec _ h.toSessionRefs.withTables hids) ?_
  rintro _ s' ⟨rfl, hend, hgone⟩
  have hends : SessionsEnd idx (p.Ends s) (s.eraseNode idx (toLower node)) s' :=
    hend.mono fun u hu => .inr (.inl ⟨node, hleaves, hu⟩)
  refine ⟨rfl, .dropNode hservices hchecks hends fun sess hsess heq => ?_, ?_⟩
  · have hold : sess ∈ s.sessions.values := hend.sessions hsess
    obtain ⟨m, hm⟩ := Option.isSome_iff_exists.mp (h.sessionNodes sess hold)
    obtain ⟨u, hu⟩ := mem_values.mp hsess
    have hfound : sess ∈ sessionsOfNode node s := mem_seek_field hold (name_of_nodeRow hm) heq
    rw [hgone sess.id (mem_map_of_mem hfound) u (sessionKey_eq_ok (key_of_first hu)).1] at hu
    cases hu
  · have hcat := hend.sameCatalog
    rw [SameRows, State.catalog, hcat.nodes, hcat.services, hcat.checks]
    rfl

theorem deleteNodeTxn_spec (h : Sound s) {node : String} (hleaves : p.leaves node) :
    wp (deleteNodeTxn idx node) (orCrash (Firm p.names s) fun _ s' => CatalogSteps idx p s s' ∧
      SameRows (s.lessNode node) s') s := by
  unfold deleteNodeTxn State.lessNode
  rw [wp_bind, wp_read, andThen_ok]
  cases hrow : nodeRow node s with
  | none => exact ⟨(), rfl, .refl, rfl⟩
  | some n =>
    have hkey := key_of_first hrow
    simp only [Option.isSome_some, if_true]
    rw [wp_bind, wp_read, andThen_ok, wp_bind, wp_of_eq (touchAll_run _ _), andThen_ok]
    have htouch : CatalogSteps idx p s (s.touchAll idx (servicesOfNode node s)) :=
      touchAll_steps fun svc hsvc => (mem_seek.mp hsvc).1
    have hsound := htouch.sound h
    refine wp_bind_orCrash (wp_orCrash_mono (deleteServices_spec hsound hleaves _) htouch.firm
      fun _ _ h => h) ?_
    rintro _ s1 ⟨hsteps1, hrows1⟩
    replace hsteps1 : CatalogSteps idx p s s1 := htouch.trans hsteps1
    have hsame : SameRows s (s.touchAll idx (servicesOfNode node s)) := rfl
    replace hrows1 : SameRows (s.lessServices node) s1 :=
      (hsame.foldl_lessService node (servicesOfNode node s)).trans hrows1
    rw [wp_bind, wp_read, andThen_ok]
    refine wp_bind_orCrash (wp_orCrash_mono
      (deleteChecks_spec (hsteps1.sound h) fun _ _ => .inl hleaves) hsteps1.firm fun _ _ h => h) ?_
    rintro _ s2 ⟨hsteps2, hrows2⟩
    rw [wp_bind, wp_read, andThen_ok, wp_bind]
    refine wp_mono (deleteCoordinates_spec (p := p) node) ?_
    rintro _ s3 ⟨rfl, hsteps3, hs3⟩
    have hsteps : CatalogSteps idx p s s3 := (hsteps1.trans hsteps2).trans hsteps3
    have hrows : SameRows (s1.lessChecks node (checksOfNode node s1)) s3 := by
      rw [hs3]
      exact hrows2
    have hnodes : s3.nodes = s.nodes :=
      hrows.nodes.trans (hrows1.nodes.trans (lessServices_nodes s node))
    have hrow3 : (Tables.nodes.get s3).first (toLower node) = some n := by
      rw [Tables.nodes_get, hnodes]
      exact hrow
    simp only [andThen_ok, wp_bind, wp_wrap, wp_delete Tables.nodes hkey hrow3, annotate_ok,
      wp_setIndex, wp_read]
    refine wp_mono (eraseNode_spec (hsteps.sound h) hleaves (fun svc hsvc => ?_) fun c hc => ?_) ?_
    · rw [hrows.services] at hsvc
      change svc ∈ s1.services.values at hsvc
      rw [hrows1.services] at hsvc
      exact node_of_mem_lessServices hsvc
    · rw [hrows.checks] at hc
      exact node_of_mem_lessChecks hc
    · rintro _ s4 ⟨rfl, hstep, hrows4⟩
      refine ⟨(), rfl, hsteps.tail hstep, SameRows.trans ?_ hrows4⟩
      have hall := (hrows1.lessChecks node (checksOfNode node s1)).trans hrows
      rw [SameRows, State.catalog]
      dsimp only
      rw [hnodes, hall.services, hall.checks, checksOfNode, hrows1.checks]
      rfl

/-! ## Writes -/

theorem insertNode_eq {k : String} (hk : nodeKey n = .ok k) :
    insertNode idx n s = (.ok (), s.putNode idx n) := by
  apply eq_of_wp
  unfold insertNode
  simp only [wp_bind, wp_wrap, wp_insert Tables.nodes hk, annotate_ok,
    andThen_ok, wp_setIndex]
  rw [wp_of_eq (updateAllServiceIndexesOfNode_eq _ _)]
  exact ⟨rfl, rfl⟩

theorem insertNode_error {text : String} (hk : nodeKey n = .error text) :
    insertNode idx n s = (.error (.error ("failed inserting node: " ++ text)), s) := by
  apply eq_of_wp
  simp [insertNode, wp_insert_error Tables.nodes hk]

/-- The row that a registration of a service stores. -/
def serviceEntry (idx : Nat) (node : String) (svc : NodeService) (existing : Option ServiceNode) :
    ServiceNode :=
  { svc.toServiceNode node with
    createIndex := (existing.map (·.createIndex)).getD idx
    modifyIndex := idx }

omit [External] in
theorem storedWeights_stored (svc : NodeService) :
    storedWeights { svc with weights := some svc.storedWeights } =
      svc.storedWeights := by
  have hvalid : validateWeights (some svc.storedWeights) = .ok () := by
    unfold storedWeights
    split
    · rename_i w hw hok
      rw [← hw]
      exact hok
    · rfl
  rw [storedWeights]
  simp [hvalid]

/-- What a service needs to be stored: metadata that pass, a registered node, and an ID. -/
def NodeService.Storable (svc : NodeService) (node : String) (s : State) : Prop :=
  validateMetadata svc.metadata false = .ok () ∧ (nodeRow node s).isSome ∧ svc.id ≠ ""

structure ServiceOutcome (idx : Nat) (p : Scope) (node : String) (svc : NodeService) (s : State)
    (r : Except Fault Unit) (s' : State) : Prop where
  steps : CatalogSteps idx p s s'
  result : r = .ok () ∧ svc.Storable node s ∨
    ∃ text, r = .error (.error text) ∧ ¬ svc.Storable node s
  put : r = .ok () → ServicePut node svc s s'
  kept : r ≠ .ok () → s' = s

theorem insertService_spec (old : Option ServiceNode)
    (hmeta : validateMetadata svc.metadata false = .ok ()) (hnode : (nodeRow node s).isSome)
    (hname : node ≠ "") :
    wp (insertService idx (serviceEntry idx node svc old))
      (ServiceOutcome idx p node svc s) s := by
  unfold insertService
  rw [wp_bind, wp_wrap]
  by_cases hid : svc.id = ""
  · have hkey : serviceKey (serviceEntry idx node svc old) = .error missingPrimary := by
      simp [serviceKey, serviceEntry, toServiceNode, hid]
    rw [wp_insert_error Tables.services hkey]
    exact ⟨.refl, .inr ⟨_, rfl, fun hst => hst.2.2 hid⟩, nofun, fun _ => rfl⟩
  · have hkey : serviceKey (serviceEntry idx node svc old) =
        .ok (rowKey node svc.id) := by
      simp [serviceKey, serviceEntry, toServiceNode, hid, hname]
    rw [wp_insert Tables.services hkey]
    exact ⟨.single (.putService hkey hnode ⟨hmeta, storedWeights_stored svc⟩ rfl),
      .inl ⟨rfl, hmeta, hnode, hid⟩, fun _ => ⟨rfl, rfl, puts_upsert hkey ⟨rfl, rfl⟩⟩,
      fun h => absurd rfl h⟩

theorem ensureServiceTxn_spec (node : String) (svc : NodeService) (s : State) :
    wp (ensureServiceTxn idx node svc) (ServiceOutcome idx p node svc s) s := by
  unfold ensureServiceTxn
  rw [wp_bind, wp_wrap]
  cases hmeta : validateMetadata svc.metadata false with
  | error text =>
    exact ⟨.refl, .inr ⟨_, rfl, by simp [Storable, hmeta]⟩, by simp, fun _ => rfl⟩
  | ok _ =>
    simp only [Txn.ofExcept, wp_pure, annotate_ok, andThen_ok, wp_bind, wp_read]
    cases hnode : nodeRow node s with
    | none =>
      exact ⟨.refl, .inr ⟨_, rfl, by simp [Storable, hnode]⟩, (fun h => by cases h), fun _ => rfl⟩
    | some n =>
      have hname := name_of_nodeRow hnode
      have hsome : (nodeRow node s).isSome := by rw [hnode]; rfl
      simp only [wp_bind, wp_read, andThen_ok]
      cases hrow : serviceRow node svc.id s with
      | none => exact insertService_spec none hmeta hsome hname
      | some old =>
        by_cases hsame : (svc.toServiceNode node).isSameService old = true
        · simp only [hsame, if_true]
          simp only [ServiceNode.isSameService, toServiceNode, Bool.and_eq_true,
            beq_iff_eq] at hsame
          -- The stored service has the same ID, and no service is stored without one.
          have hat : svc.At old := by
            tauto
          have hid : old.serviceID ≠ "" := (serviceKey_eq_ok (key_of_first hrow)).2.1
          exact ⟨.refl, .inl ⟨rfl, hmeta, hsome, hat.1 ▸ hid⟩,
            fun _ => ⟨rfl, rfl, ⟨old, hat, hrow⟩, fun _ _ => rfl⟩, fun h => absurd rfl h⟩
        · simp only [hsame, if_false, Bool.false_eq_true]
          exact insertService_spec (some old) hmeta hsome hname

structure Linked (idx : Nat) (p : Scope) (hc : HealthCheck) (old : Option HealthCheck) (s : State)
    (c : HealthCheck) (s' : State) : Prop where
  steps : CatalogSteps idx p s s'
  frame : s' = { s with index := s'.index }
  fields : ∃ name tags, c = { hc with serviceName := name, serviceTags := tags }
  service : c.serviceID ≠ "" → ∃ svc, serviceRow c.node c.serviceID s = some svc ∧
    c.serviceName = svc.serviceName ∧ c.serviceTags = svc.serviceTags
  touched : checkModified c old = true → c.Touched idx s'

theorem linkCheck_spec (hc : HealthCheck) (old : Option HealthCheck) (s : State) :
    wp (linkCheck idx hc old) (fun r s' => match r with
      | .error e => s' = s ∧ e = .error errMissingService ∧ hc.serviceID ≠ "" ∧
          serviceRow hc.node hc.serviceID s = none
      | .ok c => c = hc.linked s ∧ Linked idx p hc old s c s') s := by
  unfold linkCheck linked
  by_cases hid : hc.serviceID = ""
  · simp only [hid, ne_eq, not_true_eq_false, if_false, if_true]
    have hfields : ∃ name tags, hc = { hc with serviceName := name, serviceTags := tags } :=
      ⟨hc.serviceName, hc.serviceTags, rfl⟩
    by_cases hmod : checkModified hc old = true
    · simp only [hmod, if_true, wp_bind]
      rw [wp_of_eq (updateAllServiceIndexesOfNode_eq _ _), andThen_ok, wp_pure]
      have hl : ∀ svc ∈ servicesOfNode hc.node s, svc ∈ s.services.values :=
        fun svc hsvc => (mem_seek.mp hsvc).1
      refine ⟨rfl, touchAll_steps hl, rfl, hfields, fun h => absurd hid h, fun _ => ?_⟩
      simp only [Touched, hid, ne_eq, not_true_eq_false, if_false]
      intro svc hsvc
      rw [indexOf_touchAll, if_pos ⟨svc, hsvc, rfl⟩]
    · simp only [hmod, Bool.false_eq_true, if_false]
      exact ⟨rfl, .refl, rfl, hfields, fun h => absurd hid h, fun h => absurd h hmod⟩
  · simp only [hid, ne_eq, not_false_eq_true, if_true, if_false, wp_bind, wp_read,
      andThen_ok]
    cases hsvc : serviceRow hc.node hc.serviceID s with
    | none => exact ⟨rfl, rfl, trivial, rfl⟩
    | some svc =>
      by_cases hmod : checkModified { hc with
          serviceName := svc.serviceName, serviceTags := svc.serviceTags } old = true
      · simp only [hmod, if_true, wp_bind]
        refine ⟨rfl, .single (.touch (mem_values_of_first hsvc)), rfl, ⟨_, _, rfl⟩,
          fun _ => ⟨svc, hsvc, rfl, rfl⟩, fun _ => ?_⟩
        simp only [Touched, hid, ne_eq, not_false_eq_true, if_true]
        exact (indexOf_touch _ _).trans (if_pos rfl)
      · simp only [hmod, Bool.false_eq_true, if_false]
        exact ⟨rfl, .refl, rfl, ⟨_, _, rfl⟩, fun _ => ⟨svc, hsvc, rfl, rfl⟩, fun h => absurd h hmod⟩

theorem storeCheck_eq (c : HealthCheck) (s : State) :
    storeCheck idx c s =
      match checkKey c with
      | .error text => (.error (.error ("failed inserting check: " ++ text)), s)
      | .ok _ => (.ok (), s.putCheck idx c) := by
  apply eq_of_wp
  unfold storeCheck
  cases hk : checkKey c with
  | error text => simp [wp_insert_error Tables.checks hk]
  | ok k =>
    simp only [wp_bind, wp_wrap, wp_insert Tables.checks hk, annotate_ok,
      andThen_ok, wp_setIndex]
    exact ⟨trivial, rfl⟩

theorem SessionsEnd.touched {E : List Byte → Prop} (h : SessionsEnd idx E s s') (hc : c.Touched idx s) :
    c.Touched idx s' := by
  have hcat := h.sameCatalog
  have hrow (name : String) : s'.indexOf (serviceIndexName name) =
      s.indexOf (serviceIndexName name) := by
    rcases hcat.index (serviceIndexName name) with heq | ⟨hmem, -⟩
    · exact heq
    · simp [sessionIndexes, serviceIndexName] at hmem
  unfold Touched servicesOfNode at hc ⊢
  simp only [hrow, hcat.services]
  exact hc

/-- What a check needs to be stored: its node, its service if it names one, and an ID. -/
def HealthCheck.Storable (hc : HealthCheck) (s : State) : Prop :=
  (nodeRow hc.node s).isSome ∧
    (hc.serviceID ≠ "" → (serviceRow hc.node hc.serviceID s).isSome) ∧ hc.checkID ≠ ""

theorem checkKey_checkToStore
    (hc' : c.node = hc.node ∧ c.checkID = hc.checkID ∧ c.status = (checkToStore idx hc old).status)
    (hnode : hc.node ≠ "") (hid : hc.checkID ≠ "") :
    checkKey c = .ok (rowKey hc.node hc.checkID) := by
  obtain ⟨h1, h2, h3⟩ := hc'
  have hstatus : c.status ≠ "" := by
    rw [h3]
    unfold checkToStore
    split
    · simp [healthCritical]
    · assumption
  simp [checkKey, h1, h2, hnode, hid, hstatus]

theorem finalCheck_announced (hc' : c.createIndex = (checkToStore idx hc old).createIndex ∧
      c.modifyIndex = (checkToStore idx hc old).modifyIndex)
    (htouched : checkModified c old = true → c.Touched idx s) :
    (finalCheck idx c old).Announced idx old s := by
  unfold finalCheck
  by_cases hmod : checkModified c old = true
  · rw [if_pos hmod]
    exact Or.inl ⟨hmod, rfl, htouched hmod⟩
  · rw [if_neg hmod]
    cases old with
    | none => exact absurd rfl hmod
    | some o => exact Or.inr ⟨o, rfl, by simpa [checkModified] using hmod, hc'⟩

/-- The result of storing a check, in a state reached from `s`. -/
def CheckOutcome (idx : Nat) (p : Scope) (hc : HealthCheck) (s : State) (r : Except Fault Unit) (s' : State) :
    Prop :=
  CatalogSteps idx p s s' ∧
    ((r = .ok () ∧ hc.Storable s) ∨ ∃ text, r = .error (.error text) ∧ ¬ hc.Storable s)

theorem storeCheck_spec {s1 s2 : State} (hnames : hc.serviceID ≠ "" → p.names hc.node hc.serviceID)
    (hlink : Linked idx p (checkToStore idx hc old) old s c s1)
    (hlinked : c = (checkToStore idx hc old).linked s) (hold : checkRow hc.node hc.checkID s = old)
    (hnode : (nodeRow hc.node s).isSome) (hname : hc.node ≠ "") (hend : SessionsEnd idx (p.Ends s1) s1 s2)
    (hcrit : c.status = healthCritical → sessionChecksOf c.node c.checkID s2 = []) :
    wp (storeCheck idx (finalCheck idx c old)) (fun r s' => CheckOutcome idx p hc s r s' ∧
      (r = .ok () → CheckPut idx hc s s') ∧ (r ≠ .ok () → SameRows s s')) s2 := by
  have hsteps : CatalogSteps idx p s s2 := hlink.steps.tail (.sessions hend)
  have hcat := hend.sameCatalog
  have hchecks : s2.checks = s.checks := by rw [hcat.checks, hlink.frame]
  have hservices : s2.services = s.services := by rw [hcat.services, hlink.frame]
  have hnodes : s2.nodes = s.nodes := by rw [hcat.nodes, hlink.frame]
  have hrows : SameRows s s2 := by rw [SameRows, State.catalog, hnodes, hservices, hchecks]; rfl
  have hstored : finalCheck idx c old = hc.stored idx s := by rw [stored, hold, hlinked]
  have hc' : c.node = hc.node ∧ c.checkID = hc.checkID ∧ c.serviceID = hc.serviceID ∧
      c.status = (checkToStore idx hc old).status ∧
      c.createIndex = (checkToStore idx hc old).createIndex ∧
      c.modifyIndex = (checkToStore idx hc old).modifyIndex := by
    obtain ⟨name, tags, h⟩ := hlink.fields
    rw [h]
    exact ⟨rfl, rfl, rfl, rfl, rfl, rfl⟩
  obtain ⟨hcnode, hcid, hcservice, hcstatus, hcindex⟩ := hc'
  have hann : (finalCheck idx c old).Announced idx old s2 :=
    finalCheck_announced hcindex fun hmod => hend.touched (hlink.touched hmod)
  obtain ⟨m, hm⟩ := finalCheck_eq idx c old
  rw [hm] at hann hstored ⊢
  rw [wp_of_eq (storeCheck_eq _ _)]
  by_cases hid : hc.checkID = ""
  · have hkey : checkKey { c with modifyIndex := m } = .error missingPrimary :=
      if_pos (Or.inr (hcid.trans hid))
    rw [hkey]
    exact ⟨⟨hsteps, Or.inr ⟨_, rfl, fun hst => hst.2.2 hid⟩⟩, (fun h => by cases h),
      fun _ => hrows⟩
  · have hkey : checkKey { c with modifyIndex := m } = _ :=
      checkKey_checkToStore ⟨hcnode, hcid, hcstatus⟩ hname hid
    rw [hkey]
    have hservice (hsid : hc.serviceID ≠ "") : (serviceRow hc.node hc.serviceID s).isSome := by
      rw [← hcservice] at hsid ⊢
      obtain ⟨svc, hsvc, -⟩ := hlink.service hsid
      rw [← hcnode, hsvc]
      rfl
    refine ⟨⟨hsteps.tail (.putCheck hkey ?_ (fun hsid => ?_) hcrit (fun hsid => ?_) ?_),
      Or.inl ⟨rfl, hnode, hservice, hid⟩⟩, fun _ => ⟨hnodes, hservices, hservice, ?_⟩,
      fun h => absurd rfl h⟩
    · simp only [nodeRow, hnodes, hcnode]
      exact hnode
    · obtain ⟨svc, hsvc, hrest⟩ := hlink.service hsid
      refine ⟨svc, ?_, hrest⟩
      rw [serviceRow, hservices]
      exact hsvc
    · rw [hcservice] at hsid
      rw [hcnode, hcservice]
      exact hnames hsid
    · rw [checkRow] at hold
      rw [hchecks, hold]
      exact hann
    · rw [← hchecks]
      exact puts_upsert hkey hstored

/-- The check is stored as critical. -/
def HealthCheck.TurnsCritical (hc : HealthCheck) : Prop :=
  hc.status = "" ∨ hc.status = healthCritical

instance HealthCheck.decidableTurnsCritical (hc : HealthCheck) : Decidable hc.TurnsCritical :=
  inferInstanceAs (Decidable (_ ∨ _))

theorem ensureCheckTxn_spec (h : Sound s) (hc : HealthCheck)
    (hnames : hc.serviceID ≠ "" → p.names hc.node hc.serviceID)
    (hdown : hc.TurnsCritical → p.downs hc.node hc.checkID) :
    wp (ensureCheckTxn idx hc) (fun r s' => CheckOutcome idx p hc s r s' ∧
      (r = .ok () → CheckPut idx hc s s') ∧ (r ≠ .ok () → SameRows s s')) s := by
  unfold ensureCheckTxn
  simp only [wp_bind, wp_read, andThen_ok]
  generalize hold : checkRow hc.node hc.checkID s = old
  rw [show (checkToStore idx hc old).node = hc.node from rfl]
  cases hnode : nodeRow hc.node s with
  | none =>
    exact ⟨⟨.refl, Or.inr ⟨_, rfl, fun hst => by simp [HealthCheck.Storable, hnode] at hst⟩⟩,
      (fun h => by cases h), fun _ => rfl⟩
  | some n =>
    have hname := name_of_nodeRow hnode
    have hsome : (nodeRow hc.node s).isSome := by rw [hnode]; rfl
    rw [wp_bind]
    refine wp_mono (linkCheck_spec (p := p) (checkToStore idx hc old) old s) ?_
    rintro (e | c) s1 hlink
    · obtain ⟨rfl, rfl, hid, hnone⟩ := hlink
      refine ⟨⟨.refl, Or.inr ⟨_, rfl, fun hst => ?_⟩⟩, by simp, fun _ => rfl⟩
      have hrow := hst.2.1 hid
      rw [show serviceRow hc.node hc.serviceID s1 = none from hnone] at hrow
      cases hrow
    · obtain ⟨hlinked, hlink⟩ := hlink
      rw [andThen_ok]
      by_cases hstatus : c.status = healthCritical
      · rw [if_pos hstatus, wp_bind]
        have hrefs := (hlink.steps.sound h).toSessionRefs
        refine wp_mono (deleteSessionsOfCheck_spec c.node c.checkID hrefs) ?_
        rintro _ s2 ⟨rfl, hend, hgone⟩
        have hc' : c.node = hc.node ∧ c.checkID = hc.checkID ∧
            c.status = (checkToStore idx hc old).status := by
          obtain ⟨name, tags, h⟩ := hlink.fields
          rw [h]
          exact ⟨rfl, rfl, rfl⟩
        have hcrit : hc.TurnsCritical := by
          rw [hc'.2.2, checkToStore] at hstatus
          by_cases hempty : hc.status = ""
          · exact .inl hempty
          · rw [if_neg hempty] at hstatus
            exact .inr hstatus
        have hends : SessionsEnd idx (p.Ends s1) s1 s2 := hend.mono fun u hu =>
          .inr (.inr ⟨c.node, c.checkID, .inr (hc'.1 ▸ hc'.2.1 ▸ hdown hcrit), hu⟩)
        exact storeCheck_spec hnames hlink hlinked hold hsome hname hends fun _ => hgone
      · rw [if_neg hstatus]
        exact storeCheck_spec hnames hlink hlinked hold hsome hname .refl fun hcrit => absurd hcrit hstatus

/-! ## Nodes -/

/-- No other node keeps the name that `node` asks for. -/
def Node.NameFree (node : Node) (s : State) : Prop :=
  node.id = "" ∨ ∃ bytes, parseUUID node.id = .ok bytes ∧
    match sameIDNode bytes s with
    | none => nodeWithSimilarName node true s = none
    | some n => n.node = node.node ∨ nodeWithSimilarName node false s = none

theorem wp_ensureNoNodeWithSimilarNameTxn {Q : Except Fault Unit → State → Prop} (node : Node)
    (allow : Bool) (hok : nodeWithSimilarName node allow s = none → Q (.ok ()) s)
    (herr : nodeWithSimilarName node allow s ≠ none → ∀ text, Q (.error (.error text)) s) :
    wp (ensureNoNodeWithSimilarNameTxn node allow) Q s := by
  unfold ensureNoNodeWithSimilarNameTxn
  rw [wp_bind, wp_read, andThen_ok]
  cases hsim : nodeWithSimilarName node allow s with
  | none => exact hok hsim
  | some enode => exact herr (by simp [hsim]) _

theorem renameNode_spec (h : Sound s) (node : Node) (hleaves : p.leaves n.node) :
    wp (renameNode idx node n) (unlessCrash (Firm p.names s) fun r s' => CatalogSteps idx p s s' ∧
      ((r = .ok () ∧ nodeWithSimilarName node false s = none ∧ SameRows (s.lessNode n.node) s') ∨
        ∃ text, r = .error (.error text) ∧ nodeWithSimilarName node false s ≠ none ∧
          s' = s)) s := by
  unfold renameNode
  rw [wp_bind, wp_wrap]
  refine wp_ensureNoNodeWithSimilarNameTxn node false (fun hsim => ?_) fun hsim text => ?_
  · rw [annotate_ok, andThen_ok]
    refine wp_wrap_unlessCrash (deleteNodeTxn_spec h hleaves) ?_ ?_
    · rintro _ s' ⟨_, -, hsteps, hgone⟩
      exact ⟨hsteps, Or.inl ⟨rfl, hsim, hgone⟩⟩
    · rintro text s' ⟨_, ⟨⟩, -⟩
  · exact ⟨.refl, Or.inr ⟨_, rfl, hsim, rfl⟩⟩

theorem nodeWithSameID_spec (h : Sound s) {node : Node}
    (hleaves : ∀ n, node.renamed s = some n → p.leaves n.node) :
    wp (nodeWithSameID idx node) (unlessCrash (Firm p.names s) fun r s' => CatalogSteps idx p s s' ∧
      ((∃ n, r = .ok n ∧ node.NameFree s ∧ (∀ m, n = some m → m.node ≠ "") ∧
          node.OwnID (toLower node.node) s' ∧ MadeRoom (node.renamed s) s s' ∧
          ∀ m, n = some m → m.node = node.node → s'.nodes.first (toLower node.node) = some m) ∨
        ∃ text, r = .error (.error text) ∧ ¬ node.NameFree s ∧ SameRows s s')) s := by
  unfold nodeWithSameID
  by_cases hid : node.id = ""
  · rw [if_pos hid, Node.renamed, if_pos hid]
    exact ⟨.refl, Or.inl ⟨none, rfl, Or.inl hid, nofun, fun hne => absurd hid hne, rfl, nofun⟩⟩
  · rw [if_neg hid, wp_bind, wp_wrap]
    unfold getNodeIDTxn
    cases hparse : parseUUID node.id with
    | error text =>
      refine ⟨.refl, Or.inr ⟨_, rfl, ?_, rfl⟩⟩
      rintro (hempty | ⟨bytes, hbytes, -⟩)
      · exact hid hempty
      · rw [hparse] at hbytes
        cases hbytes
    | ok bytes =>
      have hrenamed : node.renamed s = (sameIDNode bytes s).filter (·.node != node.node) := by
        simp [Node.renamed, hid, hparse]
      rw [wp_read, annotate_ok, andThen_ok, hrenamed]
      have hfree : node.NameFree s ↔ match sameIDNode bytes s with
          | none => nodeWithSimilarName node true s = none
          | some n => n.node = node.node ∨ nodeWithSimilarName node false s = none := by
        simp [Node.NameFree, hid, hparse]
      change wp (match sameIDNode bytes s with | none => _ | some n => _) _ s
      cases hsame : sameIDNode bytes s with
      | none =>
        rw [hsame] at hfree
        simp only [wp_bind, wp_wrap]
        refine wp_ensureNoNodeWithSimilarNameTxn node true (fun hsim => ?_) fun hsim text => ?_
        · refine ⟨.refl, Or.inl ⟨none, rfl, hfree.mpr hsim, nofun,
            fun _ => ⟨bytes, hparse, fun m hm hu => ?_⟩, rfl, nofun⟩⟩
          exact absurd hu (find?_eq_none.mp hsame m hm)
        · exact ⟨.refl, Or.inr ⟨_, rfl, fun hf => hsim (hfree.mp hf), rfl⟩⟩
      | some n =>
        rw [hsame] at hfree
        have hn : n.node ≠ "" := by
          obtain ⟨k, hk⟩ := mem_values.mp (mem_of_find?_eq_some hsame)
          exact (nodeKey_eq_ok (key_of_first hk)).1
        have hsome : ∀ m, some n = some m → m.node ≠ "" := by
          rintro m ⟨⟩
          exact hn
        -- The IDs are unique, so no other node has this one.
        have honly : ∀ m ∈ s.nodes.values, hasUUID bytes m.id = true → m = n := fun m hm hu =>
          h.nodeIDs m hm n (mem_of_find?_eq_some hsame) bytes hu
            (find?_some (p := fun m : Node => hasUUID bytes m.id) hsame)
        obtain ⟨k, hrow⟩ := mem_values.mp (mem_of_find?_eq_some hsame)
        have hkey := key_of_first hrow
        by_cases hrename : n.node = node.node
        · have hstays : (some n).filter (·.node != node.node) = none := by
            simp [hrename]
          rw [hstays]
          simp only [hrename, ne_eq, not_true_eq_false, if_false]
          refine ⟨.refl, Or.inl ⟨some n, rfl, hfree.mpr (Or.inl hrename), hsome,
            fun _ => ⟨bytes, hparse, fun m hm hu => ?_⟩, rfl, ?_⟩⟩
          · rw [honly m hm hu, hkey, ← (nodeKey_eq_ok hkey).2, hrename]
          · rintro _ ⟨⟩ -
            rw [← hrename, (nodeKey_eq_ok hkey).2]
            exact hrow
        · have hgoes : (some n).filter (·.node != node.node) = some n := by
            simp [hrename]
          rw [hgoes]
          simp only [hrename, ne_eq, not_false_eq_true, if_true]
          have hleaves' := hleaves n (hrenamed.trans (hsame ▸ hgoes))
          refine wp_bind_unlessCrash (renameNode_spec h node hleaves') ?_ ?_
          · rintro _ s' ⟨hsteps, ⟨-, hsim, hgone⟩ | ⟨_, ⟨⟩, -⟩⟩
            refine ⟨hsteps, Or.inl ⟨some n, rfl, hfree.mpr (Or.inr hsim), hsome,
              fun _ => ⟨bytes, hparse, fun m hm hu => ?_⟩, hgone, ?_⟩⟩
            rotate_left
            · rintro _ ⟨⟩ heq
              exact absurd heq hrename
            change m ∈ s'.nodes.values at hm
            rw [hgone.nodes, lessNode_nodes, mem_values_erase] at hm
            obtain rfl := honly m hm.1 hu
            exact absurd (by rw [hkey, (nodeKey_eq_ok hkey).2]) hm.2
          · rintro _ s' ⟨hsteps, ⟨⟨⟩, -⟩ | ⟨_, ⟨⟩, hsim, rfl⟩⟩
            refine ⟨hsteps, Or.inr ⟨_, rfl, fun hf => ?_, rfl⟩⟩
            rcases hfree.mp hf with heq | hfree'
            · exact hrename heq
            · exact hsim hfree'

/-- What a node needs to be stored: a name that no other node keeps. -/
def Node.Storable (node : Node) (s : State) : Prop := node.node ≠ "" ∧ node.NameFree s

theorem Node.NameFree.optionalUUID {node : Node} (h : node.NameFree s) :
    optionalUUID "uuid" node.id = .ok () := by
  unfold OpenGyoza.optionalUUID
  split
  · rfl
  · rcases h with hid | ⟨bytes, hparse, -⟩
    · contradiction
    · rw [uuidKey_of_parseUUID hparse]

/-- The result of storing a node, in a state reached from `s`. -/
def NodeOutcome (idx : Nat) (p : Scope) (node : Node) (s : State) (r : Except Fault Unit) (s' : State) : Prop :=
  CatalogSteps idx p s s' ∧
    ((r = .ok () ∧ node.Storable s) ∨ ∃ text, r = .error (.error text) ∧ ¬ node.Storable s)

/-- A node that was not there before is `node`, and its name was free. -/
def Registers (node : Node) (s s' : State) : Prop :=
  ∀ k n, s'.nodes.first k = some n → s.nodes.first k = some n ∨
    (k = toLower node.node ∧ n.id = node.id ∧ node.NameFree s)

structure NodeRows (node : Node) (s : State) (r : Except Fault Unit) (s' : State) : Prop where
  put : r = .ok () → NodePut node s s'
  kept : node.node ≠ "" → r ≠ .ok () → SameRows s s'
  registers : Registers node s s'

theorem insertNode_spec {node : Node} {s1 : State} (hsteps : CatalogSteps idx p s s1)
    (hfree : node.NameFree s) (hown : node.OwnID (toLower node.node) s1)
    (hroom : MadeRoom (node.renamed s) s s1) (hn : n.node = node.node ∧ n.id = node.id)
    (hidx : n.modifyIndex = idx) :
    wp (insertNode idx n) (unlessCrash (Firm p.names s) fun r s' => NodeOutcome idx p node s r s' ∧
      NodeRows node s r s') s1 := by
  by_cases hname : node.node = ""
  · have hkey : nodeKey n = .error missingPrimary := by
      simp [nodeKey, hn.1, hname]
      rfl
    rw [wp_of_eq (insertNode_error hkey)]
    exact ⟨⟨hsteps, Or.inr ⟨_, rfl, fun hst => hst.1 hname⟩⟩, nofun, fun h => absurd hname h,
      fun _ _ hm => .inl (hroom.old hm)⟩
  · have hkey : nodeKey n = .ok (toLower node.node) := by
      simp [nodeKey, hn.1, hn.2, hname, hfree.optionalUUID]
    rw [wp_of_eq (insertNode_eq hkey)]
    have hid : n.OwnID (toLower node.node) s1 := by
      unfold Node.OwnID
      rw [hn.2]
      exact hown
    refine ⟨⟨hsteps.tail (.putNode hkey hid hidx), Or.inl ⟨rfl, hname, hfree⟩⟩,
      fun _ => ⟨s1, hroom, rfl, rfl, puts_upsert hkey hn.1⟩, fun _ h => absurd rfl h,
      fun j m hm => ?_⟩
    change (s1.nodes.upsert n).first j = some m at hm
    rw [first_upsert hkey] at hm
    split at hm
    · cases hm
      exact .inr ⟨by assumption, hn.2, hfree⟩
    · exact .inl (hroom.old hm)

theorem ensureNodeTxn_spec (h : Sound s) {node : Node}
    (hleaves : ∀ n, node.renamed s = some n → p.leaves n.node) :
    wp (ensureNodeTxn idx node) (unlessCrash (Firm p.names s) fun r s' => NodeOutcome idx p node s r s' ∧
      NodeRows node s r s') s := by
  unfold ensureNodeTxn
  refine wp_bind_unlessCrash (nodeWithSameID_spec h hleaves) ?_ ?_
  · rintro n s1 ⟨hsteps, ⟨_, ⟨⟩, hfree, hn, hown, hroom, hstays⟩ | ⟨_, ⟨⟩, -⟩⟩
    rw [wp_bind, wp_read, andThen_ok]
    have hnamed : ∀ m, (n <|> nodeRow node.node s1) = some m → m.node ≠ "" := by
      intro m hm
      cases n with
      | some _ => exact hn m hm
      | none => exact (nodeKey_eq_ok (key_of_first hm)).1
    cases hrow : (n <|> nodeRow node.node s1) with
    | none => exact insertNode_spec hsteps hfree hown hroom ⟨rfl, rfl⟩ rfl
    | some m =>
      unfold replaceNode
      by_cases hsame : node.isSame m = true
      · simp only [hsame, if_true]
        have hname : m.node = node.node := by
          simp only [Node.isSame, Bool.and_eq_true, beq_iff_eq] at hsame
          exact hsame.1.1.1.1.2.symm
        have hfound : s1.nodes.first (toLower node.node) = some m := by
          cases n with
          | none => exact hrow
          | some _ => exact hstays m hrow hname
        exact ⟨⟨hsteps, Or.inl ⟨rfl, hname ▸ hnamed m hrow, hfree⟩⟩,
          fun _ => ⟨s1, hroom, rfl, rfl, ⟨m, hname, hfound⟩, fun _ _ => rfl⟩,
          fun _ h => absurd rfl h, fun _ _ hm => .inl (hroom.old hm)⟩
      · simp only [hsame, Bool.false_eq_true, if_false]
        exact insertNode_spec hsteps hfree hown hroom ⟨rfl, rfl⟩ rfl
  · rintro _ s1 ⟨hsteps, ⟨_, ⟨⟩, -⟩ | ⟨_, ⟨⟩, hfree, hrows⟩⟩
    exact ⟨⟨hsteps, Or.inr ⟨_, rfl, fun hst => hfree hst.2⟩⟩, nofun, fun _ _ => hrows,
      fun _ _ hm => .inl (hrows.nodes ▸ hm)⟩

/-! ## Registrations -/

theorem HealthCheck.At.congr {row : HealthCheck} (h : hc.At s row)
    (heq : s'.services = s.services) : hc.At s' row := by
  unfold At serviceRow at *
  rw [heq]
  exact h

/-- The checks of a list are there, each of them unless a later one has its key. The other rows
of the catalog are as they were. -/
structure ChecksPut (checks : List HealthCheck) (s s' : State) : Prop where
  nodes : s'.nodes = s.nodes
  services : s'.services = s.services
  rows : ∀ k, (∃ c ∈ checks, k = rowKey c.node c.checkID ∧
      (c.serviceID ≠ "" → (serviceRow c.node c.serviceID s).isSome) ∧
      ∃ row, c.At s row ∧ s'.checks.first k = some row) ∨
    (∀ c ∈ checks, k ≠ rowKey c.node c.checkID) ∧
      s'.checks.first k = s.checks.first k

theorem ensureChecks_rows (hs : Sound s) {checks : List HealthCheck}
    (h : Txn.forEach checks (ensureCheckIfNodeMatches idx node) s = (.ok (), s')) :
    ChecksPut checks s s' := by
  induction checks generalizing s with
  | nil =>
    obtain ⟨-, rfl⟩ := pure_eq_ok.mp h
    exact ⟨rfl, rfl, fun k => .inr ⟨nofun, rfl⟩⟩
  | cons c l ih =>
    obtain ⟨⟨⟩, s1, hfirst, hrest⟩ := bind_eq_ok.mp h
    obtain ⟨-, hfirst⟩ := ite_fail_eq_ok.mp hfirst
    have hspec : wp (ensureCheckTxn idx c) _ s := ensureCheckTxn_spec (p := .any) hs c (fun _ => trivial) fun _ => trivial
    rw [wp_of_eq (wrap_eq_ok.mp hfirst)] at hspec
    have hput : CheckPut idx c s s1 := hspec.2.1 rfl
    have hih := ih (hspec.1.1.sound hs) hrest
    refine ⟨hih.nodes.trans hput.nodes, hih.services.trans hput.services, fun k => ?_⟩
    rcases hih.rows k with ⟨d, hd, hk, hsvc, row, hat, hrow⟩ | ⟨hnot, hsame⟩
    · refine .inl ⟨d, mem_cons_of_mem _ hd, hk, ?_, row, hat.congr hput.services.symm, hrow⟩
      rw [serviceRow, hput.services] at hsvc
      exact hsvc
    · by_cases hk : k = rowKey c.node c.checkID
      · obtain ⟨row, rfl, hrow⟩ := hput.checks.written
        exact .inl ⟨c, mem_cons_self, hk, hput.service, c.stored idx s, c.stored_at idx s,
          by rw [hsame, hk, hrow]⟩
      · refine .inr ⟨fun d hd => ?_, hsame.trans (hput.checks.others k hk)⟩
        rcases mem_cons.mp hd with rfl | hd
        · exact hk
        · exact hnot d hd

/-- What a registration does to the rows of the catalog. -/
structure Registered (req : RegisterRequest) (s s₁ s₂ s' : State) : Prop where
  node : (req.changesNode (nodeRow req.node s) = true ∧ NodePut req.toNode s s₁) ∨
    (req.changesNode (nodeRow req.node s) = false ∧ s₁ = s)
  service : (req.service = none ∧ s₂ = s₁) ∨
    ∃ svc, req.service = some svc ∧ ServicePut req.node svc s₁ s₂
  checks : ChecksPut req.checks s₂ s'

theorem registerService_rows (hs : Sound s) (h : registerService idx node svc s = (.ok (), s')) :
    ServicePut node svc s s' ∧ Sound s' := by
  replace h := read_then h
  by_cases hsame : (serviceRow node svc.id s).any (·.toNodeService.isSame svc) = true
  · simp only [hsame, Bool.not_true, Bool.false_eq_true, if_false] at h
    obtain ⟨-, rfl⟩ := pure_eq_ok.mp h
    obtain ⟨old, hold, hsame⟩ := (Option.any_eq_true _ _).mp hsame
    have hat : svc.At old := by
      simp only [NodeService.isSame, Bool.and_eq_true, beq_iff_eq] at hsame
      exact ⟨hsame.1.1.1.1.1.1.1.1.1.1.1, hsame.1.1.1.1.1.1.1.1.1.1.2⟩
    exact ⟨⟨rfl, rfl, ⟨old, hat, hold⟩, fun _ _ => rfl⟩, hs⟩
  · simp only [hsame, Bool.not_false, if_true] at h
    have hspec : wp (ensureServiceTxn idx node svc) _ s :=
      ensureServiceTxn_spec (p := .any) node svc s
    rw [wp_of_eq (wrap_eq_ok.mp h)] at hspec
    exact ⟨hspec.put rfl, hspec.steps.sound hs⟩

theorem ensureRegistrationTxn_spec (hs : Sound s) {req : RegisterRequest}
    (h : ensureRegistrationTxn idx req s = (.ok (), s')) :
    ∃ s1 s2, (Registers req.toNode s s1 ∧ s'.nodes = s1.nodes) ∧
      (req.check = none → Registered req s s1 s2 s') := by
  obtain ⟨⟨⟩, s1, hfirst, h⟩ := bind_eq_ok.mp h
  obtain ⟨⟨⟩, s2, hsecond, hthird⟩ := bind_eq_ok.mp h
  have hnode : ((req.changesNode (nodeRow req.node s) = true ∧ NodePut req.toNode s s1) ∨
      (req.changesNode (nodeRow req.node s) = false ∧ s1 = s)) ∧ Registers req.toNode s s1 ∧
        Sound s1 := by
    replace hfirst := read_then hfirst
    by_cases hchanges : req.changesNode (nodeRow req.node s) = true
    · simp only [hchanges, if_true] at hfirst
      have hspec : wp (ensureNodeTxn idx req.toNode) _ s :=
        ensureNodeTxn_spec (p := .any) hs fun _ _ => trivial
      rw [wp_of_eq (wrap_eq_ok.mp hfirst)] at hspec
      exact ⟨.inl ⟨hchanges, hspec.2.put rfl⟩, hspec.2.registers, hspec.1.1.sound hs⟩
    · simp only [hchanges, Bool.false_eq_true, if_false] at hfirst
      obtain ⟨-, rfl⟩ := pure_eq_ok.mp hfirst
      exact ⟨.inr ⟨by simpa using hchanges, rfl⟩, fun _ _ hn => .inl hn, hs⟩
  obtain ⟨hnode, hregisters, hs1⟩ := hnode
  have hservice : ((req.service = none ∧ s2 = s1) ∨
      ∃ svc, req.service = some svc ∧ ServicePut req.node svc s1 s2) ∧ s2.nodes = s1.nodes ∧
        Sound s2 := by
    cases hsvc : req.service with
    | none =>
      rw [hsvc] at hsecond
      obtain ⟨-, rfl⟩ := pure_eq_ok.mp hsecond
      exact ⟨.inl ⟨rfl, rfl⟩, rfl, hs1⟩
    | some svc =>
      rw [hsvc] at hsecond
      obtain ⟨⟨⟩, hput, -⟩ := return_eq_ok.mp hsecond
      obtain ⟨hrows, hsound⟩ := registerService_rows hs1 hput
      exact ⟨.inr ⟨svc, rfl, hrows⟩, hrows.nodes, hsound⟩
  obtain ⟨hservice, hnodes, hs2⟩ := hservice
  have hchecks := ensureChecks_rows hs2 hthird
  refine ⟨s1, s2, ⟨hregisters, hchecks.nodes.trans hnodes⟩, fun hcheck => ⟨hnode, hservice, ?_⟩⟩
  rw [hcheck] at hchecks
  exact hchecks

/-! ## Calls that do not crash -/

theorem ensureNodeTxn_outcome (hs : Sound s) {node : Node}
    (hcrash : NoCrash (ensureNodeTxn idx node) s) :
    wp (ensureNodeTxn idx node) (fun r s' => NodeOutcome idx .any node s r s' ∧
      NodeRows node s r s') s :=
  of_unlessCrash (ensureNodeTxn_spec hs fun _ _ => trivial) hcrash

theorem ensureCheckTxn_outcome (hs : Sound s) (hc : HealthCheck) :
    wp (ensureCheckTxn idx hc) (fun r s' => CheckOutcome idx .any hc s r s' ∧
      (r = .ok () → CheckPut idx hc s s') ∧ (r ≠ .ok () → SameRows s s')) s :=
  ensureCheckTxn_spec hs hc (fun _ => trivial) fun _ => trivial

theorem deleteNodeTxn_rows (hs : Sound s) (hcrash : NoCrash (deleteNodeTxn idx node) s) :
    SameRows (s.lessNode node) (deleteNodeTxn idx node s).2 := by
  obtain ⟨_, -, -, h⟩ := of_unlessCrash (deleteNodeTxn_spec (p := .any) hs trivial) hcrash
  exact h

theorem deleteServiceTxn_rows {id : String} (hs : Sound s)
    (hcrash : NoCrash (deleteServiceTxn idx node id) s) :
    SameRows (s.lessService node id) (deleteServiceTxn idx node id s).2 := by
  obtain ⟨_, -, -, h⟩ :=
    of_unlessCrash (deleteServiceTxn_spec (p := .any) hs fun _ _ => .inl trivial) hcrash
  exact h

theorem deleteCheckTxn_rows {id : String} (hs : Sound s)
    (hcrash : NoCrash (deleteCheckTxn idx node id) s) :
    SameRows (s.lessCheck node id) (deleteCheckTxn idx node id s).2 := by
  obtain ⟨_, -, -, h⟩ := of_unlessCrash (deleteCheckTxn_spec (p := .any) hs (.inl trivial)) hcrash
  exact h

end OpenGyoza
